import MpcDemo.FallibleState
import MpcDemo.ByteStrings
import MpcDemo.Ed25519Algebra
import MpcDemo.CosignerTypes
import MpcDemo.Persistencies
import MpcDemo.AsymmetricEddsaCosigner
import MpcDemo.AsymmetricEddsaCosignerServer
import MpcDemo.AsymmetricEddsaCosignerClient
import MpcDemo.NodeState
import MpcDemo.ServerOperationLaws
import MpcDemo.CallHistories
import MpcDemo.ServerCalls
import MpcDemo.ServerBlockLaws
import MpcDemo.TransactionHistories
import MpcDemo.ServerNonceUse
import MpcDemo.CommitmentFixing
import MpcDemo.AggregationOrder
import MpcDemo.Relay
import MpcDemo.RelayBarrier
import MpcDemo.HexText
import MpcDemo.NetworkManager
import MpcDemo.Serialization
import MpcDemo.Processes
import MpcDemo.NodePrograms
import MpcDemo.SetupService
import MpcDemo.SetupServiceLaws
import MpcDemo.KeygenOrchestrator
import MpcDemo.PreprocessingOrchestrator
import MpcDemo.SigningOrchestrator
import MpcDemo.NodeMain
import MpcDemo.ClientOperationLaws
import MpcDemo.KeygenBinding
import MpcDemo.NodeTriples
import MpcDemo.ClientNonceUse
import MpcDemo.FinalSignatureValidity
import MpcDemo.RelayProtocols
import MpcDemo.DecoderBounds
import MpcDemo.BlockNonces
import MpcDemo.RoundAgreement
import MpcDemo.AnswerParsing
import MpcDemo.OutcomeRefinement
import MpcDemo.PreprocessingContract
import MpcDemo.KeyStoreContract
import MpcDemo.Utf8Text
import MpcDemo.UrlQueries
import MpcDemo.JsonScanner
import MpcDemo.JsonScannerLaws
import MpcDemo.RoundIds
import MpcDemo.TotalRuns
import MpcDemo.DerivationTweaks
import MpcDemo.ShareSums
import MpcDemo.InterfaceContracts
import MpcDemo.ContractClient
import MpcDemo.ContractServer
import MpcDemo.PlayerTables
import MpcDemo.OfflineSessions
import MpcDemo.ReferencePersistencies
import MpcDemo.SessionSignatures
import MpcDemo.ProcessFrames
import MpcDemo.ThreeNodes
import MpcDemo.NodeFrames
import MpcDemo.NodeRuns
import MpcDemo.BarrierBatches
import MpcDemo.KeygenDecoders
import MpcDemo.AbortedSessions
import MpcDemo.CurlHandles
import MpcDemo.Mailboxes
import MpcDemo.KeygenAgreement
import MpcDemo.CommitBeforeReveal
import MpcDemo.EndToEndSigning
import MpcDemo.Schedules
import MpcDemo.SigningSchedules
import MpcDemo.RequestSubstitution
import MpcDemo.HttpRelay
import MpcDemo.StoredDraws
import MpcDemo.PlayerRounds
import MpcDemo.KeySetup
import MpcDemo.KeySetupLaws
import MpcDemo.KeySetupSteps
import MpcDemo.KeySetupSessions
import MpcDemo.AddedUsers
import MpcDemo.SetupBinding
import MpcDemo.SetupCalls
import MpcDemo.SetupAnswers
import MpcDemo.SetupAgreement
import MpcDemo.GroupScalars
import MpcDemo.KeyRefresh
import MpcDemo.RefreshedShares
import MpcDemo.OnlineSigning
import MpcDemo.OnlineCalls
import MpcDemo.OnlineNonceUse
import MpcDemo.OnlineSignatures
