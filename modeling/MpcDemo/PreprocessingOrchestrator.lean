import MpcDemo.NodePrograms
import MpcDemo.Serialization

/-!
# The preprocessing of a node

`PreprocessingOrchestrator::run`: the client commits to its nonces and the servers store the
commitments.
-/

namespace MpcDemo.PreprocessingOrchestrator
open ByteStrings CosignerTypes FallibleState Persistencies NodeState Processes Serialization
open NodePrograms

def preprocessRound (requestId : ByteString) : ByteString := ascii "preprocess_" ++ requestId

variable (host : Host)

def runClient (requestId : ByteString) : NodeProg Unit := do
  let RCommitments ← Prog.lift (AsymmetricEddsaCosignerClient.startSignaturePreprocessing
    host.client tenantId configKeyId requestId 0 preprocessingCount preprocessingCount playersIds)
  broadcast (preprocessRound requestId) (serializeCommitments RCommitments)

def runServer (requestId : ByteString) : NodeProg Unit := do
  let clientCommitData ← awaitDataCustomCount (preprocessRound requestId) 1
  -- `client_commit_data[1]` is empty when there is no such entry
  let clientCommitments ← Prog.lift (ofExcept
    (deserializeCommitments (clientCommitData.getD 1 [])))
  Prog.lift (AsymmetricEddsaCosignerServer.storePresigningData host.server configKeyId requestId 0
    preprocessingCount preprocessingCount playersIds 1 clientCommitments)

def run (myId : ℕ) (requestId : ByteString) : NodeProg Unit :=
  if myId = 1 then runClient host requestId else runServer host requestId

end MpcDemo.PreprocessingOrchestrator
