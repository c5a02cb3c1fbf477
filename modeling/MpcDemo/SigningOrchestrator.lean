import MpcDemo.NodePrograms
import MpcDemo.Serialization

/-!
# The signing flow of a node

`SigningOrchestrator::run` with the flows of the client and of the servers. A flow is cut into
the steps that the source's comments number. What a later statement refers to is written to the
journal where it happens.
-/

namespace MpcDemo.SigningOrchestrator
open ByteStrings Ed25519Algebra CosignerTypes FallibleState Persistencies NodeState Processes
open Serialization NodePrograms

def signRound (suffix : String) (txid : ByteString) : ByteString :=
  ascii "sign_" ++ txid ++ ascii suffix

def readyRound : ByteString → ByteString := signRound "_ready"

def serverCommitRound : ByteString → ByteString := signRound "_server_commit"

def serverDecommitRRound : ByteString → ByteString := signRound "_server_decommit_r"

def serverRRound : ByteString → ByteString := signRound "_server_r"

def r2Round : ByteString → ByteString := signRound "_r2"

def r2SigsRound : ByteString → ByteString := signRound "_r2_sigs"

def r3Round : ByteString → ByteString := signRound "_r3"

/-- One block with an empty path under an empty chaincode. -/
def signData (message : ByteString) : SigningData := ⟨zeroBytes 32, [⟨message, []⟩]⟩

def playersStr : Finset ByteString := {ascii "1", ascii "2", ascii "3"}

def metadataJson : ByteString := ascii "\x7b\x7d"

variable (host : Host) (myId : ℕ) (txid message : ByteString)

section Client

/-- Steps 1 to 4: the servers' commitments, which nothing looks at, and their points. -/
def awaitServerRs : NodeProg (PlayerMap RsAndCommitments) := do
  let serverCommitsData ← awaitDataCustomCount (serverCommitRound txid) 2
  let _ ← Prog.lift (ofExcept (decodeEntries deserializeCommitments (fun _ => true)
    serverCommitsData))
  let serverRsData ← awaitDataCustomCount (serverRRound txid) 2
  Prog.lift (ofExcept (decodeEntries deserializeRsAndCommitments (fun pid => pid ≠ myId)
    serverRsData))

/-- Step 5. -/
def sendPartialSigs (serverRs : PlayerMap RsAndCommitments) : NodeProg Unit := do
  let partialSigs ← Prog.lift (AsymmetricEddsaCosignerClient.eddsaSignOffline host.client
    configKeyId txid (signData message) metadataJson playersStr playersIds 0 serverRs)
  Prog.lift (note (.broadcastShares txid (partialSigs.map (·.draw))))
  broadcast (r2Round txid) (serializeEddsaSignatures (partialSigs.map (·.sig)))

/-- The first entry of the answer and the first signature in it. -/
def firstSignature (r3Data : PlayerMap ByteString) : Except Failure EddsaSignature :=
  match r3Data.toList with
  | [] => .error .undefinedBehaviour
  | entry :: _ => do
    let finalSigs ← deserializeEddsaSignatures entry.2
    match finalSigs with
    | [] => .error .undefinedBehaviour
    | sig :: _ => .ok sig

def printFinalSignature : NodeProg Unit := do
  let r3Data ← awaitDataCustomCount (r3Round txid) 2
  let sig ← Prog.lift (ofExcept (firstSignature r3Data))
  Prog.lift (note (.signatureSuccess txid message sig))

def runClientSigning : NodeProg Unit := do
  let serverRs ← awaitServerRs myId txid
  sendPartialSigs host txid message serverRs
  printFinalSignature txid message

end Client

section Server

/-- Steps 1 and 2. -/
def sendRCommitments : NodeProg (List EddsaCommitment) := do
  let out ← Prog.lift (AsymmetricEddsaCosignerServer.eddsaSignOffline host.server configKeyId txid
    (signData message) metadataJson playersStr playersIds 0)
  broadcast (serverCommitRound txid) (serializeCommitments out.RCommitments)
  pure out.RCommitments

/-- The entries of the other servers. -/
def otherServer (pid : ℕ) : Bool := pid ≠ myId ∧ pid ≠ 1

/-- Steps 3 and 4. -/
def decommitRs (serverRCommitments : List EddsaCommitment) :
    NodeProg (List EllipticCurvePoint) := do
  let allServerCommits ← awaitDataCustomCount (serverCommitRound txid) 2
  let others ← Prog.lift (ofExcept (decodeEntries deserializeCommitments (otherServer myId)
    allServerCommits))
  let serverCommitments := others.insert myId serverRCommitments
  let decommittedRs ← Prog.lift (AsymmetricEddsaCosignerServer.decommitR host.server txid
    serverCommitments)
  Prog.lift (note (.decommittedR txid serverCommitments))
  pure decommittedRs

/-- Steps 4.5 to 7, up to the points for the client. -/
def exchangeRs (decommittedRs : List EllipticCurvePoint) : NodeProg Unit := do
  broadcast (serverDecommitRRound txid) (serializeEllipticCurvePoints decommittedRs)
  let allServerRsData ← awaitDataCustomCount (serverDecommitRRound txid) 2
  let others ← Prog.lift (ofExcept (decodeEntries deserializeEllipticCurvePoints (otherServer myId)
    allServerRsData))
  let allRs := others.insert myId decommittedRs
  let out ← Prog.lift (AsymmetricEddsaCosignerServer.broadcastR host.server txid allRs)
  broadcast (serverRRound txid) (serializeRsAndCommitments out.Rs)

/-- Step 7, with the client's shares. -/
def processPartialSigs : NodeProg AsymmetricEddsaCosignerServer.BroadcastSiOutput := do
  let r2Data ← awaitDataCustomCount (r2Round txid) 1
  let clientPartialSigs ← Prog.lift (ofExcept (deserializeEddsaSignatures (r2Data.getD 1 [])))
  Prog.lift (AsymmetricEddsaCosignerServer.broadcastSi host.server txid 1 mpcProtocolVersion
    clientPartialSigs)

/-- The further round in which the servers exchange their signatures. -/
def exchangeSigs (sigs : List EddsaSignature) : NodeProg (List EddsaSignature) := do
  broadcast (r2SigsRound txid) (serializeEddsaSignatures sigs)
  let sigsData ← awaitDataCustomCount (r2SigsRound txid) 2
  let allSigs ← Prog.lift (ofExcept (decodeEntries deserializeEddsaSignatures (fun _ => true)
    sigsData))
  Prog.lift (AsymmetricEddsaCosignerServer.getEddsaSignature host.server txid allSigs)

def sendFinalSigs (sigs : List EddsaSignature) : NodeProg Unit := do
  Prog.lift (note (.finalSignatures txid sigs))
  broadcast (r3Round txid) (serializeEddsaSignatures sigs)

def runServerSigning : NodeProg Unit := do
  let serverRCommitments ← sendRCommitments host txid message
  let decommittedRs ← decommitRs host myId txid serverRCommitments
  exchangeRs host myId txid decommittedRs
  let out ← processPartialSigs host txid
  let sigs ← if out.finalSignature then pure out.sigs else exchangeSigs host txid out.sigs
  sendFinalSigs txid sigs

end Server

def flow : NodeProg Unit :=
  if myId = 1 then runClientSigning host myId txid message
  else runServerSigning host myId txid message

/-- What the two handlers catch: every exception, but nothing that is not one. -/
def signingFailed : Failure → Option (NodeProg Unit)
  | .undefinedBehaviour => none
  | failure => some (Prog.lift (note (.signingFailed txid failure)))

def demoMessage : ByteString := ascii "Hello from distributed MPC!"

/-- Servers look for preprocessed data before they start. -/
def verifyPreprocessedData : EStateM Failure Node Unit := do
  let loadedCommit ← inspect fun s => .ok (s.server.loadPreprocessedData configKeyId 0)
  require (loadedCommit ≠ zeroBytes 32) (.cosignerException .invalidPresigningIndex)

/-- `started` tells whether the user typed `start` at the prompt. -/
def run (started : Bool) : NodeProg Unit :=
  if started then do
    broadcast (readyRound txid) (ascii "ready")
    let _ ← awaitData (readyRound txid)
    if myId ≠ 1 then Prog.lift verifyPreprocessedData
    (flow host myId txid demoMessage).catching (signingFailed txid)
  else pure ()

end MpcDemo.SigningOrchestrator
