import MpcDemo.KeygenOrchestrator
import MpcDemo.PreprocessingOrchestrator
import MpcDemo.SigningOrchestrator

/-!
# The main program of a node

Key generation once, then one session after another. A session comes from a turn of the menu,
where the user may cancel the signing, or runs the preprocessing and the signing flow directly.
-/

namespace MpcDemo.NodeMain
open ByteStrings CosignerTypes Persistencies NodeState Processes NodePrograms SigningOrchestrator

inductive Session
  | menu (txid : ByteString) (started : Bool)
  | direct (txid message : ByteString)

namespace Session

def txid : Session → ByteString
  | menu txid _ => txid
  | direct txid _ => txid

def message : Session → ByteString
  | menu .. => demoMessage
  | direct _ message => message

end Session

variable (host : Host) (myId : ℕ)

def signing : Session → NodeProg Unit
  | .menu txid started => SigningOrchestrator.run host myId txid started
  | .direct txid message => flow host myId txid message

def runSession (session : Session) : NodeProg Unit := do
  PreprocessingOrchestrator.run host myId session.txid
  signing host myId session

def runSessions : List Session → NodeProg Unit
  | [] => pure ()
  | session :: sessions => do
    runSession host myId session
    runSessions sessions

/-- The loop of `main` never ends; a run has made so many turns. -/
def main (sessions : List Session) : NodeProg Unit := do
  KeygenOrchestrator.run host
  runSessions host myId sessions

end MpcDemo.NodeMain
