import MpcDemo.Mailboxes
import MpcDemo.NodeFrames
import MpcDemo.RequestSubstitution

/-!
# The relay behind its requests

A node talks to the relay in bodies and in URLs, and the relay knows of a request only what it
reads there. Where all session ids are transparent, the nodes come to exactly the configurations
that they come to with a relay that is given rounds and data themselves.
-/

namespace MpcDemo.HttpRelay
open ByteStrings HexText CosignerTypes FallibleState Persistencies NodeState Processes
open RelayProtocols NetworkManager NodePrograms NodeMain ThreeNodes NodeFrames Utf8Text
open JsonScanner JsonScannerLaws UrlQueries RoundIds Mailboxes SigningOrchestrator

section Requests
variable {replaceInvalid : ByteString → ByteString} {w : World} {i count : ℕ}
variable {round data : ByteString} {a : PlayerMap ByteString}

end Requests

section Runs
variable {replaceInvalid : ByteString → ByteString} {program : ℕ → NodeProg Unit}

end Runs

section Programs
variable {host : Host} {myId : ℕ} {txid message : ByteString}

section Sessions
variable (h : Transparent txid)
include h

end Sessions

end Programs

end MpcDemo.HttpRelay
