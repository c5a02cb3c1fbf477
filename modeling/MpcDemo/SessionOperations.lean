import MpcDemo.ClientOperationLaws
import MpcDemo.NodeRuns
import MpcDemo.SigningRules

/-!
# The operations of an honest session

What each operation of a session returns on a node that holds its share of the key, when what it
is given comes from parties that follow the protocol.
-/

namespace MpcDemo.SessionOperations
open ByteStrings Ed25519Algebra CosignerTypes AsymmetricEddsaCosigner FallibleState Persistencies
open NodeState Serialization NodePrograms SigningOrchestrator ServerOperationLaws ServerBlockLaws
open ShareSums
open PlayerTables ThreeNodes NodeRuns SigningRules

variable {D : Deployment} {i : ℕ} {s t : Node} {txid message : ByteString}
variable {X : ℕ → D.algebra.Point} {key : Ed25519Scalar}

section Server

/-- The point of a nonce. -/
def noncePoint (D : Deployment) (k : DrawnScalar) : D.algebra.Point :=
  beValue k.value.val • D.algebra.base

/-- The record of a block whose point is known. -/
def sessionBlock (D : Deployment) (message : ByteString) (k : DrawnScalar)
    (R : D.algebra.Point) : AsymmetricEddsaSignatureData :=
  ⟨⟨k.draw, swapBytes k.value⟩, Ed25519Point.generic (D.algebra.encode R), [], message, 0⟩

/-- The record of a session. -/
def sessionRecord (D : Deployment) (message : ByteString) (k : DrawnScalar)
    (R : D.algebra.Point) : AsymmetricEddsaSigningMetadata where
  keyId := configKeyId
  chaincode := zeroBytes 32
  sigData := [sessionBlock D message k R]
  signersIds := playersIds
  startIndex := 0

/-- A node with another server store. -/
def withServer (p : MockServerPersistency) (s : Node) : Node := { s with server := p }

@[simp] theorem withServer_server (p : MockServerPersistency) (s : Node) :
    (withServer p s).server = p := rfl

@[simp] theorem withServer_keys (p : MockServerPersistency) (s : Node) :
    (withServer p s).keys = s.keys := rfl

@[simp] theorem withServer_journal (p : MockServerPersistency) (s : Node) :
    (withServer p s).journal = s.journal := rfl

variable {k : DrawnScalar} {Q : ℕ → D.algebra.Point}

theorem erase_client : playersIds.erase 1 = servers := by decide

theorem card_players {V : Type} (value : ℕ → V) :
    playersIds.card = (table servers value).size + 1 := by
  rw [size_table]
  rfl

/-- A share as the session's rules describe it. -/
def shareOf (D : Deployment) (message : ByteString) (X : ℕ → D.algebra.Point) (key : Ed25519Scalar)
    (R : D.algebra.Point) (k : DrawnScalar) : ℕ :=
  shareValue (blockHram D.hash (D.algebra.encode R) (D.algebra.encode (∑ j ∈ playersIds, X j))
    message 0) key (zeroBytes 32) (swapBytes k.value)

/-- The share that a server sends: the first server adds the client's. -/
def sentShare (i : ℕ) (share : ℕ) (c : Ed25519Scalar) : Ed25519Scalar :=
  beBytes 32 (if 2 = i then (share + beValue c.val) % order else share)

end Server

section Client
variable {k : DrawnScalar}

end Client

end MpcDemo.SessionOperations
