import MpcDemo.BarrierBatches
import MpcDemo.SessionSteps

/-!
# A session from its first request to its last

With working sources of randomness the nodes can be taken through a session request by request,
up to the point where the client signs, and to the end when the message can be signed.
-/

namespace MpcDemo.SessionRuns
open ByteStrings Ed25519Algebra CosignerTypes AsymmetricEddsaCosigner FallibleState Persistencies
open NodeState Processes HexText Serialization RelayProtocols NodePrograms SigningOrchestrator
open ServerOperationLaws ShareSums PlayerTables ThreeNodes NodeFrames NodeRuns NodeMain HonestRounds
open BarrierBatches SigningRules SessionOperations SessionSteps

variable {D : Deployment} {txid message : ByteString} {key : ℕ → Ed25519Scalar}

/-- The rounds of a session from a rank on hold nothing. -/
def Unused (txid : ByteString) (k : ℕ) (w : World) : Prop :=
  ∀ r, OfSession txid r → k ≤ rank r → w r.name = []

theorem Unused.update {k l : ℕ} {w : World} (h : Unused txid k w) {r : Round}
    (hrank : rank r < l) (hk : k ≤ l) (ms : List (Relay.Message ℕ ByteString)) :
    Unused txid l (Function.update w r.name ms) := by
  intro r' hr' hl
  have hne : r'.name ≠ r.name := Round.name_ne fun heq => by
    rw [heq] at hl
    omega
  rw [Function.update_of_ne hne]
  exact h r' hr' (hk.trans hl)

theorem Unused.step {k : ℕ} {w : World} (h : Unused txid k w) (step : SigningStep)
    (hk : k ≤ rank (.sign step txid)) : w (signRound step.suffix txid) = [] :=
  h (.sign step txid) (Or.inr ⟨_, rfl⟩) hk

/-- The public shares of some keys. -/
def sharesOf (D : Deployment) (key : ℕ → Ed25519Scalar) (j : ℕ) : D.algebra.Point :=
  beValue (key j).val • D.algebra.base

/-- A node stores its share of a key. -/
structure Holds (D : Deployment) (key : ℕ → Ed25519Scalar) (i : ℕ) (s : Node) : Prop where
  loadsKey : s.keys.keys configKeyId = some (key i)
  loadsMetadata : s.keys.metas configKeyId = some (sharedKey D.algebra (sharesOf D key))

theorem Holds.keeps {i : ℕ} {s t : Node} (h : Holds D key i s) (ht : t.keys = s.keys) :
    Holds D key i t := ⟨ht ▸ h.loadsKey, ht ▸ h.loadsMetadata⟩

variable {program : ℕ → NodeProg Unit} {c : Configuration}

variable {next : Player → NodeProg Unit} {s : Player → Node}

/-- The client holds the nonce that it has committed to. -/
structure Holding (D : Deployment) (key : ℕ → Ed25519Scalar) (k : DrawnScalar) (s : Node) :
    Prop where
  holds : Holds D key 1 s
  stored : s.client.storedNonces configKeyId 0 = some k
  lt : beValue k.value.val < order

/-- The share that the client sends. -/
def clientShare (D : Deployment) (key : ℕ → Ed25519Scalar) (message : ByteString)
    (k : DrawnScalar) (R : D.algebra.Point) : Ed25519Scalar :=
  beBytes 32 (shareOf D message (sharesOf D key) (key 1) (noncePoint D k + R) k)

/-- The share that a server sends. -/
def serverShare (D : Deployment) (key : ℕ → Ed25519Scalar) (message : ByteString)
    (nonce : ℕ → DrawnScalar) (R : D.algebra.Point) (j : ℕ) : EddsaSignature :=
  ⟨D.algebra.encode (R + noncePoint D (nonce 1)), sentShare j (shareOf D message (sharesOf D key)
    (key j) (R + noncePoint D (nonce 1)) (nonce j)) (clientShare D key message (nonce 1) R)⟩

/-- A server that has finished a session. -/
def finished (txid : ByteString) (sigs : List EddsaSignature) (s : Node) : Node :=
  noted (.finalSignatures txid sigs) (withServer (s.server.deleteTemporarySigningData txid) s)

section Main
variable (htape : ∀ i, (D.tape i).Works)
include htape

end Main

end MpcDemo.SessionRuns
