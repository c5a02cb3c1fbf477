import MpcDemo.BarrierBatches
import MpcDemo.CommitBeforeReveal
import MpcDemo.SessionSteps

/-!
# The flows of honest nodes

A node that takes part in a session with honest players completes it, whatever the others do
meanwhile: what it reads passes its checks, and what it posts is what the rules ask for.
-/

namespace MpcDemo.SessionFlows
open ByteStrings Ed25519Algebra CosignerTypes AsymmetricEddsaCosigner FallibleState Persistencies
open NodeState Processes RelayProtocols HexText Serialization NodePrograms SigningOrchestrator
open ServerOperationLaws ShareSums PlayerTables ThreeNodes NodeFrames NodeRuns NodeMain HonestRounds
open KeygenAgreement BarrierBatches SigningRules SessionOperations SessionSteps

/-- What the journal of an honest node says. -/
structure Sound (E : Ed25519) (i : ℕ) (w : World) (s : Node) : Prop where
  unfailed : ∀ txid e, .signingFailed txid e ∉ s.journal
  finished : ∀ txid sigs, .finalSignatures txid sigs ∈ s.journal →
    Finished w txid sigs ∧ ∃ key X, HoldsKey E i key X w s

theorem Sound.grows {E : Ed25519} {i : ℕ} {w v : World} {s : Node} (h : Sound E i w s)
    (hv : Grows w v) : Sound E i v s := by
  refine ⟨h.unfailed, fun txid sigs hmem => ?_⟩
  obtain ⟨hfinished, key, X, hX⟩ := h.finished txid sigs hmem
  exact ⟨hfinished.grows hv, key, X, hX.grows hv⟩

/-- What is fixed while a player takes part in a session. -/
structure Seat (D : Deployment) where
  message : ByteString → ByteString
  id : ℕ
  player : id ∈ playersIds
  works : (D.tape id).Works
  nonzero : ∀ l, D.hash.sha256 l ≠ zeroBytes 32
  key : Ed25519Scalar
  X : ℕ → D.algebra.Point
  txid : ByteString
  signable : Signable (message txid)
  later : Round → Prop
  apart : ∀ r, OfSession txid r → ¬ later r

namespace Seat
variable {D : Deployment} (P : Seat D)

/-- The player has not posted to the rounds from a rank on. -/
structure At (k : ℕ) (w : World) (s : Node) : Prop where
  ahead : Ahead D.algebra (signingRules D P.message) P.id (OfSession P.txid) P.later k w
  holds : HoldsKey D.algebra P.id P.key P.X w s
  sound : Sound D.algebra P.id w s

abbrev Others : World → World → Prop := (signers D P.message).Others P.id

/-- The player completes a program, whatever the others do. -/
def Completes {α : Type} (before : World → Node → Prop) (p : NodeProg α)
    (after : α → World → Node → Prop) : Prop :=
  ∀ w s, before w s → Safe ((signers D P.message).environment P.id) (Sound D.algebra P.id)
    (fun v r t => ∃ a, r = .ok a ∧ after a v t) (p s) w

variable {P} {w v : World} {s t : Node} {k l : ℕ} {α β : Type}
variable {before : World → Node → Prop} {p : NodeProg α} {after : α → World → Node → Prop}

theorem At.others (h : P.At k w s) (hv : P.Others w v) : P.At k v s :=
  ⟨h.ahead.others hv, h.holds.grows hv.grows, h.sound.grows hv.grows⟩

theorem At.mono (h : P.At k w s) (hk : k ≤ l) : P.At l w s :=
  ⟨h.ahead.mono hk, h.holds, h.sound⟩

theorem At.posts (h : P.At k w s) (hv : Grows w v)
    (hahead : Ahead D.algebra (signingRules D P.message) P.id (OfSession P.txid) P.later l v) :
    P.At l v s := ⟨hahead, h.holds.grows hv, h.sound.grows hv⟩

/-- A step that leaves the keys and the journal alone. -/
theorem At.keeps (h : P.At k w s) (hkeys : t.keys = s.keys) (hjournal : t.journal = s.journal) :
    P.At k w t := by
  have hholds : ∀ {key X}, HoldsKey D.algebra P.id key X w s → HoldsKey D.algebra P.id key X w t :=
    fun hX => ⟨hkeys ▸ hX.loadsKey, hX.own, hX.shares, hkeys ▸ hX.loadsMetadata⟩
  refine ⟨h.ahead, hholds h.holds, fun txid e => hjournal ▸ h.sound.unfailed txid e,
    fun txid sigs hmem => ?_⟩
  obtain ⟨hfinished, key, X, hX⟩ := h.sound.finished txid sigs (hjournal ▸ hmem)
  exact ⟨hfinished, key, X, hholds hX⟩

theorem Completes.bind {f : α → NodeProg β} {final : β → World → Node → Prop}
    (hp : P.Completes before p after) (hf : ∀ a, P.Completes (after a) (f a) final) :
    P.Completes before (p >>= f) final := by
  intro w s hs
  refine safe_bind (hp w s hs) (fun a t v _ hQ => ?_) fun e t v _ hQ => ?_
  · obtain ⟨_, heq, hafter⟩ := hQ
    obtain rfl := Except.ok.inj heq
    exact hf a v t hafter
  · obtain ⟨_, heq, -⟩ := hQ
    cases heq

/-- A handler is not needed. -/
theorem Completes.catching (hp : P.Completes before p after)
    (hstable : ∀ a w v s, P.Others w v → after a w s → after a v s)
    (handler : Failure → Option (NodeProg α)) :
    P.Completes before (p.catching handler) after := by
  intro w s hs
  refine (hp w s hs).andThen fun r t v hA hQ => ?_
  obtain ⟨a, rfl, hafter⟩ := hQ
  exact fun u hu => ⟨hA.grows hu.grows, a, rfl, hstable a v u t hu hafter⟩

theorem Completes.pure {a : α} (hbefore : ∀ w v s, P.Others w v → before w s →
    Sound D.algebra P.id v s ∧ after a v s) : P.Completes before (pure a) after :=
  fun w s hs v hv => ⟨(hbefore w v s hv hs).1, a, rfl, (hbefore w v s hv hs).2⟩

section Server

/-- A server has stored the batch that the client has posted. -/
def Stored (P : Seat D) (w : World) (s : Node) : Prop :=
  ∃ RCommitments, Posted w (Round.name (.preprocess P.txid)) 1 (serializeCommitments RCommitments) ∧
    RCommitments.length = preprocessingCount ∧
      s.server.preprocessedData configKeyId 0 = RCommitments[0]?

/-- A server in a session with the record of its block. -/
structure Serving (P : Seat D) (k : ℕ) (nonce : DrawnScalar) (R : D.algebra.Point) (w : World)
    (s : Node) : Prop where
  toAt : P.At k w s
  stored : P.Stored w s
  record : s.server.signingData P.txid = some (sessionRecord D (P.message P.txid) nonce R)

theorem Stored.grows (h : P.Stored w s) (hv : Grows w v) : P.Stored v s := by
  obtain ⟨RCommitments, hposted, hlength⟩ := h
  exact ⟨RCommitments, hv _ _ _ hposted, hlength⟩

theorem Stored.keeps (h : P.Stored w s)
    (hdata : t.server.preprocessedData = s.server.preprocessedData) : P.Stored w t := by
  obtain ⟨RCommitments, hposted, hlength, hfirst⟩ := h
  exact ⟨RCommitments, hposted, hlength, hdata ▸ hfirst⟩

/-- What is stored is the commitment to the point that the client uses. -/
theorem Stored.commitment (h : P.Stored w s) (hw : (signers D P.message).Legal w)
    {C : D.algebra.Point} (hC : Batched D w P.txid C) :
    s.server.preprocessedData configKeyId 0 =
      some (commitToR D.hash configKeyId 0 1 (D.algebra.encode C)) := by
  obtain ⟨RCommitments, hposted, hlength, hfirst⟩ := h
  obtain ⟨RCommitments', hposted', hbatch⟩ := hC
  have heq := @Protocol.Legal.posted_unique w 1 _ _ (signers D P.message) (.preprocess P.txid) hw
    hposted hposted'
  have hdecode := hbatch.deserialize
  rw [← heq, deserialize_serializeCommitments (by rw [hlength]; decide)] at hdecode
  rw [hfirst, Except.ok.inj hdecode]
  exact hbatch.first

variable {nonce : DrawnScalar} {R : D.algebra.Point}

theorem Serving.others (h : P.Serving k nonce R w s) (hv : P.Others w v) :
    P.Serving k nonce R v s := ⟨h.toAt.others hv, h.stored.grows hv.grows, h.record⟩

theorem Serving.posts (h : P.Serving k nonce R w s) (hv : Grows w v)
    (hahead : Ahead D.algebra (signingRules D P.message) P.id (OfSession P.txid) P.later l v) :
    P.Serving l nonce R v s := ⟨h.toAt.posts hv hahead, h.stored.grows hv, h.record⟩

theorem Serving.keeps (h : P.Serving k nonce R w s) (p : MockServerPersistency)
    (hdata : p.preprocessedData = s.server.preprocessedData) {R' : D.algebra.Point}
    (hrecord : p.signingData P.txid = some (sessionRecord D (P.message P.txid) nonce R')) :
    P.Serving k nonce R' w (withServer p s) :=
  ⟨h.toAt.keeps rfl rfl, h.stored.keeps hdata, hrecord⟩

variable (hserver : P.id ∈ servers)
include hserver

end Server

section Client

/-- The client holds the nonce whose point it has committed to. -/
structure Holding (P : Seat D) (nonce : DrawnScalar) (w : World) (s : Node) : Prop where
  stored : s.client.storedNonces configKeyId 0 = some nonce
  lt : beValue nonce.value.val < order
  batched : Batched D w P.txid (noncePoint D nonce)

variable {nonce : DrawnScalar}

theorem Holding.grows (h : P.Holding nonce w s) (hv : Grows w v) : P.Holding nonce v s :=
  ⟨h.stored, h.lt, h.batched.grows hv⟩

end Client

section Session

/-- A player after the preprocessing. -/
structure Prepared (P : Seat D) (k : ℕ) (w : World) (s : Node) : Prop where
  toAt : P.At k w s
  client : P.id = 1 → ∃ nonce, P.Holding nonce w s
  server : P.id ≠ 1 → P.Stored w s

theorem Prepared.others (h : P.Prepared k w s) (hv : P.Others w v) : P.Prepared k v s :=
  ⟨h.toAt.others hv, fun hclient => (h.client hclient).imp fun _ hnonce => hnonce.grows hv.grows,
    fun hserver => (h.server hserver).grows hv.grows⟩

theorem Prepared.posts (h : P.Prepared k w s) (hv : Grows w v)
    (hahead : Ahead D.algebra (signingRules D P.message) P.id (OfSession P.txid) P.later l v) :
    P.Prepared l v s :=
  ⟨h.toAt.posts hv hahead, fun hclient => (h.client hclient).imp fun _ hnonce => hnonce.grows hv,
    fun hserver => (h.server hserver).grows hv⟩

theorem Prepared.mono (h : P.Prepared k w s) (hk : k ≤ l) : P.Prepared l w s :=
  ⟨h.toAt.mono hk, h.client, h.server⟩

end Session

end Seat

end MpcDemo.SessionFlows
