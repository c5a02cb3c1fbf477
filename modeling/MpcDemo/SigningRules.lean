import MpcDemo.HonestRounds
import MpcDemo.ShareSums

/-!
# What honest parties post in a session

Everything that a party posts can be checked by whoever sees the relay and knows the message of
the session: points open commitments, and every share solves an equation between points that have
been posted. Two shares of the servers that do so add up to a signature.
-/

namespace MpcDemo.SigningRules
open ByteStrings Ed25519Algebra CosignerTypes AsymmetricEddsaCosigner Persistencies NodeState
open Processes RelayProtocols HexText Serialization NodePrograms SigningOrchestrator ThreeNodes
open HonestRounds ShareSums

variable (D : Deployment)

def servers : Finset ℕ := {2, 3}

/-- A batch of the client with a commitment to a point at index 0. -/
structure Batch (RCommitments : List EddsaCommitment) (C : D.algebra.Point) : Prop where
  length : RCommitments.length = preprocessingCount
  first : RCommitments[0]? = some (commitToR D.hash configKeyId 0 1 (D.algebra.encode C))

def commitmentOf (txid : ByteString) (j : ℕ) (Q : D.algebra.Point) : List EddsaCommitment :=
  [commitToR D.hash txid 0 j (D.algebra.encode Q)]

def pointOf (Q : D.algebra.Point) : List EllipticCurvePoint :=
  [Ed25519Point.generic (D.algebra.encode Q)]

/-- What a server sends to the client once it knows the points of both. -/
def sumOf (txid : ByteString) (j : ℕ) (Q : D.algebra.Point) : RsAndCommitments :=
  ⟨pointOf D Q, commitToRs D.hash txid j (pointOf D Q)⟩

section Posted
variable (w : World) (txid : ByteString)

def Batched (C : D.algebra.Point) : Prop :=
  ∃ RCommitments, Posted w (Round.name (.preprocess txid)) 1 (serializeCommitments RCommitments) ∧
    Batch D RCommitments C

def Committed (j : ℕ) (Q : D.algebra.Point) : Prop :=
  Posted w (Round.name (.sign .serverCommit txid)) j (serializeCommitments (commitmentOf D txid j Q))

def Revealed (j : ℕ) (Q : D.algebra.Point) : Prop :=
  Posted w (Round.name (.sign .serverDecommitR txid)) j
    (serializeEllipticCurvePoints (pointOf D Q))

def SentSig (step : SigningStep) (j : ℕ) (sig : EddsaSignature) : Prop :=
  Posted w (Round.name (.sign step txid)) j (serializeEddsaSignatures [sig])

/-- The points of the servers and the shares of the key that the relay holds. -/
structure Points (Q X : ℕ → D.algebra.Point) : Prop where
  revealed : ∀ j ∈ servers, Revealed D w txid j (Q j)
  shares : ∀ j ∈ playersIds, Share D.algebra w j (X j)

end Posted

variable (message : ByteString → ByteString)

/-- The challenge of a session whose signature has a given point. -/
def challenge (txid : ByteString) (R : D.algebra.Point) (X : ℕ → D.algebra.Point) : ℕ :=
  leValue (blockHram D.hash (D.algebra.encode R) (D.algebra.encode (∑ j ∈ playersIds, X j))
    (message txid) 0).val

def Permits (w : World) : Round → ℕ → ByteString → Prop
  | .preprocess _, _, data => ∃ RCommitments C, data = serializeCommitments RCommitments ∧
    Batch D RCommitments C
  | .sign .ready _, _, data => data = ascii "ready"
  | .sign .serverCommit txid, i, data => ∃ Q, data = serializeCommitments (commitmentOf D txid i Q)
  | .sign .serverDecommitR txid, i, data => ∃ Q,
    data = serializeEllipticCurvePoints (pointOf D Q) ∧ Committed D w txid i Q
  | .sign .serverR txid, i, data => ∃ Q : ℕ → D.algebra.Point,
    data = serializeRsAndCommitments (sumOf D txid i (∑ j ∈ servers, Q j)) ∧
      ∀ j ∈ servers, Revealed D w txid j (Q j)
  | .sign .r2 txid, _, data => ∃ Q X C s,
    data = serializeEddsaSignatures [⟨D.algebra.encode C, s⟩] ∧ Points D w txid Q X ∧
      Batched D w txid C ∧ beValue s.val • D.algebra.base =
        C + challenge D message txid (∑ j ∈ servers, Q j + C) X • X 1
  | .sign .r2Sigs txid, i, data => ∃ Q X C c s,
    data = serializeEddsaSignatures [⟨D.algebra.encode (∑ j ∈ servers, Q j + C), s⟩] ∧
      Points D w txid Q X ∧ SentSig w txid .r2 1 ⟨D.algebra.encode C, c⟩ ∧
      beValue s.val < order ∧ beValue s.val • D.algebra.base =
        Q i + challenge D message txid (∑ j ∈ servers, Q j + C) X • X i +
          if 2 = i then beValue c.val • D.algebra.base else 0
  | .sign .r3 _, _, data => ∃ sig, data = serializeEddsaSignatures [sig]
  | _, _, _ => False

variable {D message} {w v : World} {txid : ByteString} {i : ℕ}

theorem Batched.grows {C : D.algebra.Point} (h : Batched D w txid C) (hw : Grows w v) :
    Batched D v txid C := by
  obtain ⟨RCommitments, hposted, hbatch⟩ := h
  exact ⟨RCommitments, hw _ _ _ hposted, hbatch⟩

theorem Points.grows {Q X : ℕ → D.algebra.Point} (h : Points D w txid Q X) (hw : Grows w v) :
    Points D v txid Q X :=
  ⟨fun j hj => hw _ _ _ (h.revealed j hj), fun j hj => (h.shares j hj).grows hw⟩

theorem permits_grows {r : Round} {data : ByteString} (hw : Grows w v)
    (h : Permits D message w r i data) : Permits D message v r i data := by
  cases r with
  | keygenCommit => exact h
  | keygenReveal => exact h
  | preprocess txid => exact h
  | sign step txid =>
    cases step with
    | ready => exact h
    | serverCommit => exact h
    | serverDecommitR =>
      obtain ⟨Q, hdata, hcommitted⟩ := h
      exact ⟨Q, hdata, hw _ _ _ hcommitted⟩
    | serverR =>
      obtain ⟨Q, hdata, hrevealed⟩ := h
      exact ⟨Q, hdata, fun j hj => hw _ _ _ (hrevealed j hj)⟩
    | r2 =>
      obtain ⟨Q, X, C, s, hdata, hpoints, hbatched, hshare⟩ := h
      exact ⟨Q, X, C, s, hdata, hpoints.grows hw, hbatched.grows hw, hshare⟩
    | r2Sigs =>
      obtain ⟨Q, X, C, c, s, hdata, hpoints, hsent, hshare⟩ := h
      exact ⟨Q, X, C, c, s, hdata, hpoints.grows hw, hw _ _ _ hsent, hshare⟩
    | r3 => exact h

theorem plain_ready : Plain (ascii "ready") := by decide +kernel

theorem plain_of_permits {r : Round} {data : ByteString} (h : Permits D message w r i data) :
    Plain data := by
  cases r with
  | keygenCommit => exact h.elim
  | keygenReveal => exact h.elim
  | preprocess txid =>
    obtain ⟨RCommitments, C, rfl, -⟩ := h
    exact plain_toHex _
  | sign step txid =>
    cases step with
    | ready =>
      obtain rfl := h
      exact plain_ready
    | serverCommit =>
      obtain ⟨Q, rfl⟩ := h
      exact plain_toHex _
    | serverDecommitR =>
      obtain ⟨Q, rfl, -⟩ := h
      exact plain_toHex _
    | serverR =>
      obtain ⟨Q, rfl, -⟩ := h
      exact plain_toHex _
    | r2 =>
      obtain ⟨Q, X, C, s, rfl, -⟩ := h
      exact plain_toHex _
    | r2Sigs =>
      obtain ⟨Q, X, C, c, s, rfl, -⟩ := h
      exact plain_toHex _
    | r3 =>
      obtain ⟨sig, rfl⟩ := h
      exact plain_toHex _

variable (D message)

/-- The rules of honest sessions. -/
def signingRules : SessionRules where
  Permits := Permits D message
  permits_grows _ _ _ _ _ := permits_grows
  plain _ _ _ _ := plain_of_permits

/-- The nodes as players of the protocol. -/
abbrev signers : Protocol := nodes D.algebra (signingRules D message)

variable {D message}

section Decode

theorem deserialize_commitmentOf (txid : ByteString) (j : ℕ) (Q : D.algebra.Point) :
    deserializeCommitments (serializeCommitments (commitmentOf D txid j Q)) =
      .ok (commitmentOf D txid j Q) :=
  deserialize_serializeCommitments (by simp [commitmentOf])

theorem deserialize_pointOf (Q : D.algebra.Point) :
    deserializeEllipticCurvePoints (serializeEllipticCurvePoints (pointOf D Q)) =
      .ok (pointOf D Q) :=
  deserialize_serializeEllipticCurvePoints (by simp [pointOf])

theorem deserialize_signature (sig : EddsaSignature) :
    deserializeEddsaSignatures (serializeEddsaSignatures [sig]) = .ok [sig] :=
  deserialize_serializeEddsaSignatures (by simp)

theorem Batch.deserialize {RCommitments : List EddsaCommitment} {C : D.algebra.Point}
    (h : Batch D RCommitments C) :
    deserializeCommitments (serializeCommitments RCommitments) = .ok RCommitments :=
  deserialize_serializeCommitments (by rw [h.length]; decide)

theorem pointOf_injective : Function.Injective (pointOf D) := by
  intro P Q h
  have hencode := congrArg EllipticCurvePoint.ed25519 (List.head_eq_of_cons_eq h)
  rw [ed25519_generic, ed25519_generic] at hencode
  exact encode_injective hencode

end Decode

section Unique
variable (hw : (signers D message).Legal w)
include hw

theorem Committed.unique {j : ℕ} {P Q : D.algebra.Point} (h : Committed D w txid j P)
    (h' : Committed D w txid j Q) : commitmentOf D txid j P = commitmentOf D txid j Q := by
  have heq := @Protocol.Legal.posted_unique w j _ _ (signers D message)
    (.sign .serverCommit txid) hw h h'
  have hP := deserialize_commitmentOf txid j P
  rw [heq, deserialize_commitmentOf] at hP
  exact (Except.ok.inj hP).symm

theorem Revealed.unique {j : ℕ} {P Q : D.algebra.Point} (h : Revealed D w txid j P)
    (h' : Revealed D w txid j Q) : P = Q := by
  have heq := @Protocol.Legal.posted_unique w j _ _ (signers D message)
    (.sign .serverDecommitR txid) hw h h'
  have hP := deserialize_pointOf P
  rw [heq, deserialize_pointOf] at hP
  exact (pointOf_injective (Except.ok.inj hP)).symm

theorem SentSig.unique {step : SigningStep} {j : ℕ} {sig sig' : EddsaSignature}
    (h : SentSig w txid step j sig) (h' : SentSig w txid step j sig') : sig = sig' := by
  have heq := @Protocol.Legal.posted_unique w j _ _ (signers D message) (.sign step txid) hw h h'
  have hsig := deserialize_signature sig
  rw [heq, deserialize_signature] at hsig
  exact (List.head_eq_of_cons_eq (Except.ok.inj hsig)).symm

theorem Points.unique {Q Q' X X' : ℕ → D.algebra.Point} (h : Points D w txid Q X)
    (h' : Points D w txid Q' X') : (∀ j ∈ servers, Q j = Q' j) ∧ ∀ j ∈ playersIds, X j = X' j :=
  ⟨fun j hj => (h.revealed j hj).unique hw (h'.revealed j hj),
    fun j hj => (h.shares j hj).unique hw (h'.shares j hj)⟩

/-- A server that has shown its point has committed to it before. -/
theorem Revealed.committed {j : ℕ} {Q : D.algebra.Point} (h : Revealed D w txid j Q) :
    Committed D w txid j Q := by
  obtain ⟨P, hdata, hcommitted⟩ := hw.honest (.sign .serverDecommitR txid) j _ h
  have hP := deserialize_pointOf Q
  rw [hdata, deserialize_pointOf] at hP
  rwa [pointOf_injective (Except.ok.inj hP)] at hcommitted

/-- What the client's share solves. -/
theorem SentSig.client {C : D.algebra.Point} {c : Ed25519Scalar}
    (h : SentSig w txid .r2 1 ⟨D.algebra.encode C, c⟩) {Q X : ℕ → D.algebra.Point}
    (hpoints : Points D w txid Q X) : beValue c.val • D.algebra.base =
      C + challenge D message txid (∑ j ∈ servers, Q j + C) X • X 1 := by
  obtain ⟨Q', X', C', s, hdata, hpoints', -, hshare⟩ := hw.honest (.sign .r2 txid) 1 _ h
  have hsig := deserialize_signature ⟨D.algebra.encode C, c⟩
  rw [hdata, deserialize_signature] at hsig
  obtain ⟨hC, rfl⟩ := EddsaSignature.mk.inj (List.head_eq_of_cons_eq (Except.ok.inj hsig))
  obtain rfl := encode_injective hC
  obtain ⟨hQ, hX⟩ := hpoints.unique hw hpoints'
  rw [challenge, Finset.sum_congr rfl hQ, Finset.sum_congr rfl hX, hX 1 (by decide)]
  exact hshare

/-- What a server's share solves. -/
theorem SentSig.server {j : ℕ} (hj : j ∈ servers) {sig : EddsaSignature}
    (h : SentSig w txid .r2Sigs j sig) {Q X : ℕ → D.algebra.Point}
    (hpoints : Points D w txid Q X) {C : D.algebra.Point} {c : Ed25519Scalar}
    (hclient : SentSig w txid .r2 1 ⟨D.algebra.encode C, c⟩) :
    sig.R = D.algebra.encode (∑ j ∈ servers, Q j + C) ∧ beValue sig.s.val < order ∧
      beValue sig.s.val • D.algebra.base =
        Q j + challenge D message txid (∑ j ∈ servers, Q j + C) X • X j +
          if 2 = j then beValue c.val • D.algebra.base else 0 := by
  obtain ⟨Q', X', C', c', s, hdata, hpoints', hclient', hlt, hshare⟩ :=
    hw.honest (.sign .r2Sigs txid) j _ h
  have hsig := deserialize_signature sig
  rw [hdata, deserialize_signature] at hsig
  obtain rfl := List.head_eq_of_cons_eq (Except.ok.inj hsig)
  obtain ⟨hC, rfl⟩ := EddsaSignature.mk.inj (hclient.unique hw hclient')
  obtain rfl := encode_injective hC
  obtain ⟨hQ, hX⟩ := hpoints.unique hw hpoints'
  have hplayer : j ∈ playersIds := Finset.mem_insert_of_mem hj
  rw [challenge, Finset.sum_congr rfl hQ, Finset.sum_congr rfl hX, hX j hplayer, hQ j hj]
  exact ⟨rfl, hlt, hshare⟩

end Unique

section Final

/-- The signature that two shares make. -/
def finalSignature (R : Ed25519Point) (s₂ s₃ : Ed25519Scalar) : EddsaSignature :=
  ⟨R, leBytes 32 ((beValue s₂.val + beValue s₃.val) % order)⟩

/-- Signatures that a server has made of the shares that both have posted. -/
def Finished (w : World) (txid : ByteString) (sigs : List EddsaSignature) : Prop :=
  ∃ R s₂ s₃, SentSig w txid .r2Sigs 2 ⟨R, s₂⟩ ∧ SentSig w txid .r2Sigs 3 ⟨R, s₃⟩ ∧
    sigs = [finalSignature R s₂ s₃]

theorem Finished.grows {sigs : List EddsaSignature} (h : Finished w txid sigs) (hw : Grows w v) :
    Finished v txid sigs := by
  obtain ⟨R, s₂, s₃, h₂, h₃, hsigs⟩ := h
  exact ⟨R, s₂, s₃, hw _ _ _ h₂, hw _ _ _ h₃, hsigs⟩

theorem Finished.unique (hw : (signers D message).Legal w) {sigs sigs' : List EddsaSignature}
    (h : Finished w txid sigs) (h' : Finished w txid sigs') : sigs = sigs' := by
  obtain ⟨R, s₂, s₃, h₂, h₃, rfl⟩ := h
  obtain ⟨R', s₂', s₃', h₂', h₃', rfl⟩ := h'
  obtain ⟨rfl, rfl⟩ := EddsaSignature.mk.inj (h₂.unique hw h₂')
  obtain ⟨-, rfl⟩ := EddsaSignature.mk.inj (h₃.unique hw h₃')
  rfl

end Final

end MpcDemo.SigningRules
