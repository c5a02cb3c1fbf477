import MpcDemo.DerivationTweaks
import MpcDemo.AsymmetricEddsaCosignerClient
import MpcDemo.TotalRuns

/-!
# Shares that add up to a signature

One block of a session whose parties compute from the same public data: every party's share has
a closed form, and the shares of all parties add up to a signature under the derived public key.
-/

namespace MpcDemo.ShareSums
open ByteStrings Ed25519Algebra CosignerTypes AsymmetricEddsaCosigner FallibleState
open AsymmetricEddsaCosignerServer ServerBlockLaws DerivationTweaks

variable {E : Ed25519} {H : HashFunctions}

/-- The challenge of a block with the points of its nonce and of its key. -/
def blockHram (H : HashFunctions) (R publicKey : Ed25519Point) (message : ByteString)
    (flags : ℕ) : Ed25519LeScalar :=
  ed25519AlgebraReduce (challengeHash H R publicKey message (eddsaKeccak flags))

/-- What the parties of a block have in common: the tweak of each of them and the derived key, in
which the tweak is counted once. -/
structure BlockKeys (E : Ed25519) (H : HashFunctions) (metadata : CmpKeyMetadata)
    (chaincode : HDChaincode) (signers : ℕ) (path : List ℕ) (x : ℕ) (delta : Ed25519Scalar)
    (A : E.Point) : Prop where
  derived : derivationKeyDelta E H metadata.publicKey chaincode path signers =
    .ok (delta, E.encode A)
  publicKey : derivePublicKeyGeneric E H metadata.publicKey chaincode path =
    .ok (Ed25519Point.generic (E.encode A))
  total : A = (x + signers * beValue delta.val) • E.base

/-- A message whose size fits the argument of the hash. -/
structure Signable (message : ByteString) : Prop where
  nonempty : message ≠ []
  short : message.length < 2 ^ 32

variable {metadata : CmpKeyMetadata} {chaincode : HDChaincode} {signers x : ℕ} {path : List ℕ}
variable {delta : Ed25519Scalar} {A : E.Point}

theorem exists_blockKeys (hkey : metadata.publicKey = Ed25519Point.generic (E.encode (x • E.base)))
    (chaincode : HDChaincode) (htwo : 2 ≤ signers) (hbyte : signers < 256)
    (hpath : ∀ c ∈ path, isHardened c = false) :
    ∃ delta A, BlockKeys E H metadata chaincode signers path x delta A := by
  obtain ⟨delta, tweak, hderived, htweak, hpublic⟩ :=
    exists_derivationKeyDelta (H := H) hkey chaincode path htwo hbyte
  refine ⟨delta, x • E.base + tweak • E.base, hderived, hpublic hpath, ?_⟩
  rw [← add_smul, ← mod_order_smul, ← mod_order_smul (x + signers * _)]
  exact congrArg (· • E.base) (htweak.symm.add_left x)

theorem calcHram_eq {message : ByteString} (h : Signable message) (R publicKey : Ed25519Point)
    (flags : ℕ) : ed25519CalcHram H R publicKey message (eddsaKeccak flags) =
      .ok (blockHram H R publicKey message flags) := by
  have htake : message.take (message.length % 2 ^ 32) = message := by
    rw [Nat.mod_eq_of_lt h.short, List.take_length]
  simp only [ed25519CalcHram, htake, h.nonempty, if_false]
  rfl

section Parties

/-- The share of the client. -/
theorem client_signBlock (hkeys : BlockKeys E H metadata chaincode signers path x delta A)
    {message : ByteString} (hmessage : Signable message) (flags : ℕ) (key : Ed25519Scalar)
    {k : DrawnScalar} (hk : beValue k.value.val < order) {serversR : EllipticCurvePoint}
    {Q : E.Point} (hR : serversR.ed25519 = E.encode Q) :
    AsymmetricEddsaCosignerClient.signBlock E H metadata key chaincode signers flags
        ⟨message, path⟩ k serversR =
      .ok ⟨⟨E.encode (beValue k.value.val • E.base), beBytes 32 (shareValue
        (blockHram H (E.encode (beValue k.value.val • E.base + Q)) (E.encode A) message flags)
        key delta (swapBytes k.value))⟩, k.draw⟩ := by
  have hadd : ed25519AlgebraAddPoints E (E.encode (beValue k.value.val • E.base))
      serversR.ed25519 = .ok (E.encode (beValue k.value.val • E.base + Q)) := by
    rw [hR, ed25519AlgebraAddPoints_encode]
  have hx : leValue (swapBytes (beBytes 32 ((beValue key.val + beValue delta.val) % order))).val =
      (beValue key.val + beValue delta.val) % order := by
    rw [swapBytes_beBytes, leValue_leBytes_mod]
  simp only [AsymmetricEddsaCosignerClient.signBlock, except_bind_ok_iff,
    throwCosignerException_eq_ok_iff, Prod.exists, ed25519AlgebraAddScalars_eq,
    ed25519AlgebraMulAdd, Except.ok.injEq, exists_eq_left']
  refine ⟨_, ed25519AlgebraGeneratorMul_of_lt hk, _, hadd, delta, _, hkeys.derived, _,
    calcHram_eq hmessage _ _ _, ?_⟩
  rw [swapBytes_leBytes, hx, shareValue]
  rfl

variable {d : AsymmetricEddsaSignatureData} {partialSig : EddsaSignature} {Q C : E.Point}

theorem blockChallenge_of_keys
    (hkeys : BlockKeys E H metadata chaincode signers d.path x delta A)
    (hmessage : Signable d.message) (hR : d.R.ed25519 = E.encode Q)
    (hC : partialSig.R = E.encode C) :
    BlockChallenge E H metadata chaincode signers partialSig d (E.encode (Q + C)) delta
      (E.encode A) (blockHram H (E.encode (Q + C)) (E.encode A) d.message d.flags) := by
  refine ⟨?_, hkeys.derived, calcHram_eq hmessage _ _ _⟩
  rw [hR, hC, ed25519AlgebraAddPoints_encode]

/-- The signature of a server that is the only one. -/
theorem server_signBlock_final
    (hkeys : BlockKeys E H metadata chaincode signers d.path x delta A)
    (hmessage : Signable d.message) (hR : d.R.ed25519 = E.encode Q)
    (hC : partialSig.R = E.encode C) (hs : beValue partialSig.s.val < order)
    (key : Ed25519Scalar) (addClientShare : Bool) :
    AsymmetricEddsaCosignerServer.signBlock E H metadata key chaincode signers true addClientShare
        partialSig d =
      .ok (⟨E.encode (Q + C), leBytes 32 ((shareValue (blockHram H (E.encode (Q + C)) (E.encode A)
        d.message d.flags) key delta d.k.value + beValue partialSig.s.val) % order)⟩, d) :=
  signBlock_ok_iff.2 ⟨_, _, _, _, blockChallenge_of_keys hkeys hmessage hR hC, hs, rfl⟩

theorem overwritePoint_generic (R R' : Ed25519Point) :
    overwritePoint (Ed25519Point.generic R) R' = Ed25519Point.generic R' := by
  apply Subtype.ext
  simp [overwritePoint, Ed25519Point.generic, List.drop_left' R.2]

/-- The share of a server among several. -/
theorem server_signBlock_share
    (hkeys : BlockKeys E H metadata chaincode signers d.path x delta A)
    (hmessage : Signable d.message) (hR : d.R.ed25519 = E.encode Q)
    (hC : partialSig.R = E.encode C) (key : Ed25519Scalar) (addClientShare : Bool) :
    AsymmetricEddsaCosignerServer.signBlock E H metadata key chaincode signers false addClientShare
        partialSig d =
      .ok (⟨E.encode (Q + C), beBytes 32 (if addClientShare then
          (shareValue (blockHram H (E.encode (Q + C)) (E.encode A) d.message d.flags) key delta
            d.k.value + beValue partialSig.s.val) % order
          else shareValue (blockHram H (E.encode (Q + C)) (E.encode A) d.message d.flags) key delta
            d.k.value)⟩,
        { d with R := overwritePoint d.R (E.encode (Q + C)) }) :=
  signBlock_ok_iff.2 ⟨_, _, _, _, blockChallenge_of_keys hkeys hmessage hR hC, rfl⟩

/-- The sum of the shares, each of which names the stored point. -/
theorem sumShares_eq {R : Ed25519Point} {index : ℕ} (delivered : List (ℕ × List EddsaSignature))
    (share : ℕ → EddsaSignature) (hshare : ∀ e ∈ delivered, e.2[index]? = some (share e.1) ∧
      (share e.1).R = R ∧ beValue (share e.1).s.val < order)
    {s₀ : Ed25519LeScalar} (hs₀ : leValue s₀.val < order) :
    sumShares R index delivered s₀ = .ok (leBytes 32 ((leValue s₀.val +
      (delivered.map fun e => beValue (share e.1).s.val).sum) % order)) := by
  induction delivered generalizing s₀ with
  | nil =>
    rw [List.map_nil, List.sum_nil, add_zero, Nat.mod_eq_of_lt hs₀, leBytes_leValue]
    rfl
  | cons e delivered ih =>
    obtain ⟨hsig, hR, hlt⟩ := hshare e List.mem_cons_self
    have hadd : ed25519AlgebraAddLeScalars s₀ (swapBytes (share e.1).s) =
        .ok (leBytes 32 ((leValue s₀.val + beValue (share e.1).s.val) % order)) := by
      rw [ed25519AlgebraAddLeScalars_ok_iff, leValue_swapBytes]
      exact ⟨hs₀, hlt, rfl⟩
    have hnext : leValue (leBytes 32
        ((leValue s₀.val + beValue (share e.1).s.val) % order)).val < order := by
      rw [leValue_leBytes_mod]
      exact Nat.mod_lt _ order_pos
    have hrest := ih (fun e' he' => hshare e' (List.mem_cons_of_mem e he')) hnext
    rw [leValue_leBytes_mod, Nat.mod_add_mod, add_assoc] at hrest
    simp only [sumShares, hsig, hR, if_true, hadd, throwCosignerException_ok]
    rw [List.map_cons, List.sum_cons]
    exact hrest

/-- Shares that name the stored point are added up. -/
theorem exists_sumShares {R : Ed25519Point} {index : ℕ} (delivered : List (ℕ × List EddsaSignature))
    (share : ℕ → EddsaSignature) (hshare : ∀ e ∈ delivered, e.2[index]? = some (share e.1) ∧
      (share e.1).R = R ∧ beValue (share e.1).s.val < order)
    {s₀ : Ed25519LeScalar} (hs₀ : leValue s₀.val < order) :
    ∃ s, sumShares R index delivered s₀ = .ok s ∧ leValue s.val < order ∧
      leValue s.val • E.base = leValue s₀.val • E.base +
        (delivered.map fun e => beValue (share e.1).s.val • E.base).sum := by
  refine ⟨_, sumShares_eq delivered share hshare hs₀, ?_, ?_⟩
  · rw [leValue_leBytes_mod]
    exact Nat.mod_lt _ order_pos
  · rw [leValue_leBytes_mod, mod_order_smul, add_smul, List.sum_smul, List.map_map]
    rfl

/-- The signature that `get_eddsa_signature` returns for a block. -/
theorem exists_finalizeBlock
    (hkeys : BlockKeys E H metadata chaincode signers d.path x delta A) {index : ℕ}
    {partialSigs : PlayerMap (List EddsaSignature)} (share : ℕ → EddsaSignature)
    (hshare : ∀ e ∈ partialSigs.toList, e.2[index]? = some (share e.1) ∧
      (share e.1).R = d.R.ed25519 ∧ beValue (share e.1).s.val < order) :
    ∃ s, finalizeBlock E H metadata chaincode partialSigs d index = .ok ⟨d.R.ed25519, s⟩ ∧
      leValue s.val < order ∧ leValue s.val • E.base =
        (partialSigs.toList.map fun e => beValue (share e.1).s.val • E.base).sum := by
  have hzero : leValue (zeroBytes 32).val < order := by decide
  obtain ⟨s, hs, hlt, hsum⟩ := exists_sumShares (E := E) partialSigs.toList share hshare hzero
  rw [leValue_zeroBytes, zero_smul, zero_add] at hsum
  refine ⟨s, ?_, hlt, hsum⟩
  rw [finalizeBlock, hs, hkeys.publicKey]
  rfl

end Parties

section Nonces

theorem zipIdx_map_range {α : Type} (n : ℕ) (f : ℕ → α) :
    ((List.range n).map f).zipIdx = (List.range n).map fun j => (f j, j) := by
  apply List.ext_getElem?
  intro j
  by_cases hj : j < n
  · simp [List.getElem?_zipIdx, List.getElem?_range hj]
  · have hnone : (List.range n)[j]? = none :=
      List.getElem?_eq_none (by rw [List.length_range]; omega)
    simp [List.getElem?_zipIdx, hnone]

variable {txid : ByteString} {startIndex myId blocks : ℕ}
variable {playersR : PlayerMap (List EllipticCurvePoint)}

/-- A player's points are added to points of the group. -/
theorem aggregatePlayer_eq {playerId : ℕ} {commitments : List EddsaCommitment}
    {Rs : List EllipticCurvePoint} {d : ℕ → AsymmetricEddsaSignatureData} {Q P : ℕ → E.Point}
    (hd : ∀ j < blocks, (d j).R = Ed25519Point.generic (E.encode (Q j)))
    (hopens : ∀ j < blocks, Rs[j]? = some (Ed25519Point.generic (E.encode (P j))) ∧
      commitments[j]? = some (commitToR H txid (j + startIndex) playerId (E.encode (P j)))) :
    aggregatePlayer E H txid startIndex myId playerId commitments Rs ((List.range blocks).map d) =
      .ok ((List.range blocks).map fun j => { d j with
        R := Ed25519Point.generic (E.encode (Q j + if playerId = myId then 0 else P j)) }) := by
  rw [aggregatePlayer, zipIdx_map_range, List.mapM_map]
  apply TotalRuns.except_mapM_eq_ok
  intro j hj
  have hj := List.mem_range.1 hj
  obtain ⟨hR, hcommitment⟩ := hopens j hj
  have hverify := (verifyCommitToR_iff H).2
    (rfl : commitToR H txid (j + startIndex) playerId (E.encode (P j)) = _)
  simp only [Function.comp_apply, hR, hcommitment, ed25519_generic, hverify, if_true]
  by_cases hme : playerId = myId
  · simp only [hme, if_true, add_zero, ← hd j hj]
  · simp only [hme, if_false, hd j hj, addPoints_encode]
    rfl

/-- The points of all recorded players but this one are added up. -/
theorem aggregatePlayers_eq (entries : List (ℕ × List EddsaCommitment))
    {d : ℕ → AsymmetricEddsaSignatureData} {Q : ℕ → E.Point} (P : ℕ → ℕ → E.Point)
    (hd : ∀ j < blocks, (d j).R = Ed25519Point.generic (E.encode (Q j)))
    (hopens : ∀ e ∈ entries, ∃ Rs, playersR[e.1]? = some Rs ∧ ∀ j < blocks,
      Rs[j]? = some (Ed25519Point.generic (E.encode (P e.1 j))) ∧
      e.2[j]? = some (commitToR H txid (j + startIndex) e.1 (E.encode (P e.1 j)))) :
    aggregatePlayers E H txid startIndex myId playersR entries ((List.range blocks).map d) =
      .ok ((List.range blocks).map fun j => { d j with
        R := Ed25519Point.generic (E.encode (Q j +
          (entries.map fun e => if e.1 = myId then 0 else P e.1 j).sum)) }) := by
  induction entries generalizing d Q with
  | nil =>
    rw [aggregatePlayers]
    refine congrArg Except.ok (List.map_congr_left fun j hj => ?_)
    rw [List.map_nil, List.sum_nil, add_zero, ← hd j (List.mem_range.1 hj)]
  | cons e entries ih =>
    obtain ⟨playerId, commitments⟩ := e
    obtain ⟨Rs, hRs, hblocks⟩ := hopens _ List.mem_cons_self
    have hplayer : aggregatePlayer E H txid startIndex myId playerId commitments Rs
        ((List.range blocks).map d) = .ok ((List.range blocks).map fun j => { d j with
          R := Ed25519Point.generic (E.encode (Q j + if playerId = myId then 0
            else P playerId j)) }) := aggregatePlayer_eq hd hblocks
    have hrest := @ih (fun j => { d j with R := Ed25519Point.generic (E.encode (Q j +
        if playerId = myId then 0 else P playerId j)) })
      (fun j => Q j + if playerId = myId then 0 else P playerId j) (fun j _ => rfl)
      fun e he => hopens e (List.mem_cons_of_mem _ he)
    rw [aggregatePlayers_cons_ok_iff]
    refine ⟨Rs, _, hRs, hplayer, ?_⟩
    rw [hrest]
    simp only [List.map_cons, List.sum_cons, add_assoc]

end Nonces

section Sums

theorem shareValue_smul_base (hram : Ed25519LeScalar) (key delta : Ed25519Scalar)
    (k : Ed25519LeScalar) : shareValue hram key delta k • E.base =
      leValue k.val • E.base +
        leValue hram.val • ((beValue key.val + beValue delta.val) • E.base) := by
  rw [shareValue, mod_order_smul, add_smul, mul_smul, mod_order_smul, add_comm]

/-- One term and the sum of the others. -/
theorem add_sum_others {ι M : Type} [DecidableEq ι] [AddCommMonoid M] (l : Finset ι) (f : ι → M)
    {i : ι} (hi : i ∈ l) : f i + ∑ j ∈ l, (if j = i then 0 else f j) = ∑ j ∈ l, f j := by
  have hself : f i = ∑ j ∈ l, if j = i then f j else 0 := by
    rw [Finset.sum_ite_eq' l i f, if_pos hi]
  conv_lhs => rw [hself]
  rw [← Finset.sum_add_distrib]
  apply Finset.sum_congr rfl
  intro j _
  by_cases hj : j = i
  · rw [if_pos hj, if_pos hj, add_zero]
  · rw [if_neg hj, if_neg hj, zero_add]

variable {servers : Finset ℕ} {clientId : ℕ}

/-- The shares of the servers and of the client, with one tweak for each of them. -/
theorem sum_shareValue (hclient : clientId ∉ servers) (hram : Ed25519LeScalar)
    (key : ℕ → Ed25519Scalar) (delta : Ed25519Scalar) (k : ℕ → Ed25519LeScalar)
    (kc : Ed25519LeScalar) :
    ∑ i ∈ servers, shareValue hram (key i) delta (k i) • E.base +
        shareValue hram (key clientId) delta kc • E.base =
      (∑ i ∈ servers, leValue (k i).val) • E.base + leValue kc.val • E.base +
        leValue hram.val • ((∑ i ∈ insert clientId servers, beValue (key i).val +
          (insert clientId servers).card * beValue delta.val) • E.base) := by
  simp only [shareValue_smul_base, Finset.sum_add_distrib, ← Finset.smul_sum, ← Finset.sum_smul,
    Finset.sum_const, smul_eq_mul, Finset.sum_insert hclient, Finset.card_insert_of_notMem hclient]
  rw [add_add_add_comm, ← smul_add]
  congr 2
  rw [← add_smul]
  congr 1
  ring

/-- The client's share is counted once when the first server adds it. -/
theorem sum_addedOnce {first : ℕ} (hfirst : first ∈ servers) (share : ℕ → ℕ) (s : ℕ) :
    ∑ i ∈ servers, (if first = i then (share i + s) % order else share i) • E.base =
      ∑ i ∈ servers, share i • E.base + s • E.base := by
  have hterm : ∀ i, (if first = i then (share i + s) % order else share i) • E.base =
      share i • E.base + if first = i then s • E.base else 0 := by
    intro i
    by_cases hi : first = i
    · rw [if_pos hi, if_pos hi, mod_order_smul, add_smul]
    · rw [if_neg hi, if_neg hi, add_zero]
  simp only [hterm, Finset.sum_add_distrib, Finset.sum_ite_eq, hfirst, if_true]

/-- A signature that solves the sum verifies under the derived key. -/
theorem verify_of_sum (hkeys : BlockKeys E H metadata chaincode signers path x delta A)
    {message : ByteString} (hmessage : Signable message) (flags : ℕ) {Q : E.Point}
    {s : Ed25519LeScalar} (hs : leValue s.val < order)
    (hsum : leValue s.val • E.base = Q +
      leValue (blockHram H (E.encode Q) (E.encode A) message flags).val •
        ((x + signers * beValue delta.val) • E.base)) :
    ed25519Verify E H message (E.encode Q) s (E.encode A) (eddsaKeccak flags) = true := by
  rw [ed25519Verify_iff]
  refine ⟨hmessage.nonempty, hs, Q, A, E.decode_encode Q, E.decode_encode A, ?_⟩
  rw [hsum, ← hkeys.total, blockHram, ed25519AlgebraReduce, leValue_leBytes_mod, mod_order_smul]

end Sums

end MpcDemo.ShareSums
