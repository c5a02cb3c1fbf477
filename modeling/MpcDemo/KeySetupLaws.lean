import MpcDemo.KeySetup
import MpcDemo.SetupServiceLaws
import MpcDemo.KeygenOrchestrator

/-!
# What the operations of the key setup do

The pieces of the key setup one by one: draws and the key store, the proof of knowledge of a
share, the decommitments that are loaded and the sum of the public shares.
-/

namespace MpcDemo.KeySetupLaws
open ByteStrings Ed25519Algebra CosignerTypes FallibleState TotalRuns NodeState SetupService
open SetupServiceLaws KeySetup PlayerTables StoredDraws

variable {A : AuxiliaryScheme} {s : Party A} {α β : Type}

section Steps

theorem returns_drawing_bind {x : EStateM Failure Node α} {f : α → EStateM Failure (Party A) β}
    (mid : α → Prop) {post : β → Party A → Prop} (hx : ∀ n, ∃ a t, x.run n = .ok a t ∧ mid a)
    (hf : ∀ a n, mid a → Returns (f a) ⟨n, s.store⟩ post) :
    Returns (drawing x >>= f) s post := by
  obtain ⟨a, t, hrun, ha⟩ := hx { Node.initial with draws := s.draws }
  obtain ⟨b, u, hb, hpost⟩ := hf a t.draws ha
  refine ⟨b, u, run_bind_ok_iff.2 ⟨a, ⟨t.draws, s.store⟩, ?_, hb⟩, hpost⟩
  show drawing x s = _
  rw [drawing, hrun]

end Steps

section Stores
variable {p : SetupPersistency A} {keyId : ByteString} {info : KeyInfo A}

theorem loadKey_eq (h : p.keys keyId = some info) :
    p.loadKey keyId = .ok (info.algorithm, info.privateKey) := by
  rw [SetupPersistency.loadKey, h]

theorem loadKeyMetadata_ok_iff {metadata : KeyMetadata A} :
    p.loadKeyMetadata keyId = .ok metadata ↔
      ∃ info, p.keys keyId = some info ∧ info.metadata = some metadata := by
  rw [SetupPersistency.loadKeyMetadata]
  cases hinfo : p.keys keyId with
  | none => simp
  | some info =>
    cases hmetadata : info.metadata with
    | none => simp [hmetadata]
    | some m => simp [hmetadata]

theorem loadAuxiliaryKeys_ok_iff {aux : AuxiliaryKeys} :
    p.loadAuxiliaryKeys keyId = .ok aux ↔
      ∃ info, p.keys keyId = some info ∧ info.auxKeys = some aux := by
  rw [SetupPersistency.loadAuxiliaryKeys]
  cases hinfo : p.keys keyId with
  | none => simp
  | some info =>
    cases haux : info.auxKeys with
    | none => simp [haux]
    | some a => simp [haux]

theorem storeKeyMetadata_override {metadata : KeyMetadata A} (h : p.keys keyId = some info) :
    p.storeKeyMetadata keyId metadata true =
      .ok (p.setEntry keyId { info with metadata := some metadata }) := by
  rw [SetupPersistency.storeKeyMetadata, if_neg (by simp), SetupPersistency.entry, h,
    Option.getD_some]

theorem storeKeyMetadata_ok {metadata : KeyMetadata A} {allowOverride : Bool}
    {p' : SetupPersistency A} (h : p.storeKeyMetadata keyId metadata allowOverride = .ok p') :
    p' = p.setEntry keyId { p.entry keyId with metadata := some metadata } := by
  rw [SetupPersistency.storeKeyMetadata] at h
  split at h
  · cases h
  · exact (Except.ok.inj h).symm

theorem withSetupCommitments_eq {commitments : PlayerMap Commitment}
    (h : p.commitments keyId = some commitments) : p.withSetupCommitments keyId = p := by
  have hload : some (p.loadSetupCommitments keyId) = p.commitments keyId := by
    rw [SetupPersistency.loadSetupCommitments, h, Option.getD_some]
  rw [SetupPersistency.withSetupCommitments, hload, Function.update_eq_self]

@[simp] theorem keys_setEntry : (p.setEntry keyId info).keys keyId = some info :=
  Function.update_self ..

@[simp] theorem setupData_setEntry : (p.setEntry keyId info).setupData = p.setupData := rfl

@[simp] theorem commitments_setEntry : (p.setEntry keyId info).commitments = p.commitments := rfl

end Stores

section Scalars
variable {E : Ed25519} {H : HashFunctions}

theorem sub_smul_base (E : Ed25519) (a b : ℕ) :
    beValue (beBytes 32 ((((a : ℤ) - b) % order).toNat)).val • E.base =
      a • E.base - b • E.base := by
  have hpos : (0 : ℤ) < order := by exact_mod_cast order_pos
  have hnonneg := Int.emod_nonneg ((a : ℤ) - b) hpos.ne'
  have hlt := Int.emod_lt_of_pos ((a : ℤ) - b) hpos
  have hvalue : beValue (beBytes 32 ((((a : ℤ) - b) % order).toNat)).val =
      (((a : ℤ) - b) % order).toNat := by
    have hsmall : (((a : ℤ) - b) % order).toNat < order := by omega
    exact beValue_beList_of_lt (hsmall.trans order_lt)
  have hemod : ((a : ℤ) - b) % order = (a : ℤ) - b - order * (((a : ℤ) - b) / order) :=
    Int.emod_def _ _
  have horder : (order : ℤ) • E.base = 0 := by
    rw [natCast_zsmul]
    exact E.order_smul E.base
  rw [hvalue, ← natCast_zsmul, Int.toNat_of_nonneg hnonneg, hemod, sub_smul, sub_smul, mul_comm,
    mul_smul, horder, smul_zero, sub_zero, natCast_zsmul, natCast_zsmul]

theorem one_head : (one.val.headD 0) &&& 0x80 = 0 := by decide

theorem value_one : beValue one.val = 1 := beValue_beList_of_lt (by decide)

/-- Two encoded points with the coefficient one add up to a point. -/
theorem verifyLinearCombination_two (P Q R : E.Point) :
    verifyLinearCombination E (Ed25519Point.generic (E.encode R))
      [(Ed25519Point.generic (E.encode P), one), (Ed25519Point.generic (E.encode Q), one)] =
        .ok (decide (E.encode (P + Q) = E.encode R)) := by
  have hterm : ∀ S : E.Point, linearTerm E (Ed25519Point.generic (E.encode S), one) = .ok S := by
    intro S
    simp only [linearTerm, ed25519_generic, E.decode_encode, one_head, value_one, E.mul_eq,
      one_smul, ne_eq, not_true, if_false]
  have hmap : [(Ed25519Point.generic (E.encode P), one),
      (Ed25519Point.generic (E.encode Q), one)].mapM (linearTerm E) = .ok [P, Q] := by
    rw [except_mapM_ok_iff_forall₂]
    exact .cons (hterm P) (.cons (hterm Q) .nil)
  have hsum : [P, Q].sum = P + Q := by rw [List.sum_cons, List.sum_singleton]
  simp only [verifyLinearCombination, reduceCtorEq, if_false, ed25519_generic, E.decode_encode,
    hmap, bind, Except.bind, hsum]

/-- What a proof of knowledge of a share proves: the challenge times the share and the response
add up to the point of the proof. -/
theorem schnorrZkpVerify_ok_iff {id : ByteString} {X R : EllipticCurvePoint} {s : Ed25519Scalar}
    (hid : proverIdOf id ≠ []) {u : Unit} : schnorrZkpVerify E H id X R s = .ok u ↔
      ∃ P Q, E.decode X.ed25519 = some P ∧ E.decode R.ed25519 = some Q ∧
        beValue (schnorrChallenge H (proverIdOf id) R X).val • P + beValue s.val • E.base = Q := by
  simp only [schnorrZkpVerify, hid, if_false, generatorMul_eq, throwCosignerException_ok, bind,
    Except.bind, pointMul]
  cases hP : E.decode X.ed25519 with
  | none => simp [throwCosignerException]
  | some P =>
    simp only [throwCosignerException_ok, E.mul_eq, mod_order_smul]
    cases hQ : E.decode R.ed25519 with
    | none => simp [verifyLinearCombination, hQ, throwCosignerException]
    | some Q =>
      have hR : E.encode Q = R.ed25519 := E.encode_of_decode _ _ hQ
      have hsame : verifyLinearCombination E R = verifyLinearCombination E
          (Ed25519Point.generic (E.encode Q)) := by
        funext terms
        rw [verifyLinearCombination, verifyLinearCombination, ed25519_generic, hR]
      rw [hsame, verifyLinearCombination_two, throwCosignerException_ok]
      have hequal : ∀ S : E.Point, E.encode S = E.encode Q ↔ S = Q :=
        fun S => ⟨fun h => encode_injective h, fun h => by rw [h]⟩
      simp only [Option.some.injEq, exists_and_left, exists_eq_left']
      split
      · rename_i h
        exact iff_of_true rfl ((hequal _).1 (of_decide_eq_true h))
      · rename_i h
        rw [decide_eq_true_eq, hequal] at h
        exact iff_of_false (by simp) h

theorem exists_schnorrZkpGenerate {id : ByteString} {secret k : Ed25519Scalar}
    (hid : proverIdOf id ≠ []) (hk : k ≠ zeroBytes 32) :
    ∃ s, schnorrZkpGenerate E H id secret
        (Ed25519Point.generic (E.encode (beValue secret.val • E.base))) k = .ok s ∧
      schnorrZkpVerify E H id (Ed25519Point.generic (E.encode (beValue secret.val • E.base)))
        (Ed25519Point.generic (E.encode (beValue k.val • E.base))) s = .ok () := by
  let X := Ed25519Point.generic (E.encode (beValue secret.val • E.base))
  let R := Ed25519Point.generic (E.encode (beValue k.val • E.base))
  let c := beValue (schnorrChallenge H (proverIdOf id) R X).val
  let product : Ed25519Scalar := beBytes 32 (beValue secret.val * c % order)
  have hnot : ¬ (proverIdOf id = [] ∨ k = zeroBytes 32) := not_or.2 ⟨hid, hk⟩
  have hgenerate : schnorrZkpGenerate E H id secret X k =
      .ok (beBytes 32 (((beValue k.val : ℤ) - beValue product.val) % order).toNat) := by
    simp only [schnorrZkpGenerate, hnot, if_false, generatorMul_eq, throwCosignerException_ok,
      bind, Except.bind, ed25519AlgebraMulScalars, ed25519AlgebraSubScalars, val_ne_nil, or_self]
    rfl
  refine ⟨_, hgenerate, (schnorrZkpVerify_ok_iff hid).2
    ⟨beValue secret.val • E.base, beValue k.val • E.base, ?_, ?_, ?_⟩⟩
  · rw [ed25519_generic, E.decode_encode]
  · rw [ed25519_generic, E.decode_encode]
  · have hproduct : beValue product.val • E.base = c • (beValue secret.val • E.base) := by
      rw [beValue_beBytes_mod, mod_order_smul, mul_comm, mul_smul]
    rw [sub_smul_base, hproduct]
    exact add_sub_cancel _ _

end Scalars

section Decommitments
variable {H : HashFunctions} {keyId : ByteString} {ack : Bytes 32}
variable {decommitments : PlayerMap SetupDecommitment} {info info' : PlayerMap (PlayerInfo A)}

/-- A player's decommitment is one that a player who sees this ack loads. -/
structure Decommits (H : HashFunctions) (keyId : ByteString) (ack : Bytes 32)
    (decommitments : PlayerMap SetupDecommitment) (c : ℕ × Commitment) (d : SetupDecommitment)
    (aux : A.Paillier × A.RingPedersen) : Prop where
  decommitment : decommitments[c.1]? = some d
  opens : commitmentHash H c.2.salt keyId c.1 d = .ok c.2.commitment
  ack : d.ack = ack
  deserializes : deserializeAuxiliaryKeys A d.paillierPublicKey d.ringPedersenPublicKey = .ok aux

/-- What is known of a player once its decommitment has been loaded. -/
def infoOf (d : SetupDecommitment) (aux : A.Paillier × A.RingPedersen) : PlayerInfo A :=
  ⟨d.share.X, some aux.1, some aux.2⟩

theorem loadDecommitment_ok_iff {c : ℕ × Commitment} :
    loadDecommitment H keyId ack decommitments info c = .ok info' ↔
      ∃ d aux, Decommits H keyId ack decommitments c d aux ∧ c.1 ∈ info ∧
        info' = info.insert c.1 (infoOf d aux) := by
  rw [loadDecommitment]
  constructor
  · intro h
    cases hd : decommitments[c.1]? with
    | none =>
      rw [hd] at h
      cases h
    | some d =>
      simp only [hd, except_bind_ok_iff, verifySetupCommitment_ok_iff] at h
      obtain ⟨_, hopens, h⟩ := h
      split at h
      · cases h
      · rename_i hack
        split at h
        · cases h
        · rename_i hmem
          obtain ⟨aux, haux, hinfo⟩ := except_bind_ok_iff.1 h
          exact ⟨d, aux, ⟨hd, hopens, not_not.1 hack, haux⟩, not_not.1 hmem,
            (Except.ok.inj hinfo).symm⟩
  · intro h
    obtain ⟨d, aux, hd, hmem, rfl⟩ := h
    simp only [hd.decommitment, except_bind_ok_iff, verifySetupCommitment_ok_iff]
    refine ⟨(), hd.opens, ?_⟩
    rw [if_neg (not_not.2 hd.ack), if_neg (not_not.2 hmem)]
    exact except_bind_ok_iff.2 ⟨aux, hd.deserializes, rfl⟩

/-- Loading some decommitments one after the other, with a player at most once. -/
theorem loadDecommitments_ok {l : List (ℕ × Commitment)}
    (h : l.foldlM (loadDecommitment H keyId ack decommitments) info = .ok info')
    (hnodup : (l.map Prod.fst).Nodup) :
    (∀ c ∈ l, ∃ d aux, Decommits H keyId ack decommitments c d aux ∧ c.1 ∈ info ∧
      info'[c.1]? = some (infoOf d aux)) ∧ ∀ i, i ∉ l.map Prod.fst → info'[i]? = info[i]? := by
  induction l generalizing info with
  | nil =>
    cases h
    exact ⟨fun c hc => absurd hc List.not_mem_nil, fun _ _ => rfl⟩
  | cons c l ih =>
    rw [List.foldlM_cons, except_bind_ok_iff] at h
    obtain ⟨info₁, hc, h⟩ := h
    obtain ⟨d, aux, hd, hmem, rfl⟩ := loadDecommitment_ok_iff.1 hc
    rw [List.map_cons, List.nodup_cons] at hnodup
    obtain ⟨hnew, hrest⟩ := hnodup
    obtain ⟨hloaded, hothers⟩ := ih h hrest
    refine ⟨fun c' hc' => ?_, fun i hi => ?_⟩
    · rcases List.mem_cons.1 hc' with rfl | hc'
      · refine ⟨d, aux, hd, hmem, ?_⟩
        rw [hothers _ hnew, Std.ExtTreeMap.getElem?_insert_self]
      · obtain ⟨d', aux', hd', hmem', hget⟩ := hloaded c' hc'
        have hne : c.1 ≠ c'.1 := fun heq => hnew (heq ▸ List.mem_map_of_mem hc')
        rw [Std.ExtTreeMap.mem_insert, Nat.compare_eq_eq] at hmem'
        exact ⟨d', aux', hd', hmem'.resolve_left hne, hget⟩
    · rw [List.map_cons, List.mem_cons, not_or] at hi
      rw [hothers i hi.2, Std.ExtTreeMap.getElem?_insert, if_neg]
      rw [Nat.compare_eq_eq]
      exact Ne.symm hi.1

theorem exists_loadDecommitments {l : List (ℕ × Commitment)}
    (h : ∀ c ∈ l, c.1 ∈ info ∧
      ∃ d, ∃ aux : A.Paillier × A.RingPedersen, Decommits H keyId ack decommitments c d aux) :
    ∃ info', l.foldlM (loadDecommitment H keyId ack decommitments) info = .ok info' := by
  induction l generalizing info with
  | nil => exact ⟨info, rfl⟩
  | cons c l ih =>
    obtain ⟨hmem, d, aux, hd⟩ := h c List.mem_cons_self
    obtain ⟨info', hinfo'⟩ := @ih (info.insert c.1 (infoOf d aux)) fun c' hc' => by
      obtain ⟨hmem', hd'⟩ := h c' (List.mem_cons_of_mem c hc')
      exact ⟨Std.ExtTreeMap.mem_insert.2 (Or.inr hmem'), hd'⟩
    exact ⟨info', by
      rw [List.foldlM_cons, except_bind_ok_iff]
      exact ⟨_, loadDecommitment_ok_iff.2 ⟨d, aux, hd, hmem, rfl⟩, hinfo'⟩⟩

/-- All players' decommitments, loaded into metadata of just these players. -/
theorem verifyAndLoad_table {players : Finset ℕ} {commitment : ℕ → Commitment}
    {decommitment : ℕ → SetupDecommitment} {aux : ℕ → A.Paillier × A.RingPedersen}
    (hinfo : ∀ i, i ∈ info ↔ i ∈ players)
    (h : ∀ i ∈ players, Decommits H keyId (ackMessage H (table players commitment))
      (table players decommitment) (i, commitment i) (decommitment i) (aux i)) :
    verifyAndLoadSetupDecommitments H keyId (table players commitment)
      (table players decommitment) info =
        .ok (table players fun i => infoOf (decommitment i) (aux i)) := by
  rw [verifyAndLoadSetupDecommitments, if_neg (by rw [size_table, size_table]; simp)]
  have hmem : ∀ c ∈ (table players commitment).toList, c.1 ∈ players ∧ c.2 = commitment c.1 :=
    fun c hc => mem_toList_table.1 hc
  obtain ⟨info', hinfo'⟩ := @exists_loadDecommitments A H keyId _ (table players decommitment)
    info _ fun c hc => by
      obtain ⟨hi, hc₂⟩ := hmem c hc
      have hd := h c.1 hi
      rw [← hc₂] at hd
      exact ⟨(hinfo c.1).2 hi, decommitment c.1, aux c.1, hd⟩
  have hnodup : ((table players commitment).toList.map Prod.fst).Nodup :=
    NodePrograms.nodup_keys _
  obtain ⟨hloaded, hothers⟩ := loadDecommitments_ok hinfo' hnodup
  rw [hinfo']
  refine congrArg Except.ok (eq_table fun i v => ?_)
  by_cases hi : i ∈ players
  · obtain ⟨d, aux', hd, -, hget⟩ := hloaded (i, commitment i) (mem_toList_table.2 ⟨hi, rfl⟩)
    have hdecommitment := hd.decommitment.symm.trans (h i hi).decommitment
    obtain rfl := Option.some.inj hdecommitment
    obtain rfl := Except.ok.inj (hd.deserializes.symm.trans (h i hi).deserializes)
    rw [hget]
    simp [hi, eq_comm]
  · have hkey : i ∉ (table players commitment).toList.map Prod.fst := by
      intro hkey
      obtain ⟨c, hc, rfl⟩ := List.mem_map.1 hkey
      exact hi (hmem c hc).1
    have hnone : info[i]? = none :=
      Std.ExtTreeMap.getElem?_eq_none fun hmem => hi ((hinfo i).1 hmem)
    rw [hothers i hkey, hnone]
    simp [hi]

end Decommitments

section Sums
variable {E : Ed25519} {info : PlayerMap (PlayerInfo A)}

/-- Adding encoded points one after the other. -/
theorem foldlM_addPoints {V : Type} (f : V → EllipticCurvePoint) (P : V → E.Point) (Q : E.Point)
    {l : List V} (h : ∀ v ∈ l, E.decode (f v).ed25519 = some (P v)) :
    l.foldlM (fun sum v => throwCosignerException (addPoints E sum (f v)))
        (Ed25519Point.generic (E.encode Q)) =
      .ok (Ed25519Point.generic (E.encode (Q + (l.map P).sum))) := by
  induction l generalizing Q with
  | nil => rw [List.foldlM_nil, List.map_nil, List.sum_nil, add_zero]; rfl
  | cons v l ih =>
    have hadd : addPoints E (Ed25519Point.generic (E.encode Q)) (f v) =
        .ok (Ed25519Point.generic (E.encode (Q + P v))) :=
      addPoints_eq_ok_iff.2 ⟨Q, P v, by rw [ed25519_generic, E.decode_encode],
        h v List.mem_cons_self, rfl⟩
    rw [List.foldlM_cons, hadd, throwCosignerException_ok]
    have hrest := ih (Q + P v) fun v' hv' => h v' (List.mem_cons_of_mem v hv')
    rw [List.map_cons, List.sum_cons, ← add_assoc]
    exact hrest

/-- The encoding of the neutral element is the point at infinity. -/
def EncodesInfinity (E : Ed25519) : Prop := Ed25519Point.generic (E.encode 0) = infinityPoint

theorem sumShares_table (hzero : EncodesInfinity E) {players : Finset ℕ}
    {value : ℕ → PlayerInfo A} {P : ℕ → E.Point}
    (h : ∀ i ∈ players, E.decode (value i).publicShare.ed25519 = some (P i)) :
    sumShares E (table players value) =
      .ok (Ed25519Point.generic (E.encode (∑ i ∈ players, P i))) := by
  have hfold := foldlM_addPoints (E := E) (l := (table players value).toList)
    (fun e => e.2.publicShare) (fun e => P e.1) 0 fun e he => by
      obtain ⟨hi, hvalue⟩ := mem_toList_table.1 he
      rw [hvalue]
      exact h e.1 hi
  rw [sumShares, ← hzero, hfold, zero_add, sum_toList_table fun e : ℕ × PlayerInfo A => P e.1]

end Sums

end MpcDemo.KeySetupLaws
