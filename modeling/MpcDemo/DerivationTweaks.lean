import MpcDemo.ServerBlockLaws

/-!
# The tweak of a derivation path

Every party of a session gets the same fraction of the tweak of a path, and the fractions add up
to the tweak by which the derived public key differs from the stored one.
-/

namespace MpcDemo.DerivationTweaks
open ByteStrings Ed25519Algebra CosignerTypes AsymmetricEddsaCosigner FallibleState
open ServerBlockLaws

variable {E : Ed25519} {H : HashFunctions}

section Levels

/-- What a level of the derivation adds. -/
def levelTweak (H : HashFunctions) (keys : DerivedKeys) (childNum : ℕ) : Bytes 32 :=
  leftHalf (hashForDerive H keys.pubkey keys.privkey keys.chaincode childNum)

theorem addPoints_encode (P Q : E.Point) :
    addPoints E (Ed25519Point.generic (E.encode P)) (Ed25519Point.generic (E.encode Q)) =
      .ok (Ed25519Point.generic (E.encode (P + Q))) := by
  rw [addPoints, ed25519_generic, ed25519_generic, ed25519AlgebraAddPoints_encode]
  rfl

theorem deriveNextKeyLevel_private {keys : DerivedKeys} {P : E.Point}
    (h : keys.pubkey = Ed25519Point.generic (E.encode P)) (childNum : ℕ) :
    deriveNextKeyLevel E H true keys childNum =
      .ok ⟨Ed25519Point.generic (E.encode (P + beValue (levelTweak H keys childNum).val • E.base)),
        beBytes 32 ((beValue keys.privkey.val + beValue (levelTweak H keys childNum).val) % order),
        rightHalf (hashForDerive H keys.pubkey keys.privkey keys.chaincode childNum)⟩ := by
  rw [levelTweak, deriveNextKeyLevel]
  simp only [Bool.not_true, Bool.and_false, Bool.false_eq_true, if_false, if_true, generatorMul_eq]
  rw [h, addPoints_encode, ed25519AlgebraAddScalars_eq]

/-- A child that is not hardened does not depend on the private key. -/
theorem deriveNextKeyLevel_public {keys : DerivedKeys} {P : E.Point} {childNum : ℕ}
    (h : keys.pubkey = Ed25519Point.generic (E.encode P)) (hchild : isHardened childNum = false)
    (privkey : Ed25519Scalar) :
    deriveNextKeyLevel E H false { keys with privkey := privkey } childNum =
      .ok ⟨Ed25519Point.generic (E.encode (P + beValue (levelTweak H keys childNum).val • E.base)),
        privkey,
        rightHalf (hashForDerive H keys.pubkey keys.privkey keys.chaincode childNum)⟩ := by
  have hhash : hashForDerive H keys.pubkey privkey keys.chaincode childNum =
      hashForDerive H keys.pubkey keys.privkey keys.chaincode childNum := by
    simp only [hashForDerive, hchild, Bool.false_eq_true, if_false]
  rw [levelTweak, deriveNextKeyLevel]
  simp only [hchild, Bool.false_and, Bool.false_eq_true, if_false, generatorMul_eq, hhash]
  rw [h, addPoints_encode]

/-- A derivation adds the same tweak to the private and to the public key. -/
theorem exists_tweak (path : List ℕ) {keys : DerivedKeys} {P : E.Point}
    (h : keys.pubkey = Ed25519Point.generic (E.encode P)) :
    ∃ tweak derived, path.foldlM (deriveNextKeyLevel E H true) keys = .ok derived ∧
      derived.pubkey = Ed25519Point.generic (E.encode (P + tweak • E.base)) ∧
      beValue derived.privkey.val ≡ beValue keys.privkey.val + tweak [MOD order] ∧
      ((∀ c ∈ path, isHardened c = false) → ∀ privkey : Ed25519Scalar,
        path.foldlM (deriveNextKeyLevel E H false) { keys with privkey := privkey } =
          .ok { derived with privkey := privkey }) := by
  induction path generalizing keys P with
  | nil =>
    refine ⟨0, keys, rfl, ?_, Nat.ModEq.refl _, fun _ _ => rfl⟩
    rw [h, zero_smul, add_zero]
  | cons c path ih =>
    have hlevel := deriveNextKeyLevel_private (H := H) h c
    obtain ⟨tweak, derived, hfold, hpubkey, hprivkey, hpublic⟩ := @ih
      ⟨Ed25519Point.generic (E.encode (P + beValue (levelTweak H keys c).val • E.base)),
        beBytes 32 ((beValue keys.privkey.val + beValue (levelTweak H keys c).val) % order),
        rightHalf (hashForDerive H keys.pubkey keys.privkey keys.chaincode c)⟩ _ rfl
    refine ⟨beValue (levelTweak H keys c).val + tweak, derived, ?_, ?_, ?_, ?_⟩
    · rw [List.foldlM_cons, hlevel]
      exact hfold
    · rw [hpubkey, add_smul, add_assoc]
    · apply hprivkey.trans
      rw [beValue_beBytes_mod, ← add_assoc]
      exact (Nat.mod_modEq _ _).add_right tweak
    · intro hchildren privkey
      have hchild := hchildren c List.mem_cons_self
      rw [List.foldlM_cons, deriveNextKeyLevel_public h hchild]
      exact hpublic (fun d hd => hchildren d (List.mem_cons_of_mem c hd)) privkey

end Levels

section Fractions

/-- A byte that is not zero has an inverse modulo the order of the group. -/
theorem coprime_order : ∀ n < 256, 0 < n → Nat.Coprime n order := by
  decide +kernel

theorem exists_inverse {n : ℕ} (hpos : 0 < n) (hbyte : n < 256) :
    ∃ inv, ed25519AlgebraInverse (beBytes 32 n) = .ok inv ∧ n * beValue inv.val ≡ 1 [MOD order] := by
  have hlt : n < 256 ^ 32 := hbyte.trans (by decide)
  have hvalue : beValue (beBytes 32 n).val = n := beValue_beList_of_lt hlt
  have hcoprime := coprime_order n hbyte hpos
  refine ⟨beBytes 32 (Int.toNat (Nat.gcdA n order % order)), ?_, ?_⟩
  · rw [ed25519AlgebraInverse, hvalue, if_pos hcoprime]
  · have horder : (order : ℤ) ≠ 0 := by exact_mod_cast order_pos.ne'
    have hnonneg := Int.emod_nonneg (Nat.gcdA n order) horder
    have hsmall := Int.emod_lt_of_pos (Nat.gcdA n order) (Int.natCast_pos.2 order_pos)
    have hbound : Int.toNat (Nat.gcdA n order % order) < 256 ^ 32 := by
      have horder' := order_lt
      omega
    have hinv : beValue (beBytes 32 (Int.toNat (Nat.gcdA n order % order))).val =
        Int.toNat (Nat.gcdA n order % order) := beValue_beList_of_lt hbound
    rw [hinv, ← Int.natCast_modEq_iff]
    push_cast
    rw [Int.toNat_of_nonneg hnonneg]
    have hbezout := Nat.gcd_eq_gcd_ab n order
    rw [hcoprime] at hbezout
    calc (n : ℤ) * (Nat.gcdA n order % order) ≡ n * Nat.gcdA n order [ZMOD order] :=
          (Int.mod_modEq _ _).mul_left n
      _ ≡ 1 [ZMOD order] := by
          have hone : (n : ℤ) * Nat.gcdA n order = 1 + order * -Nat.gcdB n order := by
            push_cast at hbezout
            linarith
          rw [hone]
          exact Int.modEq_add_fac_self

/-- The fractions of the signers add up to the tweak of the derived key. -/
theorem exists_derivationKeyDelta {publicKey : EllipticCurvePoint} {P : E.Point}
    (hkey : publicKey = Ed25519Point.generic (E.encode P)) (chaincode : HDChaincode)
    (path : List ℕ) {signers : ℕ} (htwo : 2 ≤ signers) (hbyte : signers < 256) :
    ∃ delta tweak, derivationKeyDelta E H publicKey chaincode path signers =
        .ok (delta, E.encode (P + tweak • E.base)) ∧
      signers * beValue delta.val ≡ tweak [MOD order] ∧
      ((∀ c ∈ path, isHardened c = false) → derivePublicKeyGeneric E H publicKey chaincode path =
        .ok (Ed25519Point.generic (E.encode (P + tweak • E.base)))) := by
  have hzero : beValue (zeroBytes 32).val = 0 := by decide
  by_cases hpath : path = []
  · subst hpath
    refine ⟨zeroBytes 32, 0, ?_, ?_, ?_⟩
    · rw [derivationKeyDelta, if_pos rfl, hkey, ed25519_generic, zero_smul, add_zero]
    · rw [hzero, Nat.mul_zero]
    · intro _
      rw [zero_smul, add_zero, ← hkey]
      rfl
  · obtain ⟨tweak, derived, hfold, hpubkey, hprivkey, hpublic⟩ :=
      @exists_tweak E H path ⟨publicKey, zeroBytes 32, chaincode⟩ P hkey
    rw [hzero, Nat.zero_add] at hprivkey
    obtain ⟨inv, hinv, hone⟩ := exists_inverse (Nat.lt_of_lt_of_le Nat.zero_lt_two htwo) hbyte
    refine ⟨beBytes 32 (beValue derived.privkey.val * beValue inv.val % order), tweak, ?_, ?_, ?_⟩
    · have hderive : derivePrivateAndPublicKeys E H publicKey (zeroBytes 32) chaincode path =
          .ok derived := by
        rw [derivePrivateAndPublicKeys, hfold]
        rfl
      have hmul : ed25519AlgebraMulScalars derived.privkey.val inv.val =
          .ok (beBytes 32 (beValue derived.privkey.val * beValue inv.val % order)) := by
        simp only [ed25519AlgebraMulScalars, val_ne_nil, or_self, if_false]
      have hsplit : 1 < signers := htwo
      simp only [derivationKeyDelta, hpath, if_false, hderive, Nat.mod_eq_of_lt hbyte, hsplit,
        if_true, hinv, throwCosignerException_ok, hpubkey, ed25519_generic]
      exact except_bind_ok_iff.2 ⟨inv, rfl, except_bind_ok_iff.2 ⟨_, by rw [hmul]; rfl, rfl⟩⟩
    · rw [beValue_beBytes_mod]
      calc signers * (beValue derived.privkey.val * beValue inv.val % order)
          ≡ signers * (beValue derived.privkey.val * beValue inv.val) [MOD order] :=
            (Nat.mod_modEq _ _).mul_left signers
        _ = beValue derived.privkey.val * (signers * beValue inv.val) := by ring
        _ ≡ beValue derived.privkey.val * 1 [MOD order] := hone.mul_left _
        _ = beValue derived.privkey.val := Nat.mul_one _
        _ ≡ tweak [MOD order] := hprivkey
    · intro hchildren
      rw [derivePublicKeyGeneric, hpublic hchildren (zeroBytes 32), ← hpubkey]
      rfl

end Fractions

end MpcDemo.DerivationTweaks
