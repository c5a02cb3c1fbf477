import MpcDemo.CosignerTypes

/-!
# Scalars of the four curves

The arithmetic of `ed25519_algebra.c` and `GFp_curve_algebra.c` on scalars: numbers of 32 bytes
that are added, subtracted and multiplied modulo the order of the group. What a scalar stands for is
its residue, and the operations are those of the residues.
-/

namespace MpcDemo.GroupScalars
open ByteStrings Ed25519Algebra CosignerTypes

def groupOrder : CosignerSignAlgorithm → ℕ
  | .ecdsaSecp256k1 => 0xfffffffffffffffffffffffffffffffebaaedce6af48a03bbfd25e8cd0364141
  | .eddsaEd25519 => order
  | .ecdsaSecp256r1 => 0xffffffff00000000ffffffffffffffffbce6faada7179e84f3b9cac2fc632551
  | .ecdsaStark => 0x0800000000000010ffffffffffffffffb781126dcae7b2321e66a241adc64d2f

def pointSize : CosignerSignAlgorithm → ℕ
  | .eddsaEd25519 => 32
  | _ => 33

theorem groupOrder_pos (algorithm : CosignerSignAlgorithm) : 0 < groupOrder algorithm := by
  cases algorithm <;> decide

theorem groupOrder_lt (algorithm : CosignerSignAlgorithm) : groupOrder algorithm < 256 ^ 32 := by
  cases algorithm <;> decide

section Operations
variable (algorithm : CosignerSignAlgorithm) (a b : ByteString)

def addScalars : Except AlgebraStatus (Bytes 32) :=
  if a = [] ∨ b = [] then .error .invalidParameter
  else .ok (beBytes 32 ((beValue a + beValue b) % groupOrder algorithm))

def subScalars : Except AlgebraStatus (Bytes 32) :=
  if a = [] ∨ b = [] then .error .invalidParameter
  else .ok (beBytes 32 (((beValue a : ℤ) - beValue b) % groupOrder algorithm).toNat)

def mulScalars : Except AlgebraStatus (Bytes 32) :=
  if a = [] ∨ b = [] then .error .invalidParameter
  else .ok (beBytes 32 (beValue a * beValue b % groupOrder algorithm))

end Operations

/-- What a number stands for in the group. -/
def residue (algorithm : CosignerSignAlgorithm) (a : ByteString) : ZMod (groupOrder algorithm) :=
  (beValue a : ℕ)

variable {algorithm : CosignerSignAlgorithm} {a b : ByteString}

theorem residue_of_lt {n : ℕ} (h : n < groupOrder algorithm) :
    residue algorithm (beBytes 32 n).val = (n : ZMod (groupOrder algorithm)) := by
  have hvalue : beValue (beBytes 32 n).val = n :=
    beValue_beList_of_lt (h.trans (groupOrder_lt algorithm))
  rw [residue, hvalue]

theorem residue_mod (n : ℕ) : residue algorithm (beBytes 32 (n % groupOrder algorithm)).val =
    (n : ZMod (groupOrder algorithm)) := by
  rw [residue_of_lt (Nat.mod_lt _ (groupOrder_pos algorithm)), ZMod.natCast_mod]

theorem exists_addScalars (ha : a ≠ []) (hb : b ≠ []) : ∃ c, addScalars algorithm a b = .ok c ∧
    residue algorithm c.val = residue algorithm a + residue algorithm b := by
  refine ⟨_, if_neg (not_or.2 ⟨ha, hb⟩), ?_⟩
  rw [residue_mod, Nat.cast_add]
  rfl

theorem exists_subScalars (ha : a ≠ []) (hb : b ≠ []) : ∃ c, subScalars algorithm a b = .ok c ∧
    residue algorithm c.val = residue algorithm a - residue algorithm b := by
  have hpos : (0 : ℤ) < groupOrder algorithm := by exact_mod_cast groupOrder_pos algorithm
  have hnonneg := Int.emod_nonneg ((beValue a : ℤ) - beValue b) hpos.ne'
  have hlt := Int.emod_lt_of_pos ((beValue a : ℤ) - beValue b) hpos
  refine ⟨_, if_neg (not_or.2 ⟨ha, hb⟩), ?_⟩
  rw [residue_of_lt (by omega), ← Int.cast_natCast, Int.toNat_of_nonneg hnonneg, ZMod.intCast_mod,
    Int.cast_sub, Int.cast_natCast, Int.cast_natCast, residue, residue]

theorem exists_mulScalars (ha : a ≠ []) (hb : b ≠ []) : ∃ c, mulScalars algorithm a b = .ok c ∧
    residue algorithm c.val = residue algorithm a * residue algorithm b := by
  refine ⟨_, if_neg (not_or.2 ⟨ha, hb⟩), ?_⟩
  rw [residue_mod, Nat.cast_mul]
  rfl

end MpcDemo.GroupScalars
