import Mathlib

/-!
# Byte strings and fixed-width integers

A `ByteString` is the content of a C++ string or byte vector, a `Bytes n` that of an
`uint8_t[n]`. Integers are read from bytes and written to bytes in either byte order;
writing keeps the low bytes, as a conversion to a shorter machine integer does.
-/

namespace MpcDemo.ByteStrings

abbrev ByteString := List UInt8

abbrev Bytes (n : ℕ) := {l : ByteString // l.length = n}

/-- The bytes of an ASCII literal. -/
def ascii (s : String) : ByteString := s.toList.map fun c => UInt8.ofNat c.toNat

def leValue : ByteString → ℕ
  | [] => 0
  | b :: l => b.toNat + 256 * leValue l

def leList : ℕ → ℕ → ByteString
  | 0, _ => []
  | k + 1, n => UInt8.ofNat n :: leList k (n / 256)

def beValue (l : ByteString) : ℕ := leValue l.reverse

def beList (k n : ℕ) : ByteString := (leList k n).reverse

@[simp] theorem length_leList (k n : ℕ) : (leList k n).length = k := by
  induction k generalizing n with
  | zero => rfl
  | succ k ih => simp [leList, ih]

@[simp] theorem length_beList (k n : ℕ) : (beList k n).length = k := by
  simp [beList]

theorem leValue_lt (l : ByteString) : leValue l < 256 ^ l.length := by
  induction l with
  | nil => simp [leValue]
  | cons b l ih =>
    have hb := b.toNat_lt
    simp only [leValue, List.length_cons, pow_succ]
    omega

theorem leValue_leList (k n : ℕ) : leValue (leList k n) = n % 256 ^ k := by
  induction k generalizing n with
  | zero => simp [leValue, leList, Nat.mod_one]
  | succ k ih =>
    have hlow : (UInt8.ofNat n).toNat = n % 256 := UInt8.toNat_ofNat'
    rw [leList, leValue, ih, hlow, pow_succ', Nat.mod_mul]

theorem leList_leValue (l : ByteString) : leList l.length (leValue l) = l := by
  induction l with
  | nil => rfl
  | cons b l ih =>
    have hb := b.toNat_lt
    have hdiv : (b.toNat + 256 * leValue l) / 256 = leValue l := by omega
    have hlow : UInt8.ofNat (b.toNat + 256 * leValue l) = b := by
      apply UInt8.toNat_inj.1
      rw [UInt8.toNat_ofNat']
      omega
    rw [List.length_cons, leList, leValue, hdiv, hlow, ih]

theorem leValue_leList_of_lt {k n : ℕ} (h : n < 256 ^ k) : leValue (leList k n) = n := by
  rw [leValue_leList, Nat.mod_eq_of_lt h]

theorem leValue_append (l l' : ByteString) :
    leValue (l ++ l') = leValue l + 256 ^ l.length * leValue l' := by
  induction l with
  | nil => simp [leValue]
  | cons b l ih =>
    simp only [List.cons_append, leValue, ih, List.length_cons, pow_succ]
    ring

theorem leValue_inj {l l' : ByteString} (hl : l.length = l'.length)
    (h : leValue l = leValue l') : l = l' := by
  rw [← leList_leValue l, ← leList_leValue l', hl, h]

/-- The low bytes of a longer string's value are its first bytes. -/
theorem leList_leValue_append (l l' : ByteString) : leList l.length (leValue (l ++ l')) = l := by
  apply leValue_inj (length_leList _ _)
  rw [leValue_leList, leValue_append, Nat.add_mul_mod_self_left, Nat.mod_eq_of_lt (leValue_lt l)]

theorem beValue_beList_of_lt {k n : ℕ} (h : n < 256 ^ k) : beValue (beList k n) = n := by
  rw [beValue, beList, List.reverse_reverse, leValue_leList_of_lt h]

theorem leValue_replicate_zero (k : ℕ) : leValue (List.replicate k 0) = 0 := by
  induction k with
  | zero => rfl
  | succ k ih => simp [List.replicate_succ, leValue, ih]

variable {n : ℕ}

/-- `n` little-endian bytes of an integer. -/
def leBytes (n v : ℕ) : Bytes n := ⟨leList n v, length_leList n v⟩

def beBytes (n v : ℕ) : Bytes n := ⟨beList n v, length_beList n v⟩

def zeroBytes (n : ℕ) : Bytes n := ⟨List.replicate n 0, List.length_replicate⟩

/-- `bswap_256`: the same bytes in the other order. -/
def swapBytes (b : Bytes n) : Bytes n := ⟨b.val.reverse, by rw [List.length_reverse, b.2]⟩

@[simp] theorem val_leBytes (v : ℕ) : (leBytes n v).val = leList n v := rfl

@[simp] theorem val_beBytes (v : ℕ) : (beBytes n v).val = beList n v := rfl

@[simp] theorem val_swapBytes (b : Bytes n) : (swapBytes b).val = b.val.reverse := rfl

@[simp] theorem val_zeroBytes : (zeroBytes n).val = List.replicate n 0 := rfl

@[simp] theorem swapBytes_swapBytes (b : Bytes n) : swapBytes (swapBytes b) = b := by
  apply Subtype.ext
  simp

@[simp] theorem swapBytes_leBytes (v : ℕ) : swapBytes (leBytes n v) = beBytes n v := rfl

@[simp] theorem swapBytes_beBytes (v : ℕ) : swapBytes (beBytes n v) = leBytes n v := by
  rw [← swapBytes_leBytes, swapBytes_swapBytes]

@[simp] theorem leValue_swapBytes (b : Bytes n) :
    leValue (swapBytes b).val = beValue b.val := rfl

@[simp] theorem beValue_swapBytes (b : Bytes n) :
    beValue (swapBytes b).val = leValue b.val := by
  simp [beValue]

theorem leBytes_leValue (b : Bytes n) : leBytes n (leValue b.val) = b := by
  apply Subtype.ext
  have h := leList_leValue b.val
  rwa [b.2] at h

theorem beValue_zeroBytes : beValue (zeroBytes n).val = 0 := by
  simp [beValue, leValue_replicate_zero]

theorem leValue_zeroBytes : leValue (zeroBytes n).val = 0 := by
  simp [leValue_replicate_zero]

/-- Read an `uint8_t[n]` at an offset of a buffer; `none` when it would pass the end. -/
def readBytes (n : ℕ) (buffer : ByteString) (offset : ℕ) : Option (Bytes n) :=
  if h : ((buffer.drop offset).take n).length = n then some ⟨(buffer.drop offset).take n, h⟩
  else none

theorem readBytes_eq_some_iff {buffer : ByteString} {offset : ℕ} {b : Bytes n} :
    readBytes n buffer offset = some b ↔ (buffer.drop offset).take n = b.val := by
  rw [readBytes]
  split
  · simp [Subtype.ext_iff]
  · rename_i hne
    simp only [reduceCtorEq, false_iff]
    intro h
    exact hne (by rw [h, b.2])

theorem readBytes_append (before : ByteString) (b : Bytes n) (after : ByteString) :
    readBytes n (before ++ (b.val ++ after)) before.length = some b := by
  rw [readBytes_eq_some_iff, List.drop_left, List.take_left' b.2]

end MpcDemo.ByteStrings
