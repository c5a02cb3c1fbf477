import MpcDemo.ByteStrings

/-!
# Bytes as hexadecimal text

`hex_utils.cpp`. Every two characters are read by `strtol`, which skips leading blanks, takes
a sign and stops at the first character that is no hexadecimal digit. In two characters a
`0x` reads as zero with or without the prefix rule, which is left out.
-/

namespace MpcDemo.HexText
open ByteStrings

/-- A lower case digit. -/
def hexDigit (n : ℕ) : UInt8 := if n < 10 then UInt8.ofNat (48 + n) else UInt8.ofNat (87 + n)

def hexValue (c : UInt8) : Option ℕ :=
  if 48 ≤ c.toNat ∧ c.toNat ≤ 57 then some (c.toNat - 48)
  else if 97 ≤ c.toNat ∧ c.toNat ≤ 102 then some (c.toNat - 87)
  else if 65 ≤ c.toNat ∧ c.toNat ≤ 70 then some (c.toNat - 55)
  else none

def toHex (data : ByteString) : ByteString :=
  data.flatMap fun b => [hexDigit (b.toNat / 16), hexDigit (b.toNat % 16)]

/-- The value of the leading hexadecimal digits. -/
def readDigits : ℕ → ByteString → ℕ
  | value, [] => value
  | value, c :: rest =>
    match hexValue c with
    | some d => readDigits (16 * value + d) rest
    | none => value

/-- The characters of `isspace`. -/
def isBlank (c : UInt8) : Bool := c.toNat = 32 ∨ 9 ≤ c.toNat ∧ c.toNat ≤ 13

def strtol (text : ByteString) : ℤ :=
  match text.dropWhile isBlank with
  | c :: rest =>
    if c.toNat = 45 then -(readDigits 0 rest : ℤ)
    else if c.toNat = 43 then readDigits 0 rest
    else readDigits 0 (c :: rest)
  | [] => 0

def fromHex : ByteString → ByteString
  | [] => []
  | [c] => [UInt8.ofInt (strtol [c])]
  | c :: d :: rest => UInt8.ofInt (strtol [c, d]) :: fromHex rest

theorem hexDigit_spec : ∀ n < 16, hexValue (hexDigit n) = some n ∧ isBlank (hexDigit n) = false ∧
    (hexDigit n).toNat ≠ 45 ∧ (hexDigit n).toNat ≠ 43 := by
  decide

theorem strtol_hexDigits {m n : ℕ} (hm : m < 16) (hn : n < 16) :
    strtol [hexDigit m, hexDigit n] = 16 * m + n := by
  obtain ⟨hvalue, hblank, hminus, hplus⟩ := hexDigit_spec m hm
  obtain ⟨hvalue', -⟩ := hexDigit_spec n hn
  simp only [strtol, List.dropWhile_cons, hblank, Bool.false_eq_true, if_false, hminus, hplus,
    readDigits, hvalue, hvalue']
  push_cast
  ring

theorem fromHex_toHex (data : ByteString) : fromHex (toHex data) = data := by
  induction data with
  | nil => rfl
  | cons b data ih =>
    have hb := b.toNat_lt
    have hhigh : b.toNat / 16 < 16 := by omega
    have hlow : b.toNat % 16 < 16 := by omega
    have hbyte : UInt8.ofInt (strtol [hexDigit (b.toNat / 16), hexDigit (b.toNat % 16)]) = b := by
      rw [strtol_hexDigits hhigh hlow]
      have hsum : (16 * (b.toNat / 16 : ℕ) + (b.toNat % 16 : ℕ) : ℤ) = (b.toNat : ℕ) := by omega
      rw [hsum, ← UInt8.toNat_inj, UInt8.ofInt]
      simp
      omega
    simp only [toHex, List.flatMap_cons, List.cons_append, List.nil_append, fromHex, hbyte]
    exact congrArg (b :: ·) ih

/-- A payload that stands in a JSON string as it is: no quote, no backslash, no control
character. -/
def Plain (payload : ByteString) : Prop :=
  ∀ c ∈ payload, c.toNat ≠ 34 ∧ c.toNat ≠ 92 ∧ 32 ≤ c.toNat

instance (payload : ByteString) : Decidable (Plain payload) :=
  inferInstanceAs (Decidable (∀ c ∈ payload, _))

theorem plain_toHex (data : ByteString) : Plain (toHex data) := by
  have hdigit : ∀ n < 16, (hexDigit n).toNat ≠ 34 ∧ (hexDigit n).toNat ≠ 92 ∧
      32 ≤ (hexDigit n).toNat := by decide
  intro c hc
  obtain ⟨b, -, hc⟩ := List.mem_flatMap.1 hc
  have hb := b.toNat_lt
  rcases List.mem_cons.1 hc with rfl | hc
  · exact hdigit _ (by omega)
  · obtain rfl := List.mem_singleton.1 hc
    exact hdigit _ (by omega)

end MpcDemo.HexText
