import MpcDemo.ByteStrings

/-!
# UTF-8 text

A byte string is UTF-8 when it is the encoding of some characters. ASCII characters are bytes of
their own, so that text around one can be taken apart there.
-/

namespace MpcDemo.Utf8Text
open ByteStrings

def Utf8 (bytes : ByteString) : Prop :=
  ∃ chars : List Char, chars.flatMap String.utf8EncodeChar = bytes

def isAscii (c : UInt8) : Bool := c.toNat < 128

theorem utf8_iff_isValidUTF8 {bytes : ByteString} :
    Utf8 bytes ↔ bytes.toByteArray.IsValidUTF8 := by
  constructor
  · intro h
    obtain ⟨chars, rfl⟩ := h
    exact ⟨chars, rfl⟩
  · intro h
    obtain ⟨chars, hchars⟩ := h
    have hlist := congrArg (fun b : ByteArray => b.data.toList) hchars
    refine ⟨chars, ?_⟩
    simpa [List.utf8Encode] using hlist.symm

instance (bytes : ByteString) : Decidable (Utf8 bytes) :=
  decidable_of_iff bytes.toByteArray.IsValidUTF8 utf8_iff_isValidUTF8.symm

theorem Utf8.append {a b : ByteString} (ha : Utf8 a) (hb : Utf8 b) : Utf8 (a ++ b) := by
  obtain ⟨chars, rfl⟩ := ha
  obtain ⟨chars', rfl⟩ := hb
  exact ⟨chars ++ chars', List.flatMap_append⟩

/-- A character is one ASCII byte or several others. -/
theorem utf8EncodeChar_cases (c : Char) :
    (∃ b, String.utf8EncodeChar c = [b] ∧ isAscii b = true) ∨
      ∀ b ∈ String.utf8EncodeChar c, isAscii b = false := by
  have hbyte : ∀ n : ℕ, 128 ≤ n → n < 256 → isAscii (UInt8.ofNat n) = false := by
    intro n hlow hhigh
    simp only [isAscii, UInt8.toNat_ofNat_of_lt' hhigh, decide_eq_false_iff_not]
    omega
  fun_cases String.utf8EncodeChar c with
  | case1 v h =>
    refine Or.inl ⟨_, rfl, ?_⟩
    have hsmall : v < 256 := by omega
    simp only [isAscii, UInt8.toNat_ofNat_of_lt' hsmall, decide_eq_true_eq]
    omega
  | case2 v h h' =>
    refine Or.inr fun b hb => ?_
    simp only [List.mem_cons, List.not_mem_nil, or_false] at hb
    rcases hb with rfl | rfl
    · exact hbyte _ (by omega) (by omega)
    · exact hbyte _ (by omega) (by omega)
  | case3 v h h' h'' =>
    refine Or.inr fun b hb => ?_
    simp only [List.mem_cons, List.not_mem_nil, or_false] at hb
    rcases hb with rfl | rfl | rfl
    · exact hbyte _ (by omega) (by omega)
    · exact hbyte _ (by omega) (by omega)
    · exact hbyte _ (by omega) (by omega)
  | case4 v h h' h'' =>
    refine Or.inr fun b hb => ?_
    simp only [List.mem_cons, List.not_mem_nil, or_false] at hb
    rcases hb with rfl | rfl | rfl | rfl
    · exact hbyte _ (by omega) (by omega)
    · exact hbyte _ (by omega) (by omega)
    · exact hbyte _ (by omega) (by omega)
    · exact hbyte _ (by omega) (by omega)

theorem utf8_of_ascii {bytes : ByteString} (h : ∀ c ∈ bytes, isAscii c = true) : Utf8 bytes := by
  induction bytes with
  | nil => exact ⟨[], rfl⟩
  | cons c bytes ih =>
    obtain ⟨chars, hchars⟩ := ih fun d hd => h d (List.mem_cons_of_mem c hd)
    have hc : c.toNat < 128 := by simpa [isAscii] using h c List.mem_cons_self
    have hvalid : c.toNat.isValidChar := Or.inl (by omega)
    have hchar : String.utf8EncodeChar (Char.ofNat c.toNat) = [c] := by
      have hval : (Char.ofNat c.toNat).val.toNat = c.toNat := by
        rw [Char.ofNat, dif_pos hvalid]
        rfl
      have hle : c.toNat ≤ 0x7f := by omega
      simp only [String.utf8EncodeChar, hval, if_pos hle, UInt8.ofNat_toNat]
    exact ⟨Char.ofNat c.toNat :: chars, by rw [List.flatMap_cons, hchar, hchars]; rfl⟩

/-- Text can be taken apart at an ASCII character. -/
theorem utf8_of_append_cons {a b : ByteString} {c : UInt8} (hc : isAscii c = true)
    (h : Utf8 (a ++ c :: b)) : Utf8 a ∧ Utf8 b := by
  obtain ⟨chars, hchars⟩ := h
  induction chars generalizing a with
  | nil =>
    have hlength := congrArg List.length hchars
    simp at hlength
  | cons d chars ih =>
    rw [List.flatMap_cons] at hchars
    rcases List.append_eq_append_iff.1 hchars with ⟨a', rfl, hrest⟩ | ⟨b', hd, hrest⟩
    · obtain ⟨ha', hb⟩ := ih hrest
      exact ⟨Utf8.append ⟨[d], List.flatMap_singleton _ _⟩ ha', hb⟩
    · cases b' with
      | nil =>
        rw [List.append_nil] at hd
        cases chars with
        | nil => cases hrest
        | cons e chars =>
          obtain ⟨-, hb⟩ := @ih [] hrest.symm
          exact ⟨⟨[d], by rw [List.flatMap_singleton, hd]⟩, hb⟩
      | cons c' b' =>
        obtain ⟨rfl, rfl⟩ := List.cons.inj hrest
        rcases utf8EncodeChar_cases d with ⟨x, hx, -⟩ | hnone
        · rw [hx] at hd
          have ha : a = [] ∧ b' = [] := by
            have hlength := congrArg List.length hd
            simp only [List.length_append, List.length_cons, List.length_nil] at hlength
            exact ⟨List.eq_nil_of_length_eq_zero (by omega),
              List.eq_nil_of_length_eq_zero (by omega)⟩
          rw [ha.1, ha.2]
          exact ⟨⟨[], rfl⟩, ⟨chars, rfl⟩⟩
        · have hmem : c ∈ String.utf8EncodeChar d := by
            rw [hd]
            exact List.mem_append_right a List.mem_cons_self
          rw [hnone c hmem] at hc
          cases hc

end MpcDemo.Utf8Text
