import MpcDemo.HexText
import MpcDemo.Utf8Text

/-!
# Query strings

How a server reads the arguments of a URL (`application/x-www-form-urlencoded`): the query is
split at `&` and at the first `=` of each piece, a plus is a blank, a percent sign with two
hexadecimal digits is a byte, and the bytes are read as UTF-8. The first value of a name wins.
How bytes that are no UTF-8 are replaced is a parameter.
-/

namespace MpcDemo.UrlQueries
open ByteStrings HexText Utf8Text

/-- A replacement of the parts of a byte string that are no UTF-8, which leaves UTF-8 and every
ASCII character as it is. -/
structure Replaces (replaceInvalid : ByteString → ByteString) : Prop where
  valid : ∀ bytes, Utf8 bytes → replaceInvalid bytes = bytes
  ascii : ∀ bytes, (replaceInvalid bytes).filter isAscii = bytes.filter isAscii

def isHex (c : UInt8) : Bool := (hexValue c).isSome

def percentDecode : ByteString → ByteString
  | [] => []
  | [c] => [c]
  | [c, d] => [c, d]
  | c :: d :: e :: rest =>
    if c = 37 ∧ isHex d ∧ isHex e then
      UInt8.ofNat (16 * (hexValue d).getD 0 + (hexValue e).getD 0) :: percentDecode rest
    else c :: percentDecode (d :: e :: rest)

def plusToBlank (bytes : ByteString) : ByteString := bytes.map fun c => if c = 43 then 32 else c

def formDecode (replaceInvalid : ByteString → ByteString) (bytes : ByteString) : ByteString :=
  replaceInvalid (percentDecode (plusToBlank bytes))

def pieces (separator : UInt8) : ByteString → List ByteString
  | [] => [[]]
  | c :: rest =>
    if c = separator then [] :: pieces separator rest
    else (pieces separator rest).modifyHead (c :: ·)

def arguments (replaceInvalid : ByteString → ByteString) (query : ByteString) :
    List (ByteString × ByteString) :=
  (pieces 38 query).map fun piece =>
    (formDecode replaceInvalid (piece.takeWhile (· ≠ 61)),
      formDecode replaceInvalid ((piece.dropWhile (· ≠ 61)).drop 1))

def argument (replaceInvalid : ByteString → ByteString) (query name : ByteString) :
    Option ByteString :=
  ((arguments replaceInvalid query).find? fun a => a.1 = name).map Prod.snd

/-- What a client sends of a URL: the part after the first question mark and before the
fragment. -/
def queryOf (url : ByteString) : ByteString :=
  ((url.dropWhile (· ≠ 63)).drop 1).takeWhile (· ≠ 35)

section Weights

/-- The sum of the weights of some bytes. -/
def weigh (weight : UInt8 → ℕ) (bytes : ByteString) : ℕ := (bytes.map weight).sum

variable {weight : UInt8 → ℕ}

@[simp] theorem weigh_nil : weigh weight [] = 0 := rfl

@[simp] theorem weigh_cons (c : UInt8) (bytes : ByteString) :
    weigh weight (c :: bytes) = weight c + weigh weight bytes := by
  simp [weigh]

@[simp] theorem weigh_append (a b : ByteString) :
    weigh weight (a ++ b) = weigh weight a + weigh weight b := by
  simp [weigh]

theorem weigh_filter (hweight : ∀ c, isAscii c = false → weight c = 0) (bytes : ByteString) :
    weigh weight (bytes.filter isAscii) = weigh weight bytes := by
  induction bytes with
  | nil => rfl
  | cons c bytes ih =>
    cases hc : isAscii c with
    | true => rw [List.filter_cons_of_pos hc, weigh_cons, weigh_cons, ih]
    | false =>
      have hneg : ¬ isAscii c = true := by rw [hc]; exact Bool.false_ne_true
      rw [List.filter_cons_of_neg hneg, weigh_cons, hweight c hc, ih, Nat.zero_add]

theorem Replaces.weigh_eq {replaceInvalid : ByteString → ByteString}
    (h : Replaces replaceInvalid) (hweight : ∀ c, isAscii c = false → weight c = 0)
    (bytes : ByteString) : weigh weight (replaceInvalid bytes) = weigh weight bytes := by
  rw [← weigh_filter hweight, h.ascii, weigh_filter hweight]

theorem weigh_plusToBlank (hplus : weight 43 = weight 32) (bytes : ByteString) :
    weigh weight (plusToBlank bytes) = weigh weight bytes := by
  induction bytes with
  | nil => rfl
  | cons c bytes ih =>
    have hmap : plusToBlank (c :: bytes) = (if c = 43 then 32 else c) :: plusToBlank bytes := rfl
    rw [hmap, weigh_cons, weigh_cons, ih]
    by_cases hc : c = 43
    · rw [if_pos hc, hc, hplus]
    · rw [if_neg hc]

/-- Characters that are no part of a code keep their weight. -/
theorem le_weigh_percentDecode (hpercent : weight 37 = 0) (hhex : ∀ c, isHex c → weight c = 0)
    (bytes : ByteString) : weigh weight bytes ≤ weigh weight (percentDecode bytes) := by
  induction bytes using percentDecode.induct with
  | case1 => rfl
  | case2 c => rfl
  | case3 c d => rfl
  | case4 c d e rest hcode ih =>
    obtain ⟨hc, hd, he⟩ := hcode
    rw [percentDecode, if_pos ⟨hc, hd, he⟩]
    simp only [weigh_cons, hc, hpercent, hhex d hd, hhex e he]
    omega
  | case5 c d e rest hcode ih =>
    rw [percentDecode, if_neg hcode, weigh_cons, weigh_cons]
    exact Nat.add_le_add_left ih _

/-- Decoding makes nothing that weighs more than a percent sign. -/
theorem weigh_percentDecode_le (hmax : ∀ c, weight c ≤ weight 37) (bytes : ByteString) :
    weigh weight (percentDecode bytes) ≤ weigh weight bytes := by
  induction bytes using percentDecode.induct with
  | case1 => rfl
  | case2 c => rfl
  | case3 c d => rfl
  | case4 c d e rest hcode ih =>
    rw [percentDecode, if_pos hcode]
    have hle := hmax (UInt8.ofNat (16 * (hexValue d).getD 0 + (hexValue e).getD 0))
    simp only [weigh_cons, hcode.1]
    omega
  | case5 c d e rest hcode ih =>
    rw [percentDecode, if_neg hcode, weigh_cons, weigh_cons]
    exact Nat.add_le_add_left ih _

end Weights

section Codes

/-- A percent sign with two hexadecimal digits. -/
def HasCode (bytes : ByteString) : Prop :=
  ∃ d e, isHex d = true ∧ isHex e = true ∧ [37, d, e] <:+: bytes

theorem hasCode_cons {c d e : UInt8} {rest : ByteString} :
    HasCode (c :: d :: e :: rest) ↔
      (c = 37 ∧ isHex d = true ∧ isHex e = true) ∨ HasCode (d :: e :: rest) := by
  constructor
  · intro h
    obtain ⟨d', e', hd, he, hinfix⟩ := h
    rcases List.infix_cons_iff.1 hinfix with hstart | hlater
    · obtain ⟨hc, hpair⟩ := List.cons_prefix_cons.1 hstart
      obtain ⟨hd', hlast⟩ := List.cons_prefix_cons.1 hpair
      have he' := (List.cons_prefix_cons.1 hlast).1
      exact Or.inl ⟨hc.symm, hd' ▸ hd, he' ▸ he⟩
    · exact Or.inr ⟨d', e', hd, he, hlater⟩
  · intro h
    rcases h with ⟨rfl, hd, he⟩ | ⟨d', e', hd, he, hinfix⟩
    · exact ⟨d, e, hd, he, (List.prefix_append [37, d, e] rest).isInfix⟩
    · exact ⟨d', e', hd, he, List.infix_cons hinfix⟩

theorem not_hasCode_of_short {bytes : ByteString} (h : bytes.length < 3) : ¬ HasCode bytes := by
  intro hcode
  obtain ⟨d, e, -, -, hinfix⟩ := hcode
  have hlength := hinfix.length_le
  simp only [List.length_cons, List.length_nil] at hlength
  omega

theorem percentDecode_of_not_hasCode {bytes : ByteString} (h : ¬ HasCode bytes) :
    percentDecode bytes = bytes := by
  induction bytes using percentDecode.induct with
  | case1 => rfl
  | case2 c => rfl
  | case3 c d => rfl
  | case4 c d e rest hcode ih => exact absurd (hasCode_cons.2 (Or.inl hcode)) h
  | case5 c d e rest hcode ih =>
    rw [percentDecode, if_neg hcode, ih fun hlater => h (hasCode_cons.2 (Or.inr hlater))]

theorem isAscii_of_isHex {c : UInt8} (h : isHex c = true) : isAscii c = true := by
  simp only [isHex, hexValue] at h
  simp only [isAscii, decide_eq_true_eq]
  split at h
  · omega
  · split at h
    · omega
    · split at h
      · omega
      · cases h

theorem length_filter_percentDecode_le (bytes : ByteString) :
    ((percentDecode bytes).filter isAscii).length ≤ (bytes.filter isAscii).length := by
  induction bytes using percentDecode.induct with
  | case1 => rfl
  | case2 c => rfl
  | case3 c d => rfl
  | case4 c d e rest hcode ih =>
    rw [percentDecode, if_pos hcode]
    have hd := isAscii_of_isHex hcode.2.1
    have he := isAscii_of_isHex hcode.2.2
    simp only [List.filter_cons, hd, he, if_true]
    split <;> split <;> simp only [List.length_cons] <;> omega
  | case5 c d e rest hcode ih =>
    rw [percentDecode, if_neg hcode, List.filter_cons (x := c), List.filter_cons (x := c)]
    split
    · exact Nat.succ_le_succ ih
    · exact ih

/-- A code leaves fewer ASCII characters. -/
theorem length_filter_percentDecode_lt {bytes : ByteString} (h : HasCode bytes) :
    ((percentDecode bytes).filter isAscii).length < (bytes.filter isAscii).length := by
  induction bytes using percentDecode.induct with
  | case1 => exact absurd h (not_hasCode_of_short (by decide))
  | case2 c => exact absurd h (not_hasCode_of_short (by simp))
  | case3 c d => exact absurd h (not_hasCode_of_short (by simp))
  | case4 c d e rest hcode ih =>
    rw [percentDecode, if_pos hcode]
    have hle := length_filter_percentDecode_le rest
    have hc : isAscii c = true := by rw [hcode.1]; rfl
    have hd := isAscii_of_isHex hcode.2.1
    have he := isAscii_of_isHex hcode.2.2
    simp only [List.filter_cons, hc, hd, he, if_true]
    split <;> simp only [List.length_cons] <;> omega
  | case5 c d e rest hcode ih =>
    have hlater := ih ((hasCode_cons.1 h).resolve_left hcode)
    rw [percentDecode, if_neg hcode, List.filter_cons (x := c), List.filter_cons (x := c)]
    split
    · exact Nat.succ_lt_succ hlater
    · exact hlater

theorem not_hasCode_iff {bytes : ByteString} :
    ¬ HasCode bytes ↔ percentDecode bytes = bytes := by
  constructor
  · exact percentDecode_of_not_hasCode
  · intro h hcode
    have hlt := length_filter_percentDecode_lt hcode
    rw [h] at hlt
    exact lt_irrefl _ hlt

/-- Text without a percent sign before some text, and text that no digit starts after it, are
decoded on their own. -/
theorem percentDecode_append_of_not_mem {a : ByteString} (ha : (37 : UInt8) ∉ a)
    (b : ByteString) : percentDecode (a ++ b) = a ++ percentDecode b := by
  induction a with
  | nil => rfl
  | cons c a ih =>
    obtain ⟨hc, ha⟩ := List.ne_and_not_mem_of_not_mem_cons ha
    have htail := ih ha
    have hcons : ∀ bytes, percentDecode (c :: bytes) = c :: percentDecode bytes := by
      intro bytes
      cases bytes with
      | nil => rfl
      | cons d bytes =>
        cases bytes with
        | nil => rfl
        | cons e bytes => rw [percentDecode, if_neg fun h => hc h.1.symm]
    rw [List.cons_append, hcons, htail, List.cons_append]

theorem percentDecode_append_of_not_isHex (a : ByteString) {c : UInt8} (hc : isHex c = false)
    (b : ByteString) : percentDecode (a ++ c :: b) = percentDecode a ++ percentDecode (c :: b) := by
  have hno : ¬ isHex c = true := by rw [hc]; exact Bool.false_ne_true
  induction a using percentDecode.induct with
  | case1 => rfl
  | case2 d =>
    cases b with
    | nil => rfl
    | cons e b =>
      have hstep : percentDecode (d :: c :: e :: b) = d :: percentDecode (c :: e :: b) := by
        rw [percentDecode, if_neg fun h => hno h.2.1]
      exact hstep
  | case3 d e =>
    have hstep : percentDecode (d :: e :: c :: b) = d :: percentDecode (e :: c :: b) := by
      rw [percentDecode, if_neg fun h => hno h.2.2]
    have hstep' : percentDecode (e :: c :: b) = e :: percentDecode (c :: b) := by
      cases b with
      | nil => rfl
      | cons f b => rw [percentDecode, if_neg fun h => hno h.2.1]
    exact hstep.trans (congrArg (d :: ·) hstep')
  | case4 d e f rest hcode ih =>
    rw [List.cons_append, List.cons_append, List.cons_append, percentDecode, if_pos hcode, ih,
      percentDecode, if_pos hcode, List.cons_append]
  | case5 d e f rest hcode ih =>
    rw [List.cons_append, List.cons_append, List.cons_append, percentDecode, if_neg hcode,
      percentDecode, if_neg hcode, List.cons_append]
    exact congrArg (d :: ·) ih

end Codes

section Pieces

theorem pieces_append {separator : UInt8} {a : ByteString} (ha : separator ∉ a) (b : ByteString) :
    pieces separator (a ++ separator :: b) = a :: pieces separator b := by
  induction a with
  | nil => rw [List.nil_append, pieces, if_pos rfl]
  | cons c a ih =>
    obtain ⟨hc, ha⟩ := List.ne_and_not_mem_of_not_mem_cons ha
    rw [List.cons_append, pieces, if_neg hc.symm, ih ha, List.modifyHead_cons]

theorem pieces_of_not_mem {separator : UInt8} {a : ByteString} (ha : separator ∉ a) :
    pieces separator a = [a] := by
  induction a with
  | nil => rfl
  | cons c a ih =>
    obtain ⟨hc, ha⟩ := List.ne_and_not_mem_of_not_mem_cons ha
    rw [pieces, if_neg hc.symm, ih ha, List.modifyHead_cons]

/-- The first piece of a query is the text before its first separator. -/
theorem pieces_cons (separator : UInt8) (a : ByteString) :
    ∃ later, pieces separator a = a.takeWhile (· ≠ separator) :: later := by
  induction a with
  | nil => exact ⟨[], rfl⟩
  | cons c a ih =>
    obtain ⟨later, hlater⟩ := ih
    rw [pieces]
    by_cases hc : c = separator
    · rw [if_pos hc]
      exact ⟨pieces separator a, by simp [hc]⟩
    · rw [if_neg hc, hlater, List.modifyHead_cons]
      exact ⟨later, by simp [hc]⟩

end Pieces

theorem plusToBlank_of_not_mem {bytes : ByteString} (h : (43 : UInt8) ∉ bytes) :
    plusToBlank bytes = bytes := by
  have hsame : bytes.map (fun c => if c = 43 then 32 else c) = bytes.map id := by
    apply List.map_congr_left
    intro c hc
    exact if_neg fun heq : c = 43 => h (heq ▸ hc)
  rw [plusToBlank, hsame, List.map_id]

theorem plusToBlank_append (a b : ByteString) :
    plusToBlank (a ++ b) = plusToBlank a ++ plusToBlank b := List.map_append

theorem formDecode_of_clean {replaceInvalid : ByteString → ByteString}
    (h : Replaces replaceInvalid) {bytes : ByteString} (hutf8 : Utf8 bytes)
    (hplus : (43 : UInt8) ∉ bytes) (hcode : ¬ HasCode bytes) :
    formDecode replaceInvalid bytes = bytes := by
  rw [formDecode, plusToBlank_of_not_mem hplus, percentDecode_of_not_hasCode hcode,
    h.valid bytes hutf8]

end MpcDemo.UrlQueries
