import MpcDemo.UrlQueries

/-!
# JSON texts

A scanner of JSON texts (RFC 8259) that reads one byte after the other and lists the members of
the outermost object as they are completed. Bytes inside a string stand for themselves, so that a
string is the UTF-8 text of its characters.
-/

namespace MpcDemo.JsonScanner
open ByteStrings HexText Utf8Text UrlQueries

section Strings

/-- A part of a string: a byte as it stands, or a code unit that was written as an escape. -/
inductive Item
  | raw (c : UInt8)
  | escaped (codeUnit : ℕ)
  deriving DecidableEq

/-- The bytes of a code point. -/
def encodePoint (n : ℕ) : ByteString :=
  if n < 128 then [UInt8.ofNat n]
  else if n < 2048 then [UInt8.ofNat (192 + n / 64), UInt8.ofNat (128 + n % 64)]
  else if n < 65536 then
    [UInt8.ofNat (224 + n / 4096), UInt8.ofNat (128 + n / 64 % 64), UInt8.ofNat (128 + n % 64)]
  else
    [UInt8.ofNat (240 + n / 262144 % 8), UInt8.ofNat (128 + n / 4096 % 64),
      UInt8.ofNat (128 + n / 64 % 64), UInt8.ofNat (128 + n % 64)]

def isHighSurrogate (n : ℕ) : Bool := 55296 ≤ n ∧ n < 56320

def isLowSurrogate (n : ℕ) : Bool := 56320 ≤ n ∧ n < 57344

/-- The text of a string; an escaped surrogate pair is one character. -/
def render : List Item → ByteString
  | [] => []
  | .raw c :: items => c :: render items
  | [.escaped n] => encodePoint n
  | .escaped n :: .raw c :: items => encodePoint n ++ c :: render items
  | .escaped n :: .escaped m :: items =>
    if isHighSurrogate n ∧ isLowSurrogate m then
      encodePoint (65536 + 1024 * (n - 55296) + (m - 56320)) ++ render items
    else encodePoint n ++ render (.escaped m :: items)

/-- The character of an escape of two characters. -/
def simpleEscape (c : UInt8) : Option UInt8 :=
  if c = 34 ∨ c = 92 ∨ c = 47 then some c
  else if c = 98 then some 8
  else if c = 102 then some 12
  else if c = 110 then some 10
  else if c = 114 then some 13
  else if c = 116 then some 9
  else none

end Strings

section Numbers

inductive NumberPart
  | minus | zero | digits | point | fraction | exponent | sign | exponentDigits
  deriving DecidableEq

def isDigit (c : UInt8) : Bool := 48 ≤ c.toNat ∧ c.toNat ≤ 57

/-- What follows the integer part of a number. -/
def afterInteger (c : UInt8) : Option NumberPart :=
  if c = 46 then some .point
  else if c = 101 ∨ c = 69 then some .exponent
  else none

def numberStep (part : NumberPart) (c : UInt8) : Option NumberPart :=
  match part with
  | .minus => if c = 48 then some .zero else if isDigit c then some .digits else none
  | .zero => afterInteger c
  | .digits => if isDigit c then some .digits else afterInteger c
  | .point => if isDigit c then some .fraction else none
  | .fraction =>
    if isDigit c then some .fraction else if c = 101 ∨ c = 69 then some .exponent else none
  | .exponent =>
    if isDigit c then some .exponentDigits else if c = 43 ∨ c = 45 then some .sign else none
  | .sign => if isDigit c then some .exponentDigits else none
  | .exponentDigits => if isDigit c then some .exponentDigits else none

/-- A number may end here. -/
def NumberPart.complete : NumberPart → Bool
  | .zero | .digits | .fraction | .exponentDigits => true
  | _ => false

end Numbers

/-- What is to come of `true`, `false` or `null`. -/
inductive LiteralPart
  | rue | ue | e | alse | lse | se | ull | ll | l
  deriving DecidableEq

/-- The next character of a literal and what comes after it. -/
def LiteralPart.next : LiteralPart → UInt8 × Option LiteralPart
  | .rue => (114, some .ue)
  | .ue => (117, some .e)
  | .e => (101, none)
  | .alse => (97, some .lse)
  | .lse => (108, some .se)
  | .se => (115, some .e)
  | .ull => (117, some .ll)
  | .ll => (108, some .l)
  | .l => (108, none)

inductive Frame
  | array | object
  deriving DecidableEq

/-- What is kept of a value: the text of a string, and whether anything else has a length. -/
inductive Value
  | string (text : ByteString)
  | container
  | scalar
  deriving DecidableEq

abbrev Member := ByteString × Value

/-- What the scanner is reading or waiting for. -/
inductive Mode
  | value | firstElement | firstMember | member | colon | after
  | text | escape | codeUnit (digits : List ℕ)
  | number (part : NumberPart)
  | literal (part : LiteralPart)
  deriving DecidableEq

structure Scan where
  mode : Mode
  stack : List Frame
  isKey : Bool
  items : List Item
  key : ByteString
  deriving DecidableEq

def Scan.start : Scan := ⟨.value, [], false, [], []⟩

abbrev Move := Option (Scan × List Member)

namespace Scan
variable (s : Scan)

def goto (mode : Mode) : Move := some ({ s with mode := mode }, [])

def openText (isKey : Bool) : Move :=
  some ({ s with mode := .text, isKey := isKey, items := [] }, [])

def openFrame (frame : Frame) (mode : Mode) : Move :=
  some ({ s with mode := mode, stack := frame :: s.stack }, [])

/-- The end of a value, which is a member's value inside the outermost object. -/
def valueEnd (value : Value) : Scan × List Member :=
  ({ s with mode := .after }, if s.stack = [.object] then [(s.key, value)] else [])

def close (outer : List Frame) : Move := some (({ s with stack := outer } : Scan).valueEnd .container)

def endText : Scan × List Member :=
  if s.isKey then
    ({ s with
        mode := .colon
        items := []
        key := if s.stack = [.object] then render s.items else s.key }, [])
  else ({ s with items := [] } : Scan).valueEnd (.string (render s.items))

def emit (item : Item) : Move := some ({ s with mode := .text, items := s.items ++ [item] }, [])

def isSpace (c : UInt8) : Bool := c = 32 ∨ c = 9 ∨ c = 10 ∨ c = 13

def openValue (c : UInt8) : Move :=
  if c = 34 then s.openText false
  else if c = 123 then s.openFrame .object .firstMember
  else if c = 91 then s.openFrame .array .firstElement
  else if c = 45 then s.goto (.number .minus)
  else if c = 48 then s.goto (.number .zero)
  else if isDigit c then s.goto (.number .digits)
  else if c = 116 then s.goto (.literal .rue)
  else if c = 102 then s.goto (.literal .alse)
  else if c = 110 then s.goto (.literal .ull)
  else none

def afterStep (c : UInt8) : Move :=
  if isSpace c then some (s, [])
  else
    match s.stack with
    | [] => none
    | .array :: outer =>
      if c = 44 then s.goto .value else if c = 93 then s.close outer else none
    | .object :: outer =>
      if c = 44 then s.goto .member else if c = 125 then s.close outer else none

/-- A number ends at the character after it. -/
def numberEnd (c : UInt8) : Move :=
  (s.valueEnd .scalar).1.afterStep c |>.map fun next =>
    (next.1, next.2 ++ (s.valueEnd .scalar).2)

/-- Outside of strings. -/
def structuralStep (c : UInt8) : Move :=
  match s.mode with
  | .value => if isSpace c then some (s, []) else s.openValue c
  | .firstElement =>
    if isSpace c then some (s, [])
    else if c = 93 then s.close s.stack.tail
    else s.openValue c
  | .firstMember =>
    if isSpace c then some (s, [])
    else if c = 125 then s.close s.stack.tail
    else if c = 34 then s.openText true
    else none
  | .member =>
    if isSpace c then some (s, []) else if c = 34 then s.openText true else none
  | .colon => if isSpace c then some (s, []) else if c = 58 then s.goto .value else none
  | .after => s.afterStep c
  | .number part =>
    match numberStep part c with
    | some part' => s.goto (.number part')
    | none => if part.complete then s.numberEnd c else none
  | .literal part =>
    if c = part.next.1 then
      match part.next.2 with
      | some part' => s.goto (.literal part')
      | none => some (s.valueEnd .scalar)
    else none
  | _ => none

def textStep (c : UInt8) : Move :=
  if c = 34 then some s.endText
  else if c = 92 then s.goto .escape
  else if c.toNat < 32 then none
  else s.emit (.raw c)

def escapeStep (c : UInt8) : Move :=
  if c = 117 then s.goto (.codeUnit [])
  else
    match simpleEscape c with
    | some b => s.emit (.raw b)
    | none => none

def codeUnitStep (digits : List ℕ) (c : UInt8) : Move :=
  match hexValue c with
  | none => none
  | some d =>
    if digits.length < 3 then s.goto (.codeUnit (digits ++ [d]))
    else s.emit (.escaped ((digits ++ [d]).foldl (fun n d => 16 * n + d) 0))

def step (c : UInt8) : Move :=
  match s.mode with
  | .text => s.textStep c
  | .escape => s.escapeStep c
  | .codeUnit digits => s.codeUnitStep digits c
  | _ => s.structuralStep c

end Scan

/-- Scan some bytes; the completed members of the outermost object, the latest first. -/
def run : Scan → ByteString → Move
  | s, [] => some (s, [])
  | s, c :: rest =>
    match s.step c with
    | none => none
    | some (s', members) =>
      match run s' rest with
      | none => none
      | some (t, later) => some (t, later ++ members)

/-- The members of the object that a text is. -/
def membersOf (text : ByteString) : Option (List Member) :=
  match run .start text with
  | none => none
  | some (t, members) => if t.mode = .after ∧ t.stack = [] then some members else none

/-- The last value of a name wins. -/
def lookup (name : ByteString) (members : List Member) : Option Value :=
  (members.find? fun m => m.1 = name).map Prod.snd

theorem run_cons {s t : Scan} {c : UInt8} {rest : ByteString} {members : List Member} :
    run s (c :: rest) = some (t, members) ↔ ∃ u first later,
      s.step c = some (u, first) ∧ run u rest = some (t, later) ∧ members = later ++ first := by
  rw [run]
  cases hstep : s.step c with
  | none => simp
  | some next =>
    obtain ⟨s', first⟩ := next
    simp only
    cases hrun : run s' rest with
    | none =>
      constructor
      · nofun
      · intro h
        obtain ⟨u, first', later, hu, ht, -⟩ := h
        cases hu
        rw [hrun] at ht
        cases ht
    | some last =>
      obtain ⟨t', later⟩ := last
      constructor
      · intro h
        cases h
        exact ⟨s', first, later, rfl, hrun, rfl⟩
      · intro h
        obtain ⟨u, first', later', hu, ht, rfl⟩ := h
        cases hu
        rw [hrun] at ht
        cases ht
        rfl

theorem run_append {s t : Scan} {a b : ByteString} {members : List Member} :
    run s (a ++ b) = some (t, members) ↔ ∃ u earlier later,
      run s a = some (u, earlier) ∧ run u b = some (t, later) ∧ members = later ++ earlier := by
  induction a generalizing s members with
  | nil => simp [run]
  | cons c a ih =>
    simp only [List.cons_append, run_cons, ih]
    constructor
    · intro h
      obtain ⟨u, first, members', hstep, ⟨v, earlier, later, hu, ht, rfl⟩, rfl⟩ := h
      exact ⟨v, earlier ++ first, later, ⟨u, first, earlier, hstep, hu, rfl⟩, ht,
        List.append_assoc _ _ _⟩
    · intro h
      obtain ⟨v, earlier', later, ⟨u, first, earlier, hstep, hu, rfl⟩, ht, rfl⟩ := h
      exact ⟨u, first, later ++ earlier, hstep, ⟨v, earlier, later, hu, ht, rfl⟩,
        (List.append_assoc _ _ _).symm⟩

section Weights

def itemWeight (weight : UInt8 → ℕ) : Item → ℕ
  | .raw c => weight c
  | .escaped n => if n < 128 then weight (UInt8.ofNat n) else 0

/-- The weight of the text of some items. -/
def itemsWeight (weight : UInt8 → ℕ) (items : List Item) : ℕ :=
  (items.map (itemWeight weight)).sum

variable {weight : UInt8 → ℕ}

theorem itemsWeight_cons (item : Item) (items : List Item) :
    itemsWeight weight (item :: items) = itemWeight weight item + itemsWeight weight items := by
  simp [itemsWeight]

theorem itemsWeight_append (a b : List Item) :
    itemsWeight weight (a ++ b) = itemsWeight weight a + itemsWeight weight b := by
  simp [itemsWeight]

theorem weigh_encodePoint (hweight : ∀ c, isAscii c = false → weight c = 0) (n : ℕ) :
    weigh weight (encodePoint n) = itemWeight weight (.escaped n) := by
  have hzero : ∀ m : ℕ, 128 ≤ m → m < 256 → weight (UInt8.ofNat m) = 0 := by
    intro m hlow hhigh
    apply hweight
    simp only [isAscii, UInt8.toNat_ofNat_of_lt' hhigh, decide_eq_false_iff_not]
    omega
  rw [encodePoint, itemWeight]
  split
  · exact Nat.add_zero _
  · split
    · rw [weigh_cons, weigh_cons, weigh_nil, hzero _ (by omega) (by omega),
        hzero _ (by omega) (by omega)]
    · split
      · rw [weigh_cons, weigh_cons, weigh_cons, weigh_nil, hzero _ (by omega) (by omega),
          hzero _ (by omega) (by omega), hzero _ (by omega) (by omega)]
      · rw [weigh_cons, weigh_cons, weigh_cons, weigh_cons, weigh_nil,
          hzero _ (by omega) (by omega), hzero _ (by omega) (by omega),
          hzero _ (by omega) (by omega), hzero _ (by omega) (by omega)]

/-- ASCII characters come from items of their own. -/
theorem weigh_render (hweight : ∀ c, isAscii c = false → weight c = 0) (items : List Item) :
    weigh weight (render items) = itemsWeight weight items := by
  induction items using render.induct with
  | case1 => rfl
  | case2 c items ih => rw [render, weigh_cons, ih, itemsWeight_cons, itemWeight]
  | case3 n => rw [render, weigh_encodePoint hweight, itemsWeight_cons]; rfl
  | case4 n c items ih =>
    rw [render, weigh_append, weigh_encodePoint hweight, weigh_cons, ih, itemsWeight_cons,
      itemsWeight_cons]
    rfl
  | case5 n m items hpair ih =>
    have hn : ¬ n < 128 := by
      have := hpair.1
      simp only [isHighSurrogate, decide_eq_true_eq] at this
      omega
    have hm : ¬ m < 128 := by
      have := hpair.2
      simp only [isLowSurrogate, decide_eq_true_eq] at this
      omega
    rw [render, if_pos hpair, weigh_append, weigh_encodePoint hweight, ih, itemsWeight_cons,
      itemsWeight_cons, itemWeight, itemWeight, itemWeight, if_neg hn, if_neg hm,
      if_neg (by omega), Nat.zero_add, Nat.zero_add]
  | case6 n m items hpair ih =>
    rw [render, if_neg hpair, weigh_append, weigh_encodePoint hweight, ih,
      itemsWeight_cons (.escaped n)]

theorem render_raw (bytes : ByteString) : render (bytes.map .raw) = bytes := by
  induction bytes with
  | nil => rfl
  | cons c bytes ih => rw [List.map_cons, render, ih]

/-- Text that ends in bytes as they stand. -/
theorem render_append_raw (items : List Item) (bytes : ByteString) :
    render (items ++ bytes.map .raw) = render items ++ bytes := by
  induction items using render.induct with
  | case1 => rw [List.nil_append, render_raw]; rfl
  | case2 c items ih => rw [List.cons_append, render, ih, render, List.cons_append]
  | case3 n =>
    cases bytes with
    | nil => rw [List.map_nil, List.append_nil, List.append_nil]
    | cons c bytes =>
      have hraw := render_raw bytes
      simp only [List.map_cons, List.singleton_append, render, hraw]
  | case4 n c items ih =>
    rw [List.cons_append, List.cons_append, render, ih, render, List.append_assoc,
      List.cons_append]
  | case5 n m items hpair ih =>
    rw [List.cons_append, List.cons_append, render, if_pos hpair, ih, render, if_pos hpair,
      List.append_assoc]
  | case6 n m items hpair ih =>
    rw [List.cons_append, List.cons_append, render, if_neg hpair, ← List.cons_append, ih, render,
      if_neg hpair, List.append_assoc]

end Weights

end MpcDemo.JsonScanner
