import MpcDemo.JsonScanner

/-!
# What the strings of a JSON text can hold

Every escape takes a backslash and at least one character more than it gives, so that the text of
a string never outweighs what was scanned for it. Text that is not escaped comes out as it is.
-/

namespace MpcDemo.JsonScannerLaws
open ByteStrings HexText Utf8Text UrlQueries JsonScanner

section Structure

def pending : Mode → ℕ
  | .escape => 1
  | .codeUnit _ => 2
  | _ => 0

def InString : Mode → Prop
  | .text | .escape | .codeUnit _ => True
  | _ => False

/-- A move outside of strings keeps the items or drops them. -/
def Quiet (s : Scan) (move : Move) : Prop :=
  ∀ t members, move = some (t, members) → (t.items = s.items ∨ t.items = []) ∧ pending t.mode = 0

variable {s t : Scan} {c : UInt8} {members : List Member}

theorem quiet_none : Quiet s none := nofun

theorem quiet_same (h : pending s.mode = 0) (members : List Member) :
    Quiet s (some (s, members)) := by
  intro t members' heq
  cases heq
  exact ⟨Or.inl rfl, h⟩

theorem quiet_goto {mode : Mode} (h : pending mode = 0) : Quiet s (s.goto mode) := by
  intro t members heq
  cases heq
  exact ⟨Or.inl rfl, h⟩

theorem quiet_openText (isKey : Bool) : Quiet s (s.openText isKey) := by
  intro t members heq
  cases heq
  exact ⟨Or.inr rfl, rfl⟩

theorem quiet_openFrame {frame : Frame} {mode : Mode} (h : pending mode = 0) :
    Quiet s (s.openFrame frame mode) := by
  intro t members heq
  cases heq
  exact ⟨Or.inl rfl, h⟩

theorem quiet_close (outer : List Frame) : Quiet s (s.close outer) := by
  intro t members heq
  cases heq
  exact ⟨Or.inl rfl, rfl⟩

theorem quiet_ite {p : Prop} [Decidable p] {a b : Move} (ha : Quiet s a) (hb : Quiet s b) :
    Quiet s (if p then a else b) := by
  split
  · exact ha
  · exact hb

theorem quiet_openValue : Quiet s (s.openValue c) :=
  quiet_ite (quiet_openText false) <| quiet_ite (quiet_openFrame rfl) <|
    quiet_ite (quiet_openFrame rfl) <| quiet_ite (quiet_goto rfl) <| quiet_ite (quiet_goto rfl) <|
    quiet_ite (quiet_goto rfl) <| quiet_ite (quiet_goto rfl) <| quiet_ite (quiet_goto rfl) <|
    quiet_ite (quiet_goto rfl) quiet_none

theorem quiet_afterStep (h : pending s.mode = 0) : Quiet s (s.afterStep c) := by
  apply quiet_ite (quiet_same h [])
  split
  · exact quiet_none
  · exact quiet_ite (quiet_goto rfl) (quiet_ite (quiet_close _) quiet_none)
  · exact quiet_ite (quiet_goto rfl) (quiet_ite (quiet_close _) quiet_none)

theorem quiet_numberEnd : Quiet s (s.numberEnd c) := by
  intro t members heq
  rw [Scan.numberEnd, Option.map_eq_some_iff] at heq
  obtain ⟨next, hnext, heq⟩ := heq
  obtain ⟨u, later⟩ := next
  cases heq
  exact quiet_afterStep (s := (s.valueEnd .scalar).1) rfl u later hnext

theorem quiet_structuralStep (h : ¬ InString s.mode) : Quiet s (s.structuralStep c) := by
  have hpending : pending s.mode = 0 := by
    cases hmode : s.mode with
    | escape => exact absurd (by rw [hmode]; trivial) h
    | codeUnit => exact absurd (by rw [hmode]; trivial) h
    | _ => rfl
  rw [Scan.structuralStep]
  split
  · exact quiet_ite (quiet_same hpending []) quiet_openValue
  · exact quiet_ite (quiet_same hpending []) (quiet_ite (quiet_close _) quiet_openValue)
  · exact quiet_ite (quiet_same hpending []) <| quiet_ite (quiet_close _) <|
      quiet_ite (quiet_openText true) quiet_none
  · exact quiet_ite (quiet_same hpending []) (quiet_ite (quiet_openText true) quiet_none)
  · exact quiet_ite (quiet_same hpending []) (quiet_ite (quiet_goto rfl) quiet_none)
  · exact quiet_afterStep hpending
  · split
    · exact quiet_goto rfl
    · exact quiet_ite quiet_numberEnd quiet_none
  · apply quiet_ite _ quiet_none
    split
    · exact quiet_goto rfl
    · intro t members heq
      cases heq
      exact ⟨Or.inl rfl, rfl⟩
  · exact quiet_none

theorem step_of_not_inString (h : ¬ InString s.mode) : s.step c = s.structuralStep c := by
  rw [Scan.step]
  split
  · rename_i hmode
    exact absurd (by rw [hmode]; trivial) h
  · rename_i hmode
    exact absurd (by rw [hmode]; trivial) h
  · rename_i hmode
    exact absurd (by rw [hmode]; trivial) h
  · rfl

end Structure

section Weights

/-- A backslash weighs two, as it is never given for less than itself and one character more
unless it is escaped twice. -/
def escapeWeight (c : UInt8) : ℕ := if c = 92 then 2 else if c = 117 then 1 else 0

def stringWeight (c : UInt8) : ℕ := escapeWeight c + if c = 34 then 1 else 0

/-- The weight of the string that is being read, with what its unfinished escape may give. -/
def held (s : Scan) : ℕ := itemsWeight stringWeight s.items + pending s.mode

variable {s t : Scan} {c : UInt8} {members : List Member} {bytes : ByteString}

theorem stringWeight_le (c : UInt8) : stringWeight c ≤ 2 := by
  rw [stringWeight, escapeWeight]
  split
  · rename_i hc
    rw [hc, if_neg (by decide)]
  · split
    · rename_i hc
      rw [hc, if_neg (by decide)]
      exact Nat.le_succ 1
    · split
      · exact Nat.le_succ 1
      · exact Nat.zero_le 2

theorem held_emit {item : Item} (h : s.emit item = some (t, members)) :
    held t = itemsWeight stringWeight s.items + itemWeight stringWeight item := by
  cases h
  rw [held, itemsWeight_append, itemsWeight_cons]
  rfl

theorem weight_simpleEscape {b : UInt8} (h : simpleEscape c = some b) :
    stringWeight b ≤ 1 + escapeWeight c := by
  rw [simpleEscape] at h
  split at h
  · rename_i hc
    cases h
    rcases hc with rfl | rfl | rfl
    · decide
    · decide
    · decide
  · have hzero : stringWeight b = 0 := by
      split at h
      · cases h; rfl
      · split at h
        · cases h; rfl
        · split at h
          · cases h; rfl
          · split at h
            · cases h; rfl
            · split at h
              · cases h; rfl
              · cases h
    omega

theorem step_held (h : s.step c = some (t, members)) : held t ≤ held s + escapeWeight c := by
  by_cases hin : InString s.mode
  · rw [Scan.step] at h
    split at h
    · rename_i hmode
      have hs : held s = itemsWeight stringWeight s.items := by rw [held, hmode]; rfl
      rw [Scan.textStep] at h
      split at h
      · have ht : held t = 0 := by
          rw [Scan.endText] at h
          split at h
          · cases h; rfl
          · cases h; rfl
        omega
      · rename_i hquote
        split at h
        · rename_i hbackslash
          cases h
          rw [hs, hbackslash]
          exact Nat.add_le_add_left (by decide : 1 ≤ 2) _
        · split at h
          · cases h
          · rw [held_emit h, hs]
            apply Nat.add_le_add_left
            rw [itemWeight, stringWeight, if_neg hquote]
            exact le_rfl
    · rename_i hmode
      have hs : held s = itemsWeight stringWeight s.items + 1 := by rw [held, hmode]; rfl
      rw [Scan.escapeStep] at h
      split at h
      · rename_i hu
        cases h
        rw [hs, hu]
        exact le_rfl
      · split at h
        · rename_i b hb
          have hle := weight_simpleEscape hb
          rw [held_emit h, hs, itemWeight]
          omega
        · cases h
    · rename_i digits hmode
      have hs : held s = itemsWeight stringWeight s.items + 2 := by rw [held, hmode]; rfl
      rw [Scan.codeUnitStep] at h
      split at h
      · cases h
      · rename_i d hd
        split at h
        · cases h
          rw [hs]
          exact Nat.le_add_right _ _
        · have hle : itemWeight stringWeight
              (.escaped ((digits ++ [d]).foldl (fun n d => 16 * n + d) 0)) ≤ 2 := by
            rw [itemWeight]
            split
            · exact stringWeight_le _
            · exact Nat.zero_le 2
          rw [held_emit h, hs]
          omega
    · rename_i htext hescape hunit
      cases hmode : s.mode with
      | text => exact absurd hmode htext
      | escape => exact absurd hmode hescape
      | codeUnit digits => exact absurd hmode (hunit digits)
      | _ => rw [hmode] at hin; exact hin.elim
  · rw [step_of_not_inString hin] at h
    obtain ⟨hitems, hpending⟩ := quiet_structuralStep hin t members h
    rw [held, hpending]
    rcases hitems with hsame | hnil
    · rw [hsame, held]
      omega
    · rw [hnil]
      exact Nat.zero_le _

theorem run_held (h : run s bytes = some (t, members)) :
    held t ≤ held s + weigh escapeWeight bytes := by
  induction bytes generalizing s members with
  | nil =>
    cases h
    exact le_rfl
  | cons c bytes ih =>
    obtain ⟨u, first, later, hstep, hrun, -⟩ := run_cons.1 h
    have hfirst := step_held hstep
    have hrest := ih hrun
    rw [weigh_cons]
    omega

end Weights

section Text

variable {s t : Scan} {c : UInt8} {members : List Member} {bytes : ByteString}

theorem step_of_text (h : s.mode = .text) : s.step c = s.textStep c := by
  rw [Scan.step, h]

theorem step_quote (h : s.mode = .text) : s.step 34 = some s.endText := by
  rw [step_of_text h, Scan.textStep, if_pos rfl]

theorem step_plain (h : s.mode = .text) (hquote : c ≠ 34) (hbackslash : c ≠ 92)
    (hcontrol : 32 ≤ c.toNat) : s.step c = s.emit (.raw c) := by
  rw [step_of_text h, Scan.textStep, if_neg hquote, if_neg hbackslash, if_neg (by omega)]

/-- Plain text stands for itself. -/
theorem run_plain (h : s.mode = .text) (hplain : Plain bytes) :
    run s bytes = some ({ s with items := s.items ++ bytes.map .raw }, []) := by
  induction bytes generalizing s with
  | nil => simp [run]
  | cons c bytes ih =>
    obtain ⟨hquote, hbackslash, hcontrol⟩ := hplain c List.mem_cons_self
    have hstep := step_plain h (fun hc => hquote (by rw [hc]; rfl))
      (fun hc => hbackslash (by rw [hc]; rfl)) hcontrol
    have hrest := @ih { s with mode := .text, items := s.items ++ [.raw c] } rfl
      fun d hd => hplain d (List.mem_cons_of_mem c hd)
    refine run_cons.2 ⟨_, [], [], hstep, hrest, rfl⟩ |>.trans ?_
    rw [← h, List.map_cons, List.append_assoc]
    rfl

/-- Text of a string without a quote comes out as it is, or it weighs less. -/
theorem run_text (h : s.mode = .text) (hquote : (34 : UInt8) ∉ bytes)
    (hrun : run s bytes = some (t, members)) :
    (Plain bytes ∧ t = { s with items := s.items ++ bytes.map .raw } ∧ members = []) ∨
      held t < held s + weigh escapeWeight bytes := by
  induction bytes generalizing s members with
  | nil =>
    cases hrun
    refine Or.inl ⟨fun c hc => absurd hc List.not_mem_nil, ?_, rfl⟩
    rw [List.map_nil, List.append_nil]
  | cons c bytes ih =>
    obtain ⟨hc, hquote⟩ := List.ne_and_not_mem_of_not_mem_cons hquote
    obtain ⟨u, first, later, hstep, hrest, rfl⟩ := run_cons.1 hrun
    have hs : held s = itemsWeight stringWeight s.items := by rw [held, h]; rfl
    rw [step_of_text h, Scan.textStep, if_neg hc.symm] at hstep
    rw [weigh_cons]
    split at hstep
    · rename_i hbackslash
      cases hstep
      have hle := run_held hrest
      have hu : held { s with mode := .escape } = held s + 1 := by rw [hs]; rfl
      have htwo : escapeWeight c = 2 := by rw [hbackslash]; rfl
      refine Or.inr ?_
      omega
    · rename_i hbackslash
      split at hstep
      · cases hstep
      · rename_i hcontrol
        have hu := held_emit hstep
        have hweight : itemWeight stringWeight (.raw c) = escapeWeight c := by
          rw [itemWeight, stringWeight, if_neg hc.symm, Nat.add_zero]
        cases hstep
        rcases ih rfl hquote hrest with ⟨hplain, rfl, rfl⟩ | hlt
        · refine Or.inl ⟨?_, ?_, rfl⟩
          · intro d hd
            rcases List.mem_cons.1 hd with rfl | hmem
            · exact ⟨fun heq => hc.symm (UInt8.toNat_inj.1 heq),
                fun heq => hbackslash (UInt8.toNat_inj.1 heq), by omega⟩
            · exact hplain d hmem
          · rw [← h, List.map_cons, List.append_assoc]
            rfl
        · refine Or.inr ?_
          omega

/-- A character that is not part of any escape. -/
def Literal (c : UInt8) : Prop :=
  simpleEscape c = none ∧ c ≠ 117 ∧ hexValue c = none ∧ c ≠ 92

theorem step_inString {weight : UInt8 → ℕ} (hweight : ∀ c, weight c ≠ 0 → Literal c)
    (hin : InString s.mode) (hstep : s.step c = some (t, members)) :
    (s.mode = .text ∧ c = 34) ∨
      InString t.mode ∧ members = [] ∧ t.stack = s.stack ∧ t.isKey = s.isKey ∧ t.key = s.key ∧
        itemsWeight weight s.items + weight c ≤ itemsWeight weight t.items := by
  have hzero : ¬ Literal c → weight c = 0 := fun hc => not_not.1 fun hne => hc (hweight c hne)
  rw [Scan.step] at hstep
  split at hstep
  · rename_i hmode
    rw [Scan.textStep] at hstep
    split at hstep
    · rename_i hc
      exact Or.inl ⟨hmode, hc⟩
    · split at hstep
      · rename_i hc
        cases hstep
        have hnone := hzero fun hliteral => hliteral.2.2.2 hc
        exact Or.inr ⟨trivial, rfl, rfl, rfl, rfl, by simp only [hnone]; exact le_rfl⟩
      · split at hstep
        · cases hstep
        · cases hstep
          refine Or.inr ⟨trivial, rfl, rfl, rfl, rfl, ?_⟩
          simp only [itemsWeight_append, itemsWeight_cons, itemWeight]
          exact Nat.add_le_add_left (Nat.le_add_right _ _) _
  · rw [Scan.escapeStep] at hstep
    split at hstep
    · rename_i hc
      cases hstep
      have hnone := hzero fun hliteral => hliteral.2.1 hc
      exact Or.inr ⟨trivial, rfl, rfl, rfl, rfl, by simp only [hnone]; exact le_rfl⟩
    · split at hstep
      · rename_i b hb
        cases hstep
        have hnone := hzero fun hliteral => by rw [hliteral.1] at hb; cases hb
        refine Or.inr ⟨trivial, rfl, rfl, rfl, rfl, ?_⟩
        simp only [itemsWeight_append, hnone]
        exact Nat.le_add_right _ _
      · cases hstep
  · rw [Scan.codeUnitStep] at hstep
    split at hstep
    · cases hstep
    · rename_i d hd
      have hnone := hzero fun hliteral => by rw [hliteral.2.2.1] at hd; cases hd
      split at hstep
      · cases hstep
        exact Or.inr ⟨trivial, rfl, rfl, rfl, rfl, by simp only [hnone]; exact le_rfl⟩
      · cases hstep
        refine Or.inr ⟨trivial, rfl, rfl, rfl, rfl, ?_⟩
        simp only [itemsWeight_append, hnone]
        exact Nat.le_add_right _ _
  · rename_i htext hescape hunit
    cases hmode : s.mode with
    | text => exact absurd hmode htext
    | escape => exact absurd hmode hescape
    | codeUnit digits => exact absurd hmode (hunit digits)
    | _ => rw [hmode] at hin; exact hin.elim

/-- Inside a string the moves do not depend on what has been read of it. -/
theorem step_items (hin : InString s.mode) (hstep : s.step c = some (t, members))
    (ht : InString t.mode) (items : List Item) :
    ∃ items', ({ s with items := items } : Scan).step c =
      some ({ t with items := items' }, []) := by
  rw [Scan.step] at hstep
  split at hstep
  · rename_i hmode
    have hsame : ({ s with items := items } : Scan).mode = .text := hmode
    rw [step_of_text hsame, Scan.textStep]
    rw [Scan.textStep] at hstep
    split at hstep
    · rw [Scan.endText] at hstep
      split at hstep
      · cases hstep
        exact ht.elim
      · cases hstep
        exact ht.elim
    · rename_i hquote
      rw [if_neg hquote]
      split at hstep
      · rename_i hbackslash
        cases hstep
        exact ⟨items, by rw [if_pos hbackslash]; rfl⟩
      · rename_i hbackslash
        split at hstep
        · cases hstep
        · rename_i hcontrol
          cases hstep
          exact ⟨items ++ [.raw c], by rw [if_neg hbackslash, if_neg hcontrol]; rfl⟩
  · rename_i hmode
    have hstep' : ({ s with items := items } : Scan).step c =
        ({ s with items := items } : Scan).escapeStep c := by
      simp only [Scan.step, hmode]
    rw [hstep', Scan.escapeStep]
    rw [Scan.escapeStep] at hstep
    split at hstep
    · rename_i hu
      cases hstep
      exact ⟨items, by rw [if_pos hu]; rfl⟩
    · rename_i hu
      split at hstep
      · rename_i b hb
        cases hstep
        exact ⟨items ++ [.raw b], by rw [if_neg hu]; rfl⟩
      · cases hstep
  · rename_i digits hmode
    have hstep' : ({ s with items := items } : Scan).step c =
        ({ s with items := items } : Scan).codeUnitStep digits c := by
      simp only [Scan.step, hmode]
    rw [hstep', Scan.codeUnitStep]
    rw [Scan.codeUnitStep] at hstep
    split at hstep
    · cases hstep
    · rename_i d hd
      split at hstep
      · rename_i hshort
        cases hstep
        exact ⟨items, by simp only [if_pos hshort]; rfl⟩
      · rename_i hlong
        cases hstep
        exact ⟨_, by simp only [if_neg hlong]; rfl⟩
  · rename_i htext hescape hunit
    cases hmode : s.mode with
    | text => exact absurd hmode htext
    | escape => exact absurd hmode hescape
    | codeUnit digits => exact absurd hmode (hunit digits)
    | _ => rw [hmode] at hin; exact hin.elim

/-- What is known of a scan from a string to the quote that ends the string. -/
structure Closes (weight : UInt8 → ℕ) (s u : Scan) (a : ByteString) : Prop where
  run : run s a = some (u, [])
  mode : u.mode = .text
  stack : u.stack = s.stack
  isKey : u.isKey = s.isKey
  key : u.key = s.key
  weight_le : itemsWeight weight s.items + weigh weight a ≤ itemsWeight weight u.items
  items : ∀ items, ∃ items', JsonScanner.run { s with items := items } a =
    some ({ u with items := items' }, [])

/-- A string goes on to the end of some bytes, or it ends at one of them. -/
theorem run_inString {weight : UInt8 → ℕ} (hweight : ∀ c, weight c ≠ 0 → Literal c)
    (hin : InString s.mode) (hrun : run s bytes = some (t, members)) :
    (InString t.mode ∧ members = [] ∧ t.key = s.key) ∨
      ∃ a b u, bytes = a ++ 34 :: b ∧ Closes weight s u a ∧
        run u (34 :: b) = some (t, members) := by
  induction bytes generalizing s members with
  | nil =>
    cases hrun
    exact Or.inl ⟨hin, rfl, rfl⟩
  | cons c bytes ih =>
    obtain ⟨u, first, later, hstep, hrest, rfl⟩ := run_cons.1 hrun
    rcases step_inString hweight hin hstep with
      ⟨hmode, rfl⟩ | ⟨hu, rfl, hstack, hisKey, hkey, hle⟩
    · refine Or.inr ⟨[], bytes, s, rfl, ⟨rfl, hmode, rfl, rfl, rfl, le_rfl, ?_⟩, hrun⟩
      exact fun items => ⟨items, rfl⟩
    · rcases ih hu hrest with ⟨ht, rfl, hkey'⟩ | ⟨a, b, v, rfl, hcloses, hlast⟩
      · exact Or.inl ⟨ht, rfl, hkey'.trans hkey⟩
      · refine Or.inr ⟨c :: a, b, v, rfl, ⟨run_cons.2 ⟨u, [], [], hstep, hcloses.run, rfl⟩,
          hcloses.mode, hcloses.stack.trans hstack, hcloses.isKey.trans hisKey,
          hcloses.key.trans hkey, ?_, fun items => ?_⟩, ?_⟩
        · have hle' := hcloses.weight_le
          rw [weigh_cons]
          omega
        · obtain ⟨items', hstep'⟩ := step_items hin hstep hu items
          obtain ⟨items'', hrest'⟩ := hcloses.items items'
          exact ⟨items'', run_cons.2 ⟨_, [], [], hstep', hrest', rfl⟩⟩
        · rw [List.append_nil]
          exact hlast

end Text

end MpcDemo.JsonScannerLaws
