import MpcDemo.CosignerTypes
import MpcDemo.HexText
import MpcDemo.Relay

/-!
# How a node reads the relay's answers

The JSON text of an answer, and `await_data_custom_count` with `parse_json_map` of
`network_manager.cpp`. The parser searches for one key after the other and never moves back;
a position in the text is represented by the text from there on.
-/

namespace MpcDemo.NetworkManager
open ByteStrings CosignerTypes HexText Relay

def decimal (n : ℕ) : ByteString := ascii (Nat.repr n)

/-- A JSON string. Payloads are ASCII; a character that needs an escape gets one. -/
def jsonString (payload : ByteString) : ByteString :=
  ascii "\"" ++ payload.flatMap (fun c =>
    if c.toNat = 34 then ascii "\\\"" else if c.toNat = 92 then ascii "\\\\"
    else if c.toNat < 32 then ascii "\\u00" ++ [hexDigit (c.toNat / 16), hexDigit (c.toNat % 16)]
    else [c]) ++ ascii "\""

def jsonEntry (entry : ℕ × ByteString) : ByteString :=
  ascii "\"" ++ decimal entry.1 ++ ascii "\":" ++ jsonString entry.2

/-- `jsonify`: compact, with the keys sorted as strings and a newline at the end. -/
def jsonify : Option (List (ℕ × ByteString)) → ByteString
  | none => ascii "\x7b\"ready\":false\x7d\n"
  | some entries =>
    let sorted := entries.insertionSort fun a b => decimal a.1 ≤ decimal b.1
    ascii "\x7b\"data\":\x7b" ++ (ascii ",").intercalate (sorted.map jsonEntry) ++
      ascii "\x7d,\"ready\":true\x7d\n"

/-- `std::string::find`: the text from the first occurrence of a pattern on. -/
def find (pattern : ByteString) : ByteString → Option ByteString
  | [] => if pattern = [] then some [] else none
  | c :: text => if pattern <+: c :: text then some (c :: text) else find pattern text

def quote : ByteString := ascii "\""

def keyPattern (i : ℕ) : ByteString := quote ++ decimal i ++ ascii "\":"

/-- The loop of `parse_json_map` over the player ids, from a position in the text. -/
def parseEntries : List ℕ → ByteString → PlayerMap ByteString → PlayerMap ByteString
  | [], _, res => res
  | i :: ids, position, res =>
    match find (keyPattern i) position with
    | none => parseEntries ids position res
    | some key =>
      match find quote (key.drop (keyPattern i).length) with
      | none => parseEntries ids position res
      | some value =>
        match find quote value.tail with
        | none => parseEntries ids position res
        | some valueEnd =>
          parseEntries ids valueEnd
            (res.insert i (value.tail.take (value.tail.length - valueEnd.length)))

def parseJsonMap (players : ℕ) (json : ByteString) : PlayerMap ByteString :=
  match find (ascii "\"data\"") json with
  | none => ∅
  | some data =>
    match find (ascii "\x7b") data with
    | none => ∅
    | some brace => parseEntries (List.range' 1 players) brace ∅

def isReady (resp : ByteString) : Bool := (find (ascii "\"ready\":true") resp).isSome

/-- One turn of the waiting loop of `await_data_custom_count`: what it returns on a response, or
nothing when it goes on polling. -/
def awaitResponse (players : ℕ) (resp : ByteString) : Option (PlayerMap ByteString) :=
  if isReady resp then some (parseJsonMap players resp) else none

theorem mem_parseEntries {ids : List ℕ} {position : ByteString} {res : PlayerMap ByteString} {i : ℕ}
    (h : i ∈ parseEntries ids position res) : i ∈ ids ∨ i ∈ res := by
  induction ids generalizing position res with
  | nil => exact Or.inr h
  | cons j ids ih =>
    have hskip : ∀ {position : ByteString}, i ∈ parseEntries ids position res →
        i ∈ j :: ids ∨ i ∈ res := fun h => (ih h).imp_left (List.mem_cons_of_mem j)
    rw [parseEntries] at h
    split at h
    · exact hskip h
    · split at h
      · exact hskip h
      · split at h
        · exact hskip h
        · rcases ih h with hmem | hmem
          · exact Or.inl (List.mem_cons_of_mem j hmem)
          · rcases Std.ExtTreeMap.mem_insert.1 hmem with heq | hmem
            · rw [← Nat.compare_eq_eq.1 heq]
              exact Or.inl List.mem_cons_self
            · exact Or.inr hmem

/-- Whatever the response, only ids of players are read from it. -/
theorem mem_awaitResponse {players : ℕ} {resp : ByteString} {map : PlayerMap ByteString} {i : ℕ}
    (h : awaitResponse players resp = some map) (hi : i ∈ map) : 1 ≤ i ∧ i ≤ players := by
  rw [awaitResponse] at h
  split at h
  · obtain rfl := Option.some.inj h
    rw [parseJsonMap] at hi
    split at hi
    · exact absurd hi Std.ExtTreeMap.not_mem_empty
    · split at hi
      · exact absurd hi Std.ExtTreeMap.not_mem_empty
      · rcases mem_parseEntries hi with hmem | hmem
        · have := List.mem_range'_1.1 hmem
          omega
        · exact absurd hmem Std.ExtTreeMap.not_mem_empty
  · cases h

section Decimals

theorem digit_of_mem_decimal {n : ℕ} {c : UInt8} (hc : c ∈ decimal n) :
    48 ≤ c.toNat ∧ c.toNat ≤ 57 := by
  rw [decimal, ascii, Nat.toList_repr] at hc
  obtain ⟨d, hd, rfl⟩ := List.mem_map.1 hc
  have hdigit := Nat.isDigit_of_mem_toDigits (by decide) (by decide) hd
  simp only [Char.isDigit, ge_iff_le, Bool.and_eq_true, decide_eq_true_eq] at hdigit
  have hlow : 48 ≤ d.toNat := UInt32.le_iff_toNat_le.1 hdigit.1
  have hhigh : d.toNat ≤ 57 := UInt32.le_iff_toNat_le.1 hdigit.2
  have hsmall : d.toNat < 256 := by omega
  have hbyte : (UInt8.ofNat d.toNat).toNat = d.toNat := UInt8.toNat_ofNat_of_lt' hsmall
  rw [hbyte]
  exact ⟨hlow, hhigh⟩

theorem decimal_ne_nil (n : ℕ) : decimal n ≠ [] := by
  rw [decimal, ascii, Nat.toList_repr]
  exact fun h => Nat.toDigits_ne_nil (List.map_eq_nil_iff.1 h)

theorem decimal_injective {m n : ℕ} (h : decimal m = decimal n) : m = n := by
  rw [decimal, decimal, ascii, ascii, Nat.toList_repr, Nat.toList_repr] at h
  have hchars : ∀ l l' : List Char, (∀ c ∈ l, c.isDigit = true) → (∀ c ∈ l', c.isDigit = true) →
      l.map (fun c => UInt8.ofNat c.toNat) = l'.map (fun c => UInt8.ofNat c.toNat) → l = l' := by
    intro l
    induction l with
    | nil =>
      intro l' _ _ heq
      exact (List.map_eq_nil_iff.1 heq.symm).symm
    | cons c l ih =>
      intro l' hl hl' heq
      cases l' with
      | nil => cases heq
      | cons c' l' =>
        obtain ⟨hhead, htail⟩ := List.cons.inj heq
        have hsmall : ∀ d : Char, d.isDigit = true → d.toNat < 256 := by
          intro d hd
          simp only [Char.isDigit, ge_iff_le, Bool.and_eq_true, decide_eq_true_eq] at hd
          have hd' : d.toNat ≤ 57 := UInt32.le_iff_toNat_le.1 hd.2
          omega
        have hnat := congrArg UInt8.toNat hhead
        rw [UInt8.toNat_ofNat_of_lt' (hsmall c (hl c List.mem_cons_self)),
          UInt8.toNat_ofNat_of_lt' (hsmall c' (hl' c' List.mem_cons_self))] at hnat
        have htails := ih l' (fun d hd => hl d (List.mem_cons_of_mem c hd))
          (fun d hd => hl' d (List.mem_cons_of_mem c' hd)) htail
        rw [Char.toNat_inj.1 hnat, htails]
  have hdigits := hchars _ _ (fun c hc => Nat.isDigit_of_mem_toDigits (by decide) (by decide) hc)
    (fun c hc => Nat.isDigit_of_mem_toDigits (by decide) (by decide) hc) h
  rw [← @Nat.ofDigitChars_ten_toDigits m, hdigits, Nat.ofDigitChars_ten_toDigits]

end Decimals

section Find
variable {pattern text : ByteString}

theorem find_of_startsWith (hne : pattern ≠ []) (h : pattern <+: text) :
    find pattern text = some text := by
  cases text with
  | nil => exact absurd (List.prefix_nil.1 h) hne
  | cons c text => rw [find, if_pos h]

theorem find_cons_of_not_startsWith {c : UInt8} (h : ¬ pattern <+: c :: text) :
    find pattern (c :: text) = find pattern text := by
  rw [find, if_neg h]

/-- Text without the first character of a pattern is skipped. -/
theorem find_append_of_not_mem {q : UInt8} (before : ByteString) (hq : q ∉ before) :
    find (q :: pattern) (before ++ text) = find (q :: pattern) text := by
  induction before with
  | nil => rfl
  | cons c before ih =>
    have hc : ¬ q :: pattern <+: c :: (before ++ text) := by
      intro hprefix
      exact hq (by rw [(List.cons_prefix_cons.1 hprefix).1]; exact List.mem_cons_self)
    rw [List.cons_append, find_cons_of_not_startsWith hc]
    exact ih fun hmem => hq (List.mem_cons_of_mem c hmem)

theorem find_isSome_append (hne : pattern ≠ []) (before after : ByteString) :
    (find pattern (before ++ (pattern ++ after))).isSome = true := by
  induction before with
  | nil => rw [List.nil_append, find_of_startsWith hne (List.prefix_append _ _)]; rfl
  | cons c before ih =>
    by_cases h : pattern <+: c :: before ++ (pattern ++ after)
    · rw [find_of_startsWith hne h]
      rfl
    · rw [List.cons_append] at h ⊢
      rwa [find_cons_of_not_startsWith h]

end Find

section Answers

/-- The end of an answer that is ready, from its inner brace on. -/
def closing : ByteString := ascii "\x7d,\"ready\":true\x7d\n"

/-- The text of some entries and of the end of the answer. -/
def entriesText (entries : List (ℕ × ByteString)) : ByteString :=
  (ascii ",").intercalate (entries.map jsonEntry) ++ closing

/-- What follows the value of an entry. -/
def afterValue : List (ℕ × ByteString) → ByteString
  | [] => closing
  | e :: entries => ascii "," ++ entriesText (e :: entries)

theorem jsonString_of_plain {payload : ByteString} (h : Plain payload) :
    jsonString payload = quote ++ payload ++ quote := by
  have hsame : payload.flatMap (fun c =>
      if c.toNat = 34 then ascii "\\\"" else if c.toNat = 92 then ascii "\\\\"
      else if c.toNat < 32 then ascii "\\u00" ++ [hexDigit (c.toNat / 16), hexDigit (c.toNat % 16)]
      else [c]) = payload := by
    induction payload with
    | nil => rfl
    | cons c payload ih =>
      obtain ⟨hquote, hbackslash, hcontrol⟩ := h c List.mem_cons_self
      rw [List.flatMap_cons, if_neg hquote, if_neg hbackslash, if_neg (by omega),
        ih fun d hd => h d (List.mem_cons_of_mem c hd)]
      rfl
  rw [jsonString, hsame]
  rfl

theorem entriesText_cons {k : ℕ} {v : ByteString} {entries : List (ℕ × ByteString)}
    (hv : Plain v) : entriesText ((k, v) :: entries) =
      keyPattern k ++ (quote ++ (v ++ (quote ++ afterValue entries))) := by
  cases entries with
  | nil =>
    simp only [entriesText, List.map_cons, List.map_nil, List.intercalate_singleton, jsonEntry,
      jsonString_of_plain hv, keyPattern, afterValue, List.append_assoc]
    rfl
  | cons e entries =>
    simp only [entriesText, List.map_cons, List.intercalate_cons_cons, jsonEntry,
      jsonString_of_plain hv, keyPattern, afterValue, List.append_assoc]
    rfl

variable {i : ℕ} {entries : List (ℕ × ByteString)}

private theorem keyPattern_eq (i : ℕ) : keyPattern i = 34 :: (decimal i ++ [34, 58]) := rfl

private theorem keyPattern_ne_nil (i : ℕ) : keyPattern i ≠ [] := by
  rw [keyPattern_eq]
  exact List.cons_ne_nil _ _

/-- A quote that no digit follows does not open the searched key. -/
private theorem find_key_quote {c : UInt8} (hc : c.toNat < 48 ∨ 57 < c.toNat) (text : ByteString) :
    find (keyPattern i) (34 :: c :: text) = find (keyPattern i) (c :: text) := by
  rw [keyPattern_eq]
  refine find_cons_of_not_startsWith fun hprefix => ?_
  have htail := (List.cons_prefix_cons.1 hprefix).2
  cases hd : decimal i with
  | nil => exact decimal_ne_nil i hd
  | cons d rest =>
    rw [hd, List.cons_append] at htail
    have hdigit := digit_of_mem_decimal (n := i) (c := d) (by rw [hd]; exact List.mem_cons_self)
    rw [(List.cons_prefix_cons.1 htail).1] at hdigit
    omega

private theorem find_key_skip (before : ByteString) (hq : (34 : UInt8) ∉ before)
    (text : ByteString) : find (keyPattern i) (before ++ text) = find (keyPattern i) text :=
  find_append_of_not_mem before hq

private theorem find_key_closing : find (keyPattern i) closing = none := by
  have hsplit : closing = ascii "\x7d," ++ (34 :: 114 :: (ascii "eady" ++ (34 :: 58 ::
      (ascii "true\x7d\n" ++ [])))) := rfl
  have hempty : find (keyPattern i) [] = none := by rw [find, if_neg (keyPattern_ne_nil i)]
  have hready : find (keyPattern i) (114 :: (ascii "eady" ++ (34 :: 58 ::
      (ascii "true\x7d\n" ++ [])))) = find (keyPattern i) (34 :: 58 ::
      (ascii "true\x7d\n" ++ [])) := find_key_skip (114 :: ascii "eady") (by decide) _
  have hcolon : find (keyPattern i) (58 :: (ascii "true\x7d\n" ++ [])) =
      find (keyPattern i) [] := find_key_skip (58 :: ascii "true\x7d\n") (by decide) _
  rw [hsplit, find_key_skip _ (by decide), find_key_quote (by decide), hready,
    find_key_quote (by decide), hcolon, hempty]

/-- Positions at a closing quote: the search goes on with the entries that follow. -/
private theorem find_key_afterValue : find (keyPattern i) (34 :: afterValue entries) =
    find (keyPattern i) (entriesText entries) := by
  cases entries with
  | nil => exact find_key_quote (by decide) _
  | cons e entries =>
    have hcomma : afterValue (e :: entries) = 44 :: entriesText (e :: entries) := rfl
    rw [hcomma, find_key_quote (by decide)]
    exact find_key_skip [44] (by decide) _

private theorem quote_not_mem_of_plain {payload : ByteString} (h : Plain payload) :
    (34 : UInt8) ∉ payload := fun hmem => (h 34 hmem).1 rfl

private theorem quote_not_mem_decimal (k : ℕ) : (34 : UInt8) ∉ decimal k := fun hmem => by
  have h := (digit_of_mem_decimal hmem).1
  revert h
  decide

/-- Two quoted texts with the same continuation up to the quote are the same text. -/
private theorem eq_of_quoted_startsWith {a b rest rest' : ByteString} (ha : (34 : UInt8) ∉ a)
    (hb : (34 : UInt8) ∉ b) (h : a ++ 34 :: rest <+: b ++ 34 :: rest') : a = b ∧ rest <+: rest' := by
  induction a generalizing b with
  | nil =>
    cases b with
    | nil => exact ⟨rfl, (List.cons_prefix_cons.1 h).2⟩
    | cons d b =>
      exact absurd (by rw [(List.cons_prefix_cons.1 h).1]; exact List.mem_cons_self) hb
  | cons c a ih =>
    cases b with
    | nil =>
      exact absurd (by rw [← (List.cons_prefix_cons.1 h).1]; exact List.mem_cons_self) ha
    | cons d b =>
      obtain ⟨hcd, hrest⟩ := List.cons_prefix_cons.1 h
      obtain ⟨hab, htail⟩ := ih (fun hmem => ha (List.mem_cons_of_mem c hmem))
        (fun hmem => hb (List.mem_cons_of_mem d hmem)) hrest
      exact ⟨by rw [hcd, hab], htail⟩

private theorem afterValue_ne_colon (rest : ByteString) :
    ¬ (58 : UInt8) :: rest <+: afterValue entries := by
  intro h
  cases entries with
  | nil => exact absurd (List.cons_prefix_cons.1 h).1 (by decide)
  | cons e entries => exact absurd (List.cons_prefix_cons.1 h).1 (by decide)

/-- An entry under another key is passed over. -/
private theorem find_key_miss {k : ℕ} {v : ByteString} (hk : k ≠ i) (hv : Plain v) :
    find (keyPattern i) (entriesText ((k, v) :: entries)) =
      find (keyPattern i) (entriesText entries) := by
  have hdigits := quote_not_mem_decimal
  have hpayload := quote_not_mem_of_plain hv
  have htext : entriesText ((k, v) :: entries) =
      34 :: (decimal k ++ (34 :: 58 :: 34 :: (v ++ (34 :: afterValue entries)))) := by
    rw [entriesText_cons hv]
    simp only [keyPattern_eq, List.cons_append, List.append_assoc, List.nil_append]
    rfl
  have hkey : ¬ keyPattern i <+: entriesText ((k, v) :: entries) := by
    rw [htext, keyPattern_eq]
    intro hprefix
    have hsame := eq_of_quoted_startsWith (hdigits i) (hdigits k) (List.cons_prefix_cons.1 hprefix).2
    exact hk (decimal_injective hsame.1.symm)
  have hvalue : ¬ keyPattern i <+: 34 :: (v ++ (34 :: afterValue entries)) := by
    rw [keyPattern_eq]
    intro hprefix
    have hsame := eq_of_quoted_startsWith (hdigits i) hpayload (List.cons_prefix_cons.1 hprefix).2
    exact afterValue_ne_colon _ hsame.2
  rw [htext] at hkey ⊢
  rw [find_cons_of_not_startsWith hkey, find_key_skip _ (hdigits k), find_key_quote (by decide)]
  have hcolon := find_key_skip (i := i) [58] (by decide) (34 :: (v ++ (34 :: afterValue entries)))
  rw [List.singleton_append] at hcolon
  rw [hcolon, find_cons_of_not_startsWith hvalue, find_key_skip _ hpayload, find_key_afterValue]

/-- The search for a key ends at the first entry under it. -/
private theorem find_key (hplain : ∀ e ∈ entries, Plain e.2) :
    (entries.dropWhile (fun e => e.1 ≠ i) = [] ∧
        find (keyPattern i) (entriesText entries) = none) ∨
      ∃ v rest, entries.dropWhile (fun e => e.1 ≠ i) = (i, v) :: rest ∧
        find (keyPattern i) (entriesText entries) = some (entriesText ((i, v) :: rest)) := by
  induction entries with
  | nil => exact Or.inl ⟨rfl, find_key_closing⟩
  | cons e entries ih =>
    obtain ⟨k, v⟩ := e
    have hv : Plain v := hplain (k, v) List.mem_cons_self
    by_cases hk : k = i
    · subst hk
      have hdrop : ((k, v) :: entries).dropWhile (fun e => e.1 ≠ k) = (k, v) :: entries := by
        simp
      refine Or.inr ⟨v, entries, hdrop, ?_⟩
      apply find_of_startsWith (keyPattern_ne_nil k)
      rw [entriesText_cons hv]
      exact List.prefix_append _ _
    · have hdrop : ((k, v) :: entries).dropWhile (fun e => e.1 ≠ i) =
          entries.dropWhile (fun e => e.1 ≠ i) := by simp [hk]
      rw [hdrop, find_key_miss hk hv]
      exact ih fun e he => hplain e (List.mem_cons_of_mem _ he)

/-- The entries that are found one key after the other, never moving back. -/
def readEntries : List ℕ → List (ℕ × ByteString) → List (ℕ × ByteString)
  | [], _ => []
  | i :: ids, entries =>
    match entries.dropWhile fun e => e.1 ≠ i with
    | [] => readEntries ids entries
    | e :: rest => e :: readEntries ids rest

/-- From a position before the entries the parser reads those it finds in order. -/
theorem parseEntries_eq {ids : List ℕ} {position : ByteString} {res : PlayerMap ByteString}
    (hposition : ∀ i, find (keyPattern i) position = find (keyPattern i) (entriesText entries))
    (hplain : ∀ e ∈ entries, Plain e.2) :
    parseEntries ids position res =
      (readEntries ids entries).foldl (fun res e => res.insert e.1 e.2) res := by
  induction ids generalizing position res entries with
  | nil => rfl
  | cons i ids ih =>
    rw [parseEntries, hposition i, readEntries]
    rcases find_key (i := i) hplain with ⟨hdrop, hnone⟩ | ⟨v, rest, hdrop, hsome⟩
    · simp only [hdrop, hnone]
      exact ih hposition hplain
    · have hsuffix : (i, v) :: rest <:+ entries := hdrop ▸ List.dropWhile_suffix _
      have hplain' : ∀ e ∈ (i, v) :: rest, Plain e.2 := fun e he => hplain e (hsuffix.subset he)
      have hv : Plain v := hplain' (i, v) List.mem_cons_self
      have htext : entriesText ((i, v) :: rest) =
          keyPattern i ++ (quote ++ (v ++ (quote ++ afterValue rest))) := entriesText_cons hv
      have hvalue : find quote (quote ++ (v ++ (quote ++ afterValue rest))) =
          some (quote ++ (v ++ (quote ++ afterValue rest))) :=
        find_of_startsWith (List.cons_ne_nil _ _) (List.prefix_append _ _)
      have hend : find quote (v ++ (quote ++ afterValue rest)) =
          some (quote ++ afterValue rest) := by
        have hskip : find quote (v ++ (quote ++ afterValue rest)) =
            find quote (quote ++ afterValue rest) :=
          find_append_of_not_mem v (quote_not_mem_of_plain hv)
        rw [hskip]
        exact find_of_startsWith (List.cons_ne_nil _ _) (List.prefix_append _ _)
      have htail : (quote ++ (v ++ (quote ++ afterValue rest))).tail =
          v ++ (quote ++ afterValue rest) := rfl
      have hlength : (v ++ (quote ++ afterValue rest)).length -
          (quote ++ afterValue rest).length = v.length := by
        rw [List.length_append]
        omega
      simp only [hdrop, hsome, htext, List.drop_left, hvalue, htail, hend, hlength,
        List.take_left, List.foldl_cons]
      exact ih (fun i => find_key_afterValue) fun e he => hplain' e (List.mem_cons_of_mem _ he)

theorem readEntries_sublist (ids : List ℕ) (entries : List (ℕ × ByteString)) :
    (readEntries ids entries).Sublist entries := by
  induction ids generalizing entries with
  | nil => exact List.nil_sublist _
  | cons i ids ih =>
    rw [readEntries]
    split
    · exact ih entries
    · rename_i e rest hdrop
      have hsuffix : e :: rest <:+ entries := hdrop ▸ List.dropWhile_suffix _
      exact ((ih rest).cons_cons e).trans hsuffix.sublist

theorem map_fst_readEntries_sublist (ids : List ℕ) (entries : List (ℕ × ByteString)) :
    ((readEntries ids entries).map Prod.fst).Sublist ids := by
  induction ids generalizing entries with
  | nil => exact List.nil_sublist _
  | cons i ids ih =>
    rw [readEntries]
    split
    · exact (ih entries).cons i
    · rename_i e rest hdrop
      have hkey : e.1 = i := by
        have hhead := List.head?_dropWhile_not (fun e : ℕ × ByteString => decide (e.1 ≠ i)) entries
        rw [hdrop] at hhead
        simpa using hhead
      rw [List.map_cons, hkey]
      exact (ih rest).cons_cons i

/-- All entries are read exactly when their keys ascend. -/
theorem readEntries_eq_iff {ids : List ℕ} (hids : ids.Pairwise (· < ·))
    (hrange : ∀ e ∈ entries, e.1 ∈ ids) :
    readEntries ids entries = entries ↔ entries.Pairwise fun e e' => e.1 < e'.1 := by
  constructor
  · intro h
    have hkeys := hids.sublist (map_fst_readEntries_sublist ids entries)
    rw [h] at hkeys
    exact List.pairwise_map.1 hkeys
  · intro h
    induction ids generalizing entries with
    | nil =>
      cases entries with
      | nil => rfl
      | cons e entries => exact absurd (hrange e List.mem_cons_self) List.not_mem_nil
    | cons i ids ih =>
      obtain ⟨hfirst, hids⟩ := List.pairwise_cons.1 hids
      rw [readEntries]
      cases entries with
      | nil => exact ih hids (fun e he => absurd he List.not_mem_nil) h
      | cons e rest =>
        obtain ⟨habove, hrest⟩ := List.pairwise_cons.1 h
        have hlater : ∀ e' ∈ rest, i ≤ e.1 → e'.1 ∈ ids := by
          intro e' he' hle
          have hlt := habove e' he'
          exact List.mem_of_ne_of_mem (by omega) (hrange e' (List.mem_cons_of_mem e he'))
        by_cases hkey : e.1 = i
        · have hdrop : (e :: rest).dropWhile (fun e => e.1 ≠ i) = e :: rest := by
            simp [hkey]
          have htail := ih hids (fun e' he' => hlater e' he' hkey.ge) hrest
          simp only [hdrop, htail]
        · have hmem : e.1 ∈ ids := List.mem_of_ne_of_mem hkey (hrange e List.mem_cons_self)
          have hlt := hfirst e.1 hmem
          have hdrop : (e :: rest).dropWhile (fun e => e.1 ≠ i) = [] := by
            rw [List.dropWhile_eq_nil_iff]
            intro e' he'
            rcases List.mem_cons.1 he' with rfl | hmem'
            · simpa using hkey
            · have hlt' := habove e' hmem'
              simpa using (by omega : e'.1 ≠ i)
          simp only [hdrop]
          apply ih hids _ h
          intro e' he'
          rcases List.mem_cons.1 he' with rfl | hmem'
          · exact hmem
          · exact hlater e' hmem' hlt.le

theorem getElem?_foldl_insert {V : Type} {l : List (ℕ × V)} (hl : (l.map Prod.fst).Nodup)
    (res : PlayerMap V) (j : ℕ) (v : V) :
    (l.foldl (fun res e => res.insert e.1 e.2) res)[j]? = some v ↔
      (j, v) ∈ l ∨ j ∉ l.map Prod.fst ∧ res[j]? = some v := by
  induction l generalizing res with
  | nil => simp
  | cons e l ih =>
    obtain ⟨hnotin, hl⟩ := List.nodup_cons.1 hl
    rw [List.foldl_cons, ih hl, Std.ExtTreeMap.getElem?_insert]
    by_cases hj : e.1 = j
    · subst hj
      have hnone : (e.1, v) ∉ l := fun hmem => hnotin (List.mem_map.2 ⟨_, hmem, rfl⟩)
      have hpair : (e.1, v) = e ↔ e.2 = v := by
        constructor
        · intro h
          rw [← h]
        · intro h
          rw [← h]
      have hcompare : compare e.1 e.1 = .eq := Nat.compare_eq_eq.2 rfl
      simp only [hcompare, if_true, Option.some.injEq, List.mem_cons, hnone, or_false,
        List.map_cons, not_true, false_and, false_or, hnotin, not_false_eq_true, true_and, hpair]
    · have hcompare : compare e.1 j ≠ .eq := fun h => hj (Nat.compare_eq_eq.1 h)
      have hne : (j, v) ≠ e := fun h => hj (by rw [← h])
      simp only [hcompare, if_false, List.mem_cons, hne, false_or, List.map_cons, Ne.symm hj]

private theorem decimal_le_iff {m n : ℕ} (hm : m < 10) (hn : n < 10) :
    decimal m ≤ decimal n ↔ m ≤ n := by
  interval_cases m <;> interval_cases n <;> decide

theorem isReady_jsonify_none : isReady (jsonify none) = false := by decide

theorem isReady_jsonify (entries : List (ℕ × ByteString)) :
    isReady (jsonify (some entries)) = true := by
  let sorted := entries.insertionSort fun a b => decimal a.1 ≤ decimal b.1
  have hpattern : ascii "\"ready\":true" ≠ [] := by decide
  have hsplit : jsonify (some entries) = (ascii "\x7b\"data\":\x7b" ++
      ((ascii ",").intercalate (sorted.map jsonEntry) ++ ascii "\x7d,")) ++
        (ascii "\"ready\":true" ++ ascii "\x7d\n") := by
    simp only [jsonify, List.append_assoc]
    rfl
  rw [isReady, hsplit]
  exact find_isSome_append hpattern _ _

/-- The entries of an answer in the order of its text. -/
def inTextOrder (entries : List (ℕ × ByteString)) : List (ℕ × ByteString) :=
  entries.insertionSort fun a b => decimal a.1 ≤ decimal b.1

theorem perm_inTextOrder (entries : List (ℕ × ByteString)) : (inTextOrder entries).Perm entries :=
  List.perm_insertionSort _ _

theorem pairwise_inTextOrder (entries : List (ℕ × ByteString)) :
    (inTextOrder entries).Pairwise fun a b => decimal a.1 ≤ decimal b.1 := by
  have : Std.Total fun a b : ℕ × ByteString => decimal a.1 ≤ decimal b.1 :=
    ⟨fun a b => List.le_total _ _⟩
  have : IsTrans (ℕ × ByteString) fun a b => decimal a.1 ≤ decimal b.1 :=
    ⟨fun a b c => List.le_trans⟩
  exact List.pairwise_insertionSort _ _

theorem parseJsonMap_jsonify (players : ℕ) (hplain : ∀ e ∈ entries, Plain e.2) :
    parseJsonMap players (jsonify (some entries)) =
      (readEntries (List.range' 1 players) (inTextOrder entries)).foldl
        (fun res e => res.insert e.1 e.2) ∅ := by
  have hbody : jsonify (some entries) =
      ascii "\x7b\"data\":\x7b" ++ entriesText (inTextOrder entries) := by
    simp only [jsonify, entriesText, List.append_assoc]
    rfl
  have hstart : ∀ i, find (keyPattern i) (123 :: entriesText (inTextOrder entries)) =
      find (keyPattern i) (entriesText (inTextOrder entries)) :=
    fun i => find_key_skip [123] (by decide) _
  rw [hbody]
  exact parseEntries_eq hstart fun e he => hplain e ((perm_inTextOrder entries).mem_iff.1 he)

/-- With at most nine players an answer is read exactly: every entry and nothing else. -/
theorem awaitResponse_jsonify {players : ℕ} (hplayers : players ≤ 9)
    (hkeys : (entries.map Prod.fst).Nodup) (hrange : ∀ e ∈ entries, 1 ≤ e.1 ∧ e.1 ≤ players)
    (hplain : ∀ e ∈ entries, Plain e.2) :
    ∃ map, awaitResponse players (jsonify (some entries)) = some map ∧
      ∀ j v, map[j]? = some v ↔ (j, v) ∈ entries := by
  have hperm := perm_inTextOrder entries
  have hnodup : ((inTextOrder entries).map Prod.fst).Nodup :=
    (hperm.map Prod.fst).nodup_iff.2 hkeys
  have hsorted : (inTextOrder entries).Pairwise fun e e' => e.1 < e'.1 := by
    have hne : (inTextOrder entries).Pairwise fun e e' => e.1 ≠ e'.1 := List.pairwise_map.1 hnodup
    refine ((pairwise_inTextOrder entries).and hne).imp_of_mem fun ha hb h => ?_
    have ha' := hrange _ (hperm.mem_iff.1 ha)
    have hb' := hrange _ (hperm.mem_iff.1 hb)
    have hlt := (decimal_le_iff (by omega) (by omega)).1 h.1
    exact lt_of_le_of_ne hlt h.2
  have hread : readEntries (List.range' 1 players) (inTextOrder entries) = inTextOrder entries := by
    refine (readEntries_eq_iff List.pairwise_lt_range' fun e he => ?_).2 hsorted
    have h := hrange e (hperm.mem_iff.1 he)
    exact List.mem_range'_1.2 (by omega)
  refine ⟨_, by rw [awaitResponse, isReady_jsonify, if_pos rfl], ?_⟩
  intro j v
  rw [parseJsonMap_jsonify players hplain, hread, getElem?_foldl_insert hnodup, hperm.mem_iff]
  simp

end Answers

end MpcDemo.NetworkManager
