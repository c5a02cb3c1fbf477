import MpcDemo.JsonScannerLaws
import MpcDemo.NetworkManager

/-!
# The round id that is written and the round id that is read

`broadcast` puts a round id into a JSON text and `await_data_custom_count` puts it into a URL,
both without escaping. The relay decodes the two in different ways.
-/

namespace MpcDemo.RoundIds
open ByteStrings HexText Utf8Text UrlQueries JsonScanner JsonScannerLaws
open NetworkManager (decimal)

def relayUrl : ByteString := ascii "http://127.0.0.1:5000"

/-- What a function that takes a C string reads of a string. -/
def cString (text : ByteString) : ByteString := text.takeWhile (· ≠ 0)

/-- The body of a `/broadcast` request. -/
def broadcastJson (myId : ℕ) (roundId data : ByteString) : ByteString :=
  ascii "\x7b\"sender_id\": " ++ decimal myId ++ ascii ", \"round_id\": \"" ++ roundId ++
    ascii "\", \"data\": \"" ++ data ++ ascii "\"\x7d"

/-- The URL of a `/poll` request. -/
def pollUrl (roundId : ByteString) (expectedCount : ℕ) : ByteString :=
  relayUrl ++ ascii "/poll?round_id=" ++ roundId ++ ascii "&expected_count=" ++
    decimal expectedCount

/-- Under which round the relay files the message of a body, if it does: a value without a length
is no data. -/
def filedUnder (body : ByteString) : Option ByteString :=
  if Utf8 body then
    match membersOf body with
    | none => none
    | some members =>
      match lookup (ascii "round_id") members, lookup (ascii "data") members with
      | some (.string roundId), some data => if data = .scalar then none else some roundId
      | _, _ => none
  else none

/-- `int` on ASCII text: blanks around it, a sign, and groups of digits with underscores between
them. -/
def readInt (text : ByteString) : Option ℤ :=
  let stripped := ((text.dropWhile isBlank).reverse.dropWhile isBlank).reverse
  let digits := if stripped.head? = some 43 ∨ stripped.head? = some 45 then stripped.tail
    else stripped
  let value : ℕ := (digits.filter isDigit).foldl (fun n c => 10 * n + (c.toNat - 48)) 0
  if (pieces 95 digits).all fun group => group ≠ [] ∧ group.all isDigit then
    some (if stripped.head? = some 45 then -value else value)
  else none

/-- The round id and the count that the relay finds in a URL. -/
def polledFor (replaceInvalid : ByteString → ByteString) (url : ByteString) :
    Option (ByteString × ℤ) :=
  match argument replaceInvalid (queryOf url) (ascii "round_id") with
  | none => none
  | some roundId =>
    match argument replaceInvalid (queryOf url) (ascii "expected_count") with
    | none => some (roundId, 3)
    | some count => (readInt count).map fun n => (roundId, n)

/-- What the rounds of the signing flow add to a session's name. -/
def signSuffixes : List ByteString :=
  [ascii "_ready", ascii "_server_commit", ascii "_server_decommit_r", ascii "_server_r",
    ascii "_r2", ascii "_r2_sigs", ascii "_r3"]

/-- The round names of a session. -/
def roundNames (txid : ByteString) : List ByteString :=
  (ascii "preprocess_" ++ txid) :: signSuffixes.map fun suffix => ascii "sign_" ++ txid ++ suffix

/-- The data that the orchestrators post. -/
def Payload (data : ByteString) : Prop := data = ascii "ready" ∨ ∃ bytes, data = toHex bytes

/-- Whatever is posted to a round of a session by whom is filed under the round id that a poll for
the round asks for, and the poll asks for the requested count. -/
def Agrees (replaceInvalid : ByteString → ByteString) (txid : ByteString) : Prop :=
  ∀ roundId ∈ roundNames txid, ∀ myId data expectedCount, Payload data → ∃ filed,
    filedUnder (cString (broadcastJson myId roundId data)) = some filed ∧
      polledFor replaceInvalid (cString (pollUrl roundId expectedCount)) =
        some (filed, (expectedCount : ℤ))

/-- UTF-8 without quotes, backslashes, control characters, `#`, `&`, `+` and percent codes. -/
def Transparent (txid : ByteString) : Prop :=
  Utf8 txid ∧ Plain txid ∧ (35 : UInt8) ∉ txid ∧ (38 : UInt8) ∉ txid ∧ (43 : UInt8) ∉ txid ∧
    ¬ HasCode txid

section Decimals

theorem decimal_of_lt {n : ℕ} (h : n < 10) : decimal n = [UInt8.ofNat (48 + n)] := by
  interval_cases n <;> rfl

theorem decimal_of_le {n : ℕ} (h : 10 ≤ n) :
    decimal n = decimal (n / 10) ++ [UInt8.ofNat (48 + n % 10)] := by
  have hlast : decimal (n % 10) = [UInt8.ofNat (48 + n % 10)] :=
    decimal_of_lt (Nat.mod_lt n (by decide))
  have hdigits := Nat.toDigits_of_base_le (by decide : 1 < 10) h
  have hdigit := Nat.toDigits_of_lt_base (Nat.mod_lt n (by decide : 0 < 10))
  rw [← hlast]
  simp only [decimal, ascii, Nat.toList_repr]
  rw [hdigits, hdigit, List.map_append]

end Decimals

section Bodies

/-- Where a round id begins in a body. -/
def atRoundId : Scan := ⟨.text, [.object], false, [], ascii "round_id"⟩

/-- A decimal number in the place of a value. -/
theorem run_decimal (s : Scan) (hs : s.mode = .value) (n : ℕ) : ∃ part,
    run s (decimal n) = some ({ s with mode := .number part }, []) ∧
      (part = .zero ∨ part = .digits) ∧ (1 ≤ n → part = .digits) := by
  have hdigit : ∀ d < 10, isDigit (UInt8.ofNat (48 + d)) = true := by decide
  induction n using Nat.strong_induction_on with
  | _ n ih =>
    obtain ⟨mode, stack, isKey, items, key⟩ := s
    obtain rfl : mode = .value := hs
    by_cases h : n < 10
    · rw [decimal_of_lt h]
      interval_cases n
      · exact ⟨.zero, rfl, Or.inl rfl, by omega⟩
      all_goals exact ⟨.digits, rfl, Or.inr rfl, fun _ => rfl⟩
    · rw [decimal_of_le (by omega)]
      obtain ⟨part, hrun, -, hpart⟩ := ih (n / 10) (by omega)
      obtain rfl := hpart (by omega)
      have hlast := hdigit (n % 10) (Nat.mod_lt n (by decide))
      refine ⟨.digits, run_append.2 ⟨_, [], [], hrun, ?_, rfl⟩, Or.inr rfl, fun _ => rfl⟩
      simp only [run, Scan.step, Scan.structuralStep, numberStep, hlast, if_true, Scan.goto,
        List.append_nil]

theorem run_head (myId : ℕ) :
    run .start (ascii "\x7b\"sender_id\": " ++ decimal myId ++ ascii ", \"round_id\": \"") =
      some (atRoundId, [(ascii "sender_id", .scalar)]) := by
  obtain ⟨part, hrun, hpart, -⟩ :=
    run_decimal ⟨.value, [.object], true, [], ascii "sender_id"⟩ rfl myId
  have hstart : run .start (ascii "\x7b\"sender_id\": ") =
      some (⟨.value, [.object], true, [], ascii "sender_id"⟩, []) := rfl
  have hid : run .start (ascii "\x7b\"sender_id\": " ++ decimal myId) =
      some (⟨.number part, [.object], true, [], ascii "sender_id"⟩, []) :=
    run_append.2 ⟨_, [], [], hstart, hrun, rfl⟩
  refine run_append.2 ⟨_, [], [(ascii "sender_id", .scalar)], hid, ?_, rfl⟩
  rcases hpart with rfl | rfl
  · rfl
  · rfl

/-- The end of a body, from the quote behind the round id on. -/
def bodyEnd (data : ByteString) : ByteString := ascii "\", \"data\": \"" ++ data ++ ascii "\"\x7d"

variable {s t : Scan} {members : List Member} {data : ByteString}

/-- The text of a member's value is closed, and the data is the last member. -/
theorem run_bodyEnd (hmode : s.mode = .text) (hisKey : s.isKey = false)
    (hstack : s.stack = [.object]) (hdata : Plain data) :
    run s (bodyEnd data) = some (⟨.after, [], false, [], ascii "data"⟩,
      [(ascii "data", .string data), (s.key, .string (render s.items))]) := by
  obtain ⟨mode, stack, isKey, items, key⟩ := s
  obtain rfl : mode = .text := hmode
  obtain rfl : isKey = false := hisKey
  obtain rfl : stack = [.object] := hstack
  have hfirst : run ⟨.text, [.object], false, items, key⟩ (ascii "\", \"data\": \"") =
      some (⟨.text, [.object], false, [], ascii "data"⟩, [(key, .string (render items))]) := rfl
  have htext : run ⟨.text, [.object], false, [], ascii "data"⟩ data =
      some (⟨.text, [.object], false, data.map .raw, ascii "data"⟩, []) := run_plain rfl hdata
  have hlast : run ⟨.text, [.object], false, data.map .raw, ascii "data"⟩ (ascii "\"\x7d") =
      some (⟨.after, [], false, [], ascii "data"⟩,
        [(ascii "data", .string (render (data.map .raw)))]) := rfl
  rw [render_raw] at hlast
  exact run_append.2 ⟨_, _, _, run_append.2 ⟨_, _, _, hfirst, htext, rfl⟩, hlast, rfl⟩

/-- Only as the text of a member's value can a round id be followed by the end of a body. -/
theorem of_run_bodyEnd (hmode : s.mode = .text) (hdata : Plain data)
    (hrun : run s (bodyEnd data) = some (t, members)) (ht : t.stack = []) :
    s.isKey = false ∧ s.stack = [.object] := by
  obtain ⟨mode, stack, isKey, items, key⟩ := s
  obtain rfl : mode = .text := hmode
  have hsplit : bodyEnd data = ascii "\", \"data\":" ++ (ascii " \"" ++ data ++ ascii "\"\x7d") := by
    simp only [bodyEnd, ← List.append_assoc]
    rfl
  rw [hsplit] at hrun
  obtain ⟨u, earlier, later, hfirst, hlast, -⟩ := run_append.1 hrun
  cases isKey with
  | true =>
    have hnone : run ⟨.text, stack, true, items, key⟩ (ascii "\", \"data\":") = none := rfl
    rw [hnone] at hfirst
    cases hfirst
  | false =>
    refine ⟨rfl, ?_⟩
    cases stack with
    | nil =>
      have hnone : run ⟨.text, [], false, items, key⟩ (ascii "\", \"data\":") = none := rfl
      rw [hnone] at hfirst
      cases hfirst
    | cons frame outer =>
      cases frame with
      | array =>
        have hnone : run ⟨.text, .array :: outer, false, items, key⟩
            (ascii "\", \"data\":") = none := rfl
        rw [hnone] at hfirst
        cases hfirst
      | object =>
        have hvalue : ∃ key' members', run ⟨.text, .object :: outer, false, items, key⟩
            (ascii "\", \"data\":") =
              some (⟨.value, .object :: outer, true, [], key'⟩, members') := ⟨_, _, rfl⟩
        obtain ⟨key', members', hvalue⟩ := hvalue
        rw [hvalue] at hfirst
        cases hfirst
        have hopen : run ⟨.value, .object :: outer, true, [], key'⟩ (ascii " \"") =
            some (⟨.text, .object :: outer, false, [], key'⟩, []) := rfl
        have htext : run ⟨.text, .object :: outer, false, [], key'⟩ data =
            some (⟨.text, .object :: outer, false, data.map .raw, key'⟩, []) :=
          run_plain rfl hdata
        have hclose : ∃ members', run ⟨.text, .object :: outer, false, data.map .raw, key'⟩
            (ascii "\"\x7d") = some (⟨.after, outer, false, [], key'⟩, members') := ⟨_, rfl⟩
        obtain ⟨members'', hclose⟩ := hclose
        have hall := run_append.2 ⟨_, _, _, run_append.2 ⟨_, _, _, hopen, htext, rfl⟩, hclose, rfl⟩
        rw [hall] at hlast
        cases hlast
        have houter : outer = [] := ht
        rw [houter]

/-- An underscore can only stand in the text of a string. -/
theorem mode_of_step_underscore (h : s.step 95 = some (t, members)) : s.mode = .text := by
  have hvalue : s.openValue 95 = none := rfl
  have hafter : ∀ s : Scan, s.afterStep 95 = none := by
    intro s
    obtain ⟨mode, stack, isKey, items, key⟩ := s
    cases stack with
    | nil => rfl
    | cons frame outer =>
      cases frame with
      | array => rfl
      | object => rfl
  obtain ⟨mode, stack, isKey, items, key⟩ := s
  cases mode with
  | text => rfl
  | value => cases h
  | firstElement => cases h
  | firstMember => cases h
  | member => cases h
  | colon => cases h
  | after =>
    have hnone := hafter ⟨.after, stack, isKey, items, key⟩
    rw [Scan.step, Scan.structuralStep] at h
    rw [hnone] at h
    cases h
  | escape => cases h
  | codeUnit digits => cases h
  | number part =>
    have hnone := hafter (Scan.valueEnd ⟨.number part, stack, isKey, items, key⟩ .scalar).1
    have hend : Scan.numberEnd ⟨.number part, stack, isKey, items, key⟩ 95 = none := by
      rw [Scan.numberEnd, hnone]
      rfl
    cases part with
    | minus => cases h
    | point => cases h
    | exponent => cases h
    | sign => cases h
    | zero => cases hend.symm.trans h
    | digits => cases hend.symm.trans h
    | fraction => cases hend.symm.trans h
    | exponentDigits => cases hend.symm.trans h
  | literal part =>
    cases part with
    | _ => cases h

end Bodies

section Requests

theorem lookup_append (name : ByteString) (later earlier : List Member) :
    lookup name (later ++ earlier) = (lookup name later).or (lookup name earlier) := by
  rw [lookup, List.find?_append, lookup, lookup]
  cases later.find? fun m => m.1 = name with
  | none => rfl
  | some m => rfl

/-- A string without NUL before some text. -/
theorem cString_append {a : ByteString} (ha : (0 : UInt8) ∉ a) (b : ByteString) :
    cString (a ++ b) = a ++ cString b := by
  apply List.takeWhile_append_of_pos
  intro c hc
  simpa using fun heq : c = 0 => ha (heq ▸ hc)

theorem cString_of_not_mem {a : ByteString} (ha : (0 : UInt8) ∉ a) : cString a = a := by
  have h := cString_append ha []
  have hnil : cString [] = [] := rfl
  rwa [hnil, List.append_nil] at h

theorem zero_not_mem_of_plain {a : ByteString} (ha : Plain a) : (0 : UInt8) ∉ a := by
  intro h
  have hcontrol := (ha 0 h).2.2
  revert hcontrol
  decide

theorem zero_not_mem_head (myId : ℕ) : (0 : UInt8) ∉
    ascii "\x7b\"sender_id\": " ++ decimal myId ++ ascii ", \"round_id\": \"" := by
  rw [List.mem_append, List.mem_append, not_or, not_or]
  refine ⟨⟨by decide, fun h => ?_⟩, by decide⟩
  have hdigit := (NetworkManager.digit_of_mem_decimal h).1
  revert hdigit
  decide

theorem zero_not_mem_bodyEnd {data : ByteString} (hdata : Plain data) :
    (0 : UInt8) ∉ bodyEnd data := by
  rw [bodyEnd, List.mem_append, List.mem_append, not_or, not_or]
  exact ⟨⟨by decide, zero_not_mem_of_plain hdata⟩, by decide⟩

/-- The scan of a body from its round id on decides under which round it is filed. -/
theorem filedUnder_eq_some_iff {body filed : ByteString} : filedUnder body = some filed ↔
    Utf8 body ∧ ∃ t members value, run .start body = some (t, members) ∧ t.mode = .after ∧
      t.stack = [] ∧ lookup (ascii "round_id") members = some (.string filed) ∧
      lookup (ascii "data") members = some value ∧ value ≠ .scalar := by
  rw [filedUnder]
  by_cases hutf8 : Utf8 body
  · rw [if_pos hutf8, membersOf]
    constructor
    · intro h
      refine ⟨hutf8, ?_⟩
      cases hrun : run .start body with
      | none => rw [hrun] at h; cases h
      | some last =>
        obtain ⟨t, members⟩ := last
        rw [hrun] at h
        simp only at h
        by_cases hend : t.mode = .after ∧ t.stack = []
        · rw [if_pos hend] at h
          simp only at h
          split at h
          · rename_i r d hr hd
            split at h
            · cases h
            · rename_i hscalar
              cases h
              exact ⟨t, members, d, rfl, hend.1, hend.2, hr, hd, hscalar⟩
          · cases h
        · rw [if_neg hend] at h
          cases h
    · intro h
      obtain ⟨-, t, members, value, hrun, hmode, hstack, hround, hdata, hscalar⟩ := h
      rw [hrun]
      simp only [hmode, hstack, and_self, if_true, hround, hdata, hscalar, if_false]
  · rw [if_neg hutf8]
    exact iff_of_false nofun fun h => hutf8 h.1

variable {myId : ℕ} {roundId data filed : ByteString}

theorem broadcastJson_eq (myId : ℕ) (roundId data : ByteString) :
    broadcastJson myId roundId data = ascii "\x7b\"sender_id\": " ++ decimal myId ++
      ascii ", \"round_id\": \"" ++ (roundId ++ bodyEnd data) := by
  simp only [broadcastJson, bodyEnd, List.append_assoc]

/-- What is filed from a body, by the scan of the round id. -/
theorem of_filed_broadcast
    (h : filedUnder (cString (broadcastJson myId roundId data)) = some filed) :
    ∃ t members, run atRoundId (cString (roundId ++ bodyEnd data)) = some (t, members) ∧
      t.mode = .after ∧ t.stack = [] ∧
      lookup (ascii "round_id") members = some (.string filed) := by
  obtain ⟨-, t, members, -, hrun, hmode, hstack, hround, -, -⟩ := filedUnder_eq_some_iff.1 h
  rw [broadcastJson_eq, cString_append (zero_not_mem_head myId)] at hrun
  obtain ⟨u, earlier, later, hhead, hlast, rfl⟩ := run_append.1 hrun
  rw [run_head] at hhead
  cases hhead
  refine ⟨t, later, hlast, hmode, hstack, ?_⟩
  rw [lookup_append] at hround
  have hnone : lookup (ascii "round_id") [(ascii "sender_id", .scalar)] = none := rfl
  rwa [hnone, Option.or_none] at hround

theorem Payload.plain (h : Payload data) : Plain data := by
  rcases h with rfl | ⟨bytes, rfl⟩
  · decide +kernel
  · exact plain_toHex bytes

theorem Payload.utf8 (h : Payload data) : Utf8 data := by
  apply utf8_of_ascii
  rcases h with rfl | ⟨bytes, rfl⟩
  · decide +kernel
  · have hdigit : ∀ n < 16, isAscii (hexDigit n) = true := by decide
    intro c hc
    obtain ⟨b, -, hc⟩ := List.mem_flatMap.1 hc
    have hb := b.toNat_lt
    rcases List.mem_cons.1 hc with rfl | hc
    · exact hdigit _ (by omega)
    · obtain rfl := List.mem_singleton.1 hc
      exact hdigit _ (by omega)

theorem isAscii_of_mem_decimal {n : ℕ} {c : UInt8} (h : c ∈ decimal n) : isAscii c = true := by
  have hdigit := NetworkManager.digit_of_mem_decimal h
  simp only [isAscii, decide_eq_true_eq]
  omega

/-- A plain round id is filed as it is. -/
theorem filed_of_plain (hutf8 : Utf8 roundId) (hround : Plain roundId) (hdata : Payload data) :
    filedUnder (cString (broadcastJson myId roundId data)) = some roundId := by
  have htext : run atRoundId roundId =
      some ({ atRoundId with items := roundId.map .raw }, []) := run_plain rfl hround
  have hend : run { atRoundId with items := roundId.map .raw } (bodyEnd data) =
      some (⟨.after, [], false, [], ascii "data"⟩, [(ascii "data", .string data),
        (ascii "round_id", .string (render (roundId.map .raw)))]) :=
    run_bodyEnd rfl rfl rfl hdata.plain
  have hrun := run_append.2 ⟨_, _, _, run_head myId, run_append.2 ⟨_, _, _, htext, hend, rfl⟩, rfl⟩
  rw [render_raw] at hrun
  have hzero : (0 : UInt8) ∉ roundId ++ bodyEnd data := by
    rw [List.mem_append, not_or]
    exact ⟨zero_not_mem_of_plain hround, zero_not_mem_bodyEnd hdata.plain⟩
  rw [broadcastJson_eq, cString_append (zero_not_mem_head myId), cString_of_not_mem hzero]
  refine filedUnder_eq_some_iff.2 ⟨?_, _, _, .string data, hrun, rfl, rfl, rfl, rfl, nofun⟩
  have hhead : Utf8 (ascii "\x7b\"sender_id\": " ++ decimal myId ++ ascii ", \"round_id\": \"") := by
    apply Utf8.append (Utf8.append (utf8_of_ascii (by decide +kernel)) _)
      (utf8_of_ascii (by decide +kernel))
    exact utf8_of_ascii fun c hc => isAscii_of_mem_decimal hc
  have hbodyEnd : Utf8 (bodyEnd data) :=
    (Utf8.append (utf8_of_ascii (by decide +kernel)) hdata.utf8).append
      (utf8_of_ascii (by decide +kernel))
  exact hhead.append (hutf8.append hbodyEnd)

/-- The characters at which a server or a C string stops reading a round id. -/
def isCut (c : UInt8) : Bool := c = 0 ∨ c = 35 ∨ c = 38

def uncut (bytes : ByteString) : ByteString := bytes.takeWhile fun c => !isCut c

theorem uncut_append {a : ByteString} (ha : ∀ c ∈ a, isCut c = false) (b : ByteString) :
    uncut (a ++ b) = a ++ uncut b := by
  apply List.takeWhile_append_of_pos
  intro c hc
  rw [ha c hc]
  rfl

variable {replaceInvalid : ByteString → ByteString} {expectedCount : ℕ} {count : ℤ}

/-- The query of a poll's URL, in pieces. -/
theorem pieces_pollUrl (roundId : ByteString) (expectedCount : ℕ) :
    ∃ later, pieces 38 (queryOf (cString (pollUrl roundId expectedCount))) =
      (ascii "round_id=" ++ uncut roundId) :: later := by
  let rest := roundId ++ ascii "&expected_count=" ++ decimal expectedCount
  have hurl : pollUrl roundId expectedCount =
      relayUrl ++ ascii "/poll?" ++ (ascii "round_id=" ++ rest) := by
    simp only [pollUrl, rest, List.append_assoc]
    rfl
  have hquery : queryOf (relayUrl ++ ascii "/poll?" ++ cString (ascii "round_id=" ++ rest)) =
      (cString (ascii "round_id=" ++ rest)).takeWhile (· ≠ 35) := rfl
  have hcut : ((cString (ascii "round_id=" ++ rest)).takeWhile (· ≠ 35)).takeWhile (· ≠ 38) =
      uncut (ascii "round_id=" ++ rest) := by
    rw [cString, List.takeWhile_takeWhile, List.takeWhile_takeWhile, uncut]
    congr 1
    funext c
    simp only [isCut, ne_eq, decide_not, Bool.decide_and, Bool.decide_or, Bool.not_or,
      Bool.decide_eq_true]
    cases decide (c = 0) <;> cases decide (c = 35) <;> cases decide (c = 38) <;> rfl
  have huncut : uncut (ascii "round_id=" ++ rest) = ascii "round_id=" ++ uncut roundId := by
    rw [uncut_append (by decide +kernel)]
    congr 1
    simp only [rest, uncut, List.append_assoc]
    rw [List.takeWhile_append]
    split
    · rename_i hall
      have hself := (List.takeWhile_prefix (fun c => !isCut c)).eq_of_length hall
      rw [hself]
      exact List.append_nil _
    · rfl
  obtain ⟨later, hlater⟩ := pieces_cons 38 ((cString (ascii "round_id=" ++ rest)).takeWhile (· ≠ 35))
  refine ⟨later, ?_⟩
  rw [hurl, cString_append (by decide +kernel), hquery, hlater, hcut, huncut]

theorem formDecode_of_ascii (h : Replaces replaceInvalid) {name : ByteString}
    (hdecoded : percentDecode (plusToBlank name) = name) (hascii : ∀ c ∈ name, isAscii c = true) :
    formDecode replaceInvalid name = name := by
  rw [formDecode, hdecoded]
  exact h.valid _ (utf8_of_ascii hascii)

/-- The round id of a poll is what stands before the first character that ends it. -/
theorem argument_roundId (h : Replaces replaceInvalid) (roundId : ByteString)
    (expectedCount : ℕ) :
    argument replaceInvalid (queryOf (cString (pollUrl roundId expectedCount)))
      (ascii "round_id") = some (formDecode replaceInvalid (uncut roundId)) := by
  obtain ⟨later, hpieces⟩ := pieces_pollUrl roundId expectedCount
  have hname : formDecode replaceInvalid (ascii "round_id") = ascii "round_id" :=
    formDecode_of_ascii h (by decide +kernel) (by decide +kernel)
  have htake : (ascii "round_id=" ++ uncut roundId).takeWhile (· ≠ 61) = ascii "round_id" := rfl
  have hdrop : ((ascii "round_id=" ++ uncut roundId).dropWhile (· ≠ 61)).drop 1 =
      uncut roundId := rfl
  rw [argument, arguments, hpieces, List.map_cons, htake, hdrop, hname,
    List.find?_cons_of_pos (by simp)]
  rfl

theorem of_polledFor (h : Replaces replaceInvalid)
    (hpolled : polledFor replaceInvalid (cString (pollUrl roundId expectedCount)) =
      some (filed, count)) : filed = formDecode replaceInvalid (uncut roundId) := by
  rw [polledFor, argument_roundId h] at hpolled
  simp only at hpolled
  split at hpolled
  · cases hpolled
    rfl
  · rw [Option.map_eq_some_iff] at hpolled
    obtain ⟨n, -, heq⟩ := hpolled
    cases heq
    rfl

end Requests

section Numbers

theorem isDigit_of_mem_decimal {n : ℕ} {c : UInt8} (h : c ∈ decimal n) : isDigit c = true := by
  have hdigit := NetworkManager.digit_of_mem_decimal h
  simp only [isDigit, decide_eq_true_eq]
  exact hdigit

theorem value_decimal (n : ℕ) :
    (decimal n).foldl (fun n c => 10 * n + (c.toNat - 48)) 0 = n := by
  induction n using Nat.strong_induction_on with
  | _ n ih =>
    have hdigit : ∀ d < 10, (UInt8.ofNat (48 + d)).toNat - 48 = d := by decide
    by_cases h : n < 10
    · rw [decimal_of_lt h, List.foldl_cons, List.foldl_nil, hdigit n h]
      omega
    · rw [decimal_of_le (by omega), List.foldl_append, ih (n / 10) (by omega), List.foldl_cons,
        List.foldl_nil, hdigit (n % 10) (Nat.mod_lt n (by decide))]
      omega

theorem readInt_decimal (n : ℕ) : readInt (decimal n) = some (n : ℤ) := by
  have hdigits : ∀ c ∈ decimal n, isDigit c = true := fun c hc => isDigit_of_mem_decimal hc
  have hblank : ∀ c ∈ decimal n, isBlank c = false := by
    intro c hc
    have h := NetworkManager.digit_of_mem_decimal hc
    simp only [isBlank, decide_eq_false_iff_not]
    omega
  have hne := NetworkManager.decimal_ne_nil n
  have hdrop : ∀ l : ByteString, (∀ c ∈ l, isBlank c = false) → l.dropWhile isBlank = l := by
    intro l hl
    cases l with
    | nil => rfl
    | cons c l => rw [List.dropWhile_cons, hl c List.mem_cons_self]; rfl
  have hstripped : (((decimal n).dropWhile isBlank).reverse.dropWhile isBlank).reverse =
      decimal n := by
    rw [hdrop _ hblank, hdrop _ fun c hc => hblank c (List.mem_reverse.1 hc), List.reverse_reverse]
  have hhead : ∀ c, isDigit c = false → (decimal n).head? ≠ some c := by
    intro c hc heq
    have hmem := List.mem_of_mem_head? heq
    rw [hdigits c hmem] at hc
    cases hc
  have hunderscore : (95 : UInt8) ∉ decimal n := fun hmem => by
    have h := hdigits 95 hmem
    revert h
    decide
  have hfilter : (decimal n).filter isDigit = decimal n := List.filter_eq_self.2 hdigits
  simp only [readInt, hstripped, hhead 43 (by decide), hhead 45 (by decide), or_self, if_false,
    pieces_of_not_mem hunderscore, hfilter, value_decimal]
  simpa [hne] using hdigits

end Numbers

section Transparency

/-- What stands around a session id in a round name. -/
structure Surrounds (before after : ByteString) : Prop where
  ascii : ∀ c ∈ before ++ after, isAscii c = true
  plain : Plain (before ++ after)
  cut : ∀ c ∈ before ++ after, isCut c = false ∧ c ≠ 37 ∧ c ≠ 43
  digit : ∀ c ∈ after.head?, isHex c = false

instance (before after : ByteString) : Decidable (Surrounds before after) :=
  decidable_of_iff ((∀ c ∈ before ++ after, isAscii c = true) ∧ Plain (before ++ after) ∧
      (∀ c ∈ before ++ after, isCut c = false ∧ c ≠ 37 ∧ c ≠ 43) ∧
        ∀ c ∈ after.head?, isHex c = false)
    ⟨fun h => ⟨h.1, h.2.1, h.2.2.1, h.2.2.2⟩, fun h => ⟨h.ascii, h.plain, h.cut, h.digit⟩⟩

variable {before after txid : ByteString}

theorem Surrounds.not_mem (h : Surrounds before after) {c : UInt8}
    (hc : isCut c = true ∨ c = 37 ∨ c = 43) : c ∉ before ∧ c ∉ after := by
  have hnot : c ∉ before ++ after := by
    intro hmem
    obtain ⟨hcut, hpercent, hplus⟩ := h.cut c hmem
    rcases hc with hc | hc | hc
    · rw [hcut] at hc
      cases hc
    · exact hpercent hc
    · exact hplus hc
  rwa [List.mem_append, not_or] at hnot

theorem Surrounds.percentDecode (h : Surrounds before after) (txid : ByteString) :
    percentDecode (before ++ txid ++ after) = before ++ UrlQueries.percentDecode txid ++ after := by
  obtain ⟨hbefore, hafter⟩ := h.not_mem (Or.inr (Or.inl (rfl : (37 : UInt8) = 37)))
  rw [List.append_assoc, percentDecode_append_of_not_mem hbefore, List.append_assoc]
  congr 1
  cases after with
  | nil => rw [List.append_nil, List.append_nil]
  | cons c after =>
    have hself := percentDecode_append_of_not_mem hafter []
    rw [List.append_nil] at hself
    rw [percentDecode_append_of_not_isHex txid (h.digit c rfl), hself]
    congr 1
    exact List.append_nil _

theorem Surrounds.formDecode (h : Surrounds before after)
    (replaceInvalid : ByteString → ByteString) (txid : ByteString) :
    formDecode replaceInvalid (before ++ txid ++ after) =
      replaceInvalid (before ++ UrlQueries.percentDecode (plusToBlank txid) ++ after) := by
  obtain ⟨hbefore, hafter⟩ := h.not_mem (Or.inr (Or.inr (rfl : (43 : UInt8) = 43)))
  rw [UrlQueries.formDecode, plusToBlank_append, plusToBlank_append,
    plusToBlank_of_not_mem hbefore, plusToBlank_of_not_mem hafter, h.percentDecode]

/-- A transparent session id makes transparent round names. -/
theorem Transparent.surround (h : Surrounds before after) (ht : Transparent txid) :
    Transparent (before ++ txid ++ after) := by
  obtain ⟨hutf8, hplain, hhash, hand, hplus, hcode⟩ := ht
  have hnot : ∀ c : UInt8, isCut c = true ∨ c = 37 ∨ c = 43 → c ∉ txid →
      c ∉ before ++ txid ++ after := by
    intro c hc htxid
    obtain ⟨hbefore, hafter⟩ := h.not_mem hc
    rw [List.mem_append, List.mem_append, not_or, not_or]
    exact ⟨⟨hbefore, htxid⟩, hafter⟩
  have hbefore : Utf8 before := utf8_of_ascii fun c hc => h.ascii c (List.mem_append_left _ hc)
  have hafter : Utf8 after := utf8_of_ascii fun c hc => h.ascii c (List.mem_append_right _ hc)
  refine ⟨(hbefore.append hutf8).append hafter, ?_, hnot 35 (Or.inl rfl) hhash,
    hnot 38 (Or.inl rfl) hand, hnot 43 (Or.inr (Or.inr rfl)) hplus, ?_⟩
  · intro c hc
    rcases List.mem_append.1 hc with hc | hc
    · rcases List.mem_append.1 hc with hc | hc
      · exact h.plain c (List.mem_append_left _ hc)
      · exact hplain c hc
    · exact h.plain c (List.mem_append_right _ hc)
  · rw [not_hasCode_iff, h.percentDecode, percentDecode_of_not_hasCode hcode]

/-- What surrounds a session id in its round names. -/
def surroundings : List (ByteString × ByteString) :=
  (ascii "preprocess_", []) :: signSuffixes.map fun suffix => (ascii "sign_", suffix)

theorem surrounds_of_mem : ∀ s ∈ surroundings, Surrounds s.1 s.2 := by
  decide +kernel

theorem mem_roundNames_iff {roundId : ByteString} :
    roundId ∈ roundNames txid ↔ ∃ s ∈ surroundings, roundId = s.1 ++ txid ++ s.2 := by
  simp only [roundNames, surroundings, List.mem_cons, List.mem_map, exists_eq_or_imp,
    List.append_nil]
  constructor
  · intro h
    rcases h with h | ⟨suffix, hsuffix, rfl⟩
    · exact Or.inl h
    · exact Or.inr ⟨_, ⟨suffix, hsuffix, rfl⟩, rfl⟩
  · intro h
    rcases h with h | ⟨s, ⟨suffix, hsuffix, rfl⟩, rfl⟩
    · exact Or.inl h
    · exact Or.inr ⟨suffix, hsuffix, rfl⟩

variable {replaceInvalid : ByteString → ByteString} {roundId : ByteString}

theorem polledFor_of_transparent (h : Replaces replaceInvalid) (ht : Transparent roundId)
    (expectedCount : ℕ) : polledFor replaceInvalid (cString (pollUrl roundId expectedCount)) =
      some (roundId, (expectedCount : ℤ)) := by
  obtain ⟨hutf8, hplain, hhash, hand, hplus, hcode⟩ := ht
  have hdigits : ∀ c : UInt8, isDigit c = false → c ∉ decimal expectedCount := by
    intro c hc hmem
    rw [isDigit_of_mem_decimal hmem] at hc
    cases hc
  have hnot : ∀ c : UInt8, isDigit c = false → c ∉ roundId → c ∉ ascii "&expected_count=" →
      c ∉ roundId ++ (ascii "&expected_count=" ++ decimal expectedCount) := by
    intro c hc hround hname
    rw [List.mem_append, List.mem_append, not_or, not_or]
    exact ⟨hround, hname, hdigits c hc⟩
  have hzero := hnot 0 (by decide) (zero_not_mem_of_plain hplain) (by decide +kernel)
  have hfragment := hnot 35 (by decide) hhash (by decide +kernel)
  have hurl : pollUrl roundId expectedCount = relayUrl ++ ascii "/poll?round_id=" ++
      (roundId ++ (ascii "&expected_count=" ++ decimal expectedCount)) := by
    simp only [pollUrl, List.append_assoc]
  have hquery : queryOf (cString (pollUrl roundId expectedCount)) =
      ascii "round_id=" ++ roundId ++ 38 :: (ascii "expected_count=" ++ decimal expectedCount) := by
    have hsent : cString (pollUrl roundId expectedCount) = relayUrl ++ ascii "/poll?round_id=" ++
        (roundId ++ (ascii "&expected_count=" ++ decimal expectedCount)) := by
      rw [hurl, cString_append (by decide +kernel), cString_of_not_mem hzero]
    have hfirst : queryOf (relayUrl ++ ascii "/poll?round_id=" ++
        (roundId ++ (ascii "&expected_count=" ++ decimal expectedCount))) =
          (ascii "round_id=" ++ (roundId ++ (ascii "&expected_count=" ++
            decimal expectedCount))).takeWhile (· ≠ 35) := rfl
    rw [hsent, hfirst, List.takeWhile_eq_self_iff.2, List.append_assoc]
    · rfl
    · intro c hc
      rcases List.mem_append.1 hc with hc | hc
      · have hname : ∀ d ∈ ascii "round_id=", decide (d ≠ 35) = true := by decide +kernel
        exact hname c hc
      · simpa using fun heq : c = 35 => hfragment (heq ▸ hc)
  have hand' : (38 : UInt8) ∉ ascii "round_id=" ++ roundId := by
    rw [List.mem_append, not_or]
    exact ⟨by decide +kernel, hand⟩
  have hand'' : (38 : UInt8) ∉ ascii "expected_count=" ++ decimal expectedCount := by
    rw [List.mem_append, not_or]
    exact ⟨by decide +kernel, hdigits 38 (by decide)⟩
  have hpieces : pieces 38 (queryOf (cString (pollUrl roundId expectedCount))) =
      [ascii "round_id=" ++ roundId, ascii "expected_count=" ++ decimal expectedCount] := by
    rw [hquery, pieces_append hand', pieces_of_not_mem hand'']
  have huncut : uncut roundId = roundId := by
    rw [uncut, List.takeWhile_eq_self_iff]
    intro c hc
    have hc0 : c ≠ 0 := fun heq => zero_not_mem_of_plain hplain (heq ▸ hc)
    have hc35 : c ≠ 35 := fun heq => hhash (heq ▸ hc)
    have hc38 : c ≠ 38 := fun heq => hand (heq ▸ hc)
    simp [isCut, hc0, hc35, hc38]
  have hround := argument_roundId h roundId expectedCount
  rw [huncut, formDecode_of_clean h hutf8 hplus hcode] at hround
  have hname : formDecode replaceInvalid (ascii "round_id") = ascii "round_id" :=
    formDecode_of_ascii h (by decide +kernel)
    (by decide +kernel)
  have hname' : formDecode replaceInvalid (ascii "expected_count") = ascii "expected_count" :=
    formDecode_of_ascii h (by decide +kernel)
    (by decide +kernel)
  have hcount : argument replaceInvalid (queryOf (cString (pollUrl roundId expectedCount)))
      (ascii "expected_count") = some (decimal expectedCount) := by
    have htake : (ascii "round_id=" ++ roundId).takeWhile (· ≠ 61) = ascii "round_id" := rfl
    have htake' : (ascii "expected_count=" ++ decimal expectedCount).takeWhile (· ≠ 61) =
        ascii "expected_count" := rfl
    have hdrop' : ((ascii "expected_count=" ++ decimal expectedCount).dropWhile (· ≠ 61)).drop 1 =
        decimal expectedCount := rfl
    have hne : ascii "round_id" ≠ ascii "expected_count" := by decide +kernel
    have hclean : formDecode replaceInvalid (decimal expectedCount) = decimal expectedCount := by
      apply formDecode_of_clean h (utf8_of_ascii fun c hc => isAscii_of_mem_decimal hc)
        (hdigits 43 (by decide))
      rw [not_hasCode_iff]
      have hself := percentDecode_append_of_not_mem (hdigits 37 (by decide)) []
      rwa [List.append_nil, UrlQueries.percentDecode, List.append_nil] at hself
    rw [argument, arguments, hpieces, List.map_cons, List.map_cons, List.map_nil, htake, htake',
      hdrop', hname, hname', hclean, List.find?_cons_of_neg (by simpa),
      List.find?_cons_of_pos (by simp)]
    rfl
  rw [polledFor, hround, hcount]
  simp only [readInt_decimal, Option.map_some]

theorem agrees_of_transparent (h : Replaces replaceInvalid) (ht : Transparent txid) :
    Agrees replaceInvalid txid := by
  intro roundId hround myId data expectedCount hdata
  obtain ⟨s, hs, rfl⟩ := mem_roundNames_iff.1 hround
  have hname := ht.surround (surrounds_of_mem s hs)
  exact ⟨_, filed_of_plain hname.1 hname.2.1 hdata, polledFor_of_transparent h hname _⟩

end Transparency

section Weights
variable {replaceInvalid : ByteString → ByteString}

theorem stringWeight_eq_zero {c : UInt8} (h : c ≠ 92 ∧ c ≠ 117 ∧ c ≠ 34) : stringWeight c = 0 := by
  rw [stringWeight, escapeWeight, if_neg h.1, if_neg h.2.1, if_neg h.2.2]

/-- Decoding a form takes no backslash, no `u` and no quote away. -/
theorem le_weigh_formDecode (h : Replaces replaceInvalid) (bytes : ByteString) :
    weigh stringWeight bytes ≤ weigh stringWeight (formDecode replaceInvalid bytes) := by
  have hzero : ∀ c, isAscii c = false → stringWeight c = 0 := by
    intro c hc
    refine stringWeight_eq_zero ⟨?_, ?_, ?_⟩ <;> rintro rfl <;> cases hc
  have hhex : ∀ c, isHex c → stringWeight c = 0 := by
    intro c hc
    refine stringWeight_eq_zero ⟨?_, ?_, ?_⟩ <;> rintro rfl <;> cases hc
  rw [formDecode, h.weigh_eq hzero]
  calc weigh stringWeight bytes = weigh stringWeight (plusToBlank bytes) :=
        (weigh_plusToBlank rfl bytes).symm
    _ ≤ _ := le_weigh_percentDecode rfl hhex _

theorem escapeWeight_le_stringWeight (bytes : ByteString) :
    weigh escapeWeight bytes ≤ weigh stringWeight bytes := by
  induction bytes with
  | nil => exact le_rfl
  | cons c bytes ih =>
    rw [weigh_cons, weigh_cons, stringWeight]
    omega

/-- A quote weighs. -/
theorem escapeWeight_lt_stringWeight {bytes : ByteString} (h : (34 : UInt8) ∈ bytes) :
    weigh escapeWeight bytes < weigh stringWeight bytes := by
  obtain ⟨a, b, rfl⟩ := List.append_of_mem h
  have ha := escapeWeight_le_stringWeight a
  have hb := escapeWeight_le_stringWeight b
  have hquote : stringWeight 34 = escapeWeight 34 + 1 := rfl
  rw [weigh_append, weigh_append, weigh_cons, weigh_cons]
  omega

/-- Percent signs and one of the characters that end a round id. -/
def cutWeight (cut c : UInt8) : ℕ := if c = 37 ∨ c = cut then 1 else 0

theorem literal_of_cutWeight {cut : UInt8} (hcut : isCut cut = true) (c : UInt8)
    (h : cutWeight cut c ≠ 0) : Literal c := by
  have hc : c = 37 ∨ c = cut := by
    by_contra hno
    exact h (if_neg hno)
  simp only [isCut, decide_eq_true_eq] at hcut
  rcases hc with rfl | rfl
  · exact ⟨rfl, by decide, rfl, by decide⟩
  · rcases hcut with rfl | rfl | rfl
    · exact ⟨rfl, by decide, rfl, by decide⟩
    · exact ⟨rfl, by decide, rfl, by decide⟩
    · exact ⟨rfl, by decide, rfl, by decide⟩

/-- Decoding a form makes no such characters. -/
theorem weigh_formDecode_le (h : Replaces replaceInvalid) {cut : UInt8} (hcut : isCut cut = true)
    (bytes : ByteString) :
    weigh (cutWeight cut) (formDecode replaceInvalid bytes) ≤ weigh (cutWeight cut) bytes := by
  simp only [isCut, decide_eq_true_eq] at hcut
  have hzero : ∀ c, isAscii c = false → cutWeight cut c = 0 := by
    intro c hc
    refine if_neg fun hno => ?_
    rcases hno with rfl | rfl
    · cases hc
    · rcases hcut with rfl | rfl | rfl <;> cases hc
  have hplus : cutWeight cut 43 = cutWeight cut 32 := by
    rcases hcut with rfl | rfl | rfl <;> rfl
  have hmax : ∀ c, cutWeight cut c ≤ cutWeight cut 37 := by
    intro c
    have hone : cutWeight cut 37 = 1 := if_pos (Or.inl rfl)
    rw [hone, cutWeight]
    split
    · exact le_rfl
    · exact Nat.zero_le 1
  rw [formDecode, h.weigh_eq hzero, ← weigh_plusToBlank hplus bytes]
  exact weigh_percentDecode_le hmax _

theorem weigh_render_items {items : List Item} :
    weigh stringWeight (render items) = itemsWeight stringWeight items := by
  apply weigh_render
  intro c hc
  refine stringWeight_eq_zero ⟨?_, ?_, ?_⟩ <;> rintro rfl <;> cases hc

theorem itemsWeight_raw (weight : UInt8 → ℕ) (bytes : ByteString) :
    itemsWeight weight (bytes.map .raw) = weigh weight bytes := by
  induction bytes with
  | nil => rfl
  | cons c bytes ih => rw [List.map_cons, itemsWeight_cons, ih, weigh_cons]; rfl

end Weights

section Necessity

variable {replaceInvalid : ByteString → ByteString} {txid : ByteString}

/-- Where the text of a session id begins in a body. -/
def atTxid (before : ByteString) : Scan := { atRoundId with items := before.map .raw }

/-- A session id that ends the string of its round id, although the poll's round id ends in it. -/
theorem not_closed (h : Replaces replaceInvalid) {x y a b : ByteString} {cut : UInt8}
    (hcut : isCut cut = true) (hx : txid = x ++ cut :: y) (ha : txid = a ++ 34 :: b) {u : Scan}
    (hu : Closes (cutWeight cut) (atTxid (ascii "sign_")) u a) {later : List Member}
    {text : ByteString}
    (hsign : lookup (ascii "round_id") (later ++ [(ascii "round_id", .string (render u.items))]) =
      some (.string (formDecode replaceInvalid (ascii "sign_" ++ x))))
    (hpreprocess : lookup (ascii "round_id") (later ++ [(ascii "round_id", .string text)]) =
      some (.string (formDecode replaceInvalid (ascii "preprocess_" ++ x)))) : False := by
  have hquote : cut ≠ 34 := by
    rintro rfl
    cases hcut
  rw [lookup_append] at hsign hpreprocess
  cases hlater : lookup (ascii "round_id") later with
  | some value =>
    -- A later member has the same text in both rounds.
    rw [hlater, Option.some_or] at hsign hpreprocess
    have hsame := Value.string.inj (Option.some.inj (hsign.symm.trans hpreprocess))
    let weight : UInt8 → ℕ := fun c => if c = 112 then 1 else 0
    have hweight : ∀ before ∈ [ascii "sign_", ascii "preprocess_"],
        weigh weight (formDecode replaceInvalid (before ++ x)) =
          weigh weight before + weigh weight (percentDecode (plusToBlank x)) := by
      intro before hbefore
      have hplain : ∀ before ∈ [ascii "sign_", ascii "preprocess_"],
          plusToBlank before = before ∧ (37 : UInt8) ∉ before := by decide +kernel
      obtain ⟨hplus, hpercent⟩ := hplain before hbefore
      have hzero : ∀ c, isAscii c = false → weight c = 0 := by
        intro c hc
        refine if_neg ?_
        rintro rfl
        cases hc
      rw [formDecode, h.weigh_eq hzero, plusToBlank_append, hplus,
        percentDecode_append_of_not_mem hpercent, weigh_append]
    have hsign' := hweight (ascii "sign_") (by simp)
    have hpreprocess' := hweight (ascii "preprocess_") (by simp)
    have hne : weigh weight (ascii "sign_") ≠ weigh weight (ascii "preprocess_") := by
      decide +kernel
    rw [hsame] at hsign'
    omega
  | none =>
    rw [hlater, Option.none_or] at hsign
    have hself : lookup (ascii "round_id") [(ascii "round_id", .string (render u.items))] =
        some (.string (render u.items)) := rfl
    rw [hself] at hsign
    have htext := Value.string.inj (Option.some.inj hsign)
    rcases List.append_eq_append_iff.1 (hx.symm.trans ha) with ⟨a', rfl, hy⟩ | ⟨x', rfl, hb⟩
    · -- The poll's round id ends inside the string.
      cases a' with
      | nil => exact hquote (List.cons.inj hy).1
      | cons d a' =>
        obtain ⟨rfl, -⟩ := List.cons.inj hy
        have hle := hu.weight_le
        have hzero : ∀ c, isAscii c = false → cutWeight cut c = 0 := by
          intro c hc
          refine if_neg fun hno => ?_
          simp only [isCut, decide_eq_true_eq] at hcut
          rcases hno with rfl | rfl
          · cases hc
          · rcases hcut with rfl | rfl | rfl <;> cases hc
        have hrender := weigh_render hzero u.items
        have hdecode := weigh_formDecode_le h hcut (ascii "sign_" ++ x)
        have hone : cutWeight cut cut = 1 := if_pos (Or.inr rfl)
        rw [← htext, hrender, weigh_append] at hdecode
        rw [atTxid, itemsWeight_raw, weigh_append, weigh_cons, hone] at hle
        omega
    · -- The string ends before the poll's round id does.
      cases x' with
      | nil => exact hquote (List.cons.inj hb).1.symm
      | cons d x' =>
        obtain ⟨rfl, -⟩ := List.cons.inj hb
        have hheld := run_held hu.run
        have hstart : held (atTxid (ascii "sign_")) = weigh escapeWeight (ascii "sign_") := by
          decide +kernel
        have hend : held u = itemsWeight stringWeight u.items := by
          rw [held, hu.mode]
          rfl
        have hdecode := le_weigh_formDecode h (ascii "sign_" ++ (a ++ 34 :: x'))
        have hlt := @escapeWeight_lt_stringWeight (ascii "sign_" ++ (a ++ 34 :: x')) (by simp)
        rw [← htext, weigh_render_items] at hdecode
        have hsum : weigh escapeWeight (ascii "sign_" ++ (a ++ 34 :: x')) =
            weigh escapeWeight (ascii "sign_") +
              (weigh escapeWeight a + (escapeWeight 34 + weigh escapeWeight x')) := by
          simp only [weigh_append, weigh_cons]
        omega

section Rounds
variable {before after : ByteString} {data : ByteString}

/-- What the relay does with a message of a round and with a poll for the round. -/
theorem of_agrees (h : Replaces replaceInvalid) (hagrees : Agrees replaceInvalid txid)
    (hs : (before, after) ∈ surroundings) : ∃ t members,
      run atRoundId (cString (before ++ txid ++ after ++ bodyEnd (ascii "ready"))) =
        some (t, members) ∧ t.mode = .after ∧ t.stack = [] ∧
      lookup (ascii "round_id") members =
        some (.string (formDecode replaceInvalid (before ++ uncut (txid ++ after)))) := by
  have hround : before ++ txid ++ after ∈ roundNames txid := mem_roundNames_iff.2 ⟨_, hs, rfl⟩
  obtain ⟨filed, hfiled, hpolled⟩ := hagrees _ hround 1 (ascii "ready") 3 (Or.inl rfl)
  have hbefore : ∀ c ∈ before, isCut c = false := fun c hc =>
    ((surrounds_of_mem _ hs).cut c (List.mem_append_left _ hc)).1
  rw [of_polledFor h hpolled, List.append_assoc, uncut_append hbefore] at hfiled
  rw [← List.append_assoc] at hfiled
  exact of_filed_broadcast hfiled

theorem run_before (hs : (before, after) ∈ surroundings) :
    run atRoundId before = some (atTxid before, []) := by
  have hplain : Plain before := fun c hc =>
    (surrounds_of_mem _ hs).plain c (List.mem_append_left _ hc)
  exact run_plain rfl hplain

/-- The scan from the end of a session id on, in a round of the signing flow. -/
theorem of_run_after {s t : Scan} {members : List Member} (hafter : after ∈ signSuffixes)
    (hrun : run s (after ++ bodyEnd (ascii "ready")) = some (t, members)) (ht : t.stack = []) :
    s.mode = .text ∧ s.isKey = false ∧ s.stack = [.object] ∧
      members = [(ascii "data", .string (ascii "ready")),
        (s.key, .string (render s.items ++ after))] := by
  have hready : Plain (ascii "ready") := Payload.plain (Or.inl rfl)
  have hplain : Plain after := by
    have hall : ∀ suffix ∈ signSuffixes, Plain suffix := by decide +kernel
    exact hall after hafter
  have hhead : ∃ rest, after = 95 :: rest := by
    have hall : ∀ suffix ∈ signSuffixes, suffix = 95 :: suffix.tail := by decide +kernel
    exact ⟨_, hall after hafter⟩
  have hmode : s.mode = .text := by
    obtain ⟨rest, rfl⟩ := hhead
    obtain ⟨u, first, later, hstep, -, -⟩ := run_cons.1 hrun
    exact mode_of_step_underscore hstep
  obtain ⟨u, earlier, later, htext, hend, rfl⟩ := run_append.1 hrun
  rw [run_plain hmode hplain] at htext
  cases htext
  have hmode' : ({ s with items := s.items ++ after.map .raw } : Scan).mode = .text := hmode
  obtain ⟨hisKey, hstack⟩ := of_run_bodyEnd hmode' hready hend ht
  rw [run_bodyEnd hmode' hisKey hstack hready] at hend
  cases hend
  refine ⟨hmode, hisKey, hstack, ?_⟩
  rw [List.append_nil, render_append_raw]

/-- The string of a round id is closed by a quote in the session id. -/
theorem exists_closes {weight : UInt8 → ℕ} (hweight : ∀ c, weight c ≠ 0 → Literal c)
    {t : Scan} {members : List Member} {text : ByteString}
    (hrun : run (atTxid (ascii "sign_")) text = some (t, members))
    (hopen : ¬ InString t.mode ∨ t.key ≠ ascii "round_id") :
    ∃ a b u later, text = a ++ 34 :: b ∧ Closes weight (atTxid (ascii "sign_")) u a ∧
      members = later ++ [(ascii "round_id", .string (render u.items))] ∧
      ∀ before, ∃ value,
        run (atTxid before) text = some (t, later ++ [(ascii "round_id", .string value)]) := by
  have hin : InString (atTxid (ascii "sign_")).mode := trivial
  rcases run_inString hweight hin hrun with ⟨ht, -, hkey⟩ | ⟨a, b, u, rfl, hcloses, hlast⟩
  · exact absurd hkey (hopen.resolve_left fun hno => hno ht)
  · obtain ⟨v, first, later, hquote, hrest, rfl⟩ := run_cons.1 hlast
    have hend : ∀ items, ({ u with items := items } : Scan).step 34 =
        some (⟨.after, [.object], false, [], ascii "round_id"⟩,
          [(ascii "round_id", .string (render items))]) := by
      intro items
      have hmode : ({ u with items := items } : Scan).mode = .text := hcloses.mode
      rw [step_quote hmode]
      simp only [Scan.endText, Scan.valueEnd, hcloses.isKey, hcloses.stack, hcloses.key]
      rfl
    have hself := hend u.items
    rw [hquote] at hself
    cases hself
    refine ⟨a, b, u, later, rfl, hcloses, rfl, fun before => ?_⟩
    obtain ⟨items, hitems⟩ := hcloses.items (before.map .raw)
    exact ⟨render items, run_append.2 ⟨_, [], _, hitems, run_cons.2 ⟨_, _, later, hend items, hrest,
      rfl⟩, (List.append_nil _).symm⟩⟩

/-- The scan of a session id in the rounds of the signing flow, when there is no NUL in it. -/
theorem exists_atAfter (h : Replaces replaceInvalid) (hagrees : Agrees replaceInvalid txid)
    (hzero : (0 : UInt8) ∉ txid) : ∃ s members,
      run (atTxid (ascii "sign_")) txid = some (s, members) ∧
      s.mode = .text ∧ s.isKey = false ∧ s.stack = [.object] ∧
      ∀ after ∈ signSuffixes,
        lookup (ascii "round_id") ((s.key, .string (render s.items ++ after)) :: members) =
          some (.string (formDecode replaceInvalid (ascii "sign_" ++ uncut (txid ++ after)))) := by
  have hround : ∀ after ∈ signSuffixes, ∃ s members,
      run (atTxid (ascii "sign_")) txid = some (s, members) ∧
      s.mode = .text ∧ s.isKey = false ∧ s.stack = [.object] ∧
        lookup (ascii "round_id") ((s.key, .string (render s.items ++ after)) :: members) =
          some (.string (formDecode replaceInvalid (ascii "sign_" ++ uncut (txid ++ after)))) := by
    intro after hafter
    have hs : (ascii "sign_", after) ∈ surroundings :=
      List.mem_cons_of_mem _ (List.mem_map.2 ⟨after, hafter, rfl⟩)
    obtain ⟨t, members, hrun, -, hstack, hlookup⟩ := of_agrees h hagrees hs
    have hnot := (surrounds_of_mem _ hs).not_mem (Or.inl (rfl : isCut 0 = true))
    have hready : Plain (ascii "ready") := Payload.plain (Or.inl rfl)
    have hzero' : (0 : UInt8) ∉ ascii "sign_" ++ txid ++ after ++ bodyEnd (ascii "ready") := by
      simp only [List.mem_append, not_or]
      exact ⟨⟨⟨hnot.1, hzero⟩, hnot.2⟩, zero_not_mem_bodyEnd hready⟩
    rw [cString_of_not_mem hzero', List.append_assoc, List.append_assoc] at hrun
    obtain ⟨u, earlier, later, hbefore, hrest, rfl⟩ := run_append.1 hrun
    rw [run_before hs] at hbefore
    cases hbefore
    obtain ⟨s, members, later', htxid, hend, rfl⟩ := run_append.1 hrest
    obtain ⟨hmode, hisKey, hstack', rfl⟩ := of_run_after hafter hend hstack
    refine ⟨s, members, htxid, hmode, hisKey, hstack', ?_⟩
    rw [List.append_nil] at hlookup
    exact hlookup
  obtain ⟨s, members, hrun, hmode, hisKey, hstack, -⟩ := hround (ascii "_ready") (by decide +kernel)
  refine ⟨s, members, hrun, hmode, hisKey, hstack, fun after hafter => ?_⟩
  obtain ⟨s', members', hrun', -, -, -, hlookup⟩ := hround after hafter
  rw [hrun] at hrun'
  cases hrun'
  exact hlookup

/-- No character of a session id ends the round id of a poll. -/
theorem uncut_of_agrees (h : Replaces replaceInvalid) (hagrees : Agrees replaceInvalid txid) :
    ∀ c ∈ txid, isCut c = false := by
  by_contra hno
  have hex : ∃ x cut y, txid = x ++ cut :: y ∧ isCut cut = true ∧ ∀ c ∈ x, isCut c = false := by
    cases hdrop : txid.dropWhile fun c => !isCut c with
    | nil =>
      rw [List.dropWhile_eq_nil_iff] at hdrop
      exact absurd (fun c hc => by simpa using hdrop c hc) hno
    | cons cut y =>
      refine ⟨txid.takeWhile fun c => !isCut c, cut, y, ?_, ?_, fun c hc => ?_⟩
      · rw [← hdrop, List.takeWhile_append_dropWhile]
      · have hhead := List.head?_dropWhile_not (fun c => !isCut c) txid
        rw [hdrop] at hhead
        simpa using hhead
      · simpa using List.mem_takeWhile_imp hc
  obtain ⟨x, cut, y, hx, hcut, hxcut⟩ := hex
  have huncut : ∀ rest, uncut (txid ++ rest) = x := by
    intro rest
    rw [hx, List.append_assoc, uncut_append hxcut, List.cons_append, uncut, List.takeWhile_cons,
      hcut]
    exact List.append_nil x
  have hpreprocess : (ascii "preprocess_", ([] : ByteString)) ∈ surroundings := List.mem_cons_self
  obtain ⟨t', members', hrun', hmode', hstack', hlookup'⟩ := of_agrees h hagrees hpreprocess
  rw [huncut] at hlookup'
  have hweight := literal_of_cutWeight hcut
  by_cases hzero : (0 : UInt8) ∈ txid
  · obtain ⟨text, rest, htxid, hnot⟩ := List.eq_append_cons_of_mem hzero
    have hcString : ∀ {before after : ByteString}, (before, after) ∈ surroundings →
        cString (before ++ txid ++ after ++ bodyEnd (ascii "ready")) = before ++ text := by
      intro before after hs
      have hbefore := ((surrounds_of_mem _ hs).not_mem (Or.inl (rfl : isCut 0 = true))).1
      rw [List.append_assoc, List.append_assoc, cString_append hbefore, htxid, List.append_assoc,
        cString_append hnot]
      exact congrArg (before ++ ·) (List.append_nil text)
    have hs : (ascii "sign_", ascii "_ready") ∈ surroundings := by decide +kernel
    obtain ⟨t, members, hrun, hmode, -, hlookup⟩ := of_agrees h hagrees hs
    rw [hcString hs] at hrun
    rw [hcString hpreprocess] at hrun'
    rw [huncut] at hlookup
    obtain ⟨v, earlier, later, hbefore, htext, rfl⟩ := run_append.1 hrun
    rw [run_before hs] at hbefore
    cases hbefore
    obtain ⟨v', earlier', later', hbefore', htext', rfl⟩ := run_append.1 hrun'
    rw [run_before hpreprocess] at hbefore'
    cases hbefore'
    have hopen : ¬ InString t.mode := by
      rw [hmode]
      exact id
    obtain ⟨a, b, u, later'', rfl, hcloses, rfl, hothers⟩ :=
      exists_closes hweight htext (Or.inl hopen)
    obtain ⟨value, hvalue⟩ := hothers (ascii "preprocess_")
    rw [hvalue] at htext'
    cases htext'
    rw [List.append_nil] at hlookup hlookup'
    have ha : txid = a ++ 34 :: (b ++ 0 :: rest) := by
      rw [htxid, List.append_assoc, List.cons_append]
    exact not_closed h hcut hx ha hcloses hlookup hlookup'
  · obtain ⟨s, members, htxid, hmode, hisKey, hstack, hrounds⟩ := exists_atAfter h hagrees hzero
    by_cases hkey : s.key = ascii "round_id"
    · -- Two rounds of the flow would have one round id.
      have hvalue : ∀ after ∈ signSuffixes,
          render s.items ++ after = formDecode replaceInvalid (ascii "sign_" ++ x) := by
        intro after hafter
        have hlookup := hrounds after hafter
        rw [huncut, hkey, lookup, List.find?_cons_of_pos (by simp)] at hlookup
        exact Value.string.inj (Option.some.inj hlookup)
      have hready := hvalue (ascii "_ready") (by decide +kernel)
      have hr2 := hvalue (ascii "_r2") (by decide +kernel)
      have hsame := List.append_cancel_left (hready.trans hr2.symm)
      revert hsame
      decide +kernel
    · obtain ⟨a, b, u, later, ha, hcloses, rfl, hothers⟩ :=
        exists_closes hweight htxid (Or.inr hkey)
      have hlookup := hrounds (ascii "_ready") (by decide +kernel)
      rw [huncut, lookup, List.find?_cons_of_neg (by simpa using hkey)] at hlookup
      obtain ⟨value, hvalue⟩ := hothers (ascii "preprocess_")
      have hnot := (surrounds_of_mem _ hpreprocess).not_mem (Or.inl (rfl : isCut 0 = true))
      have hready : Plain (ascii "ready") := Payload.plain (Or.inl rfl)
      have hzero' : (0 : UInt8) ∉ ascii "preprocess_" ++ txid ++ [] ++ bodyEnd (ascii "ready") := by
        simp only [List.mem_append, not_or]
        exact ⟨⟨⟨hnot.1, hzero⟩, hnot.2⟩, zero_not_mem_bodyEnd hready⟩
      rw [cString_of_not_mem hzero', List.append_nil, List.append_assoc] at hrun'
      obtain ⟨v', earlier', later', hbefore', hrest', rfl⟩ := run_append.1 hrun'
      rw [run_before hpreprocess] at hbefore'
      cases hbefore'
      have hend := run_bodyEnd hmode hisKey hstack hready
      rw [run_append.2 ⟨_, _, _, hvalue, hend, rfl⟩] at hrest'
      cases hrest'
      rw [List.append_nil, List.cons_append, List.cons_append, List.nil_append, lookup,
        List.find?_cons_of_neg (by decide +kernel), List.find?_cons_of_neg (by simpa using hkey)]
        at hlookup'
      exact not_closed h hcut hx ha hcloses hlookup hlookup'

/-- The names of two rounds differ, so that the round id is the string that holds the name. -/
theorem key_of_agrees (h : Replaces replaceInvalid) {s : Scan} {members : List Member}
    (hrounds : ∀ after ∈ signSuffixes,
      lookup (ascii "round_id") ((s.key, .string (render s.items ++ after)) :: members) =
        some (.string (formDecode replaceInvalid (ascii "sign_" ++ txid ++ after)))) :
    s.key = ascii "round_id" := by
  by_contra hkey
  let weight : UInt8 → ℕ := fun c => if c = 95 then 1 else 0
  have hzero : ∀ c, isAscii c = false → weight c = 0 := by
    intro c hc
    refine if_neg ?_
    rintro rfl
    cases hc
  have hweight : ∀ after ∈ signSuffixes, ∃ value, lookup (ascii "round_id") members =
      some (.string value) ∧ weigh weight value = weigh weight (ascii "sign_") +
        weigh weight (percentDecode (plusToBlank txid)) + weigh weight after := by
    intro after hafter
    have hs : (ascii "sign_", after) ∈ surroundings :=
      List.mem_cons_of_mem _ (List.mem_map.2 ⟨after, hafter, rfl⟩)
    have hlookup := hrounds after hafter
    rw [lookup, List.find?_cons_of_neg (by simpa using hkey)] at hlookup
    refine ⟨_, hlookup, ?_⟩
    rw [(surrounds_of_mem _ hs).formDecode, h.weigh_eq hzero, weigh_append, weigh_append]
  obtain ⟨value, hvalue, hready⟩ := hweight (ascii "_ready") (by decide +kernel)
  obtain ⟨value', hvalue', hserver⟩ := hweight (ascii "_server_r") (by decide +kernel)
  rw [hvalue] at hvalue'
  cases hvalue'
  have hone : weigh weight (ascii "_ready") = 1 := by decide +kernel
  have htwo : weigh weight (ascii "_server_r") = 2 := by decide +kernel
  omega

/-- A name that decodes to itself has neither a code nor a plus in its session id. -/
theorem clean_of_formDecode (h : Replaces replaceInvalid) (hs : (before, after) ∈ surroundings)
    (hsame : formDecode replaceInvalid (before ++ txid ++ after) = before ++ txid ++ after) :
    (43 : UInt8) ∉ txid ∧ ¬ HasCode txid := by
  rw [(surrounds_of_mem _ hs).formDecode] at hsame
  have hascii := h.ascii (before ++ percentDecode (plusToBlank txid) ++ after)
  rw [hsame] at hascii
  simp only [List.filter_append, List.append_cancel_right_eq, List.append_cancel_left_eq] at hascii
  have hlength : ((plusToBlank txid).filter isAscii).length = (txid.filter isAscii).length := by
    rw [← List.countP_eq_length_filter, ← List.countP_eq_length_filter, plusToBlank,
      List.countP_map]
    apply List.countP_congr
    intro c _
    by_cases hc : c = 43
    · simp only [Function.comp_apply, hc, if_true]
      decide
    · simp only [Function.comp_apply, hc, if_false]
  have hcode : ¬ HasCode (plusToBlank txid) := by
    intro hcode
    have hlt := length_filter_percentDecode_lt hcode
    rw [← hascii] at hlt
    omega
  rw [percentDecode_of_not_hasCode hcode] at hascii
  have hplus : (43 : UInt8) ∉ txid := by
    intro hmem
    have hkept : (43 : UInt8) ∈ (plusToBlank txid).filter isAscii := by
      rw [← hascii]
      exact List.mem_filter.2 ⟨hmem, rfl⟩
    obtain ⟨c, -, hc⟩ := List.mem_map.1 (List.mem_filter.1 hkept).1
    by_cases hc43 : c = 43
    · rw [if_pos hc43] at hc
      cases hc
    · rw [if_neg hc43] at hc
      exact hc43 hc
  rw [plusToBlank_of_not_mem hplus] at hcode
  exact ⟨hplus, hcode⟩

/-- A body is UTF-8 around the session id. -/
theorem utf8_of_agrees (hagrees : Agrees replaceInvalid txid) (hzero : (0 : UInt8) ∉ txid) :
    Utf8 txid := by
  have hs : (ascii "sign_", ascii "_ready") ∈ surroundings := by decide +kernel
  have hround : ascii "sign_" ++ txid ++ ascii "_ready" ∈ roundNames txid :=
    mem_roundNames_iff.2 ⟨_, hs, rfl⟩
  obtain ⟨filed, hfiled, -⟩ := hagrees _ hround 1 (ascii "ready") 3 (Or.inl rfl)
  have hnot := (surrounds_of_mem _ hs).not_mem (Or.inl (rfl : isCut 0 = true))
  have hready : Plain (ascii "ready") := Payload.plain (Or.inl rfl)
  have hzero' :
      (0 : UInt8) ∉ ascii "sign_" ++ txid ++ ascii "_ready" ++ bodyEnd (ascii "ready") := by
    simp only [List.mem_append, not_or]
    exact ⟨⟨⟨hnot.1, hzero⟩, hnot.2⟩, zero_not_mem_bodyEnd hready⟩
  have hutf8 := (filedUnder_eq_some_iff.1 hfiled).1
  rw [broadcastJson_eq, cString_append (zero_not_mem_head 1), cString_of_not_mem hzero'] at hutf8
  have hsplit : ascii "\x7b\"sender_id\": " ++ decimal 1 ++ ascii ", \"round_id\": \"" ++
      (ascii "sign_" ++ txid ++ ascii "_ready" ++ bodyEnd (ascii "ready")) =
      (ascii "\x7b\"sender_id\": " ++ decimal 1 ++ ascii ", \"round_id\": \"sign") ++
        95 :: (txid ++ 95 :: (ascii "ready" ++ bodyEnd (ascii "ready"))) := by
    simp only [List.append_assoc]
    rfl
  rw [hsplit] at hutf8
  exact (utf8_of_append_cons rfl (utf8_of_append_cons rfl hutf8).2).1

theorem transparent_of_agrees (h : Replaces replaceInvalid)
    (hagrees : Agrees replaceInvalid txid) : Transparent txid := by
  have hcut := uncut_of_agrees h hagrees
  have hnot : ∀ c : UInt8, isCut c = true → c ∉ txid := by
    intro c hc hmem
    rw [hcut c hmem] at hc
    cases hc
  have hzero := hnot 0 rfl
  obtain ⟨s, members, hrun, hmode, hisKey, hstack, hrounds⟩ := exists_atAfter h hagrees hzero
  have hnames : ∀ after ∈ signSuffixes,
      lookup (ascii "round_id") ((s.key, .string (render s.items ++ after)) :: members) =
        some (.string (formDecode replaceInvalid (ascii "sign_" ++ txid ++ after))) := by
    intro after hafter
    have hs : (ascii "sign_", after) ∈ surroundings :=
      List.mem_cons_of_mem _ (List.mem_map.2 ⟨after, hafter, rfl⟩)
    have huncut : uncut (txid ++ after) = txid ++ after := by
      rw [uncut_append hcut, uncut, List.takeWhile_eq_self_iff.2]
      intro c hc
      rw [((surrounds_of_mem _ hs).cut c (List.mem_append_right _ hc)).1]
      rfl
    have hlookup := hrounds after hafter
    rwa [huncut, ← List.append_assoc] at hlookup
  have hs : (ascii "sign_", ascii "_ready") ∈ surroundings := by decide +kernel
  have hlookup := hnames (ascii "_ready") (by decide +kernel)
  rw [key_of_agrees h hnames, lookup, List.find?_cons_of_pos (by simp)] at hlookup
  have hname := Value.string.inj (Option.some.inj hlookup)
  -- What the poll asks for weighs at least as much as the name, what is filed at most.
  have hle := le_weigh_formDecode h (ascii "sign_" ++ txid ++ ascii "_ready")
  have hheld := run_held hrun
  have hs' : held s = weigh stringWeight (render s.items) := by
    rw [weigh_render_items, held, hmode]
    rfl
  have hstart : held (atTxid (ascii "sign_")) = 0 := by decide +kernel
  rw [← hname, weigh_append, weigh_append, weigh_append] at hle
  have hquote : (34 : UInt8) ∉ txid := by
    intro hmem
    have hlt := escapeWeight_lt_stringWeight hmem
    omega
  rcases run_text rfl hquote hrun with ⟨hplain, rfl, -⟩ | hlt
  · have hitems : render ((atTxid (ascii "sign_")).items ++ txid.map .raw) =
        ascii "sign_" ++ txid := by
      rw [render_append_raw, atTxid, render_raw]
    rw [hitems] at hname
    obtain ⟨hplus, hcode⟩ := clean_of_formDecode h hs hname.symm
    exact ⟨utf8_of_agrees hagrees hzero, hplain, hnot 35 rfl, hnot 38 rfl, hplus, hcode⟩
  · have hle' := escapeWeight_le_stringWeight txid
    omega

end Rounds

end Necessity

/-- Broadcast and poll use the same round id for a session id if and only if nothing in it means
something in a JSON string or in a query. -/
theorem roundIds_agree_iff {replaceInvalid : ByteString → ByteString}
    (h : Replaces replaceInvalid) (txid : ByteString) :
    Agrees replaceInvalid txid ↔ Transparent txid :=
  ⟨transparent_of_agrees h, agrees_of_transparent h⟩

/-- A session of UTF-8 text, whose rounds agree whoever posts and polls. -/
theorem roundIds_agree_iff_plain : Replaces id ∧ Transparent (ascii "tx-1") ∧
    Agrees id (ascii "tx-1") := by
  have h : Replaces id := ⟨fun _ _ => rfl, fun _ => rfl⟩
  have ht : Transparent (ascii "tx-1") := by
    have hcode : ¬ HasCode (ascii "tx-1") := not_hasCode_iff.2 (by decide +kernel)
    exact ⟨by decide +kernel, by decide +kernel, by decide +kernel, by decide +kernel,
      by decide +kernel, hcode⟩
  exact ⟨h, ht, (roundIds_agree_iff h (ascii "tx-1")).2 ht⟩

/-- With an ampersand in the session id the round of the ready messages is polled under another
name. -/
theorem roundIds_disagree_ampersand :
    filedUnder (cString (broadcastJson 2 (ascii "sign_a&b_ready") (ascii "ready"))) =
        some (ascii "sign_a&b_ready") ∧
      polledFor id (cString (pollUrl (ascii "sign_a&b_ready") 2)) = some (ascii "sign_a", 2) ∧
      ¬ Agrees id (ascii "a&b") := by
  have hfiled : filedUnder (cString (broadcastJson 2 (ascii "sign_a&b_ready") (ascii "ready"))) =
      some (ascii "sign_a&b_ready") := by decide +kernel
  have hpolled : polledFor id (cString (pollUrl (ascii "sign_a&b_ready") 2)) =
      some (ascii "sign_a", 2) := by decide +kernel
  refine ⟨hfiled, hpolled, fun hagrees => ?_⟩
  have hround : ascii "sign_a&b_ready" ∈ roundNames (ascii "a&b") := by decide +kernel
  obtain ⟨filed, hfiled', hpolled'⟩ := hagrees _ hround 2 (ascii "ready") 2 (Or.inl rfl)
  rw [hfiled] at hfiled'
  cases hfiled'
  rw [hpolled] at hpolled'
  revert hpolled'
  decide +kernel

end MpcDemo.RoundIds
