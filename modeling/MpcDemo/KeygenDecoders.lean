import MpcDemo.DecoderBounds

/-!
# What the decoders of key generation accept

`deserialize_commitment` and `deserialize_decommitment` check sizes, but the hexadecimal layer
takes any text and nothing looks behind the last field. A string is accepted as the encoding of
what it decodes to exactly when it is hexadecimal text with nothing left over.
-/

namespace MpcDemo.KeygenDecoders
open ByteStrings CosignerTypes HexText Serialization FallibleState DecoderBounds

section Text

def lowerCase (c : UInt8) : UInt8 := if 65 ≤ c.toNat ∧ c.toNat ≤ 70 then c + 32 else c

/-- The same text up to the case of hexadecimal digits. -/
def SameUpToCase (s s' : ByteString) : Prop := s.map lowerCase = s'.map lowerCase

/-- Pairs of hexadecimal digits. -/
def IsHex (s : ByteString) : Prop := s.length % 2 = 0 ∧ ∀ c ∈ s, ∃ n, hexValue c = some n

theorem SameUpToCase.symm {s s' : ByteString} (h : SameUpToCase s s') : SameUpToCase s' s :=
  Eq.symm h

theorem SameUpToCase.trans {s s' s'' : ByteString} (h : SameUpToCase s s')
    (h' : SameUpToCase s' s'') : SameUpToCase s s'' := Eq.trans h h'

theorem SameUpToCase.length_eq {s s' : ByteString} (h : SameUpToCase s s') :
    s.length = s'.length := by
  have hlength := congrArg List.length h
  rwa [List.length_map, List.length_map] at hlength

theorem hexValue_lowerCase (c : UInt8) : hexValue (lowerCase c) = hexValue c := by
  revert c
  decide +kernel

/-- A digit is neither a blank nor a sign, and writing its value gives it back in lower case. -/
theorem of_hexValue {c : UInt8} {n : ℕ} (h : hexValue c = some n) : n < 16 ∧
    hexDigit n = lowerCase c ∧ isBlank c = false ∧ c.toNat ≠ 45 ∧ c.toNat ≠ 43 := by
  have hall : ∀ c : UInt8, ∀ n ∈ hexValue c, n < 16 ∧ hexDigit n = lowerCase c ∧
      isBlank c = false ∧ c.toNat ≠ 45 ∧ c.toNat ≠ 43 := by
    decide +kernel
  exact hall c n h

theorem lowerCase_hexDigit {n : ℕ} (h : n < 16) : lowerCase (hexDigit n) = hexDigit n := by
  revert n
  decide

theorem strtol_digits {c d : UInt8} {m n : ℕ} (hc : hexValue c = some m)
    (hd : hexValue d = some n) : strtol [c, d] = 16 * m + n := by
  obtain ⟨-, -, hblank, hminus, hplus⟩ := of_hexValue hc
  simp only [strtol, List.dropWhile_cons, hblank, Bool.false_eq_true, if_false, hminus, hplus,
    readDigits, hc, hd]
  push_cast
  ring

theorem length_toHex (data : ByteString) : (toHex data).length = 2 * data.length := by
  induction data with
  | nil => rfl
  | cons b data ih =>
    rw [List.length_cons, Nat.mul_succ, ← ih, toHex, List.flatMap_cons, List.length_append,
      Nat.add_comm]
    rfl

theorem length_fromHex (s : ByteString) : (fromHex s).length = (s.length + 1) / 2 := by
  induction s using fromHex.induct with
  | case1 => rfl
  | case2 c => simp [fromHex]
  | case3 c d rest ih =>
    simp only [fromHex, List.length_cons, ih]
    omega

theorem hexValue_of_mem_toHex {data : ByteString} {c : UInt8} (hc : c ∈ toHex data) :
    ∃ n, hexValue c = some n := by
  obtain ⟨b, -, hc⟩ := List.mem_flatMap.1 hc
  have hb := b.toNat_lt
  rcases List.mem_cons.1 hc with rfl | hc
  · exact ⟨_, (hexDigit_spec (b.toNat / 16) (by omega)).1⟩
  · obtain rfl := List.mem_singleton.1 hc
    exact ⟨_, (hexDigit_spec (b.toNat % 16) (by omega)).1⟩

theorem map_lowerCase_toHex (data : ByteString) : (toHex data).map lowerCase = toHex data := by
  conv_rhs => rw [← List.map_id (toHex data)]
  refine List.map_congr_left fun c hc => ?_
  obtain ⟨b, -, hc⟩ := List.mem_flatMap.1 hc
  have hb := b.toNat_lt
  rcases List.mem_cons.1 hc with rfl | hc
  · exact lowerCase_hexDigit (by omega)
  · obtain rfl := List.mem_singleton.1 hc
    exact lowerCase_hexDigit (by omega)

/-- Hexadecimal text is written back in lower case. -/
theorem toHex_fromHex {s : ByteString} (h : IsHex s) : toHex (fromHex s) = s.map lowerCase := by
  obtain ⟨hlength, hdigits⟩ := h
  induction s using fromHex.induct with
  | case1 => rfl
  | case2 c => exact absurd hlength (by simp)
  | case3 c d rest ih =>
    obtain ⟨m, hm⟩ := hdigits c (by simp)
    obtain ⟨n, hn⟩ := hdigits d (by simp)
    obtain ⟨hm16, hc, -⟩ := of_hexValue hm
    obtain ⟨hn16, hd, -⟩ := of_hexValue hn
    have hbyte : (UInt8.ofInt (strtol [c, d])).toNat = 16 * m + n := by
      rw [strtol_digits hm hn, UInt8.ofInt]
      simp
      omega
    have hrest := ih (by simp only [List.length_cons] at hlength; omega)
      fun e he => hdigits e (by simp [he])
    have hhigh : (16 * m + n) / 16 = m := by omega
    have hlow : (16 * m + n) % 16 = n := by omega
    rw [fromHex, List.map_cons, List.map_cons, ← hrest, ← hc, ← hd, toHex, List.flatMap_cons,
      hbyte, hhigh, hlow]
    rfl

theorem isHex_of_sameUpToCase {data s : ByteString} (h : SameUpToCase (toHex data) s) :
    IsHex s := by
  have hlength := h.length_eq
  rw [length_toHex] at hlength
  refine ⟨by omega, fun c hc => ?_⟩
  have hmem : lowerCase c ∈ (toHex data).map lowerCase := by
    rw [show (toHex data).map lowerCase = s.map lowerCase from h]
    exact List.mem_map_of_mem hc
  rw [map_lowerCase_toHex] at hmem
  obtain ⟨n, hn⟩ := hexValue_of_mem_toHex hmem
  exact ⟨n, (hexValue_lowerCase c).symm.trans hn⟩

/-- Writing a beginning of what was read gives the text back exactly when it is hexadecimal and
the beginning is all of it. -/
theorem sameUpToCase_toHex_iff {s : ByteString} {n : ℕ} (hn : n ≤ (fromHex s).length) :
    SameUpToCase (toHex ((fromHex s).take n)) s ↔ IsHex s ∧ (fromHex s).length = n := by
  constructor
  · intro h
    have hhex := isHex_of_sameUpToCase h
    have hlength := h.length_eq
    have heven := hhex.1
    rw [length_toHex, List.length_take_of_le hn] at hlength
    refine ⟨hhex, ?_⟩
    rw [length_fromHex]
    omega
  · intro h
    obtain ⟨hhex, hlength⟩ := h
    rw [List.take_of_length_le hlength.le, SameUpToCase, toHex_fromHex hhex, ← toHex_fromHex hhex,
      map_lowerCase_toHex]

end Text

/-- The decoder stays inside the buffer, and what it returns is what the string encodes. -/
def AcceptsImage {α : Type} (decode : ByteString → Except Failure α) (encode : α → ByteString)
    (s : ByteString) : Prop :=
  ReadsInside (decode s) ∧ ∀ v, decode s = .ok v → SameUpToCase (encode v) s

section Commitments
variable {buffer : ByteString} {n offset : ℕ}

theorem copyBytes_of_le (h : offset + n ≤ buffer.length) :
    ∃ b : Bytes n, copyBytes n buffer offset = .ok b ∧ b.val = (buffer.drop offset).take n := by
  have hlength : ((buffer.drop offset).take n).length = n := by
    rw [List.length_take, List.length_drop]
    omega
  exact ⟨⟨_, hlength⟩, by rw [copyBytes, readBytes, dif_pos hlength], rfl⟩

theorem take_append_take_drop (buffer : ByteString) (offset m n : ℕ) :
    (buffer.drop offset).take m ++ (buffer.drop (offset + m)).take n =
      (buffer.drop offset).take (m + n) := by
  rw [List.take_add, List.drop_drop]

/-- Two strings of 32 bytes, from as many hexadecimal digits. -/
theorem deserializeCommitment_cases (s : ByteString) :
    ((fromHex s).length ≠ 64 ∧
      deserializeCommitment s = .error (.runtimeError "Invalid commitment size")) ∨
    (fromHex s).length = 64 ∧ ∃ comm, deserializeCommitment s = .ok comm ∧
      serializeCommitment comm = toHex (fromHex s) := by
  by_cases hsize : (fromHex s).length = 64
  · right
    obtain ⟨salt, hsalt, hfirst⟩ := @copyBytes_of_le (fromHex s) 32 0 (by omega)
    obtain ⟨commitment, hcommitment, hlast⟩ := @copyBytes_of_le (fromHex s) 32 32 (by omega)
    refine ⟨hsize, ⟨salt, commitment⟩, ?_, ?_⟩
    · simp only [deserializeCommitment, hsize, hsalt, hcommitment, ne_eq, not_true_eq_false,
        if_false, bind, Except.bind]
    · have hjoin := take_append_take_drop (fromHex s) 0 32 32
      rw [serializeCommitment, hfirst, hlast, hjoin, List.drop_zero,
        List.take_of_length_le hsize.le]
  · left
    refine ⟨hsize, ?_⟩
    simp only [deserializeCommitment, ne_eq, hsize, not_false_eq_true, if_true, bind, Except.bind]

/-- A string of the right size is hexadecimal text. -/
def CommitmentText (s : ByteString) : Prop := (fromHex s).length = 64 → IsHex s

theorem deserializeCommitment_acceptsImage_iff (s : ByteString) :
    AcceptsImage deserializeCommitment serializeCommitment s ↔ CommitmentText s := by
  rcases deserializeCommitment_cases s with ⟨hsize, hrun⟩ | ⟨hsize, comm, hrun, hencode⟩
  · refine iff_of_true ⟨?_, fun v hv => ?_⟩ fun h => absurd h hsize
    · rw [hrun]
      exact fun heq => by cases heq
    · rw [hrun] at hv
      cases hv
  · have hiff := sameUpToCase_toHex_iff hsize.ge
    rw [List.take_of_length_le hsize.le, ← hencode] at hiff
    constructor
    · intro h _
      exact (hiff.1 (h.2 comm hrun)).1
    · intro h
      refine ⟨?_, fun v hv => ?_⟩
      · rw [hrun]
        exact fun heq => by cases heq
      · rw [hrun] at hv
        cases hv
        exact hiff.2 ⟨h hsize, hsize⟩

end Commitments

section Decommitments
variable {buffer : ByteString} {offset : ℕ}

/-- The length that a buffer announces at an offset. -/
def stringLength (buffer : ByteString) (offset : ℕ) : ℕ := leValue ((buffer.drop offset).take 4)

/-- Where the last field of a decommitment ends. -/
def messageEnd (buffer : ByteString) : ℕ :=
  let offset := 130 + 4 + stringLength buffer 130
  offset + 4 + stringLength buffer offset

theorem checkedBytes_of_le {n : ℕ} (h : offset + n ≤ buffer.length) :
    ∃ b : Bytes n, checkedBytes n buffer offset = .ok b ∧ b.val = (buffer.drop offset).take n := by
  obtain ⟨b, hb, hval⟩ := copyBytes_of_le h
  exact ⟨b, by rw [checkedBytes, if_neg (by omega), hb], hval⟩

theorem checkedBytes_of_lt {n : ℕ} (h : buffer.length < offset + n) :
    checkedBytes n buffer offset = .error bufferUnderflow := by
  rw [checkedBytes, if_pos h]

theorem checkedString_of_le (h : offset + 4 + stringLength buffer offset ≤ buffer.length) :
    ∃ t, checkedString buffer offset = .ok (t, offset + 4 + stringLength buffer offset) ∧
      encodeString t = (buffer.drop offset).take (4 + stringLength buffer offset) := by
  obtain ⟨count, hcount, hval⟩ := @checkedBytes_of_le buffer offset 4 (by omega)
  have hvalue : leValue count.val = stringLength buffer offset := by rw [hval, stringLength]
  have hlength : ((buffer.drop (offset + 4)).take (stringLength buffer offset)).length =
      stringLength buffer offset := by
    rw [List.length_take, List.length_drop]
    omega
  refine ⟨(buffer.drop (offset + 4)).take (stringLength buffer offset), ?_, ?_⟩
  · have hbound : ¬ buffer.length < offset + 4 + stringLength buffer offset := by omega
    simp only [checkedString, hcount, hvalue, hbound, if_false, bind, Except.bind]
  · have hprefix := leList_leValue count.val
    rw [count.2, hvalue, hval] at hprefix
    rw [encodeString, hlength, hprefix, take_append_take_drop]

theorem checkedString_of_lt (h : buffer.length < offset + 4 + stringLength buffer offset) :
    checkedString buffer offset = .error bufferUnderflow := by
  by_cases hcount : offset + 4 ≤ buffer.length
  · obtain ⟨count, hcount, hval⟩ := @checkedBytes_of_le buffer offset 4 hcount
    have hvalue : leValue count.val = stringLength buffer offset := by rw [hval, stringLength]
    simp only [checkedString, hcount, hvalue, h, if_true, bind, Except.bind]
  · have hcount : checkedBytes 4 buffer offset = _ := checkedBytes_of_lt (by omega)
    simp only [checkedString, hcount, bind, Except.bind]

/-- A buffer that holds all fields is decoded, and the fields are its beginning. -/
theorem deserializeDecommitment_of_le {s : ByteString}
    (h : messageEnd (fromHex s) ≤ (fromHex s).length) :
    ∃ decomm, deserializeDecommitment s = .ok decomm ∧
      serializeDecommitment decomm = toHex ((fromHex s).take (messageEnd (fromHex s))) := by
  generalize hbuffer : fromHex s = buffer at h
  rw [messageEnd] at h
  obtain ⟨ack, hack, hack'⟩ := @checkedBytes_of_le buffer 0 32 (by omega)
  obtain ⟨seed, hseed, hseed'⟩ := @checkedBytes_of_le buffer 32 32 (by omega)
  obtain ⟨X, hX, hX'⟩ := @checkedBytes_of_le buffer 64 33 (by omega)
  obtain ⟨R, hR, hR'⟩ := @checkedBytes_of_le buffer 97 33 (by omega)
  obtain ⟨paillier, hpaillier, hpaillier'⟩ := @checkedString_of_le buffer 130 (by omega)
  obtain ⟨ring, hring, hring'⟩ := checkedString_of_le h
  refine ⟨⟨ack, seed, ⟨X, R⟩, paillier, ring⟩, ?_, ?_⟩
  · simp only [deserializeDecommitment, hbuffer, hack, hseed, hX, hR, hpaillier, hring, bind,
      Except.bind]
  · have hjoin := take_append_take_drop buffer
    rw [serializeDecommitment, hack', hseed', hX', hR', hpaillier', hring', Nat.add_assoc 130 4,
      hjoin 130, hjoin 97, hjoin 64, hjoin 32, hjoin 0, List.drop_zero, messageEnd]
    refine congrArg (fun n => toHex (buffer.take n)) ?_
    rw [Nat.add_assoc 130 4]
    omega

theorem deserializeDecommitment_of_lt {s : ByteString}
    (h : (fromHex s).length < messageEnd (fromHex s)) :
    deserializeDecommitment s = .error bufferUnderflow := by
  generalize hbuffer : fromHex s = buffer at h
  by_cases hack : 0 + 32 ≤ buffer.length
  · obtain ⟨ack, hack, -⟩ := checkedBytes_of_le hack
    by_cases hseed : 32 + 32 ≤ buffer.length
    · obtain ⟨seed, hseed, -⟩ := checkedBytes_of_le hseed
      by_cases hX : 64 + 33 ≤ buffer.length
      · obtain ⟨X, hX, -⟩ := checkedBytes_of_le hX
        by_cases hR : 97 + 33 ≤ buffer.length
        · obtain ⟨R, hR, -⟩ := checkedBytes_of_le hR
          by_cases hpaillier : 130 + 4 + stringLength buffer 130 ≤ buffer.length
          · obtain ⟨paillier, hpaillier, -⟩ := checkedString_of_le hpaillier
            have hring := checkedString_of_lt h
            simp only [deserializeDecommitment, hbuffer, hack, hseed, hX, hR, hpaillier, hring,
              bind, Except.bind]
          · have hpaillier := checkedString_of_lt (not_le.1 hpaillier)
            simp only [deserializeDecommitment, hbuffer, hack, hseed, hX, hR, hpaillier, bind,
              Except.bind]
        · have hR : checkedBytes 33 buffer 97 = _ := checkedBytes_of_lt (not_le.1 hR)
          simp only [deserializeDecommitment, hbuffer, hack, hseed, hX, hR, bind, Except.bind]
      · have hX : checkedBytes 33 buffer 64 = _ := checkedBytes_of_lt (not_le.1 hX)
        simp only [deserializeDecommitment, hbuffer, hack, hseed, hX, bind, Except.bind]
    · have hseed : checkedBytes 32 buffer 32 = _ := checkedBytes_of_lt (not_le.1 hseed)
      simp only [deserializeDecommitment, hbuffer, hack, hseed, bind, Except.bind]
  · have hack : checkedBytes 32 buffer 0 = _ := checkedBytes_of_lt (not_le.1 hack)
    simp only [deserializeDecommitment, hbuffer, hack, bind, Except.bind]

/-- A string that is long enough for its fields is hexadecimal text of just these fields. -/
def DecommitmentText (s : ByteString) : Prop := messageEnd (fromHex s) ≤ (fromHex s).length →
  IsHex s ∧ (fromHex s).length = messageEnd (fromHex s)

theorem deserializeDecommitment_acceptsImage_iff (s : ByteString) :
    AcceptsImage deserializeDecommitment serializeDecommitment s ↔ DecommitmentText s := by
  by_cases hsize : messageEnd (fromHex s) ≤ (fromHex s).length
  · obtain ⟨decomm, hrun, hencode⟩ := deserializeDecommitment_of_le hsize
    have hiff := sameUpToCase_toHex_iff hsize
    rw [← hencode] at hiff
    constructor
    · intro h _
      exact hiff.1 (h.2 decomm hrun)
    · intro h
      refine ⟨?_, fun v hv => ?_⟩
      · rw [hrun]
        exact fun heq => by cases heq
      · rw [hrun] at hv
        cases hv
        exact hiff.2 (h hsize)
  · have hrun := deserializeDecommitment_of_lt (not_le.1 hsize)
    refine iff_of_true ⟨?_, fun v hv => ?_⟩ fun h => absurd h hsize
    · rw [hrun]
      exact fun heq => by cases heq
    · rw [hrun] at hv
      cases hv

end Decommitments

/-- Strings that are accepted as what they encode do not stand for the same value, unless they
differ in the case of digits only. -/
theorem AcceptsImage.sameUpToCase {α : Type} {decode : ByteString → Except Failure α}
    {encode : α → ByteString} {s s' : ByteString} {v : α} (h : AcceptsImage decode encode s)
    (h' : AcceptsImage decode encode s') (hs : decode s = .ok v) (hs' : decode s' = .ok v) :
    SameUpToCase s s' :=
  (h.2 v hs).symm.trans (h'.2 v hs')

/-- Whatever the string, a decoder of key generation throws or returns a value that encodes to
the string exactly when a string that is long enough is hexadecimal text, with nothing behind
the last field. No two such strings decode to one value. -/
theorem keygenDecoders_acceptImage_iff (s : ByteString) :
    (AcceptsImage deserializeCommitment serializeCommitment s ↔ CommitmentText s) ∧
    (AcceptsImage deserializeDecommitment serializeDecommitment s ↔ DecommitmentText s) ∧
    (∀ s' comm, CommitmentText s → CommitmentText s' → deserializeCommitment s = .ok comm →
      deserializeCommitment s' = .ok comm → SameUpToCase s s') ∧
    ∀ s' decomm, DecommitmentText s → DecommitmentText s' →
      deserializeDecommitment s = .ok decomm → deserializeDecommitment s' = .ok decomm →
        SameUpToCase s s' := by
  refine ⟨deserializeCommitment_acceptsImage_iff s, deserializeDecommitment_acceptsImage_iff s,
    fun s' comm hs hs' h h' => ?_, fun s' decomm hs hs' h h' => ?_⟩
  · exact ((deserializeCommitment_acceptsImage_iff s).2 hs).sameUpToCase
      ((deserializeCommitment_acceptsImage_iff s').2 hs') h h'
  · exact ((deserializeDecommitment_acceptsImage_iff s).2 hs).sameUpToCase
      ((deserializeDecommitment_acceptsImage_iff s').2 hs') h h'

/-- Blanks are a commitment, and a decommitment with a byte behind its fields is accepted. -/
theorem keygenDecoders_acceptOthers :
    ¬ AcceptsImage deserializeCommitment serializeCommitment (List.replicate 128 32) ∧
      ¬ AcceptsImage deserializeDecommitment serializeDecommitment (List.replicate 278 48) := by
  constructor
  · intro h
    have htext := (deserializeCommitment_acceptsImage_iff _).1 h (by decide +kernel)
    obtain ⟨n, hn⟩ := htext.2 32 (by simp)
    exact absurd hn (by simp [hexValue])
  · intro h
    have htext := (deserializeDecommitment_acceptsImage_iff _).1 h (by decide +kernel)
    exact absurd htext.2 (by decide +kernel)

end MpcDemo.KeygenDecoders
