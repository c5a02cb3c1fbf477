import MpcDemo.Serialization

/-!
# How far the list decoders read

The decoders of lists take the number of elements from the message and never compare it with
the size of the buffer. They stay inside exactly when the buffer has room for the count, for as
many elements as it announces and for what follows them.
-/

namespace MpcDemo.DecoderBounds
open ByteStrings CosignerTypes HexText Serialization FallibleState

/-- No read has passed the end of the buffer. -/
def ReadsInside {α : Type} (result : Except Failure α) : Prop := result ≠ .error .undefinedBehaviour

/-- A copy that succeeds where the buffer is long enough and reads outside it elsewhere. -/
structure Bounded {α : Type} (width : ℕ) (copy : ByteString → ℕ → Except Failure α) : Prop where
  inside : ∀ buffer offset, offset + width ≤ buffer.length → ∃ a, copy buffer offset = .ok a
  outside : ∀ buffer offset, buffer.length < offset + width →
    copy buffer offset = .error .undefinedBehaviour

section Copies
variable {buffer : ByteString} {offset count : ℕ} {α : Type}

theorem bounded_copyBytes {n : ℕ} (hn : 0 < n) : Bounded n (copyBytes n) := by
  have hlength : ∀ (buffer : ByteString) (offset : ℕ),
      ((buffer.drop offset).take n).length = min n (buffer.length - offset) := by
    intro buffer offset
    rw [List.length_take, List.length_drop]
  constructor
  · intro buffer offset h
    have hfull : ((buffer.drop offset).take n).length = n := by
      rw [hlength]
      omega
    exact ⟨⟨_, hfull⟩, by rw [copyBytes, readBytes, dif_pos hfull]⟩
  · intro buffer offset h
    have hshort : ((buffer.drop offset).take n).length ≠ n := by
      rw [hlength]
      omega
    rw [copyBytes, readBytes, dif_neg hshort]

theorem bounded_copySignature : Bounded 64 copySignature := by
  have hbytes := bounded_copyBytes (n := 32) (by decide)
  constructor
  · intro buffer offset h
    obtain ⟨R, hR⟩ := hbytes.inside buffer offset (by omega)
    obtain ⟨s, hs⟩ := hbytes.inside buffer (offset + 32) (by omega)
    exact ⟨⟨R, s⟩, by simp only [copySignature, hR, hs, bind, Except.bind]⟩
  · intro buffer offset h
    by_cases hR : offset + 32 ≤ buffer.length
    · obtain ⟨R, hR⟩ := hbytes.inside buffer offset hR
      have hs := hbytes.outside buffer (offset + 32) (by omega)
      simp only [copySignature, hR, hs, bind, Except.bind]
    · have hR := hbytes.outside buffer offset (by omega)
      simp only [copySignature, hR, bind, Except.bind]

/-- The loop over the elements, from an offset inside the buffer on. -/
theorem copyElements_bounds {e : Element α} (he : Bounded e.width e.copy)
    (hoffset : offset ≤ buffer.length) :
    (offset + count * e.width ≤ buffer.length → ∃ l, copyElements e buffer offset count = .ok l) ∧
      (buffer.length < offset + count * e.width →
        copyElements e buffer offset count = .error .undefinedBehaviour) := by
  induction count generalizing offset with
  | zero =>
    refine ⟨fun _ => ⟨[], rfl⟩, fun h => ?_⟩
    omega
  | succ count ih =>
    have hcount : offset + (count + 1) * e.width = offset + e.width + count * e.width := by ring
    rw [hcount, copyElements]
    by_cases hfirst : offset + e.width ≤ buffer.length
    · obtain ⟨a, ha⟩ := he.inside buffer offset hfirst
      obtain ⟨hin, hout⟩ := ih hfirst
      constructor
      · intro h
        obtain ⟨l, hl⟩ := hin h
        exact ⟨a :: l, by simp only [ha, hl, bind, Except.bind]⟩
      · intro h
        simp only [ha, hout h, bind, Except.bind]
    · have ha := he.outside buffer offset (by omega)
      constructor
      · intro h
        have hpos := Nat.zero_le (count * e.width)
        omega
      · intro h
        simp only [ha, bind, Except.bind]

/-- The count that a buffer announces. -/
def announced (buffer : ByteString) : ℕ := leValue (buffer.take 4)

/-- There is room for the count, the announced elements and some bytes after them. -/
def Complete (width trailing : ℕ) (buffer : ByteString) : Prop :=
  4 ≤ buffer.length ∧ 4 + announced buffer * width + trailing ≤ buffer.length

theorem copyBytes_count (h : 4 ≤ buffer.length) :
    ∃ count : Bytes 4, copyBytes 4 buffer 0 = .ok count ∧ leValue count.val = announced buffer := by
  obtain ⟨count, hcount⟩ := (bounded_copyBytes (n := 4) (by decide)).inside buffer 0 h
  refine ⟨count, hcount, ?_⟩
  rw [copyBytes] at hcount
  split at hcount
  · rename_i b hb
    cases hcount
    rw [announced, ← readBytes_eq_some_iff.1 hb]
    rfl
  · cases hcount

/-- The list at the start of a buffer. -/
theorem copyCounted_bounds {e : Element α} (he : Bounded e.width e.copy) :
    (Complete e.width 0 buffer → ∃ l, copyCounted e buffer =
        .ok (l, 4 + announced buffer * e.width)) ∧
      (¬ Complete e.width 0 buffer → copyCounted e buffer = .error .undefinedBehaviour) := by
  rw [copyCounted, Complete]
  by_cases hlength : 4 ≤ buffer.length
  · obtain ⟨count, hcount, hvalue⟩ := copyBytes_count hlength
    obtain ⟨hin, hout⟩ := @copyElements_bounds buffer 4 (announced buffer) α e he hlength
    constructor
    · intro h
      obtain ⟨l, hl⟩ := hin (by omega)
      exact ⟨l, by simp only [hcount, hvalue, hl, bind, Except.bind]⟩
    · intro h
      simp only [hcount, hvalue, hout (by omega), bind, Except.bind]
  · have hcount := (bounded_copyBytes (n := 4) (by decide)).outside buffer 0 (by omega)
    constructor
    · intro h
      exact absurd h.1 hlength
    · intro h
      simp only [hcount, bind, Except.bind]

/-- A decoder of a list and nothing else. -/
theorem map_copyCounted_readsInside_iff {e : Element α} (he : Bounded e.width e.copy) :
    ReadsInside ((copyCounted e buffer).map Prod.fst) ↔ Complete e.width 0 buffer := by
  obtain ⟨hin, hout⟩ := @copyCounted_bounds buffer α e he
  by_cases h : Complete e.width 0 buffer
  · obtain ⟨l, hl⟩ := hin h
    rw [hl]
    exact iff_of_true (fun heq => by cases heq) h
  · rw [hout h]
    exact iff_of_false (fun hne => hne rfl) h

end Copies

theorem deserializeRsAndCommitments_readsInside_iff (hex : ByteString) :
    ReadsInside (deserializeRsAndCommitments hex) ↔ Complete 33 32 (fromHex hex) := by
  have hpoints : Bounded (bytesElement 33).width (bytesElement 33).copy :=
    bounded_copyBytes (n := 33) (by decide)
  have hbytes := bounded_copyBytes (n := 32) (by decide)
  obtain ⟨hin, hout⟩ := @copyCounted_bounds (fromHex hex) _ _ hpoints
  by_cases hlist : Complete 33 0 (fromHex hex)
  · obtain ⟨l, hl⟩ := hin hlist
    have hwidth : (bytesElement 33).width = 33 := rfl
    by_cases h : Complete 33 32 (fromHex hex)
    · obtain ⟨c, hc⟩ := hbytes.inside (fromHex hex) (4 + announced (fromHex hex) * 33) h.2
      refine iff_of_true ?_ h
      simp only [deserializeRsAndCommitments, hl, hwidth, hc, bind, Except.bind]
      exact fun heq => by cases heq
    · have hc := hbytes.outside (fromHex hex) (4 + announced (fromHex hex) * 33) (by
        rw [Complete] at h hlist
        omega)
      refine iff_of_false (fun hne => hne ?_) h
      simp only [deserializeRsAndCommitments, hl, hwidth, hc, bind, Except.bind]
  · refine iff_of_false (fun hne => hne ?_) fun h => hlist ⟨h.1, by rw [Complete] at h; omega⟩
    simp only [deserializeRsAndCommitments, hout hlist, bind, Except.bind]

/-- Whatever the string, each decoder of a list stays inside the buffer exactly when the buffer
is complete. -/
theorem listDecoders_readInside_iff (hex : ByteString) :
    (ReadsInside (deserializeEddsaCommitments hex) ↔ Complete 32 0 (fromHex hex)) ∧
      (ReadsInside (deserializeCommitments hex) ↔ Complete 32 0 (fromHex hex)) ∧
      (ReadsInside (deserializeEllipticCurvePoints hex) ↔ Complete 33 0 (fromHex hex)) ∧
      (ReadsInside (deserializeRsAndCommitments hex) ↔ Complete 33 32 (fromHex hex)) ∧
      (ReadsInside (deserializeEddsaSignatures hex) ↔ Complete 64 0 (fromHex hex)) := by
  have hbytes : ∀ n, 0 < n → Bounded (bytesElement n).width (bytesElement n).copy :=
    fun n hn => bounded_copyBytes hn
  exact ⟨map_copyCounted_readsInside_iff (hbytes 32 (by decide)),
    map_copyCounted_readsInside_iff (hbytes 32 (by decide)),
    map_copyCounted_readsInside_iff (hbytes 33 (by decide)),
    deserializeRsAndCommitments_readsInside_iff hex,
    map_copyCounted_readsInside_iff (e := signatureElement) bounded_copySignature⟩

/-- The empty string has no count. -/
theorem deserializeCommitments_readsOutside :
    ¬ ∀ hex, ReadsInside (deserializeEddsaCommitments hex) ∧
      ReadsInside (deserializeCommitments hex) ∧
      ReadsInside (deserializeEllipticCurvePoints hex) ∧
      ReadsInside (deserializeRsAndCommitments hex) ∧
      ReadsInside (deserializeEddsaSignatures hex) :=
  fun h => (h []).2.1 rfl

end MpcDemo.DecoderBounds
