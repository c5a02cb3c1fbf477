import MpcDemo.CosignerTypes
import MpcDemo.HexText

/-!
# Wire formats

`commitment_serializer.cpp` and `eddsa_serializer.cpp`. The decoders of lists copy from the
buffer without looking at its size; a read past its end has no defined behaviour. Every
decoder reads back what its encoder wrote.
-/

namespace MpcDemo.Serialization
open ByteStrings Ed25519Algebra CosignerTypes HexText FallibleState

/-- `memcpy` of `n` bytes at an offset. -/
def copyBytes (n : ℕ) (buffer : ByteString) (offset : ℕ) : Except Failure (Bytes n) :=
  match readBytes n buffer offset with
  | some b => .ok b
  | none => .error .undefinedBehaviour

theorem copyBytes_append {n : ℕ} (before : ByteString) (b : Bytes n) (after : ByteString) :
    copyBytes n (before ++ (b.val ++ after)) before.length = .ok b := by
  rw [copyBytes, readBytes_append]

section Lists

/-- An element type of the list formats: its bytes and how they are copied back. -/
structure Element (α : Type) where
  width : ℕ
  toBytes : α → ByteString
  copy : ByteString → ℕ → Except Failure α
  length_toBytes : ∀ a, (toBytes a).length = width
  copy_append : ∀ before a after,
    copy (before ++ (toBytes a ++ after)) before.length = .ok a

variable {α : Type} (e : Element α)

/-- A 32-bit count and the elements. -/
def encodeCounted (l : List α) : ByteString := leList 4 l.length ++ l.flatMap e.toBytes

def copyElements (buffer : ByteString) : ℕ → ℕ → Except Failure (List α)
  | _, 0 => .ok []
  | offset, count + 1 => do
    let a ← e.copy buffer offset
    let rest ← copyElements buffer (offset + e.width) count
    .ok (a :: rest)

/-- The counted elements at the start of a buffer and the offset behind them. -/
def copyCounted (buffer : ByteString) : Except Failure (List α × ℕ) := do
  let count ← copyBytes 4 buffer 0
  let l ← copyElements e buffer 4 (leValue count.val)
  .ok (l, 4 + leValue count.val * e.width)

theorem copyElements_append (l : List α) (before after : ByteString) :
    copyElements e (before ++ (l.flatMap e.toBytes ++ after)) before.length l.length = .ok l := by
  induction l generalizing before with
  | nil => rfl
  | cons a l ih =>
    have hnext : before ++ ((a :: l).flatMap e.toBytes ++ after) =
        (before ++ e.toBytes a) ++ (l.flatMap e.toBytes ++ after) := by
      simp only [List.flatMap_cons, List.append_assoc]
    have hlength : before.length + e.width = (before ++ e.toBytes a).length := by
      rw [List.length_append, e.length_toBytes]
    have hfirst :
        e.copy (before ++ ((a :: l).flatMap e.toBytes ++ after)) before.length = .ok a := by
      rw [List.flatMap_cons, List.append_assoc]
      exact e.copy_append _ _ _
    rw [List.length_cons, copyElements, hfirst, hnext, hlength]
    simp only [bind, Except.bind, ih]

theorem length_flatMap_toBytes (l : List α) : (l.flatMap e.toBytes).length = l.length * e.width := by
  induction l with
  | nil => simp
  | cons a l ih =>
    rw [List.flatMap_cons, List.length_append, e.length_toBytes, ih, List.length_cons]
    ring

theorem copyCounted_encodeCounted {l : List α} (hl : l.length < 2 ^ 32) (after : ByteString) :
    copyCounted e (encodeCounted e l ++ after) = .ok (l, (encodeCounted e l).length) := by
  have hcount : leValue (leBytes 4 l.length).val = l.length := leValue_leList_of_lt hl
  have hread : copyBytes 4 (encodeCounted e l ++ after) 0 = .ok (leBytes 4 l.length) := by
    rw [encodeCounted, List.append_assoc]
    exact copyBytes_append [] (leBytes 4 l.length) _
  have hlist : copyElements e (encodeCounted e l ++ after) 4 l.length = .ok l := by
    rw [encodeCounted, List.append_assoc]
    exact (congrArg (fun n => copyElements e _ n _) (length_leList 4 l.length).symm).trans
      (copyElements_append e l _ after)
  have hlength : (encodeCounted e l).length = 4 + l.length * e.width := by
    rw [encodeCounted, List.length_append, length_leList, length_flatMap_toBytes]
  simp only [copyCounted, hread, bind, Except.bind, hcount, hlist, hlength]

end Lists

/-- Elements of a fixed number of bytes. -/
def bytesElement (n : ℕ) : Element (Bytes n) where
  width := n
  toBytes b := b.val
  copy := copyBytes n
  length_toBytes b := b.2
  copy_append := copyBytes_append

def copySignature (buffer : ByteString) (offset : ℕ) : Except Failure EddsaSignature := do
  let R ← copyBytes 32 buffer offset
  let s ← copyBytes 32 buffer (offset + 32)
  .ok ⟨R, s⟩

def signatureElement : Element EddsaSignature where
  width := 64
  toBytes sig := sig.R.val ++ sig.s.val
  copy := copySignature
  length_toBytes sig := by rw [List.length_append, sig.R.2, sig.s.2]
  copy_append before sig after := by
    have hR : copyBytes 32 (before ++ ((sig.R.val ++ sig.s.val) ++ after)) before.length =
        .ok sig.R := by
      rw [List.append_assoc]
      exact copyBytes_append _ _ _
    have hs : copyBytes 32 (before ++ ((sig.R.val ++ sig.s.val) ++ after)) (before.length + 32) =
        .ok sig.s := by
      have hsplit : before ++ ((sig.R.val ++ sig.s.val) ++ after) =
          (before ++ sig.R.val) ++ (sig.s.val ++ after) := by
        simp only [List.append_assoc]
      have hlength : before.length + 32 = (before ++ sig.R.val).length := by
        rw [List.length_append, sig.R.2]
      rw [hsplit, hlength]
      exact copyBytes_append _ _ _
    simp only [copySignature, hR, hs, bind, Except.bind]

def serializeEddsaCommitments (comms : List EddsaCommitment) : ByteString :=
  toHex (encodeCounted (bytesElement 32) comms)

def deserializeEddsaCommitments (hex : ByteString) : Except Failure (List EddsaCommitment) :=
  (copyCounted (bytesElement 32) (fromHex hex)).map Prod.fst

def serializeCommitments (commitments : List EddsaCommitment) : ByteString :=
  toHex (encodeCounted (bytesElement 32) commitments)

def deserializeCommitments (hex : ByteString) : Except Failure (List EddsaCommitment) :=
  (copyCounted (bytesElement 32) (fromHex hex)).map Prod.fst

def serializeEllipticCurvePoints (points : List EllipticCurvePoint) : ByteString :=
  toHex (encodeCounted (bytesElement 33) points)

def deserializeEllipticCurvePoints (hex : ByteString) : Except Failure (List EllipticCurvePoint) :=
  (copyCounted (bytesElement 33) (fromHex hex)).map Prod.fst

def serializeRsAndCommitments (rs : RsAndCommitments) : ByteString :=
  toHex (encodeCounted (bytesElement 33) rs.Rs ++ rs.RCommitment.val)

def deserializeRsAndCommitments (hex : ByteString) : Except Failure RsAndCommitments := do
  let buffer := fromHex hex
  let (Rs, offset) ← copyCounted (bytesElement 33) buffer
  let RCommitment ← copyBytes 32 buffer offset
  .ok ⟨Rs, RCommitment⟩

def serializeEddsaSignatures (sigs : List EddsaSignature) : ByteString :=
  toHex (encodeCounted signatureElement sigs)

def deserializeEddsaSignatures (hex : ByteString) : Except Failure (List EddsaSignature) :=
  (copyCounted signatureElement (fromHex hex)).map Prod.fst

section ListRoundTrips

private theorem decode_toHex {α : Type} (e : Element α) {l : List α} (hl : l.length < 2 ^ 32) :
    (copyCounted e (fromHex (toHex (encodeCounted e l)))).map Prod.fst = .ok l := by
  have h := copyCounted_encodeCounted e hl []
  rw [List.append_nil] at h
  rw [fromHex_toHex, h]
  rfl

theorem deserialize_serializeEddsaCommitments {l : List EddsaCommitment} (hl : l.length < 2 ^ 32) :
    deserializeEddsaCommitments (serializeEddsaCommitments l) = .ok l := decode_toHex _ hl

theorem deserialize_serializeCommitments {l : List EddsaCommitment} (hl : l.length < 2 ^ 32) :
    deserializeCommitments (serializeCommitments l) = .ok l := decode_toHex _ hl

theorem deserialize_serializeEllipticCurvePoints {l : List EllipticCurvePoint}
    (hl : l.length < 2 ^ 32) :
    deserializeEllipticCurvePoints (serializeEllipticCurvePoints l) = .ok l := decode_toHex _ hl

theorem deserialize_serializeEddsaSignatures {l : List EddsaSignature} (hl : l.length < 2 ^ 32) :
    deserializeEddsaSignatures (serializeEddsaSignatures l) = .ok l := decode_toHex _ hl

theorem deserialize_serializeRsAndCommitments {rs : RsAndCommitments}
    (hl : rs.Rs.length < 2 ^ 32) :
    deserializeRsAndCommitments (serializeRsAndCommitments rs) = .ok rs := by
  have hlist := copyCounted_encodeCounted (bytesElement 33) hl rs.RCommitment.val
  have hlast : copyBytes 32 (encodeCounted (bytesElement 33) rs.Rs ++ rs.RCommitment.val)
      (encodeCounted (bytesElement 33) rs.Rs).length = .ok rs.RCommitment := by
    have h := copyBytes_append (encodeCounted (bytesElement 33) rs.Rs) rs.RCommitment []
    rwa [List.append_nil] at h
  rw [deserializeRsAndCommitments, serializeRsAndCommitments, fromHex_toHex]
  simp only [hlist, hlast, bind, Except.bind]

/-- Each list decoder reads back what its encoder wrote, and the two names of the commitment
format read each other. -/
theorem listMessages_roundTrip :
    (∀ l : List EddsaCommitment, l.length < 2 ^ 32 →
      deserializeEddsaCommitments (serializeEddsaCommitments l) = .ok l ∧
      deserializeCommitments (serializeCommitments l) = .ok l ∧
      deserializeCommitments (serializeEddsaCommitments l) = .ok l ∧
      deserializeEddsaCommitments (serializeCommitments l) = .ok l) ∧
    (∀ l : List EllipticCurvePoint, l.length < 2 ^ 32 →
      deserializeEllipticCurvePoints (serializeEllipticCurvePoints l) = .ok l) ∧
    (∀ rs : RsAndCommitments, rs.Rs.length < 2 ^ 32 →
      deserializeRsAndCommitments (serializeRsAndCommitments rs) = .ok rs) ∧
    ∀ l : List EddsaSignature, l.length < 2 ^ 32 →
      deserializeEddsaSignatures (serializeEddsaSignatures l) = .ok l := by
  refine ⟨fun l hl => ⟨deserialize_serializeEddsaCommitments hl,
    deserialize_serializeCommitments hl, ?_, ?_⟩,
    fun l hl => deserialize_serializeEllipticCurvePoints hl,
    fun rs hl => deserialize_serializeRsAndCommitments hl,
    fun l hl => deserialize_serializeEddsaSignatures hl⟩
  · rw [deserializeCommitments, serializeEddsaCommitments, decode_toHex _ hl]
  · rw [deserializeEddsaCommitments, serializeCommitments, decode_toHex _ hl]

/-- An empty list and one of two elements. -/
theorem listMessages_roundTrip_short :
    deserializeCommitments (serializeEddsaCommitments []) = .ok [] ∧
      deserializeEllipticCurvePoints (serializeEllipticCurvePoints [zeroBytes 33, leBytes 33 1]) =
        .ok [zeroBytes 33, leBytes 33 1] ∧
      deserializeRsAndCommitments (serializeRsAndCommitments ⟨[leBytes 33 1], zeroBytes 32⟩) =
        .ok ⟨[leBytes 33 1], zeroBytes 32⟩ ∧
      deserializeEddsaSignatures (serializeEddsaSignatures [⟨zeroBytes 32, leBytes 32 1⟩]) =
        .ok [⟨zeroBytes 32, leBytes 32 1⟩] :=
  ⟨(listMessages_roundTrip.1 [] (by decide)).2.2.1, listMessages_roundTrip.2.1 _ (by decide),
    listMessages_roundTrip.2.2.1 _ (by decide), listMessages_roundTrip.2.2.2 _ (by decide)⟩

end ListRoundTrips

def serializeCommitment (comm : Commitment) : ByteString :=
  toHex (comm.salt.val ++ comm.commitment.val)

def deserializeCommitment (hex : ByteString) : Except Failure Commitment := do
  let buffer := fromHex hex
  if buffer.length ≠ 64 then .error (.runtimeError "Invalid commitment size")
  let salt ← copyBytes 32 buffer 0
  let commitment ← copyBytes 32 buffer 32
  .ok ⟨salt, commitment⟩

def bufferUnderflow : Failure := .runtimeError "Buffer underflow"

/-- `CHECK_BOUNDS` and the copy after it. -/
def checkedBytes (n : ℕ) (buffer : ByteString) (offset : ℕ) : Except Failure (Bytes n) :=
  if buffer.length < offset + n then .error bufferUnderflow else copyBytes n buffer offset

/-- A 32-bit length and that many bytes, both checked. -/
def checkedString (buffer : ByteString) (offset : ℕ) : Except Failure (ByteString × ℕ) := do
  let length ← checkedBytes 4 buffer offset
  let length := leValue length.val
  if buffer.length < offset + 4 + length then .error bufferUnderflow
  .ok ((buffer.drop (offset + 4)).take length, offset + 4 + length)

def encodeString (s : ByteString) : ByteString := leList 4 s.length ++ s

def serializeDecommitment (decomm : SetupDecommitment) : ByteString :=
  toHex (decomm.ack.val ++ (decomm.seed.val ++ (decomm.share.X.val ++ (decomm.share.schnorrR.val ++
    (encodeString decomm.paillierPublicKey ++ encodeString decomm.ringPedersenPublicKey)))))

def deserializeDecommitment (hex : ByteString) : Except Failure SetupDecommitment := do
  let buffer := fromHex hex
  let ack ← checkedBytes 32 buffer 0
  let seed ← checkedBytes 32 buffer 32
  let X ← checkedBytes 33 buffer 64
  let schnorrR ← checkedBytes 33 buffer 97
  let (paillierPublicKey, offset) ← checkedString buffer 130
  let (ringPedersenPublicKey, _) ← checkedString buffer offset
  .ok ⟨ack, seed, ⟨X, schnorrR⟩, paillierPublicKey, ringPedersenPublicKey⟩

section RoundTrips

theorem copyBytes_of_eq {n offset : ℕ} {buffer : ByteString} {b : Bytes n}
    (before after : ByteString) (hbuffer : buffer = before ++ (b.val ++ after))
    (hoffset : before.length = offset) :
    copyBytes n buffer offset = .ok b := by
  rw [hbuffer, ← hoffset]
  exact copyBytes_append before b after

theorem checkedBytes_of_eq {n offset : ℕ} {buffer : ByteString} {b : Bytes n}
    (before after : ByteString) (hbuffer : buffer = before ++ (b.val ++ after))
    (hoffset : before.length = offset) :
    checkedBytes n buffer offset = .ok b := by
  have hlength := congrArg List.length hbuffer
  simp only [List.length_append, b.2] at hlength
  rw [checkedBytes, if_neg (by omega)]
  exact copyBytes_of_eq before after hbuffer hoffset

theorem checkedString_of_eq {offset : ℕ} {buffer s : ByteString}
    (before after : ByteString) (hbuffer : buffer = before ++ (encodeString s ++ after))
    (hoffset : before.length = offset) (hs : s.length < 2 ^ 32) :
    checkedString buffer offset = .ok (s, offset + 4 + s.length) := by
  have hsplit : buffer = before ++ ((leBytes 4 s.length).val ++ (s ++ after)) := by
    rw [hbuffer, encodeString, List.append_assoc, val_leBytes]
  have hread : checkedBytes 4 buffer offset = .ok (leBytes 4 s.length) :=
    checkedBytes_of_eq _ _ hsplit hoffset
  have hvalue : leValue (leBytes 4 s.length).val = s.length := leValue_leList_of_lt hs
  have hlength := congrArg List.length hsplit
  simp only [List.length_append, (leBytes 4 s.length).2] at hlength
  have hprefix : (before ++ (leBytes 4 s.length).val).length = offset + 4 := by
    rw [List.length_append, (leBytes 4 s.length).2, hoffset]
  have htake : (buffer.drop (offset + 4)).take s.length = s := by
    rw [hsplit, ← List.append_assoc, ← hprefix, List.drop_left, List.take_left]
  have hbound : ¬ buffer.length < offset + 4 + s.length := by omega
  simp only [checkedString, hread, bind, Except.bind, hvalue, hbound, if_false, htake]

theorem deserialize_serializeCommitment (comm : Commitment) :
    deserializeCommitment (serializeCommitment comm) = .ok comm := by
  have hlength : ¬ (comm.salt.val ++ comm.commitment.val).length ≠ 64 := by
    rw [List.length_append, comm.salt.2, comm.commitment.2]
    exact fun h => h rfl
  have hsalt : copyBytes 32 (comm.salt.val ++ comm.commitment.val) 0 = .ok comm.salt :=
    copyBytes_append [] comm.salt _
  have hcommitment : copyBytes 32 (comm.salt.val ++ comm.commitment.val) 32 =
      .ok comm.commitment :=
    copyBytes_of_eq comm.salt.val [] (by rw [List.append_nil]) comm.salt.2
  simp only [deserializeCommitment, serializeCommitment, fromHex_toHex, hlength, if_false, hsalt,
    hcommitment, bind, Except.bind]

theorem deserialize_serializeDecommitment {decomm : SetupDecommitment}
    (hpaillier : decomm.paillierPublicKey.length < 2 ^ 32)
    (hring : decomm.ringPedersenPublicKey.length < 2 ^ 32) :
    deserializeDecommitment (serializeDecommitment decomm) = .ok decomm := by
  rw [deserializeDecommitment, serializeDecommitment, fromHex_toHex]
  generalize hbuffer : decomm.ack.val ++ _ = buffer
  have hack : checkedBytes 32 buffer 0 = .ok decomm.ack :=
    checkedBytes_of_eq [] _ hbuffer.symm rfl
  have hseed : checkedBytes 32 buffer 32 = .ok decomm.seed :=
    checkedBytes_of_eq decomm.ack.val _ hbuffer.symm decomm.ack.2
  have hX : checkedBytes 33 buffer 64 = .ok decomm.share.X := by
    refine checkedBytes_of_eq (decomm.ack.val ++ decomm.seed.val) _
      (by rw [← hbuffer, List.append_assoc]) ?_
    rw [List.length_append, decomm.ack.2, decomm.seed.2]
  have hR : checkedBytes 33 buffer 97 = .ok decomm.share.schnorrR := by
    refine checkedBytes_of_eq (decomm.ack.val ++ (decomm.seed.val ++ decomm.share.X.val))
      (encodeString decomm.paillierPublicKey ++ encodeString decomm.ringPedersenPublicKey)
      (by rw [← hbuffer]; simp only [List.append_assoc]) ?_
    simp only [List.length_append, decomm.ack.2, decomm.seed.2, decomm.share.X.2]
  have hfixed : (decomm.ack.val ++ (decomm.seed.val ++ (decomm.share.X.val ++
      decomm.share.schnorrR.val))).length = 130 := by
    simp only [List.length_append, decomm.ack.2, decomm.seed.2, decomm.share.X.2,
      decomm.share.schnorrR.2]
  have hp : checkedString buffer 130 =
      .ok (decomm.paillierPublicKey, 130 + 4 + decomm.paillierPublicKey.length) :=
    checkedString_of_eq _ (encodeString decomm.ringPedersenPublicKey)
      (by rw [← hbuffer]; simp only [List.append_assoc]) hfixed hpaillier
  have hr : checkedString buffer (130 + 4 + decomm.paillierPublicKey.length) =
      .ok (decomm.ringPedersenPublicKey, 130 + 4 + decomm.paillierPublicKey.length + 4 +
        decomm.ringPedersenPublicKey.length) := by
    refine checkedString_of_eq ((decomm.ack.val ++ (decomm.seed.val ++ (decomm.share.X.val ++
      decomm.share.schnorrR.val))) ++ encodeString decomm.paillierPublicKey) []
      (by rw [← hbuffer]; simp only [List.append_assoc, List.append_nil]) ?_ hring
    rw [List.length_append, hfixed, encodeString, List.length_append, length_leList]
    omega
  simp only [hack, hseed, hX, hR, hp, hr, bind, Except.bind]

/-- Setup messages survive the wire, with keys of every length that 32 bits can hold. -/
theorem setupMessages_roundTrip :
    (∀ decomm : SetupDecommitment, decomm.paillierPublicKey.length < 2 ^ 32 →
      decomm.ringPedersenPublicKey.length < 2 ^ 32 →
        deserializeDecommitment (serializeDecommitment decomm) = .ok decomm) ∧
      ∀ comm : Commitment, deserializeCommitment (serializeCommitment comm) = .ok comm :=
  ⟨fun _ hpaillier hring => deserialize_serializeDecommitment hpaillier hring,
    deserialize_serializeCommitment⟩

/-- A decommitment with one empty key. -/
theorem setupMessages_roundTrip_emptyKey :
    deserializeDecommitment (serializeDecommitment
        ⟨zeroBytes 32, zeroBytes 32, ⟨zeroBytes 33, zeroBytes 33⟩, [7], []⟩) =
      .ok ⟨zeroBytes 32, zeroBytes 32, ⟨zeroBytes 33, zeroBytes 33⟩, [7], []⟩ :=
  setupMessages_roundTrip.1 _ (by decide) (by decide)

end RoundTrips

end MpcDemo.Serialization
