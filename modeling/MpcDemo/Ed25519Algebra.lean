import MpcDemo.ByteStrings

/-!
# The ed25519 algebra

The prime-order group of ed25519 with its canonical encodings, and the operations of
`ed25519_algebra.c` on encoded points and scalars. A point decodes exactly when
`ed25519_is_valid_point` accepts it. Scalars are big-endian unless a name says `Le`.
-/

namespace MpcDemo.Ed25519Algebra
open ByteStrings

/-- `ED25519_FIELD`, the order of the group. -/
def order : ℕ := 2 ^ 252 + 27742317777372353535851937790883648493

theorem order_pos : 0 < order := by decide

theorem order_lt : order < 256 ^ 32 := by decide

instance : NeZero order := ⟨order_pos.ne'⟩

abbrev Ed25519Point := Bytes 32
abbrev Ed25519Scalar := Bytes 32
abbrev Ed25519LeScalar := Bytes 32

/-- `elliptic_curve256_point_t`: an ed25519 encoding followed by one more byte. -/
abbrev EllipticCurvePoint := Bytes 33

structure Ed25519 where
  Point : Type
  [group : AddCommGroup Point]
  base : Point
  mul : ℕ → Point → Point
  encode : Point → Ed25519Point
  decode : Ed25519Point → Option Point
  mul_eq : ∀ n P, mul n P = n • P
  order_smul : ∀ P : Point, order • P = 0
  decode_encode : ∀ P, decode (encode P) = some P
  encode_of_decode : ∀ b P, decode b = some P → encode P = b

attribute [instance] Ed25519.group
attribute [simp] Ed25519.mul_eq Ed25519.decode_encode

structure HashFunctions where
  sha256 : ByteString → Bytes 32
  sha512 : ByteString → Bytes 64
  /-- Keccak with 512 bits of output and the original padding. -/
  keccak512 : ByteString → Bytes 64
  /-- HMAC-SHA512 of a message under a key. -/
  hmacSha512 : ByteString → ByteString → Bytes 64

inductive AlgebraStatus
  | unknownError | invalidParameter | invalidScalar | invalidPoint
  | insufficientBuffer | outOfMemory | invalidSignature
  deriving DecidableEq, Repr

/-- The first 32 bytes of a point of the generic interface. -/
def EllipticCurvePoint.ed25519 (p : EllipticCurvePoint) : Ed25519Point :=
  ⟨p.val.take 32, by rw [List.length_take, p.2]; rfl⟩

/-- An ed25519 point in a point of the generic interface, with the last byte cleared. -/
def Ed25519Point.generic (p : Ed25519Point) : EllipticCurvePoint :=
  ⟨p.val ++ [0], by rw [List.length_append, p.2]; rfl⟩

@[simp] theorem ed25519_generic (p : Ed25519Point) :
    EllipticCurvePoint.ed25519 (Ed25519Point.generic p) = p := by
  apply Subtype.ext
  simp [EllipticCurvePoint.ed25519, Ed25519Point.generic, List.take_left' p.2]

def infinityPoint : EllipticCurvePoint := ⟨1 :: List.replicate 32 0, by simp⟩

variable (E : Ed25519)

def ed25519AlgebraGeneratorMul (exp : Ed25519Scalar) : Except AlgebraStatus Ed25519Point :=
  if (exp.val.headD 0) &&& 0x80 ≠ 0 then .error .invalidScalar
  else .ok (E.encode (E.mul (beValue exp.val) E.base))

def ed25519AlgebraGeneratorMulData (data : ByteString) : Except AlgebraStatus Ed25519Point :=
  if data = [] then .error .invalidParameter
  else .ok (E.encode (E.mul (beValue data % order) E.base))

def ed25519AlgebraAddPoints (p₁ p₂ : Ed25519Point) : Except AlgebraStatus Ed25519Point :=
  match E.decode p₁, E.decode p₂ with
  | some P₁, some P₂ => .ok (E.encode (P₁ + P₂))
  | _, _ => .error .invalidPoint

def ed25519AlgebraAddScalars (a b : ByteString) : Except AlgebraStatus Ed25519Scalar :=
  if a = [] ∨ b = [] then .error .invalidParameter
  else .ok (beBytes 32 ((beValue a + beValue b) % order))

def ed25519AlgebraMulScalars (a b : ByteString) : Except AlgebraStatus Ed25519Scalar :=
  if a = [] ∨ b = [] then .error .invalidParameter
  else .ok (beBytes 32 (beValue a * beValue b % order))

def ed25519AlgebraAddLeScalars (a b : Ed25519LeScalar) : Except AlgebraStatus Ed25519LeScalar :=
  if order ≤ leValue a.val ∨ order ≤ leValue b.val then .error .invalidParameter
  else .ok (leBytes 32 ((leValue a.val + leValue b.val) % order))

def ed25519AlgebraInverse (val : Ed25519Scalar) : Except AlgebraStatus Ed25519Scalar :=
  if Nat.Coprime (beValue val.val) order then
    .ok (beBytes 32 (Int.toNat (Nat.gcdA (beValue val.val) order % order)))
  else .error .unknownError

/-- `sc_muladd`: `a * b + c` modulo the group order. -/
def ed25519AlgebraMulAdd (a b c : Ed25519LeScalar) : Except AlgebraStatus Ed25519LeScalar :=
  .ok (leBytes 32 ((leValue a.val * leValue b.val + leValue c.val) % order))

def ed25519AlgebraReduce (s : Bytes 64) : Ed25519LeScalar := leBytes 32 (leValue s.val % order)

variable (H : HashFunctions)

/-- The hash that binds a signature to its nonce point, public key and message. -/
def challengeHash (R publicKey : Ed25519Point) (message : ByteString) (useKeccak : Bool) :
    Bytes 64 :=
  (if useKeccak then H.keccak512 else H.sha512) (R.val ++ publicKey.val ++ message)

/-- The message size is a 32-bit argument, so only its low 32 bits count. -/
def ed25519CalcHram (R publicKey : Ed25519Point) (message : ByteString) (useKeccak : Bool) :
    Except AlgebraStatus Ed25519LeScalar :=
  let message := message.take (message.length % 2 ^ 32)
  if message = [] then .error .invalidParameter
  else .ok (ed25519AlgebraReduce (challengeHash H R publicKey message useKeccak))

def ed25519Verify (message : ByteString) (R : Ed25519Point) (s : Ed25519LeScalar)
    (publicKey : Ed25519Point) (useKeccak : Bool) : Bool :=
  if message = [] ∨ order ≤ leValue s.val then false
  else match E.decode publicKey with
    | none => false
    | some A =>
      let h := ed25519AlgebraReduce (challengeHash H R publicKey message useKeccak)
      decide (E.encode (E.mul (leValue h.val) (-A) + E.mul (leValue s.val) E.base) = R)

/-- The generic interface: points have 33 bytes and scalars are reduced first. -/
def generatorMul (exp : Ed25519Scalar) : Except AlgebraStatus EllipticCurvePoint :=
  (ed25519AlgebraGeneratorMulData E exp.val).map Ed25519Point.generic

def addPoints (p₁ p₂ : EllipticCurvePoint) : Except AlgebraStatus EllipticCurvePoint :=
  (ed25519AlgebraAddPoints E p₁.ed25519 p₂.ed25519).map Ed25519Point.generic

def pointMul (p : EllipticCurvePoint) (exp : Ed25519Scalar) :
    Except AlgebraStatus EllipticCurvePoint :=
  match E.decode p.ed25519 with
  | none => .error .invalidPoint
  | some P => .ok (Ed25519Point.generic (E.encode (E.mul (beValue exp.val % order) P)))

/-- Keep the low 253 bits of a random scalar if they lie below the group order. -/
def reduce (val : Ed25519Scalar) : Except AlgebraStatus Ed25519Scalar :=
  if beValue val.val % 2 ^ 253 < order then .ok (beBytes 32 (beValue val.val % 2 ^ 253))
  else .error .invalidScalar

variable {E H}

theorem encode_injective {P Q : E.Point} (h : E.encode P = E.encode Q) : P = Q := by
  have hP := E.decode_encode P
  rw [h, E.decode_encode] at hP
  exact (Option.some.inj hP).symm

theorem mod_order_smul (n : ℕ) (P : E.Point) : (n % order) • P = n • P := by
  conv_rhs => rw [← Nat.mod_add_div n order, add_smul, mul_comm, mul_smul, E.order_smul, smul_zero,
    add_zero]

theorem leValue_leBytes_mod (n : ℕ) : leValue (leBytes 32 (n % order)).val = n % order :=
  leValue_leList_of_lt ((Nat.mod_lt n order_pos).trans order_lt)

theorem beValue_beBytes_mod (n : ℕ) : beValue (beBytes 32 (n % order)).val = n % order :=
  beValue_beList_of_lt ((Nat.mod_lt n order_pos).trans order_lt)

theorem val_ne_nil (a : Bytes 32) : a.val ≠ [] := by
  intro h
  have ha := a.2
  rw [h] at ha
  cases ha

theorem generatorMul_eq (exp : Ed25519Scalar) :
    generatorMul E exp = .ok (Ed25519Point.generic (E.encode (beValue exp.val • E.base))) := by
  simp only [generatorMul, ed25519AlgebraGeneratorMulData, val_ne_nil, if_false, E.mul_eq,
    mod_order_smul]
  rfl

private theorem head_of_beValue_lt (exp : Ed25519Scalar) (h : beValue exp.val < 2 ^ 255) :
    (exp.val.headD 0) &&& 0x80 = 0 := by
  obtain ⟨l, hl⟩ := exp
  match l, hl with
  | b :: rest, hl =>
    have hrest : rest.reverse.length = 31 := by simpa using hl
    have hsplit : ∀ xs : ByteString,
        leValue (xs ++ [b]) = leValue xs + 256 ^ xs.length * b.toNat := by
      intro xs
      induction xs with
      | nil => simp [leValue]
      | cons x xs ih => simp only [List.cons_append, leValue, ih, List.length_cons]; ring
    have hv : leValue rest.reverse + 256 ^ 31 * b.toNat < 2 ^ 255 := by
      simpa only [beValue, List.reverse_cons, hsplit, hrest] using h
    have hb : b.toNat < 128 := by
      by_contra hge
      have : 256 ^ 31 * 128 ≤ 256 ^ 31 * b.toNat := Nat.mul_le_mul_left _ (not_lt.1 hge)
      omega
    simp only [List.headD_cons]
    apply UInt8.toNat_inj.1
    rw [UInt8.toNat_and]
    have : b.toNat &&& 128 = 0 := by
      interval_cases b.toNat <;> rfl
    simpa using this

theorem ed25519AlgebraGeneratorMul_of_lt {exp : Ed25519Scalar} (h : beValue exp.val < order) :
    ed25519AlgebraGeneratorMul E exp = .ok (E.encode (beValue exp.val • E.base)) := by
  have hlt : order < 2 ^ 255 := by decide
  rw [ed25519AlgebraGeneratorMul, head_of_beValue_lt exp (h.trans hlt)]
  simp

theorem ed25519AlgebraGeneratorMul_eq_ok {exp : Ed25519Scalar} {R : Ed25519Point}
    (h : ed25519AlgebraGeneratorMul E exp = .ok R) : R = E.encode (beValue exp.val • E.base) := by
  rw [ed25519AlgebraGeneratorMul] at h
  split at h
  · cases h
  · simpa using (Except.ok.inj h).symm

@[simp] theorem ed25519AlgebraAddPoints_encode (P Q : E.Point) :
    ed25519AlgebraAddPoints E (E.encode P) (E.encode Q) = .ok (E.encode (P + Q)) := by
  simp [ed25519AlgebraAddPoints]

theorem ed25519AlgebraAddPoints_eq_ok_iff {p q r : Ed25519Point} :
    ed25519AlgebraAddPoints E p q = .ok r ↔
      ∃ P Q, E.decode p = some P ∧ E.decode q = some Q ∧ r = E.encode (P + Q) := by
  rw [ed25519AlgebraAddPoints]
  cases hp : E.decode p with
  | none => simp
  | some P =>
    cases hq : E.decode q with
    | none => simp
    | some Q => simp [eq_comm]

theorem addPoints_eq_ok_iff {p q r : EllipticCurvePoint} :
    addPoints E p q = .ok r ↔
      ∃ P Q, E.decode p.ed25519 = some P ∧ E.decode q.ed25519 = some Q ∧
        r = Ed25519Point.generic (E.encode (P + Q)) := by
  simp only [addPoints]
  cases h : ed25519AlgebraAddPoints E p.ed25519 q.ed25519 with
  | error e =>
    simp only [Except.map, reduceCtorEq, false_iff]
    rintro ⟨P, Q, hP, hQ, -⟩
    have := ed25519AlgebraAddPoints_eq_ok_iff.2 ⟨P, Q, hP, hQ, rfl⟩
    rw [h] at this
    cases this
  | ok s =>
    obtain ⟨P, Q, hP, hQ, rfl⟩ := ed25519AlgebraAddPoints_eq_ok_iff.1 h
    simp only [Except.map, Except.ok.injEq, hP, hQ, Option.some.injEq, exists_and_left,
      exists_eq_left']
    exact eq_comm

/-- An encoded point is `k * B` plus the sum of some encoded points. -/
def IsSum (E : Ed25519) (k : ℕ) (points : List Ed25519Point) (R : Ed25519Point) : Prop :=
  ∃ Ps, List.Forall₂ (fun p P => E.decode p = some P) points Ps ∧
    R = E.encode (k • E.base + Ps.sum)

theorem isSum_nil (k : ℕ) : IsSum E k [] (E.encode (k • E.base)) :=
  ⟨[], .nil, by rw [List.sum_nil, add_zero]⟩

theorem IsSum.ed25519AlgebraAddPoints {k : ℕ} {points : List Ed25519Point} {R p R' : Ed25519Point}
    (h : IsSum E k points R) (hadd : ed25519AlgebraAddPoints E R p = .ok R') :
    IsSum E k (points ++ [p]) R' := by
  obtain ⟨Ps, hPs, rfl⟩ := h
  obtain ⟨Q, P, hQ, hP, rfl⟩ := ed25519AlgebraAddPoints_eq_ok_iff.1 hadd
  obtain rfl := Option.some.inj ((E.decode_encode _).symm.trans hQ)
  refine ⟨Ps ++ [P], List.rel_append hPs (.cons hP .nil), ?_⟩
  rw [List.sum_append, List.sum_singleton, add_assoc]

theorem IsSum.addPoints {k : ℕ} {points : List Ed25519Point} {R p R' : EllipticCurvePoint}
    (h : IsSum E k points R.ed25519) (hadd : addPoints E R p = .ok R') :
    IsSum E k (points ++ [p.ed25519]) R'.ed25519 := by
  obtain ⟨P, Q, hP, hQ, rfl⟩ := addPoints_eq_ok_iff.1 hadd
  rw [ed25519_generic]
  exact h.ed25519AlgebraAddPoints (ed25519AlgebraAddPoints_eq_ok_iff.2 ⟨P, Q, hP, hQ, rfl⟩)

/-- `s * B = R + H(R || A || m) * A`. -/
def VerificationEquation (E : Ed25519) (H : HashFunctions) (R : Ed25519Point)
    (s : Ed25519LeScalar) (publicKey : Ed25519Point) (message : ByteString)
    (useKeccak : Bool) : Prop :=
  ∃ P A, E.decode R = some P ∧ E.decode publicKey = some A ∧
    leValue s.val • E.base =
      P + leValue (challengeHash H R publicKey message useKeccak).val • A

theorem ed25519Verify_iff {message : ByteString} {R : Ed25519Point} {s : Ed25519LeScalar}
    {publicKey : Ed25519Point} {useKeccak : Bool} :
    ed25519Verify E H message R s publicKey useKeccak = true ↔
      message ≠ [] ∧ leValue s.val < order ∧
        VerificationEquation E H R s publicKey message useKeccak := by
  by_cases hm : message = [] ∨ order ≤ leValue s.val
  · rw [ed25519Verify, if_pos hm]
    rcases hm with rfl | hs
    · simp
    · simp [not_lt.2 hs]
  · obtain ⟨hm₁, hm₂⟩ := not_or.1 hm
    rw [ed25519Verify, if_neg hm]
    simp only [ne_eq, hm₁, not_false_eq_true, not_le.1 hm₂, true_and, VerificationEquation]
    cases hA : E.decode publicKey with
    | none => simp
    | some A =>
      simp only [decide_eq_true_eq, E.mul_eq, ed25519AlgebraReduce, leValue_leBytes_mod,
        mod_order_smul]
      constructor
      · intro h
        refine ⟨leValue (challengeHash H R publicKey message useKeccak).val • -A +
          leValue s.val • E.base, A, ?_, rfl, ?_⟩
        · conv_lhs => rw [← h, E.decode_encode]
        · rw [smul_neg]
          abel
      · rintro ⟨P, A', hP, hA', h⟩
        obtain rfl := Option.some.inj hA'
        rw [h, smul_neg, neg_add_cancel_comm_assoc, E.encode_of_decode R P hP]

private theorem val_nsmul_fin (n : ℕ) (P : Fin order) : (n • P).val = n * P.val % order := by
  induction n with
  | zero => simp
  | succ n ih =>
    rw [succ_nsmul, Fin.val_add, ih, Nat.succ_mul, Nat.mod_add_mod]

/-- The cyclic group of this order with every discrete logarithm in plain sight; the
identity has the encoding of `infinityPoint`. -/
def exponentGroup : Ed25519 where
  Point := Fin order
  base := ⟨1, by decide⟩
  mul n P := ⟨n * P.val % order, Nat.mod_lt _ order_pos⟩
  encode P := leBytes 32 (P.val + 1)
  decode b :=
    if h : leValue b.val - 1 < order ∧ leValue b.val ≠ 0 then some ⟨leValue b.val - 1, h.1⟩
    else none
  mul_eq n P := Fin.ext (val_nsmul_fin n P).symm
  order_smul P := by
    apply Fin.ext
    rw [val_nsmul_fin, Nat.mul_mod_right]
    rfl
  decode_encode P := by
    have hP := P.isLt
    have horder : order + 1 < 256 ^ 32 := by decide
    simp [leValue_leList_of_lt (show P.val + 1 < 256 ^ 32 by omega)]
  encode_of_decode b P h := by
    split at h
    · rename_i hb
      obtain rfl := Option.some.inj h
      have hv : leValue b.val - 1 + 1 = leValue b.val := by omega
      simp only [hv, leBytes_leValue]
    · cases h

end MpcDemo.Ed25519Algebra
