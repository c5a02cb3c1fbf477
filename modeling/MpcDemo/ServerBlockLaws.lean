import MpcDemo.AsymmetricEddsaCosignerServer

/-!
# What the server computes for one block

Closed forms for the block computations of `broadcast_r`, `broadcast_si` and
`get_eddsa_signature`.
-/

namespace MpcDemo.ServerBlockLaws
open ByteStrings Ed25519Algebra CosignerTypes AsymmetricEddsaCosigner FallibleState
open AsymmetricEddsaCosignerServer

variable {E : Ed25519} {H : HashFunctions}

/-- The server's share of a block: `h * x + k` for the tweaked key share `x`. -/
def shareValue (hram : Ed25519LeScalar) (key delta : Ed25519Scalar) (k : Ed25519LeScalar) : ℕ :=
  (leValue hram.val * ((beValue key.val + beValue delta.val) % order) + leValue k.val) % order

theorem shareValue_lt (hram : Ed25519LeScalar) (key delta : Ed25519Scalar) (k : Ed25519LeScalar) :
    shareValue hram key delta k < order := Nat.mod_lt _ order_pos

/-- The part of `signBlock` before the branch on the number of signers. -/
structure BlockChallenge (E : Ed25519) (H : HashFunctions) (metadata : CmpKeyMetadata)
    (chaincode : HDChaincode) (signers : ℕ) (partialSig : EddsaSignature)
    (d : AsymmetricEddsaSignatureData) (R : Ed25519Point) (delta : Ed25519Scalar)
    (publicKey : Ed25519Point) (hram : Ed25519LeScalar) : Prop where
  sum : ed25519AlgebraAddPoints E d.R.ed25519 partialSig.R = .ok R
  derived : derivationKeyDelta E H metadata.publicKey chaincode d.path signers =
    .ok (delta, publicKey)
  challenge : ed25519CalcHram H R publicKey d.message (eddsaKeccak d.flags) = .ok hram

theorem ed25519AlgebraAddScalars_eq (a b : Ed25519Scalar) :
    ed25519AlgebraAddScalars a.val b.val =
      .ok (beBytes 32 ((beValue a.val + beValue b.val) % order)) := by
  simp only [ed25519AlgebraAddScalars, val_ne_nil, or_self, if_false]

theorem ed25519AlgebraAddLeScalars_ok_iff {a b c : Ed25519LeScalar} :
    ed25519AlgebraAddLeScalars a b = .ok c ↔ leValue a.val < order ∧ leValue b.val < order ∧
      c = leBytes 32 ((leValue a.val + leValue b.val) % order) := by
  rw [ed25519AlgebraAddLeScalars]
  split
  · rename_i h
    simp only [reduceCtorEq, false_iff]
    omega
  · rename_i h
    rw [Except.ok.injEq]
    constructor
    · intro hc
      exact ⟨by omega, by omega, hc.symm⟩
    · rintro ⟨-, -, rfl⟩
      rfl

/-- How a block's signature and record follow from its challenge. -/
def BlockResult (key : Ed25519Scalar) (finalSig addClientShare : Bool)
    (partialSig : EddsaSignature) (d : AsymmetricEddsaSignatureData) (R : Ed25519Point)
    (delta : Ed25519Scalar) (hram : Ed25519LeScalar)
    (r : EddsaSignature × AsymmetricEddsaSignatureData) : Prop :=
  let share := shareValue hram key delta d.k.value
  if finalSig then
    beValue partialSig.s.val < order ∧
      r = (⟨R, leBytes 32 ((share + beValue partialSig.s.val) % order)⟩, d)
  else
    r = (⟨R, beBytes 32 (if addClientShare then (share + beValue partialSig.s.val) % order
      else share)⟩, { d with R := overwritePoint d.R R })

private theorem finishBlock_ok_iff {key : Ed25519Scalar} {finalSig addClientShare : Bool}
    {R : Ed25519Point} {delta : Ed25519Scalar} {hram : Ed25519LeScalar}
    {partialSig : EddsaSignature} {d : AsymmetricEddsaSignatureData}
    {r : EddsaSignature × AsymmetricEddsaSignatureData} :
    finishBlock finalSig addClientShare R (leBytes 32 (shareValue hram key delta d.k.value))
        partialSig d = .ok r ↔
      BlockResult key finalSig addClientShare partialSig d R delta hram r := by
  have hshare : leValue (leBytes 32 (shareValue hram key delta d.k.value)).val =
      shareValue hram key delta d.k.value := leValue_leBytes_mod _
  have hshare' : beValue (beBytes 32 (shareValue hram key delta d.k.value)).val =
      shareValue hram key delta d.k.value := beValue_beBytes_mod _
  cases finalSig with
  | true =>
    simp only [finishBlock, BlockResult, if_true, except_bind_ok_iff,
      throwCosignerException_eq_ok_iff, ed25519AlgebraAddLeScalars_ok_iff, hshare,
      leValue_swapBytes, shareValue_lt, true_and]
    constructor
    · rintro ⟨s, ⟨hlt, rfl⟩, hr⟩
      exact ⟨hlt, (Except.ok.inj hr).symm⟩
    · rintro ⟨hlt, rfl⟩
      exact ⟨_, ⟨hlt, rfl⟩, rfl⟩
  | false =>
    cases addClientShare with
    | true =>
      simp only [finishBlock, BlockResult, Bool.false_eq_true, if_false, if_true,
        swapBytes_leBytes, ed25519AlgebraAddScalars_eq, hshare', throwCosignerException_ok,
        except_bind_ok_iff, Except.ok.injEq, exists_eq_left']
      exact ⟨fun h => (Except.ok.inj h).symm, fun h => h ▸ rfl⟩
    | false =>
      simp only [finishBlock, BlockResult, Bool.false_eq_true, if_false, swapBytes_leBytes]
      exact ⟨fun h => (Except.ok.inj h).symm, fun h => h ▸ rfl⟩

theorem signBlock_ok_iff {metadata : CmpKeyMetadata} {key : Ed25519Scalar}
    {chaincode : HDChaincode} {signers : ℕ} {finalSig addClientShare : Bool}
    {partialSig : EddsaSignature} {d : AsymmetricEddsaSignatureData}
    {r : EddsaSignature × AsymmetricEddsaSignatureData} :
    signBlock E H metadata key chaincode signers finalSig addClientShare partialSig d = .ok r ↔
      ∃ R delta publicKey hram, BlockChallenge E H metadata chaincode signers partialSig d R delta
          publicKey hram ∧
        BlockResult key finalSig addClientShare partialSig d R delta hram r := by
  have hx : ∀ delta : Ed25519Scalar, leValue (swapBytes (beBytes 32
      ((beValue key.val + beValue delta.val) % order))).val =
        (beValue key.val + beValue delta.val) % order := fun delta => by
    rw [swapBytes_beBytes, leValue_leBytes_mod]
  simp only [signBlock, except_bind_ok_iff, throwCosignerException_eq_ok_iff, Prod.exists,
    ed25519AlgebraAddScalars_eq, ed25519AlgebraMulAdd, Except.ok.injEq, exists_eq_left', hx]
  constructor
  · rintro ⟨R, hR, delta, publicKey, hderive, hram, hh, hr⟩
    exact ⟨R, delta, publicKey, hram, ⟨hR, hderive, hh⟩, finishBlock_ok_iff.1 hr⟩
  · rintro ⟨R, delta, publicKey, hram, ⟨hR, hderive, hh⟩, hr⟩
    exact ⟨R, hR, delta, publicKey, hderive, hram, hh, finishBlock_ok_iff.2 hr⟩

/-- The record of a block after `broadcast_si` differs at most in its point. -/
theorem signBlock_record {metadata : CmpKeyMetadata} {key : Ed25519Scalar}
    {chaincode : HDChaincode} {signers : ℕ} {finalSig addClientShare : Bool}
    {partialSig : EddsaSignature} {d : AsymmetricEddsaSignatureData}
    {r : EddsaSignature × AsymmetricEddsaSignatureData}
    (h : signBlock E H metadata key chaincode signers finalSig addClientShare partialSig d =
      .ok r) : r.2 = { d with R := r.2.R } ∧
        (finalSig = false → r.2.R.ed25519 = r.1.R) ∧
        ed25519AlgebraAddPoints E d.R.ed25519 partialSig.R = .ok r.1.R := by
  obtain ⟨R, delta, publicKey, hram, hc, hr⟩ := signBlock_ok_iff.1 h
  cases finalSig with
  | true =>
    obtain ⟨-, rfl⟩ := hr
    exact ⟨rfl, nofun, hc.sum⟩
  | false =>
    obtain rfl : r = _ := hr
    refine ⟨rfl, fun _ => ?_, hc.sum⟩
    apply Subtype.ext
    simp only [EllipticCurvePoint.ed25519, overwritePoint]
    exact List.take_left' R.2

section Aggregation

/-- The nonce points of each player open its commitments, block by block. -/
def Opens (H : HashFunctions) (txid : ByteString) (data : AsymmetricEddsaSigningMetadata)
    (commitments : PlayerMap (List EddsaCommitment))
    (playersR : PlayerMap (List EllipticCurvePoint)) : Prop :=
  ∀ player ∈ commitments.toList, ∃ Rs, playersR[player.1]? = some Rs ∧
    ∀ j < data.sigData.length, ∃ R, Rs[j]? = some R ∧
      player.2[j]? = some (commitToR H txid (j + data.startIndex) player.1 R.ed25519)

/-- What one player adds to a block in `broadcast_r`. -/
def BlockAggregation (E : Ed25519) (H : HashFunctions) (txid : ByteString)
    (startIndex myId playerId : ℕ) (commitments : List EddsaCommitment)
    (Rs : List EllipticCurvePoint) (d : AsymmetricEddsaSignatureData) (j : ℕ)
    (d' : AsymmetricEddsaSignatureData) : Prop :=
  ∃ commitment R, commitments[j]? = some commitment ∧ Rs[j]? = some R ∧
    commitToR H txid (j + startIndex) playerId R.ed25519 = commitment ∧
    if playerId = myId then d' = d
    else ∃ sum, addPoints E d.R R = .ok sum ∧ d' = { d with R := sum }

variable {txid : ByteString} {startIndex myId playerId : ℕ} {commitments : List EddsaCommitment}
variable {Rs : List EllipticCurvePoint} {sigData sigData' : List AsymmetricEddsaSignatureData}
variable {playersR : PlayerMap (List EllipticCurvePoint)}

theorem aggregatePlayer_ok_iff :
    aggregatePlayer E H txid startIndex myId playerId commitments Rs sigData = .ok sigData' ↔
      List.Forall₂ (fun b d' => BlockAggregation E H txid startIndex myId playerId commitments Rs
        b.1 b.2 d') sigData.zipIdx sigData' := by
  rw [aggregatePlayer, except_mapM_ok_iff_forall₂]
  refine iff_of_eq (congrArg (fun P => List.Forall₂ P sigData.zipIdx sigData') ?_)
  funext b d'
  obtain ⟨d, j⟩ := b
  apply propext
  simp only [BlockAggregation]
  cases commitments[j]? with
  | none => simp
  | some commitment =>
    cases Rs[j]? with
    | none => simp
    | some R =>
      by_cases hv : commitToR H txid (j + startIndex) playerId R.ed25519 = commitment
      · have hverify := (verifyCommitToR_iff H).2 hv
        simp only [Option.some.injEq, exists_and_left, exists_eq_left', hverify, hv, if_true,
          true_and]
        by_cases hme : playerId = myId
        · simp only [hme, if_true, Except.ok.injEq]
          exact eq_comm
        · simp only [hme, if_false]
          cases addPoints E d.R R with
          | error e => simp only [throwCosignerException, Except.map, reduceCtorEq, false_and,
              exists_false]
          | ok sum =>
            simp only [throwCosignerException, Except.map, Except.ok.injEq, exists_eq_left']
            exact eq_comm
      · have hverify : verifyCommitToR H commitment txid (j + startIndex) playerId R.ed25519 =
            false := Bool.eq_false_iff.2 fun h => hv ((verifyCommitToR_iff H).1 h)
        simp only [Option.some.injEq, exists_and_left, exists_eq_left', hverify, hv,
          Bool.false_eq_true, if_false, reduceCtorEq, false_and]

theorem aggregatePlayer_length
    (h : aggregatePlayer E H txid startIndex myId playerId commitments Rs sigData = .ok sigData') :
    sigData'.length = sigData.length := by
  have hlength := (aggregatePlayer_ok_iff.1 h).length_eq
  rw [List.length_zipIdx] at hlength
  exact hlength.symm

theorem aggregatePlayer_block
    (h : aggregatePlayer E H txid startIndex myId playerId commitments Rs sigData = .ok sigData')
    {j : ℕ} {d d' : AsymmetricEddsaSignatureData} (hd : sigData[j]? = some d)
    (hd' : sigData'[j]? = some d') :
    BlockAggregation E H txid startIndex myId playerId commitments Rs d j d' := by
  obtain ⟨hj, rfl⟩ := List.getElem?_eq_some_iff.1 hd
  obtain ⟨hj', rfl⟩ := List.getElem?_eq_some_iff.1 hd'
  have hjz : j < sigData.zipIdx.length := by rwa [List.length_zipIdx]
  have hblock := (List.forall₂_iff_get.1 (aggregatePlayer_ok_iff.1 h)).2 j hjz hj'
  simp only [List.get_eq_getElem, List.getElem_zipIdx, zero_add] at hblock
  exact hblock

theorem aggregatePlayers_cons_ok_iff {rest : List (ℕ × List EddsaCommitment)} :
    aggregatePlayers E H txid startIndex myId playersR ((playerId, commitments) :: rest) sigData =
        .ok sigData' ↔
      ∃ Rs mid, playersR[playerId]? = some Rs ∧
        aggregatePlayer E H txid startIndex myId playerId commitments Rs sigData = .ok mid ∧
        aggregatePlayers E H txid startIndex myId playersR rest mid = .ok sigData' := by
  rw [aggregatePlayers]
  cases playersR[playerId]? with
  | none => simp
  | some Rs => simp [except_bind_ok_iff]

/-- All of a block's record but its point. -/
def withoutPoint (d : AsymmetricEddsaSignatureData) : DrawnScalar × List ℕ × ByteString × ℕ :=
  (d.k, d.path, d.message, d.flags)

theorem map_eq_of_forall₂ {α β γ : Type} {P : α → β → Prop} {f : α → γ} {g : β → γ} {l : List α}
    {m : List β} (h : List.Forall₂ P l m) (hfg : ∀ a b, P a b → g b = f a) :
    m.map g = l.map f := by
  induction h with
  | nil => rfl
  | cons hab _ ih => rw [List.map_cons, List.map_cons, hfg _ _ hab, ih]

/-- Aggregation changes nothing in the records but their points. -/
theorem aggregatePlayers_withoutPoint {entries : List (ℕ × List EddsaCommitment)}
    (h : aggregatePlayers E H txid startIndex myId playersR entries sigData = .ok sigData') :
    sigData'.map withoutPoint = sigData.map withoutPoint := by
  induction entries generalizing sigData with
  | nil =>
    cases h
    rfl
  | cons entry rest ih =>
    obtain ⟨Rs, mid, -, hplayer, hrest⟩ := aggregatePlayers_cons_ok_iff.1 h
    rw [ih hrest]
    have hmid := map_eq_of_forall₂
      (f := fun b : AsymmetricEddsaSignatureData × ℕ => withoutPoint b.1) (g := withoutPoint)
      (aggregatePlayer_ok_iff.1 hplayer) fun b d' hb => by
        obtain ⟨c, R, -, -, -, hd⟩ := hb
        split at hd
        · rw [hd]
        · obtain ⟨sum, -, rfl⟩ := hd
          rfl
    rw [hmid]
    conv_rhs => rw [← List.zipIdx_map_fst 0 sigData, List.map_map]
    rfl

/-- What succeeds in `broadcast_r` has been checked. -/
theorem opens_of_aggregatePlayers {entries : List (ℕ × List EddsaCommitment)}
    (h : aggregatePlayers E H txid startIndex myId playersR entries sigData = .ok sigData') :
    ∀ player ∈ entries, ∃ Rs, playersR[player.1]? = some Rs ∧
      ∀ j < sigData.length, ∃ R, Rs[j]? = some R ∧
        player.2[j]? = some (commitToR H txid (j + startIndex) player.1 R.ed25519) := by
  induction entries generalizing sigData with
  | nil => exact fun _ hplayer => absurd hplayer List.not_mem_nil
  | cons entry rest ih =>
    obtain ⟨Rs, mid, hRs, hplayer, hrest⟩ := aggregatePlayers_cons_ok_iff.1 h
    have hlength := aggregatePlayer_length hplayer
    intro player hmem
    rcases List.mem_cons.1 hmem with heq | hmem
    · rw [heq]
      refine ⟨Rs, hRs, fun j hj => ?_⟩
      have hj' : j < mid.length := by rwa [hlength]
      obtain ⟨commitment, R, hcommitment, hR, hopen, -⟩ := aggregatePlayer_block hplayer
        (List.getElem?_eq_getElem hj) (List.getElem?_eq_getElem hj')
      exact ⟨R, hR, by rw [hcommitment, hopen]⟩
    · have := ih hrest player hmem
      rwa [hlength] at this

/-- The points of one block that an aggregation adds: one of every recorded player but this
server. -/
def addedPoints (myId : ℕ) (playersR : PlayerMap (List EllipticCurvePoint))
    (entries : List (ℕ × List EddsaCommitment)) (j : ℕ) : List Ed25519Point :=
  entries.filterMap fun player =>
    if player.1 = myId then none
    else ((playersR[player.1]?).bind (·[j]?)).map EllipticCurvePoint.ed25519

theorem aggregatePlayers_length {entries : List (ℕ × List EddsaCommitment)}
    (h : aggregatePlayers E H txid startIndex myId playersR entries sigData = .ok sigData') :
    sigData'.length = sigData.length := by
  have hlength := congrArg List.length (aggregatePlayers_withoutPoint h)
  rwa [List.length_map, List.length_map] at hlength

/-- Aggregation adds one point of every recorded player but this server to every block. -/
theorem aggregatePlayers_isSum {entries : List (ℕ × List EddsaCommitment)}
    (h : aggregatePlayers E H txid startIndex myId playersR entries sigData = .ok sigData')
    {j k : ℕ} {d d' : AsymmetricEddsaSignatureData} (hd : sigData[j]? = some d)
    (hd' : sigData'[j]? = some d') {points : List Ed25519Point}
    (hsum : IsSum E k points d.R.ed25519) :
    IsSum E k (points ++ addedPoints myId playersR entries j) d'.R.ed25519 := by
  induction entries generalizing sigData d points with
  | nil =>
    cases h
    obtain rfl := Option.some.inj (hd.symm.trans hd')
    simpa only [addedPoints, List.filterMap_nil, List.append_nil] using hsum
  | cons entry rest ih =>
    obtain ⟨Rs, mid, hRs, hplayer, hrest⟩ := aggregatePlayers_cons_ok_iff.1 h
    have hj : j < mid.length := by
      rw [aggregatePlayer_length hplayer]
      exact (List.getElem?_eq_some_iff.1 hd).1
    have hmid := List.getElem?_eq_getElem hj
    obtain ⟨commitment, R, -, hR, -, hblock⟩ := aggregatePlayer_block hplayer hd hmid
    by_cases hme : entry.1 = myId
    · rw [if_pos hme] at hblock
      have hsame : IsSum E k points (mid[j]).R.ed25519 := by rwa [hblock]
      have hnext := ih hrest hmid hsame
      simpa only [addedPoints, List.filterMap_cons, hme, if_true] using hnext
    · rw [if_neg hme] at hblock
      obtain ⟨sum, hadd, hblock⟩ := hblock
      have hmore : IsSum E k (points ++ [R.ed25519]) (mid[j]).R.ed25519 := by
        rw [hblock]
        exact hsum.addPoints hadd
      have hnext := ih hrest hmid hmore
      simpa only [addedPoints, List.filterMap_cons, hme, if_false, hRs, Option.bind_some, hR,
        Option.map_some, List.append_assoc, List.cons_append, List.nil_append] using hnext

end Aggregation

end MpcDemo.ServerBlockLaws
