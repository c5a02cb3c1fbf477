import MpcDemo.OnlineCalls

/-!
# A nonce of the online service signs one thing

Whatever is called in whatever order, two shares that are made with one nonce are equal, unless a
commitment that the service has stored is opened to two different points. A transaction keeps its
nonces and its commitments until it is finished, and a new transaction draws new nonces.
-/

namespace MpcDemo.OnlineNonceUse
open ByteStrings Ed25519Algebra CosignerTypes FallibleState NodeState
open KeySetup (AuxiliaryScheme SetupHost SetupPersistency KeyMetadata)
open OnlineSigning OnlineCalls StoredDraws CallHistories

variable {A : AuxiliaryScheme}

/-- A share that has been sent: the draw of its nonce, and the points that were asked for. -/
structure Release where
  draw : ℕ
  share : Ed25519Scalar
  Rs : PlayerMap (List EllipticCurvePoint)

/-- The nonces of a transaction. -/
def recordDraws (s : Signer A) (txid : ByteString) : List ℕ :=
  (s.store.metadata txid).elim [] fun data => data.sigData.map (·.k.draw)

def released (step : CallStep A) : List Release :=
  match step.call, step.result with
  | .broadcastSi txid Rs, .ok (.shares shares) =>
    ((recordDraws step.before txid).zip shares).map fun e => ⟨e.1, e.2, Rs⟩
  | _, _ => []

def releases (history : List (CallStep A)) : List Release := history.flatMap released

/-- The commitments that a call has stored. -/
def stored (step : CallStep A) : List Commitment :=
  match step.call, step.result with
  | .storeCommitments _ commitments _, .ok _ => commitments.toList.flatMap (·.2)
  | _, _ => []

def storedCommitments (history : List (CallStep A)) : List Commitment := history.flatMap stored

/-- A commitment that has been stored is opened to two different points. -/
def OpenedTwice (H : HashFunctions) (history : List (CallStep A)) : Prop :=
  ∃ c ∈ storedCommitments history, ∃ r ∈ releases history, ∃ r' ∈ releases history,
    ∃ R ∈ r.Rs.toList.flatMap (·.2), ∃ R' ∈ r'.Rs.toList.flatMap (·.2),
      R ≠ R' ∧ Opens H c R ∧ Opens H c R'

theorem OpenedTwice.cons {H : HashFunctions} {history : List (CallStep A)}
    (h : OpenedTwice H history) (step : CallStep A) : OpenedTwice H (step :: history) := by
  obtain ⟨c, hc, r, hr, r', hr', h⟩ := h
  exact ⟨c, List.mem_append_right _ hc, r, List.mem_append_right _ hr, r',
    List.mem_append_right _ hr', h⟩

section Blocks

/-- Two records of one block agree in what a share depends on. -/
structure SameBlock (d d' : EddsaSignatureData) : Prop where
  k : d'.k = d.k
  path : d'.path = d.path
  message : d'.message = d.message
  flags : d'.flags = d.flags

theorem SameBlock.refl (d : EddsaSignatureData) : SameBlock d d := ⟨rfl, rfl, rfl, rfl⟩

variable {E : Ed25519} {H : HashFunctions} {publicKey : EllipticCurvePoint}
variable {share : Ed25519Scalar} {chaincode : HDChaincode} {signers index : ℕ}
variable {Rs : PlayerMap (List EllipticCurvePoint)} {d d' d₀ : EddsaSignatureData}

theorem sumPoints_own (own own' : EllipticCurvePoint) {l : List (ℕ × List EllipticCurvePoint)}
    (h : l ≠ []) : sumPoints E own index l = sumPoints E own' index l := by
  cases l with
  | nil => exact absurd rfl h
  | cons first rest => rfl

/-- A share depends on the nonce, the path, the message and the flags of a block, and on the points
that are asked for. -/
theorem signBlock_of_sameBlock (hRs : Rs.toList ≠ []) (hsame : SameBlock d d₀)
    (h : signBlock E H publicKey share chaincode signers Rs index d = .ok d') :
    ∃ d₁, signBlock E H publicKey share chaincode signers Rs index d₀ = .ok d₁ ∧ d₁.s = d'.s := by
  rw [signBlock] at h
  obtain ⟨R, hR, h⟩ := except_bind_ok_iff.1 h
  obtain ⟨derived, hderived, h⟩ := except_bind_ok_iff.1 h
  obtain ⟨hram, hhram, h⟩ := except_bind_ok_iff.1 h
  obtain ⟨delta, hdelta, h⟩ := except_bind_ok_iff.1 h
  obtain ⟨x, hx, h⟩ := except_bind_ok_iff.1 h
  obtain ⟨s, hs, h⟩ := except_bind_ok_iff.1 h
  obtain rfl := Except.ok.inj h
  obtain ⟨hk, hpath, hmessage, hflags⟩ := hsame
  refine ⟨{ d₀ with R := R, s := swapBytes s }, ?_, rfl⟩
  rw [signBlock, sumPoints_own d₀.R d.R hRs, hk, hpath, hmessage, hflags]
  exact except_bind_ok_iff.2 ⟨R, hR, except_bind_ok_iff.2 ⟨derived, hderived,
    except_bind_ok_iff.2 ⟨hram, hhram, except_bind_ok_iff.2 ⟨delta, hdelta,
    except_bind_ok_iff.2 ⟨x, hx, except_bind_ok_iff.2 ⟨s, hs, rfl⟩⟩⟩⟩⟩⟩

theorem sameBlock_signBlock
    (h : signBlock E H publicKey share chaincode signers Rs index d = .ok d') : SameBlock d d' := by
  rw [signBlock] at h
  obtain ⟨R, -, h⟩ := except_bind_ok_iff.1 h
  obtain ⟨derived, -, h⟩ := except_bind_ok_iff.1 h
  obtain ⟨hram, -, h⟩ := except_bind_ok_iff.1 h
  obtain ⟨delta, -, h⟩ := except_bind_ok_iff.1 h
  obtain ⟨x, -, h⟩ := except_bind_ok_iff.1 h
  obtain ⟨s, -, h⟩ := except_bind_ok_iff.1 h
  obtain rfl := Except.ok.inj h
  exact ⟨rfl, rfl, rfl, rfl⟩

end Blocks

section Openings
variable {H : HashFunctions} {data : EddsaSigningMetadata}
variable {commitments : PlayerMap (List Commitment)} {V : Type}

/-- The messages that are complete for some signers are those of the signers. -/
theorem mem_iff_of_complete {messages : PlayerMap (List V)} (h : CompleteFor data messages)
    {i : ℕ} : i ∈ messages ↔ i ∈ data.signersIds := by
  obtain ⟨hcard, hsub, -⟩ := h
  have hkeys : messages.keys.toFinset = data.signersIds := by
    refine (Finset.eq_of_subset_of_card_le (fun j hj => ?_) ?_).symm
    · rw [List.mem_toFinset, Std.ExtTreeMap.mem_keys]
      exact hsub j hj
    · rw [List.toFinset_card_of_nodup Std.ExtTreeMap.nodup_keys, Std.ExtTreeMap.length_keys, hcard]
  rw [← hkeys, List.mem_toFinset, Std.ExtTreeMap.mem_keys]

theorem getElem?_of_complete {messages : PlayerMap (List V)} (h : CompleteFor data messages)
    {i : ℕ} (hi : i ∈ data.signersIds) : ∃ l, messages[i]? = some l ∧
      l.length = data.sigData.length := by
  have hmem := (mem_iff_of_complete h).2 hi
  rw [← Std.ExtTreeMap.isSome_getElem?_iff_mem, Option.isSome_iff_exists] at hmem
  obtain ⟨l, hl⟩ := hmem
  exact ⟨l, hl, h.2.2 (i, l) (Std.ExtTreeMap.mem_toList_iff_getElem?_eq_some.2 hl)⟩

/-- Points that open the same commitments are the same, or a commitment is opened twice. -/
theorem eq_of_opens (hcommitments : CompleteFor data commitments)
    {Rs Rs' : PlayerMap (List EllipticCurvePoint)} (hRs : CompleteFor data Rs)
    (hRs' : CompleteFor data Rs')
    (hopens : ∀ c ∈ commitments.toList, verifyDecommitment H data.sigData.length Rs c = .ok ())
    (hopens' : ∀ c ∈ commitments.toList, verifyDecommitment H data.sigData.length Rs' c = .ok ())
    (hnot : ∀ c ∈ commitments.toList.flatMap (·.2), ∀ R ∈ Rs.toList.flatMap (·.2),
      ∀ R' ∈ Rs'.toList.flatMap (·.2), Opens H c R → Opens H c R' → R = R') : Rs = Rs' := by
  apply Std.ExtTreeMap.ext_getElem?
  intro i
  by_cases hi : i ∈ data.signersIds
  · obtain ⟨points, hpoints, hlength⟩ := getElem?_of_complete hRs hi
    obtain ⟨points', hpoints', hlength'⟩ := getElem?_of_complete hRs' hi
    obtain ⟨cs, hcs, -⟩ := getElem?_of_complete hcommitments hi
    have hmem := Std.ExtTreeMap.mem_toList_iff_getElem?_eq_some.2 hcs
    rw [hpoints, hpoints']
    refine congrArg some (List.ext_getElem (hlength.trans hlength'.symm) fun j hj hj' => ?_)
    have hblock : j < data.sigData.length := hlength ▸ hj
    obtain ⟨R, c, hR, hc, hopen⟩ :=
      (verifyDecommitment_ok_iff hpoints).1 (hopens _ hmem) j hblock
    obtain ⟨R', c', hR', hc', hopen'⟩ :=
      (verifyDecommitment_ok_iff hpoints').1 (hopens' _ hmem) j hblock
    obtain rfl := Option.some.inj (hc.symm.trans hc')
    obtain ⟨_, rfl⟩ := List.getElem?_eq_some_iff.1 hR
    obtain ⟨_, rfl⟩ := List.getElem?_eq_some_iff.1 hR'
    exact hnot c (List.mem_flatMap.2 ⟨_, hmem, List.mem_of_getElem? hc⟩) _
      (List.mem_flatMap.2 ⟨_, Std.ExtTreeMap.mem_toList_iff_getElem?_eq_some.2 hpoints,
        List.getElem_mem hj⟩) _
      (List.mem_flatMap.2 ⟨_, Std.ExtTreeMap.mem_toList_iff_getElem?_eq_some.2 hpoints',
        List.getElem_mem hj'⟩) hopen hopen'
  · have hnone : ∀ {messages : PlayerMap (List EllipticCurvePoint)}, CompleteFor data messages →
        messages[i]? = none := by
      intro messages h
      rw [← Option.not_isSome_iff_eq_none, Std.ExtTreeMap.isSome_getElem?_iff_mem,
        mem_iff_of_complete h]
      exact hi
    rw [hnone hRs, hnone hRs']

end Openings

section Records
variable {host : SetupHost A} {s t : Signer A} {c : Call} {out : Except Failure Output}
variable {txid : ByteString}

/-- A block of a transaction that has not been finished. -/
def LiveBlock (p : OnlinePersistency A) (txid : ByteString) (j : ℕ) (d : EddsaSignatureData) :
    Prop := ∃ data, p.metadata txid = some data ∧ data.sigData[j]? = some d

/-- Two records of one transaction. -/
structure SameRecord (data data' : EddsaSigningMetadata) : Prop where
  keyId : data'.keyId = data.keyId
  chaincode : data'.chaincode = data.chaincode
  signersIds : data'.signersIds = data.signersIds
  length : data'.sigData.length = data.sigData.length
  blocks : ∀ (j : ℕ) d', data'.sigData[j]? = some d' →
    ∃ d, data.sigData[j]? = some d ∧ SameBlock d d'

theorem SameRecord.refl (data : EddsaSigningMetadata) : SameRecord data data :=
  ⟨rfl, rfl, rfl, rfl, fun _ d hd => ⟨d, hd, .refl d⟩⟩

theorem SameRecord.completeFor {data data' : EddsaSigningMetadata} (h : SameRecord data data')
    {V : Type} {messages : PlayerMap (List V)} (hcomplete : CompleteFor data messages) :
    CompleteFor data' messages := by
  rw [CompleteFor, h.signersIds, h.length]
  exact hcomplete

def Call.started? : Call → Option ByteString
  | .startSigning _ txid .. => some txid
  | _ => none

/-- Commitments that a call has stored for a transaction. -/
structure NewCommitments (step : CallStep A) (data : EddsaSigningMetadata)
    (C : PlayerMap (List Commitment)) : Prop where
  complete : CompleteFor data C
  size : C.size ≠ 0
  stored : ∀ c ∈ C.toList.flatMap (·.2), c ∈ stored step

/-- What one call does to one transaction. -/
inductive RecordStep (step : CallStep A) (txid : ByteString) : Prop
  | gone (h : step.after.store.metadata txid = none)
      (hcommitments : step.after.store.commitments txid = none ∨
        step.before.store.metadata txid = none ∧
          step.after.store.commitments txid = step.before.store.commitments txid)
  | kept {data data' : EddsaSigningMetadata} (hdata : step.before.store.metadata txid = some data)
      (hdata' : step.after.store.metadata txid = some data') (hsame : SameRecord data data')
      (hold : ∀ C, step.before.store.commitments txid = some C →
        step.after.store.commitments txid = some C)
      (hnew : ∀ C, step.after.store.commitments txid = some C →
        step.before.store.commitments txid = some C ∨ NewCommitments step data' C)
  | drawn {data' : EddsaSigningMetadata} (hstarted : Call.started? step.call = some txid)
      (hnone : step.before.store.metadata txid = none)
      (hdata' : step.after.store.metadata txid = some data')
      (hcommitments : step.after.store.commitments txid = step.before.store.commitments txid)
      (hnodup : (data'.sigData.map fun d => d.k.draw).Nodup)
      (hfresh : ∀ d ∈ data'.sigData, step.before.draws ≤ d.k.draw ∧ d.k.draw < step.after.draws)

theorem recordStep_of_eq {step : CallStep A}
    (hmetadata : step.after.store.metadata txid = step.before.store.metadata txid)
    (hcommitments : step.after.store.commitments txid = step.before.store.commitments txid) :
    RecordStep step txid := by
  cases hdata : step.before.store.metadata txid with
  | none => exact .gone (hmetadata.trans hdata) (Or.inr ⟨hdata, hcommitments⟩)
  | some data =>
    refine .kept hdata (hmetadata.trans hdata) (.refl data) (fun C hC => ?_) fun C hC => Or.inl ?_
    · exact hcommitments.trans hC
    · exact hcommitments.symm.trans hC

theorem metadata_setMetadata_of_ne {p : OnlinePersistency A} {txid' : ByteString}
    {data : EddsaSigningMetadata} (h : txid ≠ txid') :
    (p.setMetadata txid' data).metadata txid = p.metadata txid := Function.update_of_ne h _ _

theorem metadata_setMetadata {p : OnlinePersistency A} {data : EddsaSigningMetadata} :
    (p.setMetadata txid data).metadata txid = some data := Function.update_self ..

theorem forall₂_of_mapM {α β : Type} {f : α × ℕ → Except Failure β} {l : List α} {bs : List β}
    (h : l.zipIdx.mapM f = .ok bs) : bs.length = l.length ∧ ∀ (j : ℕ) b, bs[j]? = some b →
      ∃ a, l[j]? = some a ∧ f (a, j) = .ok b := by
  have hall := except_mapM_ok_iff_forall₂.1 h
  have hlength : bs.length = l.length := by rw [← hall.length_eq, List.length_zipIdx]
  refine ⟨hlength, fun j b hb => ?_⟩
  obtain ⟨hj, rfl⟩ := List.getElem?_eq_some_iff.1 hb
  have hj' : j < l.length := hlength ▸ hj
  refine ⟨l[j], List.getElem?_eq_getElem hj', ?_⟩
  have hpair := (List.forall₂_iff_get.1 hall).2 j (by rwa [List.length_zipIdx]) hj
  simpa using hpair

theorem recordStep (h : Change host s c out t) (txid : ByteString) :
    RecordStep ⟨s, c, out, t⟩ txid := by
  cases h with
  | failed h => exact recordStep_of_eq (by rw [h.1]) (by rw [h.1])
  | @versioned txid' commitments version e data hdata =>
    by_cases htxid : txid = txid'
    · subst htxid
      exact .kept hdata metadata_setMetadata
        ⟨rfl, rfl, rfl, rfl, fun _ d hd => ⟨d, hd, .refl d⟩⟩ (fun _ hC => hC) fun _ hC => Or.inl hC
    · exact recordStep_of_eq (metadata_setMetadata_of_ne htxid) rfl
  | @started keyId txid' _ _ _ _ _ record n hnew hdraws hfresh hn =>
    by_cases htxid : txid = txid'
    · subst htxid
      exact .drawn rfl hnew metadata_setMetadata rfl hdraws hfresh
    · exact recordStep_of_eq (metadata_setMetadata_of_ne htxid) rfl
  | @committed txid' commitments version points data hdata hnew hcomplete hown =>
    by_cases htxid : txid = txid'
    · subst htxid
      refine .kept hdata metadata_setMetadata
        ⟨rfl, rfl, rfl, rfl, fun _ d hd => ⟨d, hd, .refl d⟩⟩ (fun C hC => ?_) fun C hC => Or.inr ?_
      · rw [hnew] at hC
        cases hC
      · have hself : ((s.store.setMetadata txid { data with version := version }).setCommitments
            txid commitments).commitments txid = some commitments := Function.update_self ..
        obtain rfl : commitments = C := Option.some.inj (hself.symm.trans hC)
        have hpos : 0 < commitments.keys.length :=
          List.length_pos_of_mem (Std.ExtTreeMap.mem_keys.2 hown)
        rw [Std.ExtTreeMap.length_keys] at hpos
        exact ⟨hcomplete, hpos.ne', fun _ hc => hc⟩
    · exact recordStep_of_eq (metadata_setMetadata_of_ne htxid)
        (Function.update_of_ne htxid _ _)
  | @answered txid' Rs data commitments metadata key sigData hdata _ _ _ _ _ hsign =>
    by_cases htxid : txid = txid'
    · subst htxid
      obtain ⟨hlength, hblocks⟩ := forall₂_of_mapM hsign
      refine .kept hdata metadata_setMetadata ⟨rfl, rfl, rfl, hlength, fun j d' hd' => ?_⟩
        (fun _ hC => hC) fun _ hC => Or.inl hC
      obtain ⟨d, hd, hblock⟩ := hblocks j d' hd'
      exact ⟨d, hd, sameBlock_signBlock hblock⟩
    · exact recordStep_of_eq (metadata_setMetadata_of_ne htxid) rfl
  | @finished txid' =>
    by_cases htxid : txid = txid'
    · subst htxid
      exact .gone (Function.update_self ..) (Or.inl (Function.update_self ..))
    · exact recordStep_of_eq (Function.update_of_ne htxid _ _) (Function.update_of_ne htxid _ _)

theorem draws_of_change (h : Change host s c out t) : s.draws ≤ t.draws := by
  cases h with
  | failed h => exact h.2
  | started _ _ _ hn => exact hn
  | versioned => exact le_rfl
  | committed => exact le_rfl
  | answered => exact le_rfl
  | finished => exact le_rfl

theorem keys_of_change (h : Change host s c out t) : t.store.keys = s.store.keys := by
  cases h with
  | failed h => rw [h.1]
  | started => rfl
  | versioned => rfl
  | committed => rfl
  | answered => rfl
  | finished => rfl

/-- A block has been there before the call, or its nonce has been drawn in it. -/
theorem liveBlock_cases (h : Change host s c out t) {j : ℕ} {d : EddsaSignatureData}
    (hd : LiveBlock t.store txid j d) : (∃ d₀, LiveBlock s.store txid j d₀ ∧ SameBlock d₀ d) ∨
      Call.started? c = some txid ∧ s.draws ≤ d.k.draw ∧ d.k.draw < t.draws ∧
        ∃ data, t.store.metadata txid = some data ∧
          (data.sigData.map fun d => d.k.draw).Nodup := by
  obtain ⟨data, hdata, hd⟩ := hd
  cases recordStep h txid with
  | gone hgone =>
    rw [hgone] at hdata
    cases hdata
  | kept hdata₀ hdata' hsame =>
    obtain rfl := Option.some.inj (hdata'.symm.trans hdata)
    obtain ⟨d₀, hd₀, hsame⟩ := hsame.blocks j d hd
    exact Or.inl ⟨d₀, ⟨_, hdata₀, hd₀⟩, hsame⟩
  | drawn hstarted _ hdata' _ hnodup hfresh =>
    obtain rfl := Option.some.inj (hdata'.symm.trans hdata)
    obtain ⟨hle, hlt⟩ := hfresh d (List.mem_of_getElem? hd)
    exact Or.inr ⟨hstarted, hle, hlt, _, hdata', hnodup⟩

end Records

section Invariant
variable {host : SetupHost A} {keys : SetupPersistency A} {history : List (CallStep A)}
variable {s t : Signer A} {c : Call} {out : Except Failure Output}

/-- A share was made for a block as the block stands. -/
def Answered (host : SetupHost A) (keys : SetupPersistency A) (p : OnlinePersistency A)
    (txid : ByteString) (j : ℕ) (d : EddsaSignatureData) (r : Release) : Prop :=
  ∃ data commitments metadata key d', p.metadata txid = some data ∧
    p.commitments txid = some commitments ∧ CompleteFor data r.Rs ∧
    (∀ e ∈ commitments.toList,
      verifyDecommitment host.hash data.sigData.length r.Rs e = .ok ()) ∧
    keys.loadKeyMetadata data.keyId = .ok metadata ∧ keys.loadKey data.keyId = .ok key ∧
    signBlock host.algebra host.hash metadata.publicKey key.2 data.chaincode data.signersIds.card
      r.Rs j d = .ok d' ∧ d'.s = r.share

/-- What holds after any calls. -/
structure Sound (host : SetupHost A) (keys : SetupPersistency A) (history : List (CallStep A))
    (s : Signer A) : Prop where
  sameKeys : s.store.keys = keys
  fresh : ∀ txid j d, LiveBlock s.store txid j d → d.k.draw < s.draws
  unique : ∀ txid j d txid' j' d', LiveBlock s.store txid j d → LiveBlock s.store txid' j' d' →
    d.k.draw = d'.k.draw → txid = txid' ∧ j = j'
  committed : ∀ txid C, s.store.commitments txid = some C → ∃ data,
    s.store.metadata txid = some data ∧ CompleteFor data C ∧ C.size ≠ 0 ∧
      ∀ c ∈ C.toList.flatMap (·.2), c ∈ storedCommitments history
  past : ∀ r ∈ releases history, r.draw < s.draws
  answered : ∀ r ∈ releases history, ∀ txid j d, LiveBlock s.store txid j d →
    d.k.draw = r.draw → Answered host keys s.store txid j d r
  agree : OpenedTwice host.hash history ∨ ∀ r ∈ releases history, ∀ r' ∈ releases history,
    r.draw = r'.draw → r.share = r'.share

theorem Sound.fresh_step (h : Sound host keys history s) (hc : Change host s c out t) :
    ∀ txid j d, LiveBlock t.store txid j d → d.k.draw < t.draws := by
  intro txid j d hd
  rcases liveBlock_cases hc hd with ⟨d₀, hd₀, hsame⟩ | ⟨-, -, hlt, -⟩
  · rw [hsame.k]
    exact (h.fresh txid j d₀ hd₀).trans_le (draws_of_change hc)
  · exact hlt

theorem Sound.unique_step (h : Sound host keys history s) (hc : Change host s c out t) :
    ∀ txid j d txid' j' d', LiveBlock t.store txid j d → LiveBlock t.store txid' j' d' →
      d.k.draw = d'.k.draw → txid = txid' ∧ j = j' := by
  intro txid j d txid' j' d' hd hd' hdraw
  rcases liveBlock_cases hc hd with ⟨d₀, hd₀, hsame⟩ | ⟨hstarted, hle, -, data, hdata, hnodup⟩
  · rcases liveBlock_cases hc hd' with ⟨d₀', hd₀', hsame'⟩ | ⟨-, hle', -⟩
    · rw [hsame.k, hsame'.k] at hdraw
      exact h.unique _ _ _ _ _ _ hd₀ hd₀' hdraw
    · have hold := h.fresh txid j d₀ hd₀
      rw [← hsame.k, hdraw] at hold
      omega
  · rcases liveBlock_cases hc hd' with ⟨d₀', hd₀', hsame'⟩ | ⟨hstarted', -, -, -⟩
    · have hold := h.fresh txid' j' d₀' hd₀'
      rw [← hsame'.k, ← hdraw] at hold
      omega
    · obtain rfl := Option.some.inj (hstarted.symm.trans hstarted')
      obtain ⟨data₁, hdata₁, hd⟩ := hd
      obtain ⟨data₂, hdata₂, hd'⟩ := hd'
      obtain rfl := Option.some.inj (hdata.symm.trans hdata₁)
      obtain rfl := Option.some.inj (hdata.symm.trans hdata₂)
      obtain ⟨hj, rfl⟩ := List.getElem?_eq_some_iff.1 hd
      obtain ⟨hj', rfl⟩ := List.getElem?_eq_some_iff.1 hd'
      have hmap : (data.sigData.map fun d => d.k.draw)[j]? =
          (data.sigData.map fun d => d.k.draw)[j']? := by
        rw [List.getElem?_map, List.getElem?_map, List.getElem?_eq_getElem hj,
          List.getElem?_eq_getElem hj', Option.map_some, Option.map_some, hdraw]
      exact ⟨rfl, (List.getElem?_inj (by rwa [List.length_map]) hnodup).1 hmap⟩

theorem Sound.committed_step (h : Sound host keys history s) (hc : Change host s c out t) :
    ∀ txid C, t.store.commitments txid = some C → ∃ data,
      t.store.metadata txid = some data ∧ CompleteFor data C ∧ C.size ≠ 0 ∧
        ∀ e ∈ C.toList.flatMap (·.2), e ∈ storedCommitments (⟨s, c, out, t⟩ :: history) := by
  intro txid C hC
  cases recordStep hc txid with
  | gone hgone hcommitments =>
    rcases hcommitments with hnone | ⟨hnone, hsame⟩
    · rw [hnone] at hC
      cases hC
    · obtain ⟨data, hdata, -⟩ := h.committed txid C (hsame.symm.trans hC)
      rw [hnone] at hdata
      cases hdata
  | @kept data data' hdata hdata' hsame hold hnew =>
    rcases hnew C hC with hC | hnew
    · obtain ⟨data₀, hdata₀, hcomplete, hsize, hstored⟩ := h.committed txid C hC
      obtain rfl := Option.some.inj (hdata.symm.trans hdata₀)
      exact ⟨data', hdata', hsame.completeFor hcomplete, hsize,
        fun e he => List.mem_append_right _ (hstored e he)⟩
    · exact ⟨data', hdata', hnew.complete, hnew.size,
        fun e he => List.mem_append_left _ (hnew.stored e he)⟩
  | drawn _ hnone _ hcommitments =>
    obtain ⟨data, hdata, -⟩ := h.committed txid C (hcommitments.symm.trans hC)
    rw [hnone] at hdata
    cases hdata

/-- The shares of a block stay what they are while the block is there. -/
theorem Sound.answered_step (h : Sound host keys history s) (hc : Change host s c out t)
    {r : Release} (hr : r ∈ releases history) {txid : ByteString} {j : ℕ} {d : EddsaSignatureData}
    (hd : LiveBlock t.store txid j d) (hdraw : d.k.draw = r.draw) :
    Answered host keys t.store txid j d r := by
  have hpast := h.past r hr
  obtain ⟨data₁, hdata₁, hd₁⟩ := hd
  cases recordStep hc txid with
  | gone hgone =>
    rw [hgone] at hdata₁
    cases hdata₁
  | @kept data data' hdata hdata' hsame hold hnew =>
    obtain rfl := Option.some.inj (hdata'.symm.trans hdata₁)
    obtain ⟨d₀, hd₀, hblock⟩ := hsame.blocks j d hd₁
    have hanswered := h.answered r hr txid j d₀ ⟨data, hdata, hd₀⟩ (by rw [← hblock.k, hdraw])
    obtain ⟨data₀, C, metadata, key, d', hdata₀, hC, hcomplete, hopens, hmetadata, hkey, hsign,
      hshare⟩ := hanswered
    obtain rfl := Option.some.inj (hdata.symm.trans hdata₀)
    obtain ⟨data₀, hdata₀, hcompleteC, hsize, -⟩ := h.committed txid C hC
    obtain rfl := Option.some.inj (hdata.symm.trans hdata₀)
    have hRs : r.Rs.toList ≠ [] := by
      apply List.ne_nil_of_length_pos
      rw [Std.ExtTreeMap.length_toList, ← hcomplete.1, hcompleteC.1]
      exact Nat.pos_of_ne_zero hsize
    obtain ⟨d₁, hsign₁, hshare₁⟩ := signBlock_of_sameBlock hRs hblock hsign
    refine ⟨data', C, metadata, key, d₁, hdata', hold C hC, hsame.completeFor hcomplete, ?_, ?_, ?_,
      ?_, hshare₁.trans hshare⟩
    · rw [hsame.length]
      exact hopens
    · rw [hsame.keyId]
      exact hmetadata
    · rw [hsame.keyId]
      exact hkey
    · rw [hsame.chaincode, hsame.signersIds]
      exact hsign₁
  | drawn _ _ hdata' _ _ hfresh =>
    obtain rfl := Option.some.inj (hdata'.symm.trans hdata₁)
    have hle := (hfresh d (List.mem_of_getElem? hd₁)).1
    rw [hdraw] at hle
    exact absurd hpast (not_lt.2 hle)

/-- A share that is sent is the share of a block as the block stands. -/
theorem Sound.answered_new (h : Sound host keys history s) (hc : Change host s c out t)
    {r : Release} (hr : r ∈ released ⟨s, c, out, t⟩) : ∃ txid j d,
      LiveBlock t.store txid j d ∧ d.k.draw = r.draw ∧ Answered host keys t.store txid j d r := by
  cases hc with
  | failed => cases c <;> cases hr
  | versioned => cases hr
  | started => cases hr
  | committed => cases hr
  | finished => cases hr
  | @answered txid Rs data C metadata key sigData hdata hC hcomplete hopens hmetadata hkey hsign =>
    obtain ⟨hlength, hblocks⟩ := forall₂_of_mapM hsign
    have hdraws : recordDraws s txid = data.sigData.map fun d => d.k.draw := by
      rw [recordDraws, hdata, Option.elim_some]
    obtain ⟨e, he, rfl⟩ := List.mem_map.1 hr
    change e ∈ (recordDraws s txid).zip (sigData.map (·.s)) at he
    obtain ⟨j, hj, rfl⟩ := List.getElem_of_mem he
    rw [hdraws, List.length_zip, List.length_map, List.length_map, hlength, min_self] at hj
    have hj' : j < sigData.length := hlength ▸ hj
    obtain ⟨d, hd, hblock⟩ := hblocks j sigData[j] (List.getElem?_eq_getElem hj')
    obtain ⟨_, rfl⟩ := List.getElem?_eq_some_iff.1 hd
    have hsame := sameBlock_signBlock hblock
    obtain ⟨data₀, hdata₀, hcompleteC, hsize, -⟩ := h.committed txid C hC
    obtain rfl := Option.some.inj (hdata.symm.trans hdata₀)
    have hRs : Rs.toList ≠ [] := by
      apply List.ne_nil_of_length_pos
      rw [Std.ExtTreeMap.length_toList, ← hcomplete.1, hcompleteC.1]
      exact Nat.pos_of_ne_zero hsize
    obtain ⟨d₁, hsign₁, hshare₁⟩ := signBlock_of_sameBlock hRs hsame hblock
    refine ⟨txid, j, sigData[j], ⟨_, metadata_setMetadata, List.getElem?_eq_getElem hj'⟩, ?_,
      _, C, metadata, key, d₁, metadata_setMetadata, hC, ?_, ?_, h.sameKeys ▸ hmetadata,
      h.sameKeys ▸ hkey, hsign₁, ?_⟩
    · simp only [hdraws, List.getElem_zip, List.getElem_map, hsame.k]
    · rw [CompleteFor, hlength]
      exact hcomplete
    · rw [hlength]
      exact hopens
    · rw [hshare₁, List.getElem_zip, List.getElem_map]

theorem Sound.answered_all (h : Sound host keys history s) (hc : Change host s c out t) :
    ∀ r ∈ releases (⟨s, c, out, t⟩ :: history), ∀ txid j d, LiveBlock t.store txid j d →
      d.k.draw = r.draw → Answered host keys t.store txid j d r := by
  intro r hr txid j d hd hdraw
  rcases List.mem_append.1 hr with hr | hr
  · obtain ⟨txid', j', d', hd', hdraw', hanswered⟩ := h.answered_new hc hr
    obtain ⟨rfl, rfl⟩ := h.unique_step hc _ _ _ _ _ _ hd hd' (hdraw.trans hdraw'.symm)
    obtain ⟨data, hdata, hd⟩ := hd
    obtain ⟨data', hdata', hd'⟩ := hd'
    obtain rfl := Option.some.inj (hdata.symm.trans hdata')
    obtain rfl := Option.some.inj (hd.symm.trans hd')
    exact hanswered
  · exact h.answered_step hc hr hd hdraw

theorem Sound.past_step (h : Sound host keys history s) (hc : Change host s c out t) :
    ∀ r ∈ releases (⟨s, c, out, t⟩ :: history), r.draw < t.draws := by
  intro r hr
  rcases List.mem_append.1 hr with hr | hr
  · obtain ⟨txid, j, d, hd, hdraw, -⟩ := h.answered_new hc hr
    rw [← hdraw]
    exact h.fresh_step hc txid j d hd
  · exact (h.past r hr).trans_le (draws_of_change hc)

/-- Two shares of one block are equal, since the commitments fix the points. -/
theorem eq_share_of_answered {p : OnlinePersistency A} {txid : ByteString} {j : ℕ}
    {d : EddsaSignatureData} {r r' : Release}
    (hcommitted : ∀ txid C, p.commitments txid = some C → ∃ data, p.metadata txid = some data ∧
      CompleteFor data C ∧ C.size ≠ 0 ∧ ∀ e ∈ C.toList.flatMap (·.2), e ∈ storedCommitments history)
    (hr : r ∈ releases history) (hr' : r' ∈ releases history)
    (h : Answered host keys p txid j d r) (h' : Answered host keys p txid j d r')
    (hnot : ¬OpenedTwice host.hash history) : r.share = r'.share := by
  obtain ⟨data, C, metadata, key, d₁, hdata, hC, hcomplete, hopens, hmetadata, hkey, hsign,
    hshare⟩ := h
  obtain ⟨data', C', metadata', key', d₁', hdata', hC', hcomplete', hopens', hmetadata', hkey',
    hsign', hshare'⟩ := h'
  obtain rfl := Option.some.inj (hdata.symm.trans hdata')
  obtain rfl := Option.some.inj (hC.symm.trans hC')
  obtain rfl := Except.ok.inj (hmetadata.symm.trans hmetadata')
  obtain rfl := Except.ok.inj (hkey.symm.trans hkey')
  obtain ⟨data₀, hdata₀, hcompleteC, -, hstored⟩ := hcommitted txid C hC
  obtain rfl := Option.some.inj (hdata.symm.trans hdata₀)
  have hRs : r.Rs = r'.Rs := by
    refine eq_of_opens hcompleteC hcomplete hcomplete' hopens hopens' ?_
    intro e he R hR R' hR' hopen hopen'
    by_contra hne
    exact hnot ⟨e, hstored e he, r, hr, r', hr', R, hR, R', hR', hne, hopen, hopen'⟩
  rw [hRs, hsign'] at hsign
  rw [← hshare, ← hshare', Except.ok.inj hsign]

theorem Sound.agree_step (h : Sound host keys history s) (hc : Change host s c out t) :
    OpenedTwice host.hash (⟨s, c, out, t⟩ :: history) ∨
      ∀ r ∈ releases (⟨s, c, out, t⟩ :: history), ∀ r' ∈ releases (⟨s, c, out, t⟩ :: history),
        r.draw = r'.draw → r.share = r'.share := by
  by_cases hnot : OpenedTwice host.hash (⟨s, c, out, t⟩ :: history)
  · exact Or.inl hnot
  have hnew : ∀ r ∈ released ⟨s, c, out, t⟩, ∀ r' ∈ releases (⟨s, c, out, t⟩ :: history),
      r.draw = r'.draw → r.share = r'.share := by
    intro r hr r' hr' hdraw
    obtain ⟨txid, j, d, hd, hd', hanswered⟩ := h.answered_new hc hr
    exact eq_share_of_answered (h.committed_step hc) (List.mem_append_left _ hr) hr' hanswered
      (h.answered_all hc r' hr' txid j d hd (hd'.trans hdraw)) hnot
  refine Or.inr fun r hr r' hr' hdraw => ?_
  rcases List.mem_append.1 hr with hrNew | hrOld
  · exact hnew r hrNew r' hr' hdraw
  rcases List.mem_append.1 hr' with hrNew' | hrOld'
  · exact (hnew r' hrNew' r hr hdraw.symm).symm
  · rcases h.agree with hopened | hagree
    · exact absurd (hopened.cons _) hnot
    · exact hagree r hrOld r' hrOld' hdraw

theorem Sound.step (h : Sound host keys history s) (hc : Change host s c out t) :
    Sound host keys (⟨s, c, out, t⟩ :: history) t where
  sameKeys := (keys_of_change hc).trans h.sameKeys
  fresh := h.fresh_step hc
  unique := h.unique_step hc
  committed := h.committed_step hc
  past := h.past_step hc
  answered := h.answered_all hc
  agree := h.agree_step hc

theorem Sound.start (hs : s.store = ⟨keys, fun _ => none, fun _ => none⟩) :
    Sound host keys [] s := by
  have hlive : ∀ {txid : ByteString} {j : ℕ} {d : EddsaSignatureData},
      ¬LiveBlock s.store txid j d := by
    rintro txid j d ⟨data, hdata, -⟩
    rw [hs] at hdata
    cases hdata
  exact {
    sameKeys := by rw [hs]
    fresh := fun _ _ _ hd => absurd hd hlive
    unique := fun _ _ _ _ _ _ hd => absurd hd hlive
    committed := by
      intro txid C hC
      rw [hs] at hC
      cases hC
    past := fun r hr => absurd hr List.not_mem_nil
    answered := fun r hr => absurd hr List.not_mem_nil
    agree := Or.inr fun r hr => absurd hr List.not_mem_nil }

theorem Sound.other (h : Sound host keys history s) (hst : OnlyDraws s t) :
    Sound host keys history t where
  sameKeys := by
    rw [hst.1]
    exact h.sameKeys
  fresh := by
    rw [hst.1]
    exact fun txid j d hd => (h.fresh txid j d hd).trans_le hst.2
  unique := by
    rw [hst.1]
    exact h.unique
  committed := by
    rw [hst.1]
    exact h.committed
  past := fun r hr => (h.past r hr).trans_le hst.2
  answered := by
    rw [hst.1]
    exact h.answered
  agree := h.agree

end Invariant

/-- The service starts with no transaction. Between its calls other draws are made. -/
def NonceRun (host : SetupHost A) (keys : SetupPersistency A) :
    List (CallStep A) → Signer A → Prop :=
  Run (exec host) (fun s => s.store = ⟨keys, fun _ => none, fun _ => none⟩) OnlyDraws

/-- Over any calls with any arguments, two shares that are made with one nonce are equal, unless a
stored commitment has been opened to two points. -/
theorem nonce_signs_once {host : SetupHost A} {keys : SetupPersistency A}
    {history : List (CallStep A)} {s : Signer A} (h : NonceRun host keys history s) :
    OpenedTwice host.hash history ∨ ∀ r ∈ releases history, ∀ r' ∈ releases history,
      r.draw = r'.draw → r.share = r'.share :=
  Sound.agree (Run.invariant (I := fun history s => Sound host keys history s)
    (fun _ hs => .start hs) (fun _ _ _ hI hst => hI.other hst)
    (fun _ s c hI => hI.step (change_exec host c s)) h)

section Concrete
open KeySetupSessions NodePrograms

def concretePoint (n : ℕ) : EllipticCurvePoint := Ed25519Point.generic (leBytes 32 (n + 1))

def pairMetadata : KeyMetadata trustingScheme where
  publicKey := concretePoint 3
  algorithm := .eddsaEd25519
  t := 2
  n := 2
  seed := zeroBytes 32
  playersInfo := ofEntries [(1, ⟨concretePoint 1, none, none⟩), (2, ⟨concretePoint 2, none, none⟩)]

def pairSigner : Signer trustingScheme :=
  ⟨0, SetupPersistency.empty.setEntry (ascii "key")
    ⟨.eddsaEd25519, beBytes 32 1, some pairMetadata, none⟩, fun _ => none, fun _ => none⟩

/-- The second player repeats the commitment of the first, and the last call is made twice. -/
def repeatedCalls : List Call :=
  [.broadcastSi [0] (ofEntries [(1, [concretePoint 1]), (2, [concretePoint 1])]),
    .broadcastSi [0] (ofEntries [(1, [concretePoint 1]), (2, [concretePoint 1])]),
    .storeCommitments [0] (ofEntries [(1, [commitTo prefixHash (leBytes 32 2) (concretePoint 1)]),
      (2, [commitTo prefixHash (leBytes 32 2) (concretePoint 1)])]) 10,
    .startSigning (ascii "key") [0] ⟨zeroBytes 32, [⟨[1], []⟩]⟩ [] ∅ {1, 2}]

def repeatedHistory : List (CallStep trustingScheme) :=
  (follow (exec (concretePlayers.host 1)) pairSigner repeatedCalls).1

theorem nonceRun_repeatedHistory :
    NonceRun (concretePlayers.host 1) (pairSigner.store.keys) repeatedHistory
      (follow (exec (concretePlayers.host 1)) pairSigner repeatedCalls).2 :=
  run_follow (by rfl) repeatedCalls

theorem nonce_signs_once_concrete :
    (releases repeatedHistory).map (·.draw) = [0, 0] ∧
      (OpenedTwice prefixHash repeatedHistory ∨ ∀ r ∈ releases repeatedHistory,
        ∀ r' ∈ releases repeatedHistory, r.draw = r'.draw → r.share = r'.share) :=
  ⟨by decide +kernel, nonce_signs_once nonceRun_repeatedHistory⟩

end Concrete

end MpcDemo.OnlineNonceUse
