import MpcDemo.OnlineSigning
import MpcDemo.CallHistories

/-!
# Calls on an online signing service

The service is called in any order with any arguments. What one call can do to the records of the
transactions is said once: it fails and leaves them alone, up to a version, or it starts, commits,
answers or finishes one transaction.
-/

namespace MpcDemo.OnlineCalls
open ByteStrings Ed25519Algebra CosignerTypes FallibleState NodeState
open SetupService (invalidParameters internalError)
open KeySetup (AuxiliaryScheme SetupHost KeyMetadata)
open OnlineSigning StoredDraws CallHistories

variable {A : AuxiliaryScheme}

inductive Call
  | startSigning (keyId txid : ByteString) (data : SigningData) (metadataJson : ByteString)
      (players : Finset ByteString) (playersIds : Finset ℕ)
  | storeCommitments (txid : ByteString) (commitments : PlayerMap (List Commitment)) (version : ℕ)
  | broadcastSi (txid : ByteString) (Rs : PlayerMap (List EllipticCurvePoint))
  | getEddsaSignature (txid : ByteString) (shares : PlayerMap (List Ed25519Scalar))

inductive Output
  | commitments (commitments : List Commitment)
  | points (Rs : List EllipticCurvePoint)
  | shares (shares : List Ed25519Scalar)
  | signatures (sigs : List EddsaSignature)

def operation (host : SetupHost A) : Call → EStateM Failure (Signer A) Output
  | .startSigning keyId txid data metadataJson players playersIds =>
    Output.commitments <$> startSigning host keyId txid data metadataJson players playersIds
  | .storeCommitments txid commitments version =>
    Output.points <$> storeCommitments host txid commitments version
  | .broadcastSi txid Rs => Output.shares <$> broadcastSi host txid Rs
  | .getEddsaSignature txid shares => Output.signatures <$> getEddsaSignature host txid shares

def exec (host : SetupHost A) (c : Call) (s : Signer A) : Except Failure Output × Signer A :=
  match (operation host c).run s with
  | .ok out t => (.ok out, t)
  | .error e t => (.error e, t)

abbrev CallStep (A : AuxiliaryScheme) : Type := Step (Signer A) Call (Except Failure Output)

/-- What fails has at most made draws. -/
def OnlyDraws (s t : Signer A) : Prop := t.store = s.store ∧ s.draws ≤ t.draws

instance : Std.Refl (OnlyDraws (A := A)) := ⟨fun _ => ⟨rfl, le_rfl⟩⟩

instance : IsTrans (Signer A) OnlyDraws :=
  ⟨fun _ _ _ h h' => ⟨h'.1.trans h.1, h.2.trans h'.2⟩⟩

/-- What one call does to the state. -/
inductive Change (host : SetupHost A) (s : Signer A) :
    Call → Except Failure Output → Signer A → Prop
  | failed {c : Call} {e : Failure} {t : Signer A} (h : OnlyDraws s t) :
      Change host s c (.error e) t
  | versioned {txid : ByteString} {commitments : PlayerMap (List Commitment)} {version : ℕ}
      {e : Failure} {data : EddsaSigningMetadata} (hdata : s.store.metadata txid = some data) :
      Change host s (.storeCommitments txid commitments version) (.error e)
        ⟨s.draws, s.store.setMetadata txid { data with version := version }⟩
  | started {keyId txid : ByteString} {data : SigningData} {metadataJson : ByteString}
      {players : Finset ByteString} {playersIds : Finset ℕ} {commitments : List Commitment}
      {record : EddsaSigningMetadata} {n : ℕ} (hnew : s.store.metadata txid = none)
      (hdraws : (record.sigData.map fun d => d.k.draw).Nodup)
      (hfresh : ∀ d ∈ record.sigData, s.draws ≤ d.k.draw ∧ d.k.draw < n) (hn : s.draws ≤ n) :
      Change host s (.startSigning keyId txid data metadataJson players playersIds)
        (.ok (.commitments commitments))
        ⟨n, s.store.setMetadata txid record⟩
  | committed {txid : ByteString} {commitments : PlayerMap (List Commitment)} {version : ℕ}
      {points : List EllipticCurvePoint} {data : EddsaSigningMetadata}
      (hdata : s.store.metadata txid = some data) (hnew : s.store.commitments txid = none)
      (hcomplete : CompleteFor data commitments)
      (hown : host.service.getIdFromKeyid data.keyId ∈ commitments) :
      Change host s (.storeCommitments txid commitments version) (.ok (.points points))
        ⟨s.draws, (s.store.setMetadata txid { data with version := version }).setCommitments txid
          commitments⟩
  | answered {txid : ByteString} {Rs : PlayerMap (List EllipticCurvePoint)}
      {data : EddsaSigningMetadata} {commitments : PlayerMap (List Commitment)}
      {metadata : KeyMetadata A} {key : CosignerSignAlgorithm × Ed25519Scalar}
      {sigData : List EddsaSignatureData} (hdata : s.store.metadata txid = some data)
      (hcommitments : s.store.commitments txid = some commitments)
      (hcomplete : CompleteFor data Rs)
      (hopens : ∀ c ∈ commitments.toList,
        verifyDecommitment host.hash data.sigData.length Rs c = .ok ())
      (hmetadata : s.store.keys.loadKeyMetadata data.keyId = .ok metadata)
      (hkey : s.store.keys.loadKey data.keyId = .ok key)
      (hsign : data.sigData.zipIdx.mapM (fun d => signBlock host.algebra host.hash
        metadata.publicKey key.2 data.chaincode data.signersIds.card Rs d.2 d.1) = .ok sigData) :
      Change host s (.broadcastSi txid Rs) (.ok (.shares (sigData.map (·.s))))
        ⟨s.draws, s.store.setMetadata txid { data with sigData := sigData }⟩
  | finished {txid : ByteString} {shares : PlayerMap (List Ed25519Scalar)}
      {sigs : List EddsaSignature} :
      Change host s (.getEddsaSignature txid shares) (.ok (.signatures sigs))
        ⟨s.draws, s.store.deleteTemporarySigningData txid⟩

section Failures

theorem keeps_drawn : Keeps OnlyDraws (drawn : EStateM Failure (Signer A) ℕ) := by
  intro s
  refine ⟨fun n t h => ?_, fun e t h => by cases h⟩
  obtain ⟨-, rfl⟩ := run_drawn_ok_iff.1 h
  exact ⟨rfl, Nat.le_succ _⟩

theorem keeps_startBlock (host : SetupHost A) (block : SigningBlockData) :
    Keeps OnlyDraws (startBlock host block) := by
  rw [startBlock]
  exact keeps_drawn.bind fun _ => (keeps_ofExcept _).bind fun _ => (keeps_ofExcept _).bind fun _ =>
    keeps_drawn.bind fun _ => (keeps_ofExcept _).bind fun _ => keeps_pure _

theorem failsKeeping_writing_bind {α : Type}
    {g : OnlinePersistency A → Except Failure (OnlinePersistency A)} {a : α} :
    FailsKeeping OnlyDraws (writing g >>= fun _ => (pure a : EStateM Failure (Signer A) α)) := by
  intro s e t h
  rcases run_bind_error_iff.1 h with h | ⟨_, u, _, h⟩
  · have hrun : writing g s = .error e t := h
    rw [writing] at hrun
    cases hg : g s.store with
    | ok p =>
      rw [hg] at hrun
      cases hrun
    | error e' =>
      rw [hg] at hrun
      cases hrun
      exact refl_of OnlyDraws s
  · cases h

theorem failsKeeping_startSigning (host : SetupHost A) (keyId txid : ByteString)
    (data : SigningData) (metadataJson : ByteString) (players : Finset ByteString)
    (playersIds : Finset ℕ) :
    FailsKeeping OnlyDraws
      (startSigning host keyId txid data metadataJson players playersIds) := by
  rw [startSigning, verifyTenant]
  exact .bind (keeps_require _ _) fun _ => .bind (keeps_inspect _) fun _ =>
    .bind (keeps_require _ _) fun _ => .bind (keeps_require _ _) fun _ =>
    .bind (keeps_require _ _) fun _ => .bind (keeps_ofExcept _) fun _ =>
    .bind (keeps_require _ _) fun _ => .bind (keeps_mapM (keeps_startBlock host) _) fun _ =>
    failsKeeping_writing_bind

theorem failsKeeping_broadcastSi (host : SetupHost A) (txid : ByteString)
    (Rs : PlayerMap (List EllipticCurvePoint)) :
    FailsKeeping OnlyDraws (broadcastSi host txid Rs) := by
  rw [broadcastSi, verifyTenant]
  exact .bind (keeps_inspect _) fun _ => .bind (keeps_require _ _) fun _ =>
    .bind (keeps_require _ _) fun _ => .bind (keeps_inspect _) fun _ =>
    .bind (keeps_ofExcept _) fun _ => .bind (keeps_inspect _) fun _ =>
    .bind (keeps_inspect _) fun _ => .bind (keeps_require _ _) fun _ =>
    .bind (keeps_ofExcept _) fun _ => failsKeeping_writing_bind

theorem failsKeeping_getEddsaSignature (host : SetupHost A) (txid : ByteString)
    (shares : PlayerMap (List Ed25519Scalar)) :
    FailsKeeping OnlyDraws (getEddsaSignature host txid shares) := by
  rw [getEddsaSignature, verifyTenant]
  exact .bind (keeps_inspect _) fun _ => .bind (keeps_require _ _) fun _ =>
    .bind (keeps_require _ _) fun _ => .bind (keeps_require _ _) fun _ =>
    .bind (keeps_require _ _) fun _ => .bind (keeps_inspect _) fun _ =>
    .bind (keeps_ofExcept _) fun _ => failsKeeping_writing_bind

end Failures

section Steps
variable {host : SetupHost A} {s t : Signer A}

theorem startBlock_ok {block : SigningBlockData} {b : EddsaSignatureData × Commitment}
    (h : (startBlock host block).run s = .ok b t) :
    b.1.k.draw = s.draws ∧ t = ⟨s.draws + 2, s.store⟩ := by
  rw [startBlock] at h
  have h := run_drawn_bind_ok_iff.1 h
  obtain ⟨k, -, h⟩ := run_ofExcept_bind_ok_iff.1 h
  obtain ⟨R, -, h⟩ := run_ofExcept_bind_ok_iff.1 h
  have h := run_drawn_bind_ok_iff.1 h
  obtain ⟨salt, -, h⟩ := run_ofExcept_bind_ok_iff.1 h
  obtain ⟨rfl, rfl⟩ := run_pure_ok_iff.1 h
  exact ⟨rfl, rfl⟩

/-- The nonces of the blocks come from draws of their own. -/
theorem startBlocks_ok {blocks : List SigningBlockData}
    {bs : List (EddsaSignatureData × Commitment)}
    (h : (blocks.mapM (startBlock host)).run s = .ok bs t) :
    t.store = s.store ∧ s.draws ≤ t.draws ∧ (bs.map fun b => b.1.k.draw).Nodup ∧
      ∀ b ∈ bs, s.draws ≤ b.1.k.draw ∧ b.1.k.draw < t.draws := by
  induction blocks generalizing s bs with
  | nil =>
    rw [run_mapM_nil] at h
    cases h
    exact ⟨rfl, le_rfl, List.nodup_nil, fun b hb => absurd hb List.not_mem_nil⟩
  | cons block blocks ih =>
    obtain ⟨b, u, bs, hb, hrest, rfl⟩ := run_mapM_cons_ok_iff.1 h
    obtain ⟨hdraw, rfl⟩ := startBlock_ok hb
    obtain ⟨hstore, hle, hnodup, hbounds⟩ := ih hrest
    have hle' : s.draws + 2 ≤ t.draws := hle
    have hbounds' : ∀ b ∈ bs, s.draws + 2 ≤ b.1.k.draw ∧ b.1.k.draw < t.draws := hbounds
    refine ⟨hstore, by omega, ?_, fun b' hb' => ?_⟩
    · rw [List.map_cons, List.nodup_cons, hdraw]
      refine ⟨fun hmem => ?_, hnodup⟩
      obtain ⟨b', hb', heq⟩ := List.mem_map.1 hmem
      have := (hbounds' b' hb').1
      omega
    · rcases List.mem_cons.1 hb' with rfl | hb'
      · omega
      · have := hbounds' b' hb'
        omega

theorem loadSigningData_ok_iff {p : OnlinePersistency A} {txid : ByteString}
    {data : EddsaSigningMetadata} :
    p.loadSigningData txid = .ok data ↔ p.metadata txid = some data := by
  rw [OnlinePersistency.loadSigningData]
  cases p.metadata txid <;> simp

theorem loadSigningCommitments_ok_iff {p : OnlinePersistency A} {txid : ByteString}
    {commitments : PlayerMap (List Commitment)} :
    p.loadSigningCommitments txid = .ok commitments ↔ p.commitments txid = some commitments := by
  rw [OnlinePersistency.loadSigningCommitments]
  cases p.commitments txid <;> simp

theorem entryAt_ok_iff {V : Type} {l : List V} {index : ℕ} {a : V} :
    entryAt l index = .ok a ↔ l[index]? = some a := by
  rw [entryAt]
  cases l[index]? <;> simp

/-- A point opens a commitment. -/
def Opens (H : HashFunctions) (c : Commitment) (R : EllipticCurvePoint) : Prop :=
  H.sha256 (c.salt.val ++ R.val) = c.commitment

theorem verifyCommitment_ok_iff {H : HashFunctions} {R : EllipticCurvePoint} {c : Commitment} :
    verifyCommitment H R c = .ok () ↔ Opens H c R := by
  rw [verifyCommitment, Opens]
  by_cases h : H.sha256 (c.salt.val ++ R.val) = c.commitment <;> simp [h]

/-- A player's points are accepted when each of them opens the commitment at its place. -/
theorem verifyDecommitment_ok_iff {H : HashFunctions} {blocks i : ℕ}
    {Rs : PlayerMap (List EllipticCurvePoint)} {points : List EllipticCurvePoint}
    {cs : List Commitment} (hpoints : Rs[i]? = some points) :
    verifyDecommitment H blocks Rs (i, cs) = .ok () ↔
      ∀ j < blocks, ∃ R c, points[j]? = some R ∧ cs[j]? = some c ∧ Opens H c R := by
  simp only [verifyDecommitment, hpoints, except_forM_ok_iff, List.mem_range, except_bind_ok_iff,
    entryAt_ok_iff, verifyCommitment_ok_iff, exists_and_left]

theorem setMetadata_self {p : OnlinePersistency A} {txid : ByteString} {data : EddsaSigningMetadata}
    (h : p.metadata txid = some data) : p.setMetadata txid data = p := by
  rw [OnlinePersistency.setMetadata, ← h, Function.update_eq_self]

theorem change_startSigning {keyId txid : ByteString} {data : SigningData}
    {metadataJson : ByteString} {players : Finset ByteString} {playersIds : Finset ℕ}
    {commitments : List Commitment}
    (h : (startSigning host keyId txid data metadataJson players playersIds).run s =
      .ok commitments t) :
    Change host s (.startSigning keyId txid data metadataJson players playersIds)
      (.ok (.commitments commitments)) t := by
  rw [startSigning, OnlineSigning.verifyTenant] at h
  obtain ⟨-, h⟩ := run_require_bind_ok_iff.1 h
  obtain ⟨metadata, -, h⟩ := run_reading_bind_ok_iff.1 h
  obtain ⟨-, h⟩ := run_require_bind_ok_iff.1 h
  obtain ⟨-, h⟩ := run_require_bind_ok_iff.1 h
  obtain ⟨-, h⟩ := run_require_bind_ok_iff.1 h
  obtain ⟨_, -, h⟩ := run_ofExcept_bind_ok_iff.1 h
  obtain ⟨-, h⟩ := run_require_bind_ok_iff.1 h
  obtain ⟨blocks, u, hblocks, h⟩ := run_bind_ok_iff.1 h
  obtain ⟨hstore, hle, hnodup, hbounds⟩ := startBlocks_ok hblocks
  obtain ⟨p, hp, h⟩ := run_writing_bind_ok_iff.1 h
  obtain ⟨rfl, rfl⟩ := run_pure_ok_iff.1 h
  rw [OnlinePersistency.storeSigningData, hstore] at hp
  by_cases hsome : (s.store.metadata txid).isSome
  · rw [if_pos hsome] at hp
    cases hp
  · rw [if_neg hsome] at hp
    obtain rfl := Except.ok.inj hp
    refine .started (by simpa using hsome) ?_ (fun d hd => ?_) hle
    · have hfst : blocks.zipIdx.map Prod.fst = blocks := List.zipIdx_map_fst 0 blocks
      rw [← hfst, List.map_map] at hnodup
      rw [List.mapIdx_eq_zipIdx_map, List.map_map]
      exact hnodup
    · obtain ⟨i, hi, rfl⟩ := List.mem_mapIdx.1 hd
      exact hbounds _ (List.getElem_mem hi)

/-- What is stored once the commitments have been checked. -/
def recordCommitments (txid : ByteString) (data : EddsaSigningMetadata)
    (commitments : PlayerMap (List Commitment)) (version : ℕ) :
    EStateM Failure (Signer A) (List EllipticCurvePoint) := do
  if data.version ≠ version then
    writing (·.updateSigningData txid { data with version := version })
  writing (·.storeSigningCommitments txid commitments)
  pure (data.sigData.map (·.R))

theorem run_storeSigningCommitments (s : Signer A) (txid : ByteString)
    (commitments : PlayerMap (List Commitment)) (points : List EllipticCurvePoint) :
    (writing (·.storeSigningCommitments txid commitments) >>= fun _ =>
      (pure points : EStateM Failure (Signer A) (List EllipticCurvePoint))).run s =
      if (s.store.commitments txid).isSome then .error invalidTransaction s
      else .ok points ⟨s.draws, s.store.setCommitments txid commitments⟩ := by
  have hrun : (writing (·.storeSigningCommitments txid commitments) :
      EStateM Failure (Signer A) Unit).run s =
        if (s.store.commitments txid).isSome then .error invalidTransaction s
        else .ok () ⟨s.draws, s.store.setCommitments txid commitments⟩ := by
    change writing _ s = _
    rw [writing, OnlinePersistency.storeSigningCommitments]
    by_cases h : (s.store.commitments txid).isSome
    · rw [if_pos h, if_pos h]
    · rw [if_neg h, if_neg h]
  rw [EStateM.run_bind, hrun]
  by_cases h : (s.store.commitments txid).isSome
  · rw [if_pos h, if_pos h]
  · rw [if_neg h, if_neg h]
    rfl

theorem run_recordCommitments {txid : ByteString} {data : EddsaSigningMetadata}
    (hdata : s.store.metadata txid = some data) (commitments : PlayerMap (List Commitment))
    (version : ℕ) : (recordCommitments txid data commitments version).run s =
      if (s.store.commitments txid).isSome then .error invalidTransaction
        ⟨s.draws, s.store.setMetadata txid { data with version := version }⟩
      else .ok (data.sigData.map (·.R))
        ⟨s.draws, (s.store.setMetadata txid { data with version := version }).setCommitments txid
          commitments⟩ := by
  rw [recordCommitments]
  by_cases hversion : data.version = version
  · subst hversion
    have hself : s.store.setMetadata txid { data with version := data.version } = s.store :=
      setMetadata_self hdata
    rw [if_neg (not_not_intro rfl), hself]
    exact run_storeSigningCommitments s txid commitments _
  · have hupdate : (writing (·.updateSigningData txid { data with version := version }) :
        EStateM Failure (Signer A) Unit).run s =
          .ok () ⟨s.draws, s.store.setMetadata txid { data with version := version }⟩ := by
      refine run_writing_ok_iff.2 ⟨_, ?_, rfl⟩
      rw [OnlinePersistency.updateSigningData, hdata, if_pos Option.isSome_some]
    rw [if_pos hversion, run_bind_of_ok hupdate]
    exact run_storeSigningCommitments _ txid commitments _

theorem change_storeCommitments {txid : ByteString} {commitments : PlayerMap (List Commitment)}
    {version : ℕ} {points : List EllipticCurvePoint}
    (h : (storeCommitments host txid commitments version).run s = .ok points t) :
    Change host s (.storeCommitments txid commitments version) (.ok (.points points)) t := by
  rw [storeCommitments, OnlineSigning.verifyTenant] at h
  obtain ⟨data, hdata, h⟩ := run_reading_bind_ok_iff.1 h
  obtain ⟨-, h⟩ := run_require_bind_ok_iff.1 h
  obtain ⟨hcomplete, h⟩ := run_require_bind_ok_iff.1 h
  obtain ⟨hown, h⟩ := run_require_bind_ok_iff.1 h
  obtain ⟨_, -, h⟩ := run_ofExcept_bind_ok_iff.1 h
  have hdata := loadSigningData_ok_iff.1 hdata
  have hrecord := (run_recordCommitments hdata commitments version).symm.trans h
  by_cases hsome : (s.store.commitments txid).isSome
  · rw [if_pos hsome] at hrecord
    cases hrecord
  · rw [if_neg hsome] at hrecord
    cases hrecord
    exact .committed hdata (by simpa using hsome) hcomplete hown

theorem change_storeCommitments_error {txid : ByteString}
    {commitments : PlayerMap (List Commitment)} {version : ℕ} {e : Failure}
    (h : (storeCommitments host txid commitments version).run s = .error e t) :
    Change host s (.storeCommitments txid commitments version) (.error e) t := by
  rw [storeCommitments, OnlineSigning.verifyTenant] at h
  rcases run_reading_bind_error_iff.1 h with ⟨-, rfl⟩ | ⟨data, hdata, h⟩
  · exact .failed (refl_of OnlyDraws t)
  rcases run_require_bind_error_iff.1 h with ⟨-, -, rfl⟩ | ⟨-, h⟩
  · exact .failed (refl_of OnlyDraws t)
  rcases run_require_bind_error_iff.1 h with ⟨-, -, rfl⟩ | ⟨-, h⟩
  · exact .failed (refl_of OnlyDraws t)
  rcases run_require_bind_error_iff.1 h with ⟨-, -, rfl⟩ | ⟨-, h⟩
  · exact .failed (refl_of OnlyDraws t)
  rcases run_ofExcept_bind_error_iff.1 h with ⟨-, rfl⟩ | ⟨_, -, h⟩
  · exact .failed (refl_of OnlyDraws t)
  have hdata := loadSigningData_ok_iff.1 hdata
  have hrecord := (run_recordCommitments hdata commitments version).symm.trans h
  by_cases hsome : (s.store.commitments txid).isSome
  · rw [if_pos hsome] at hrecord
    cases hrecord
    exact .versioned hdata
  · rw [if_neg hsome] at hrecord
    cases hrecord

theorem change_broadcastSi {txid : ByteString} {Rs : PlayerMap (List EllipticCurvePoint)}
    {shares : List Ed25519Scalar} (h : (broadcastSi host txid Rs).run s = .ok shares t) :
    Change host s (.broadcastSi txid Rs) (.ok (.shares shares)) t := by
  rw [broadcastSi, OnlineSigning.verifyTenant] at h
  obtain ⟨data, hdata, h⟩ := run_reading_bind_ok_iff.1 h
  obtain ⟨-, h⟩ := run_require_bind_ok_iff.1 h
  obtain ⟨hcomplete, h⟩ := run_require_bind_ok_iff.1 h
  obtain ⟨commitments, hcommitments, h⟩ := run_reading_bind_ok_iff.1 h
  obtain ⟨_, hopens, h⟩ := run_ofExcept_bind_ok_iff.1 h
  obtain ⟨metadata, hmetadata, h⟩ := run_reading_bind_ok_iff.1 h
  obtain ⟨key, hkey, h⟩ := run_reading_bind_ok_iff.1 h
  obtain ⟨-, h⟩ := run_require_bind_ok_iff.1 h
  obtain ⟨sigData, hsign, h⟩ := run_ofExcept_bind_ok_iff.1 h
  obtain ⟨p, hp, h⟩ := run_writing_bind_ok_iff.1 h
  obtain ⟨rfl, rfl⟩ := run_pure_ok_iff.1 h
  have hdata := loadSigningData_ok_iff.1 hdata
  rw [OnlinePersistency.updateSigningData, hdata, if_pos Option.isSome_some] at hp
  obtain rfl := Except.ok.inj hp
  exact .answered hdata (loadSigningCommitments_ok_iff.1 hcommitments) hcomplete
    (except_forM_ok_iff.1 hopens) hmetadata hkey hsign

theorem change_getEddsaSignature {txid : ByteString} {shares : PlayerMap (List Ed25519Scalar)}
    {sigs : List EddsaSignature} (h : (getEddsaSignature host txid shares).run s = .ok sigs t) :
    Change host s (.getEddsaSignature txid shares) (.ok (.signatures sigs)) t := by
  rw [getEddsaSignature, OnlineSigning.verifyTenant] at h
  obtain ⟨data, -, h⟩ := run_reading_bind_ok_iff.1 h
  obtain ⟨-, h⟩ := run_require_bind_ok_iff.1 h
  obtain ⟨-, h⟩ := run_require_bind_ok_iff.1 h
  obtain ⟨-, h⟩ := run_require_bind_ok_iff.1 h
  obtain ⟨-, h⟩ := run_require_bind_ok_iff.1 h
  obtain ⟨_, -, h⟩ := run_reading_bind_ok_iff.1 h
  obtain ⟨_, -, h⟩ := run_ofExcept_bind_ok_iff.1 h
  obtain ⟨p, hp, h⟩ := run_writing_bind_ok_iff.1 h
  obtain ⟨rfl, rfl⟩ := run_pure_ok_iff.1 h
  obtain rfl := Except.ok.inj hp
  exact .finished

/-- Every call does one of these things. -/
theorem change_exec (host : SetupHost A) (c : Call) (s : Signer A) :
    Change host s c (exec host c s).1 (exec host c s).2 := by
  rw [exec]
  cases hrun : (operation host c).run s with
  | ok out t =>
    cases c with
    | startSigning =>
      obtain ⟨_, h, rfl⟩ := run_map_ok_iff.1 hrun
      exact change_startSigning h
    | storeCommitments =>
      obtain ⟨_, h, rfl⟩ := run_map_ok_iff.1 hrun
      exact change_storeCommitments h
    | broadcastSi =>
      obtain ⟨_, h, rfl⟩ := run_map_ok_iff.1 hrun
      exact change_broadcastSi h
    | getEddsaSignature =>
      obtain ⟨_, h, rfl⟩ := run_map_ok_iff.1 hrun
      exact change_getEddsaSignature h
  | error e t =>
    cases c with
    | startSigning => exact .failed (failsKeeping_startSigning _ _ _ _ _ _ _ _ _ _
        (run_map_error_iff.1 hrun))
    | storeCommitments => exact change_storeCommitments_error (run_map_error_iff.1 hrun)
    | broadcastSi => exact .failed (failsKeeping_broadcastSi _ _ _ _ _ _
        (run_map_error_iff.1 hrun))
    | getEddsaSignature => exact .failed (failsKeeping_getEddsaSignature _ _ _ _ _ _
        (run_map_error_iff.1 hrun))

end Steps

end MpcDemo.OnlineCalls
