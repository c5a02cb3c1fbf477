import MpcDemo.AddedUsers
import MpcDemo.CallHistories

/-!
# Calls on a setup service

The setup service is called in any order with any arguments, for any keys. What one call can do to
the entries of one key is said once: it leaves them alone, or it is a step of the setup of this key.
-/

namespace MpcDemo.SetupCalls
open ByteStrings Ed25519Algebra CosignerTypes FallibleState NodeState
open SetupService (ackMessage)
open SetupServiceLaws KeySetup KeySetupLaws KeySetupSteps AddedUsers StoredDraws CallHistories

variable {A : AuxiliaryScheme}

inductive Call
  | generateSetupCommitments (keyId : ByteString) (playersIds : List ℕ) (t : ℕ)
      (deriveFrom : ShareDerivationArgs)
  | storeSetupCommitments (keyId : ByteString) (commitments : PlayerMap Commitment)
  | generateSetupProofs (keyId : ByteString) (decommitments : PlayerMap SetupDecommitment)
  | verifySetupProofs (keyId : ByteString) (proofs : PlayerMap SetupZkProofs)
  | createSecret (keyId : ByteString) (paillierLargeFactorProofs : PlayerMap (PlayerMap ByteString))
  | addUserRequest (keyId : ByteString) (algorithm : CosignerSignAlgorithm)
      (newKeyId : ByteString) (playersIds : List ℕ) (t : ℕ)
  | addUser (keyId : ByteString) (t : ℕ) (data : PlayerMap AddUserData)

inductive Output
  | commitment (setupCommitment : Commitment)
  | decommitment (decommitment : SetupDecommitment)
  | proofs (proofs : SetupZkProofs)
  | largeFactorProofs (proofs : PlayerMap ByteString)
  | publicKey (publicKey : Ed25519Point) (algorithm : CosignerSignAlgorithm)
  | addUserData (data : AddUserData)

/-- The key whose entries a call may change. -/
def Call.keyId : Call → ByteString
  | generateSetupCommitments keyId .. => keyId
  | storeSetupCommitments keyId _ => keyId
  | generateSetupProofs keyId _ => keyId
  | verifySetupProofs keyId _ => keyId
  | createSecret keyId _ => keyId
  | addUserRequest keyId .. => keyId
  | addUser keyId .. => keyId

def operation (host : SetupHost A) : Call → EStateM Failure (Party A) Output
  | .generateSetupCommitments keyId playersIds t deriveFrom =>
    Output.commitment <$> generateSetupCommitments host keyId playersIds t deriveFrom
  | .storeSetupCommitments keyId commitments =>
    Output.decommitment <$> storeSetupCommitments host keyId commitments
  | .generateSetupProofs keyId decommitments =>
    Output.proofs <$> generateSetupProofs host keyId decommitments
  | .verifySetupProofs keyId proofs =>
    Output.largeFactorProofs <$> verifySetupProofs host keyId proofs
  | .createSecret keyId proofs =>
    (fun key => Output.publicKey key.1 key.2) <$> createSecret host keyId proofs
  | .addUserRequest keyId algorithm newKeyId playersIds t =>
    Output.addUserData <$> addUserRequest host keyId algorithm newKeyId playersIds t
  | .addUser keyId t data => Output.commitment <$> addUser host keyId t data

def exec (host : SetupHost A) (c : Call) (s : Party A) : Except Failure Output × Party A :=
  match (operation host c).run s with
  | .ok out t => (.ok out, t)
  | .error e t => (.error e, t)

abbrev CallStep (A : AuxiliaryScheme) : Type := Step (Party A) Call (Except Failure Output)

/-- The entries of one key. -/
structure KeyView (A : AuxiliaryScheme) where
  info : Option (KeyInfo A)
  data : Option SetupRecord
  commitments : Option (PlayerMap Commitment)

def view (keyId : ByteString) (p : SetupPersistency A) : KeyView A :=
  ⟨p.keys keyId, p.setupData keyId, p.commitments keyId⟩

section Frames

/-- Nothing is written. -/
def SameStore (s t : Party A) : Prop := t.store = s.store

/-- Nothing is written but for one key. -/
def OnlyKey (keyId : ByteString) (s t : Party A) : Prop :=
  ∀ other, other ≠ keyId → view other t.store = view other s.store

instance : Std.Refl (SameStore (A := A)) := ⟨fun _ => rfl⟩

instance : IsTrans (Party A) SameStore := ⟨fun _ _ _ h h' => h'.trans h⟩

instance (keyId : ByteString) : Std.Refl (OnlyKey (A := A) keyId) := ⟨fun _ _ _ => rfl⟩

instance (keyId : ByteString) : IsTrans (Party A) (OnlyKey keyId) :=
  ⟨fun _ _ _ h h' other hne => (h' other hne).trans (h other hne)⟩

variable {α β : Type} {keyId : ByteString}

theorem SameStore.onlyKey {s t : Party A} (h : SameStore s t) : OnlyKey keyId s t := by
  intro other _
  rw [h]

theorem keeps_drawn : Keeps SameStore (drawn : EStateM Failure (Party A) ℕ) := by
  intro s
  refine ⟨fun n t h => ?_, fun e t h => by cases h⟩
  obtain ⟨-, rfl⟩ := run_drawn_ok_iff.1 h
  rfl

theorem keeps_drawing (x : EStateM Failure Node α) :
    Keeps SameStore (drawing x : EStateM Failure (Party A) α) := by
  intro s
  constructor
  · intro a t h
    have hrun : drawing x s = .ok a t := h
    rw [drawing] at hrun
    split at hrun
    · cases hrun
      rfl
    · cases hrun
  · intro e t h
    have hrun : drawing x s = .error e t := h
    rw [drawing] at hrun
    split at hrun
    · cases hrun
    · cases hrun
      rfl

theorem keeps_writing {g : SetupPersistency A → Except Failure (SetupPersistency A)}
    (h : ∀ p q, g p = .ok q → ∀ other, other ≠ keyId → view other q = view other p) :
    Keeps (OnlyKey keyId) (writing g) := by
  intro s
  constructor
  · intro u t ht
    obtain ⟨p, hp, rfl⟩ := run_writing_ok_iff.1 ht
    exact h s.store p hp
  · intro e t ht
    have hrun : writing g s = .error e t := ht
    rw [writing] at hrun
    split at hrun
    · cases hrun
    · cases hrun
      exact refl_of (OnlyKey keyId) s

theorem failsKeeping_writing_bind
    {g : SetupPersistency A → Except Failure (SetupPersistency A)}
    {f : Unit → EStateM Failure (Party A) β} (hf : ∀ s, ∃ b t, (f ()).run s = .ok b t) :
    FailsKeeping SameStore (writing g >>= f) := by
  intro s e t h
  rcases run_bind_error_iff.1 h with h | ⟨_, u, _, h⟩
  · have hrun : writing g s = .error e t := h
    rw [writing] at hrun
    split at hrun
    · cases hrun
    · cases hrun
      exact refl_of SameStore s
  · obtain ⟨b, v, hb⟩ := hf u
    rw [hb] at h
    cases h

variable {p q : SetupPersistency A} {other : ByteString}

theorem view_setEntry_of_ne {info : KeyInfo A} (h : other ≠ keyId) :
    view other (p.setEntry keyId info) = view other p := by
  have hkeys : (p.setEntry keyId info).keys other = p.keys other := Function.update_of_ne h _ _
  rw [view, hkeys]
  rfl

theorem view_storeSetupData_of_ne {data : SetupRecord} (h : other ≠ keyId) :
    view other (p.storeSetupData keyId data) = view other p := by
  have hdata : (p.storeSetupData keyId data).setupData other = p.setupData other :=
    Function.update_of_ne h _ _
  rw [view, hdata]
  rfl

theorem view_storeKeyMetadata_of_ne {metadata : KeyMetadata A} {allowOverride : Bool}
    (hq : p.storeKeyMetadata keyId metadata allowOverride = .ok q) (h : other ≠ keyId) :
    view other q = view other p := by
  rw [storeKeyMetadata_ok hq, view_setEntry_of_ne h]

theorem view_storeSetupCommitments_of_ne {commitments : PlayerMap Commitment}
    (hq : p.storeSetupCommitments keyId commitments = .ok q) (h : other ≠ keyId) :
    view other q = view other p := by
  rw [SetupPersistency.storeSetupCommitments] at hq
  split at hq
  · cases hq
  · obtain rfl := Except.ok.inj hq
    have hcommitments : Function.update p.commitments keyId (some commitments) other =
      p.commitments other := Function.update_of_ne h _ _
    simp only [view, hcommitments]

theorem view_withSetupCommitments_of_ne (h : other ≠ keyId) :
    view other (p.withSetupCommitments keyId) = view other p := by
  have hcommitments : (p.withSetupCommitments keyId).commitments other = p.commitments other :=
    Function.update_of_ne h _ _
  rw [view, hcommitments]
  rfl

theorem view_deleteTemporaryKeyData_of_ne {deleteKey : Bool} (h : other ≠ keyId) :
    view other (p.deleteTemporaryKeyData keyId deleteKey) = view other p := by
  have hdata : (p.deleteTemporaryKeyData keyId deleteKey).setupData other = p.setupData other :=
    Function.update_of_ne h _ _
  have hcommitments : (p.deleteTemporaryKeyData keyId deleteKey).commitments other =
    p.commitments other := Function.update_of_ne h _ _
  have hkeys : (p.deleteTemporaryKeyData keyId deleteKey).keys other = p.keys other := by
    rw [SetupPersistency.deleteTemporaryKeyData]
    cases deleteKey with
    | false => rfl
    | true => exact Function.update_of_ne h _ _
  rw [view, hkeys, hdata, hcommitments]
  rfl

variable {host : SetupHost A}

theorem SameStore.keeps {x : EStateM Failure (Party A) α} (h : Keeps SameStore x) :
    Keeps (OnlyKey keyId) x := h.mono fun _ _ hst => hst.onlyKey

theorem keeps_verifyTenant : Keeps SameStore (KeySetup.verifyTenant host) := keeps_require _ _

/-- The last writes of a commitment. -/
theorem keeps_storeShare {data : SetupData} {aux : AuxiliaryKeys} {key : Ed25519Scalar} :
    Keeps (OnlyKey keyId) (writing fun p => .ok
      (((p.storeSetupData keyId ⟨data, ∅⟩).storeAuxiliaryKeys keyId aux).storeKey keyId
        .eddsaEd25519 key) : EStateM Failure (Party A) Unit) := by
  refine keeps_writing fun p q hq other hne => ?_
  obtain rfl := Except.ok.inj hq
  rw [SetupPersistency.storeKey, view_setEntry_of_ne hne, SetupPersistency.storeAuxiliaryKeys,
    view_setEntry_of_ne hne, view_storeSetupData_of_ne hne]

theorem keeps_commitToShare {playersIds : List ℕ} {t : ℕ} {key : Ed25519Scalar}
    {pubkey : EllipticCurvePoint} :
    Keeps (OnlyKey keyId) (commitToShare host keyId playersIds t key pubkey) := by
  rw [commitToShare]
  exact (SameStore.keeps (keeps_drawing _)).bind fun _ => (keeps_ofExcept _).bind fun _ =>
    (keeps_ofExcept _).bind fun _ => (SameStore.keeps keeps_drawn).bind fun _ =>
    (SameStore.keeps keeps_drawn).bind fun _ => (keeps_ofExcept _).bind fun _ =>
    (keeps_ofExcept _).bind fun _ => (SameStore.keeps (keeps_drawing _)).bind fun _ =>
    (keeps_writing fun _ _ hq _ hne => view_storeKeyMetadata_of_ne hq hne).bind fun _ =>
    keeps_storeShare.bind fun _ => keeps_pure _

theorem failsKeeping_commitToShare {playersIds : List ℕ} {t : ℕ} {key : Ed25519Scalar}
    {pubkey : EllipticCurvePoint} :
    FailsKeeping SameStore (commitToShare host keyId playersIds t key pubkey) := by
  rw [commitToShare]
  exact .bind (keeps_drawing _) fun _ => .bind (keeps_ofExcept _) fun _ =>
    .bind (keeps_ofExcept _) fun _ => .bind keeps_drawn fun _ => .bind keeps_drawn fun _ =>
    .bind (keeps_ofExcept _) fun _ => .bind (keeps_ofExcept _) fun _ =>
    .bind (keeps_drawing _) fun _ => failsKeeping_writing_bind fun _ => ⟨_, _, rfl⟩

theorem keeps_generateSetupCommitments {playersIds : List ℕ} {t : ℕ}
    {deriveFrom : ShareDerivationArgs} :
    Keeps (OnlyKey keyId) (generateSetupCommitments host keyId playersIds t deriveFrom) := by
  rw [generateSetupCommitments]
  refine (keeps_require _ _).bind fun _ => (keeps_require _ _).bind fun _ =>
    (keeps_require _ _).bind fun _ => (keeps_require _ _).bind fun _ =>
    (keeps_inspect _).bind fun _ => (keeps_require _ _).bind fun _ => ?_
  dsimp only
  split
  · exact (keeps_ofExcept _).bind fun _ => keeps_commitToShare
  · exact (SameStore.keeps (keeps_drawing _)).bind fun _ => keeps_commitToShare

theorem failsKeeping_generateSetupCommitments {playersIds : List ℕ} {t : ℕ}
    {deriveFrom : ShareDerivationArgs} :
    FailsKeeping SameStore (generateSetupCommitments host keyId playersIds t deriveFrom) := by
  rw [generateSetupCommitments]
  refine .bind (keeps_require _ _) fun _ => .bind (keeps_require _ _) fun _ =>
    .bind (keeps_require _ _) fun _ => .bind (keeps_require _ _) fun _ =>
    .bind (keeps_inspect _) fun _ => .bind (keeps_require _ _) fun _ => ?_
  dsimp only
  split
  · exact .bind (keeps_ofExcept _) fun _ => failsKeeping_commitToShare
  · exact .bind (keeps_drawing _) fun _ => failsKeeping_commitToShare

theorem keeps_storeSetupCommitments {commitments : PlayerMap Commitment} :
    Keeps (OnlyKey keyId) (storeSetupCommitments host keyId commitments) := by
  rw [storeSetupCommitments]
  refine (SameStore.keeps keeps_verifyTenant).bind fun _ => (keeps_inspect _).bind fun _ =>
    (keeps_inspect _).bind fun _ => (keeps_inspect _).bind fun _ =>
    (keeps_require _ _).bind fun _ => (keeps_require _ _).bind fun _ => ?_
  split
  · exact keeps_ofExcept (.error _)
  · exact (keeps_ofExcept _).bind fun _ => (keeps_ofExcept _).bind fun _ =>
      (keeps_writing fun _ _ hq _ hne => view_storeSetupCommitments_of_ne hq hne).bind fun _ =>
      keeps_pure _

theorem failsKeeping_storeSetupCommitments {commitments : PlayerMap Commitment} :
    FailsKeeping SameStore (storeSetupCommitments host keyId commitments) := by
  rw [storeSetupCommitments]
  refine .bind keeps_verifyTenant fun _ => .bind (keeps_inspect _) fun _ =>
    .bind (keeps_inspect _) fun _ => .bind (keeps_inspect _) fun _ =>
    .bind (keeps_require _ _) fun _ => .bind (keeps_require _ _) fun _ => ?_
  split
  · intro s e t h
    cases h
    exact refl_of SameStore s
  · exact .bind (keeps_ofExcept _) fun _ => .bind (keeps_ofExcept _) fun _ =>
      failsKeeping_writing_bind fun _ => ⟨_, _, rfl⟩

theorem keeps_proveSetup {data : SetupRecord} {seed : Bytes 32} :
    Keeps SameStore (proveSetup host keyId data seed) := by
  rw [proveSetup]
  exact (keeps_inspect _).bind fun _ => keeps_drawn.bind fun _ => (keeps_ofExcept _).bind fun _ =>
    keeps_drawn.bind fun _ => (keeps_ofExcept _).bind fun _ => (keeps_inspect _).bind fun _ =>
    (keeps_ofExcept _).bind fun _ => keeps_pure _

theorem keeps_generateSetupProofs {decommitments : PlayerMap SetupDecommitment} :
    Keeps (OnlyKey keyId) (generateSetupProofs host keyId decommitments) := by
  rw [generateSetupProofs]
  refine (SameStore.keeps keeps_verifyTenant).bind fun _ => (keeps_inspect _).bind fun _ =>
    (keeps_writing fun p q hq other hne => ?_).bind fun _ => (keeps_inspect _).bind fun _ =>
    (keeps_ofExcept _).bind fun _ => (keeps_inspect _).bind fun _ =>
    (SameStore.keeps keeps_proveSetup).bind fun _ =>
    (keeps_writing fun p q hq other hne => ?_).bind fun _ =>
    (keeps_writing fun _ _ hq _ hne => view_storeKeyMetadata_of_ne hq hne).bind fun _ =>
    keeps_pure _
  · obtain rfl := Except.ok.inj hq
    exact view_withSetupCommitments_of_ne hne
  · obtain rfl := Except.ok.inj hq
    exact view_storeSetupData_of_ne hne

theorem keeps_proveLargeFactors {seed : Bytes 32} {aux : AuxiliaryKeys} {info : ℕ × PlayerInfo A} :
    Keeps SameStore (proveLargeFactors host keyId seed aux info) := by
  rw [proveLargeFactors]
  exact keeps_drawn.bind fun _ => (keeps_ofExcept _).bind fun _ => keeps_pure _

theorem keeps_verifySetupProofs {proofs : PlayerMap SetupZkProofs} :
    Keeps (OnlyKey keyId) (verifySetupProofs host keyId proofs) := by
  rw [verifySetupProofs]
  exact (SameStore.keeps keeps_verifyTenant).bind fun _ => (keeps_inspect _).bind fun _ =>
    (keeps_require _ _).bind fun _ => (keeps_inspect _).bind fun _ =>
    (keeps_ofExcept _).bind fun _ => (keeps_ofExcept _).bind fun _ =>
    (keeps_writing fun _ _ hq _ hne => view_storeKeyMetadata_of_ne hq hne).bind fun _ =>
    (keeps_inspect _).bind fun _ =>
    (SameStore.keeps (keeps_mapM (fun _ => keeps_proveLargeFactors) _)).bind fun _ => keeps_pure _

theorem keeps_createSecret {proofs : PlayerMap (PlayerMap ByteString)} :
    Keeps (OnlyKey keyId) (createSecret host keyId proofs) := by
  have hdelete : ∀ deleteKey, Keeps (OnlyKey keyId) (writing fun p =>
      .ok (p.deleteTemporaryKeyData keyId deleteKey) : EStateM Failure (Party A) Unit) := by
    refine fun deleteKey => keeps_writing fun p q hq other hne => ?_
    obtain rfl := Except.ok.inj hq
    exact view_deleteTemporaryKeyData_of_ne hne
  rw [createSecret]
  refine (SameStore.keeps keeps_verifyTenant).bind fun _ => (keeps_inspect _).bind fun _ =>
    (keeps_inspect _).bind fun _ => (keeps_require _ _).bind fun _ =>
    (keeps_ofExcept _).bind fun _ => (hdelete false).bind fun _ =>
    (keeps_inspect _).bind fun _ => ?_
  split
  · exact keeps_pure _
  · exact (hdelete true).bind fun _ => keeps_ofExcept (.error _)

theorem keeps_splitShare {ids : List ℕ} {lastShare : Ed25519Scalar} :
    Keeps SameStore (splitShare host ids lastShare) := by
  fun_induction splitShare host ids lastShare with
  | case1 => exact keeps_pure _
  | case2 => exact keeps_drawn.bind fun _ => keeps_pure _
  | case3 id id' ids lastShare ih =>
    exact (keeps_drawing _).bind fun _ => (keeps_ofExcept _).bind fun _ =>
      (keeps_ofExcept _).bind fun share => keeps_drawn.bind fun _ => (ih share).bind fun _ =>
      keeps_pure _

theorem keeps_addUserRequest {algorithm : CosignerSignAlgorithm} {newKeyId : ByteString}
    {playersIds : List ℕ} {t : ℕ} :
    Keeps SameStore (addUserRequest host keyId algorithm newKeyId playersIds t) := by
  rw [addUserRequest]
  exact keeps_verifyTenant.bind fun _ => (keeps_require _ _).bind fun _ =>
    (keeps_require _ _).bind fun _ => (keeps_inspect _).bind fun _ =>
    (keeps_require _ _).bind fun _ => (keeps_inspect _).bind fun _ =>
    (keeps_require _ _).bind fun _ => (keeps_require _ _).bind fun _ =>
    (keeps_require _ _).bind fun _ => (keeps_inspect _).bind fun _ =>
    (keeps_require _ _).bind fun _ => (keeps_require _ _).bind fun _ =>
    (keeps_inspect _).bind fun _ => keeps_splitShare.bind fun _ => keeps_pure _

theorem keeps_addUser {t : ℕ} {data : PlayerMap AddUserData} :
    Keeps (OnlyKey keyId) (addUser host keyId t data) := by
  rw [addUser]
  split
  · exact keeps_ofExcept (.error _)
  · exact (keeps_require _ _).bind fun _ => (keeps_require _ _).bind fun _ =>
      (keeps_require _ _).bind fun _ => (keeps_inspect _).bind fun _ =>
      (keeps_require _ _).bind fun _ => (keeps_ofExcept _).bind fun _ => keeps_commitToShare

theorem failsKeeping_addUser {t : ℕ} {data : PlayerMap AddUserData} :
    FailsKeeping SameStore (addUser host keyId t data) := by
  rw [addUser]
  split
  · intro s e t h
    cases h
    exact refl_of SameStore s
  · exact .bind (keeps_require _ _) fun _ => .bind (keeps_require _ _) fun _ =>
      .bind (keeps_require _ _) fun _ => .bind (keeps_inspect _) fun _ =>
      .bind (keeps_require _ _) fun _ => .bind (keeps_ofExcept _) fun _ =>
      failsKeeping_commitToShare

end Frames

section Steps

/-- A step of the setup of a key. -/
inductive KeyEvent
  | committed
  | stored (commitments : PlayerMap Commitment) (decommitment : SetupDecommitment)
  | proved (decommitments : PlayerMap SetupDecommitment) (proofs : SetupZkProofs)
  | verified
  | finished (publicKey : Ed25519Point)

def eventOf : Call → Output → Option KeyEvent
  | .generateSetupCommitments .., .commitment _ => some .committed
  | .addUser .., .commitment _ => some .committed
  | .storeSetupCommitments _ commitments, .decommitment own => some (.stored commitments own)
  | .generateSetupProofs _ decommitments, .proofs proofs => some (.proved decommitments proofs)
  | .verifySetupProofs .., .largeFactorProofs _ => some .verified
  | .createSecret .., .publicKey publicKey _ => some (.finished publicKey)
  | _, _ => none

def resultEvent (c : Call) : Except Failure Output → Option KeyEvent
  | .ok out => eventOf c out
  | .error _ => none

/-- The step of the setup of a key that a call is. -/
def event (keyId : ByteString) (step : CallStep A) : Option KeyEvent :=
  if step.call.keyId = keyId then resultEvent step.call step.result else none

/-- The setup data of a key, or none of it. -/
def KeyView.record (v : KeyView A) : SetupRecord :=
  v.data.getD ⟨⟨zeroBytes 32, zeroBytes 32, zeroBytes 33⟩, ∅⟩

def KeyView.commitmentsOrNone (v : KeyView A) : PlayerMap Commitment := v.commitments.getD ∅

/-- What one call does to the entries of one key. -/
inductive KeyStep (host : SetupHost A) (keyId : ByteString) (v : KeyView A) :
    Option KeyEvent → KeyView A → Prop
  | idle : KeyStep host keyId v none v
  | committed {info : KeyInfo A} {data : SetupRecord} (hnew : v.info = none) :
      KeyStep host keyId v (some .committed) ⟨some info, some data, v.commitments⟩
  | stored {info : KeyInfo A} {metadata : KeyMetadata A} {commitments : PlayerMap Commitment}
      {own : SetupDecommitment} (hinfo : v.info = some info)
      (hmetadata : info.metadata = some metadata) (hnew : v.commitments = none)
      (hmembers : ∀ i, i ∈ commitments ↔ i ∈ metadata.playersInfo)
      (hack : own.ack = ackMessage host.hash commitments) :
      KeyStep host keyId v (some (.stored commitments own)) ⟨v.info, v.data, some commitments⟩
  | looked {info : KeyInfo A} (hinfo : v.info = some info) :
      KeyStep host keyId v none ⟨v.info, v.data, some v.commitmentsOrNone⟩
  | proved {info : KeyInfo A} {metadata : KeyMetadata A} {players : PlayerMap (PlayerInfo A)}
      {decommitments : PlayerMap SetupDecommitment} {proofs : SetupZkProofs}
      (hinfo : v.info = some info) (hmetadata : info.metadata = some metadata)
      (hload : verifyAndLoadSetupDecommitments host.hash keyId v.commitmentsOrNone decommitments
        metadata.playersInfo = .ok players)
      (hprove : schnorrZkpGenerate host.algebra host.hash (buildAad keyId
        (host.service.getIdFromKeyid keyId) (seedOf decommitments)) info.privateKey
        v.record.publicKey v.record.k = .ok proofs.schnorrS) :
      KeyStep host keyId v (some (.proved decommitments proofs))
        ⟨some { info with metadata := some { metadata with
            playersInfo := players, seed := seedOf decommitments } },
          some ⟨v.record.toSetupData, pointsOf decommitments v.record.playersSchnorrR⟩,
          some v.commitmentsOrNone⟩
  | verified {info : KeyInfo A} {metadata : KeyMetadata A} {pubkey : EllipticCurvePoint}
      {event : Option KeyEvent} (hinfo : v.info = some info)
      (hmetadata : info.metadata = some metadata)
      (hsum : sumShares host.algebra metadata.playersInfo = .ok pubkey)
      (hevent : event = some .verified ∨ event = none) :
      KeyStep host keyId v event
        ⟨some { info with metadata := some { metadata with publicKey := pubkey } }, v.data,
          v.commitments⟩
  | finished {info : KeyInfo A} {metadata : KeyMetadata A} (hinfo : v.info = some info)
      (hmetadata : info.metadata = some metadata) :
      KeyStep host keyId v (some (.finished metadata.publicKey.ed25519)) ⟨v.info, none, none⟩
  | deleted : KeyStep host keyId v none ⟨none, none, none⟩

variable {host : SetupHost A} {keyId : ByteString} {s t : Party A} {p : SetupPersistency A}

theorem view_setEntry {info : KeyInfo A} :
    view keyId (p.setEntry keyId info) = { view keyId p with info := some info } := by
  rw [view, keys_setEntry, setupData_setEntry, commitments_setEntry]
  rfl

theorem view_storeSetupData {data : SetupRecord} :
    view keyId (p.storeSetupData keyId data) = { view keyId p with data := some data } := by
  have hdata : (p.storeSetupData keyId data).setupData keyId = some data :=
    Function.update_self ..
  rw [view, hdata]
  rfl

theorem view_withSetupCommitments : view keyId (p.withSetupCommitments keyId) =
    { view keyId p with commitments := some (view keyId p).commitmentsOrNone } := by
  have hcommitments : (p.withSetupCommitments keyId).commitments keyId =
    some (p.loadSetupCommitments keyId) := Function.update_self ..
  rw [view, hcommitments]
  rfl

theorem view_deleteTemporaryKeyData : view keyId (p.deleteTemporaryKeyData keyId false) =
    ⟨(view keyId p).info, none, none⟩ := by
  have hdata : (p.deleteTemporaryKeyData keyId false).setupData keyId = none :=
    Function.update_self ..
  have hcommitments : (p.deleteTemporaryKeyData keyId false).commitments keyId = none :=
    Function.update_self ..
  rw [view, hdata, hcommitments]
  rfl

theorem view_deleteKey :
    view keyId (p.deleteTemporaryKeyData keyId true) = ⟨none, none, none⟩ := by
  have hkeys : (p.deleteTemporaryKeyData keyId true).keys keyId = none := Function.update_self ..
  have hdata : (p.deleteTemporaryKeyData keyId true).setupData keyId = none :=
    Function.update_self ..
  have hcommitments : (p.deleteTemporaryKeyData keyId true).commitments keyId = none :=
    Function.update_self ..
  rw [view, hkeys, hdata, hcommitments]

theorem keyStep_of_sameStore (h : SameStore s t) :
    KeyStep host keyId (view keyId s.store) none (view keyId t.store) := by
  rw [h]
  exact .idle

theorem keyStep_commitToShare {playersIds : List ℕ} {threshold : ℕ} {key : Ed25519Scalar}
    {pubkey : EllipticCurvePoint} {c : Commitment} (hnew : s.store.keyExist keyId = false)
    (h : (commitToShare host keyId playersIds threshold key pubkey).run s = .ok c t) :
    KeyStep host keyId (view keyId s.store) (some .committed) (view keyId t.store) := by
  have hnone : (view keyId s.store).info = none :=
    Option.isNone_iff_eq_none.1 (Option.isSome_eq_false_iff.1 hnew)
  rw [commitToShare] at h
  obtain ⟨k, u₁, hk, h⟩ := run_bind_ok_iff.1 h
  obtain ⟨k', -, h⟩ := run_ofExcept_bind_ok_iff.1 h
  obtain ⟨publicKey, -, h⟩ := run_ofExcept_bind_ok_iff.1 h
  have h := run_drawn_bind_ok_iff.1 h
  have h := run_drawn_bind_ok_iff.1 h
  obtain ⟨aux, -, h⟩ := run_ofExcept_bind_ok_iff.1 h
  obtain ⟨decommitment, -, h⟩ := run_ofExcept_bind_ok_iff.1 h
  obtain ⟨commitment, u₂, hcommitment, h⟩ := run_bind_ok_iff.1 h
  obtain ⟨q, hq, h⟩ := run_writing_bind_ok_iff.1 h
  obtain ⟨r, hr, h⟩ := run_writing_bind_ok_iff.1 h
  obtain ⟨-, rfl⟩ := run_pure_ok_iff.1 h
  have hu₁ : u₁.store = s.store := (keeps_drawing _ s).1 k u₁ hk
  have hkept := (keeps_drawing _ _).1 commitment u₂ hcommitment
  have hu₂ : u₂.store = u₁.store := hkept
  obtain rfl := Except.ok.inj hr
  let info : KeyInfo A := { u₂.store.entry keyId with
    metadata := some (initialMetadata playersIds threshold pubkey) }
  have hview : view keyId q = { view keyId s.store with info := some info } := by
    rw [storeKeyMetadata_ok hq, view_setEntry]
    change { view keyId u₂.store with info := some info } = _
    rw [hu₂, hu₁]
  simp only [SetupPersistency.storeKey, SetupPersistency.storeAuxiliaryKeys, view_setEntry,
    view_storeSetupData, hview]
  exact .committed hnone

theorem keyStep_generateSetupCommitments {playersIds : List ℕ} {threshold : ℕ}
    {deriveFrom : ShareDerivationArgs} {c : Commitment}
    (h : (generateSetupCommitments host keyId playersIds threshold deriveFrom).run s = .ok c t) :
    KeyStep host keyId (view keyId s.store) (some .committed) (view keyId t.store) := by
  rw [generateSetupCommitments] at h
  obtain ⟨-, h⟩ := run_require_bind_ok_iff.1 h
  obtain ⟨-, h⟩ := run_require_bind_ok_iff.1 h
  obtain ⟨-, h⟩ := run_require_bind_ok_iff.1 h
  obtain ⟨-, h⟩ := run_require_bind_ok_iff.1 h
  obtain ⟨exists_, hexists, h⟩ := run_reading_bind_ok_iff.1 h
  obtain rfl := Except.ok.inj hexists
  obtain ⟨hnew, h⟩ := run_require_bind_ok_iff.1 h
  dsimp only at h
  split at h
  · obtain ⟨key, -, h⟩ := run_ofExcept_bind_ok_iff.1 h
    exact keyStep_commitToShare hnew h
  · obtain ⟨key, u, hkey, h⟩ := run_bind_ok_iff.1 h
    have hu : u.store = s.store := (keeps_drawing _ s).1 key u hkey
    rw [← hu] at hnew ⊢
    exact keyStep_commitToShare hnew h

theorem keyStep_addUser {threshold : ℕ} {data : PlayerMap AddUserData} {c : Commitment}
    (h : (addUser host keyId threshold data).run s = .ok c t) :
    KeyStep host keyId (view keyId s.store) (some .committed) (view keyId t.store) := by
  rw [addUser] at h
  split at h
  · cases h
  · obtain ⟨-, h⟩ := run_require_bind_ok_iff.1 h
    obtain ⟨-, h⟩ := run_require_bind_ok_iff.1 h
    obtain ⟨-, h⟩ := run_require_bind_ok_iff.1 h
    obtain ⟨exists_, hexists, h⟩ := run_reading_bind_ok_iff.1 h
    obtain rfl := Except.ok.inj hexists
    obtain ⟨hnew, h⟩ := run_require_bind_ok_iff.1 h
    obtain ⟨key, -, h⟩ := run_ofExcept_bind_ok_iff.1 h
    exact keyStep_commitToShare hnew h

theorem keyStep_storeSetupCommitments {commitments : PlayerMap Commitment}
    {own : SetupDecommitment}
    (h : (storeSetupCommitments host keyId commitments).run s = .ok own t) :
    KeyStep host keyId (view keyId s.store) (some (.stored commitments own))
      (view keyId t.store) := by
  rw [storeSetupCommitments, KeySetup.verifyTenant] at h
  obtain ⟨-, h⟩ := run_require_bind_ok_iff.1 h
  obtain ⟨data, -, h⟩ := run_reading_bind_ok_iff.1 h
  obtain ⟨aux, -, h⟩ := run_reading_bind_ok_iff.1 h
  obtain ⟨metadata, hmetadata, h⟩ := run_reading_bind_ok_iff.1 h
  obtain ⟨hsize, h⟩ := run_require_bind_ok_iff.1 h
  obtain ⟨hmembers, h⟩ := run_require_bind_ok_iff.1 h
  obtain ⟨info, hinfo, hmetadata⟩ := loadKeyMetadata_ok_iff.1 hmetadata
  cases hcommit : commitments[host.service.getIdFromKeyid keyId]? with
  | none =>
    simp only [hcommit] at h
    cases h
  | some commit =>
    simp only [hcommit, createSetupDecommitment_eq] at h
    obtain ⟨own', hown, h⟩ := run_ofExcept_bind_ok_iff.1 h
    obtain rfl := Except.ok.inj hown
    obtain ⟨_, -, h⟩ := run_ofExcept_bind_ok_iff.1 h
    obtain ⟨q, hq, h⟩ := run_writing_bind_ok_iff.1 h
    obtain ⟨rfl, rfl⟩ := run_pure_ok_iff.1 h
    rw [SetupPersistency.storeSetupCommitments] at hq
    split at hq
    · cases hq
    · rename_i hnew
      obtain rfl := Except.ok.inj hq
      have hview : view keyId { s.store with
          commitments := Function.update s.store.commitments keyId (some commitments) } =
          { view keyId s.store with commitments := some commitments } := by
        have hself : Function.update s.store.commitments keyId (some commitments) keyId =
          some commitments := Function.update_self ..
        simp only [view, hself]
      rw [hview]
      exact .stored hinfo hmetadata (Option.not_isSome_iff_eq_none.1 hnew)
        (mem_iff_of_size hsize hmembers) rfl

theorem proveSetup_ok {data : SetupRecord} {seed : Bytes 32} {proofs : SetupZkProofs}
    (h : (proveSetup host keyId data seed).run s = .ok proofs t) :
    t.store = s.store ∧ ∃ key, s.store.loadKey keyId = .ok key ∧
      schnorrZkpGenerate host.algebra host.hash
        (buildAad keyId (host.service.getIdFromKeyid keyId) seed) key.2 data.publicKey data.k =
          .ok proofs.schnorrS := by
  have hstore : t.store = s.store := (keeps_proveSetup s).1 proofs t h
  rw [proveSetup] at h
  obtain ⟨aux, -, h⟩ := run_reading_bind_ok_iff.1 h
  have h := run_drawn_bind_ok_iff.1 h
  obtain ⟨blum, -, h⟩ := run_ofExcept_bind_ok_iff.1 h
  have h := run_drawn_bind_ok_iff.1 h
  obtain ⟨ring, -, h⟩ := run_ofExcept_bind_ok_iff.1 h
  obtain ⟨key, hkey, h⟩ := run_reading_bind_ok_iff.1 h
  obtain ⟨schnorrS, hprove, h⟩ := run_ofExcept_bind_ok_iff.1 h
  obtain ⟨rfl, -⟩ := run_pure_ok_iff.1 h
  exact ⟨hstore, key, hkey, hprove⟩

theorem keyStep_generateSetupProofs {decommitments : PlayerMap SetupDecommitment}
    {proofs : SetupZkProofs}
    (h : (generateSetupProofs host keyId decommitments).run s = .ok proofs t) :
    KeyStep host keyId (view keyId s.store) (some (.proved decommitments proofs))
      (view keyId t.store) := by
  rw [generateSetupProofs, KeySetup.verifyTenant] at h
  obtain ⟨-, h⟩ := run_require_bind_ok_iff.1 h
  obtain ⟨metadata, hmetadata, h⟩ := run_reading_bind_ok_iff.1 h
  obtain ⟨q₀, hq₀, h⟩ := run_writing_bind_ok_iff.1 h
  obtain rfl := Except.ok.inj hq₀
  obtain ⟨commitments, hcommitments, h⟩ := run_reading_bind_ok_iff.1 h
  obtain rfl := Except.ok.inj hcommitments
  obtain ⟨players, hload, h⟩ := run_ofExcept_bind_ok_iff.1 h
  obtain ⟨data, hdata, h⟩ := run_reading_bind_ok_iff.1 h
  obtain rfl := Except.ok.inj hdata
  obtain ⟨proofs', u, hproofs, h⟩ := run_bind_ok_iff.1 h
  obtain ⟨q, hq, h⟩ := run_writing_bind_ok_iff.1 h
  obtain ⟨r, hr, h⟩ := run_writing_bind_ok_iff.1 h
  obtain ⟨rfl, rfl⟩ := run_pure_ok_iff.1 h
  obtain ⟨hstore, key, hkey, hprove⟩ := proveSetup_ok hproofs
  obtain ⟨info, hinfo, hmetadata⟩ := loadKeyMetadata_ok_iff.1 hmetadata
  have hinfo₀ : (s.store.withSetupCommitments keyId).keys keyId = some info := hinfo
  obtain rfl := Except.ok.inj ((loadKey_eq hinfo₀).symm.trans hkey)
  obtain rfl := Except.ok.inj hq
  have hentry : ∀ data, (u.store.storeSetupData keyId data).entry keyId = info := by
    intro data
    have hkeys : (u.store.storeSetupData keyId data).keys keyId = some info := by
      rw [hstore]
      exact hinfo
    rw [SetupPersistency.entry, hkeys, Option.getD_some]
  have hview := congrArg (view keyId) (storeKeyMetadata_ok hr)
  rw [hentry, view_setEntry, view_storeSetupData, hstore, view_withSetupCommitments] at hview
  rw [hview]
  have hloaded : (s.store.withSetupCommitments keyId).loadSetupCommitments keyId =
      (view keyId s.store).commitmentsOrNone := by
    change (view keyId (s.store.withSetupCommitments keyId)).commitmentsOrNone = _
    rw [view_withSetupCommitments]
    rfl
  rw [hloaded] at hload
  exact .proved hinfo hmetadata hload hprove

theorem keyStep_storePublicKey {metadata : KeyMetadata A} {pubkey : EllipticCurvePoint}
    {q : SetupPersistency A} (hmetadata : s.store.loadKeyMetadata keyId = .ok metadata)
    (hpubkey : checkedPublicKey host metadata = .ok pubkey)
    (hq : s.store.storeKeyMetadata keyId { metadata with publicKey := pubkey } true = .ok q)
    {event : Option KeyEvent} (hevent : event = some .verified ∨ event = none) :
    KeyStep host keyId (view keyId s.store) event (view keyId q) := by
  obtain ⟨info, hinfo, hmetadata⟩ := loadKeyMetadata_ok_iff.1 hmetadata
  have hentry : s.store.entry keyId = info := by
    rw [SetupPersistency.entry, hinfo, Option.getD_some]
  rw [storeKeyMetadata_ok hq, hentry, view_setEntry]
  refine .verified hinfo hmetadata ?_ hevent
  rw [checkedPublicKey] at hpubkey
  obtain ⟨sum, hsum, hpubkey⟩ := except_bind_ok_iff.1 hpubkey
  split at hpubkey
  · cases hpubkey
  · rw [hsum, hpubkey]

theorem keyStep_verifySetupProofs {proofs : PlayerMap SetupZkProofs}
    {large : PlayerMap ByteString}
    (h : (verifySetupProofs host keyId proofs).run s = .ok large t) :
    KeyStep host keyId (view keyId s.store) (some .verified) (view keyId t.store) := by
  rw [verifySetupProofs, KeySetup.verifyTenant] at h
  obtain ⟨-, h⟩ := run_require_bind_ok_iff.1 h
  obtain ⟨metadata, hmetadata, h⟩ := run_reading_bind_ok_iff.1 h
  obtain ⟨-, h⟩ := run_require_bind_ok_iff.1 h
  obtain ⟨data, -, h⟩ := run_reading_bind_ok_iff.1 h
  obtain ⟨_, -, h⟩ := run_ofExcept_bind_ok_iff.1 h
  obtain ⟨pubkey, hpubkey, h⟩ := run_ofExcept_bind_ok_iff.1 h
  obtain ⟨q, hq, h⟩ := run_writing_bind_ok_iff.1 h
  obtain ⟨aux, -, h⟩ := run_reading_bind_ok_iff.1 h
  obtain ⟨entries, u, hentries, h⟩ := run_bind_ok_iff.1 h
  obtain ⟨-, rfl⟩ := run_pure_ok_iff.1 h
  have hkept := (keeps_mapM (fun _ => keeps_proveLargeFactors) _ _).1 entries u hentries
  have hstore : u.store = q := hkept
  rw [hstore]
  exact keyStep_storePublicKey hmetadata hpubkey hq (Or.inl rfl)

theorem keyStep_createSecret {proofs : PlayerMap (PlayerMap ByteString)}
    {out : Ed25519Point × CosignerSignAlgorithm}
    (h : (createSecret host keyId proofs).run s = .ok out t) :
    KeyStep host keyId (view keyId s.store) (some (.finished out.1)) (view keyId t.store) := by
  rw [createSecret, KeySetup.verifyTenant] at h
  obtain ⟨-, h⟩ := run_require_bind_ok_iff.1 h
  obtain ⟨metadata, hmetadata, h⟩ := run_reading_bind_ok_iff.1 h
  obtain ⟨aux, -, h⟩ := run_reading_bind_ok_iff.1 h
  obtain ⟨-, h⟩ := run_require_bind_ok_iff.1 h
  obtain ⟨_, -, h⟩ := run_ofExcept_bind_ok_iff.1 h
  obtain ⟨q, hq, h⟩ := run_writing_bind_ok_iff.1 h
  obtain ⟨key, -, h⟩ := run_reading_bind_ok_iff.1 h
  obtain rfl := Except.ok.inj hq
  obtain ⟨info, hinfo, hmetadata⟩ := loadKeyMetadata_ok_iff.1 hmetadata
  split at h
  · obtain ⟨rfl, rfl⟩ := run_pure_ok_iff.1 h
    rw [view_deleteTemporaryKeyData]
    exact .finished hinfo hmetadata
  · obtain ⟨_, -, h⟩ := run_writing_bind_ok_iff.1 h
    cases h

variable {e : Failure}

theorem run_writing_bind_error {β : Type} {g : SetupPersistency A → SetupPersistency A}
    {f : Unit → EStateM Failure (Party A) β}
    (h : (writing (fun p => .ok (g p)) >>= f).run s = .error e t) :
    (f ()).run ⟨s.draws, g s.store⟩ = .error e t := h

/-- The commitments have been looked for when the proofs fail. -/
theorem keyStep_generateSetupProofs_error {decommitments : PlayerMap SetupDecommitment}
    (h : (generateSetupProofs host keyId decommitments).run s = .error e t) :
    KeyStep host keyId (view keyId s.store) none (view keyId t.store) := by
  rw [generateSetupProofs, KeySetup.verifyTenant] at h
  rcases run_require_bind_error_iff.1 h with ⟨-, -, rfl⟩ | ⟨-, h⟩
  · exact .idle
  rcases run_reading_bind_error_iff.1 h with ⟨-, rfl⟩ | ⟨metadata, hmetadata, h⟩
  · exact .idle
  have h := run_writing_bind_error h
  obtain ⟨info, hinfo, -⟩ := loadKeyMetadata_ok_iff.1 hmetadata
  have hstore : SameStore ⟨s.draws, s.store.withSetupCommitments keyId⟩ t := by
    refine FailsKeeping.bind (keeps_inspect _) (fun _ => .bind (keeps_ofExcept _) fun _ =>
      .bind (keeps_inspect _) fun _ => .bind keeps_proveSetup fun _ =>
      failsKeeping_writing_bind fun _ => ?_) _ e t h
    exact ⟨_, _, rfl⟩
  rw [hstore, view_withSetupCommitments]
  exact .looked hinfo

theorem keyStep_verifySetupProofs_error {proofs : PlayerMap SetupZkProofs}
    (h : (verifySetupProofs host keyId proofs).run s = .error e t) :
    KeyStep host keyId (view keyId s.store) none (view keyId t.store) := by
  rw [verifySetupProofs, KeySetup.verifyTenant] at h
  rcases run_require_bind_error_iff.1 h with ⟨-, -, rfl⟩ | ⟨-, h⟩
  · exact .idle
  rcases run_reading_bind_error_iff.1 h with ⟨-, rfl⟩ | ⟨metadata, hmetadata, h⟩
  · exact .idle
  rcases run_require_bind_error_iff.1 h with ⟨-, -, rfl⟩ | ⟨-, h⟩
  · exact .idle
  rcases run_reading_bind_error_iff.1 h with ⟨-, rfl⟩ | ⟨data, -, h⟩
  · exact .idle
  rcases run_ofExcept_bind_error_iff.1 h with ⟨-, rfl⟩ | ⟨_, -, h⟩
  · exact .idle
  rcases run_ofExcept_bind_error_iff.1 h with ⟨-, rfl⟩ | ⟨pubkey, hpubkey, h⟩
  · exact .idle
  rcases run_bind_error_iff.1 h with h | ⟨_, u, hwrite, h⟩
  · have hsame := failsKeeping_writing_bind (f := fun _ => pure ()) (fun s => ⟨(), s, rfl⟩) s e t
      (run_bind_error_iff.2 (Or.inl h))
    exact keyStep_of_sameStore hsame
  · obtain ⟨q, hq, rfl⟩ := run_writing_ok_iff.1 hwrite
    have hkept := Keeps.bind (keeps_inspect _) (fun _ => Keeps.bind
      (keeps_mapM (fun _ => keeps_proveLargeFactors) _) fun _ => keeps_pure _) _ |>.2 e t h
    have hstore : t.store = q := hkept
    rw [hstore]
    exact keyStep_storePublicKey hmetadata hpubkey hq (Or.inr rfl)

theorem keyStep_createSecret_error {proofs : PlayerMap (PlayerMap ByteString)}
    (h : (createSecret host keyId proofs).run s = .error e t) :
    KeyStep host keyId (view keyId s.store) none (view keyId t.store) := by
  rw [createSecret, KeySetup.verifyTenant] at h
  rcases run_require_bind_error_iff.1 h with ⟨-, -, rfl⟩ | ⟨-, h⟩
  · exact .idle
  rcases run_reading_bind_error_iff.1 h with ⟨-, rfl⟩ | ⟨metadata, hmetadata, h⟩
  · exact .idle
  rcases run_reading_bind_error_iff.1 h with ⟨-, rfl⟩ | ⟨aux, -, h⟩
  · exact .idle
  rcases run_require_bind_error_iff.1 h with ⟨-, -, rfl⟩ | ⟨-, h⟩
  · exact .idle
  rcases run_ofExcept_bind_error_iff.1 h with ⟨-, rfl⟩ | ⟨_, -, h⟩
  · exact .idle
  have h := run_writing_bind_error h
  obtain ⟨info, hinfo, -⟩ := loadKeyMetadata_ok_iff.1 hmetadata
  have hkeys : (s.store.deleteTemporaryKeyData keyId false).keys keyId = some info := hinfo
  rcases run_reading_bind_error_iff.1 h with ⟨hkey, -⟩ | ⟨key, -, h⟩
  · rw [loadKey_eq hkeys] at hkey
    cases hkey
  · split at h
    · cases h
    · have h := run_writing_bind_error h
      cases h
      change KeyStep host keyId _ none (view keyId
        ((s.store.deleteTemporaryKeyData keyId false).deleteTemporaryKeyData keyId true))
      rw [view_deleteKey]
      exact .deleted

end Steps

section Calls
variable {host : SetupHost A} {keyId : ByteString} {s t : Party A}

theorem onlyKey_operation (c : Call) : Keeps (OnlyKey c.keyId) (operation host c) := by
  cases c with
  | generateSetupCommitments => exact keeps_map keeps_generateSetupCommitments _
  | storeSetupCommitments => exact keeps_map keeps_storeSetupCommitments _
  | generateSetupProofs => exact keeps_map keeps_generateSetupProofs _
  | verifySetupProofs => exact keeps_map keeps_verifySetupProofs _
  | createSecret => exact keeps_map keeps_createSecret _
  | addUserRequest => exact keeps_map (SameStore.keeps keeps_addUserRequest) _
  | addUser => exact keeps_map keeps_addUser _

theorem keyStep_ok {c : Call} {out : Output} (h : (operation host c).run s = .ok out t) :
    KeyStep host c.keyId (view c.keyId s.store) (eventOf c out) (view c.keyId t.store) := by
  cases c with
  | generateSetupCommitments =>
    obtain ⟨c, hrun, rfl⟩ := run_map_ok_iff.1 h
    exact keyStep_generateSetupCommitments hrun
  | storeSetupCommitments =>
    obtain ⟨own, hrun, rfl⟩ := run_map_ok_iff.1 h
    exact keyStep_storeSetupCommitments hrun
  | generateSetupProofs =>
    obtain ⟨proofs, hrun, rfl⟩ := run_map_ok_iff.1 h
    exact keyStep_generateSetupProofs hrun
  | verifySetupProofs =>
    obtain ⟨large, hrun, rfl⟩ := run_map_ok_iff.1 h
    exact keyStep_verifySetupProofs hrun
  | createSecret =>
    obtain ⟨key, hrun, rfl⟩ := run_map_ok_iff.1 h
    exact keyStep_createSecret hrun
  | addUserRequest =>
    obtain ⟨data, hrun, rfl⟩ := run_map_ok_iff.1 h
    exact keyStep_of_sameStore ((keeps_addUserRequest s).1 data t hrun)
  | addUser =>
    obtain ⟨c, hrun, rfl⟩ := run_map_ok_iff.1 h
    exact keyStep_addUser hrun

theorem keyStep_error {c : Call} {e : Failure} (h : (operation host c).run s = .error e t) :
    KeyStep host c.keyId (view c.keyId s.store) none (view c.keyId t.store) := by
  cases c with
  | generateSetupCommitments =>
    exact keyStep_of_sameStore (failsKeeping_generateSetupCommitments s e t (run_map_error_iff.1 h))
  | storeSetupCommitments =>
    exact keyStep_of_sameStore (failsKeeping_storeSetupCommitments s e t (run_map_error_iff.1 h))
  | generateSetupProofs => exact keyStep_generateSetupProofs_error (run_map_error_iff.1 h)
  | verifySetupProofs => exact keyStep_verifySetupProofs_error (run_map_error_iff.1 h)
  | createSecret => exact keyStep_createSecret_error (run_map_error_iff.1 h)
  | addUserRequest =>
    exact keyStep_of_sameStore ((keeps_addUserRequest s).2 e t (run_map_error_iff.1 h))
  | addUser => exact keyStep_of_sameStore (failsKeeping_addUser s e t (run_map_error_iff.1 h))

/-- What a call does to the entries of a key. -/
theorem keyStep_exec (c : Call) (s : Party A) (keyId : ByteString) :
    KeyStep host keyId (view keyId s.store) (event keyId (perform (exec host) c s))
      (view keyId (exec host c s).2.store) := by
  change KeyStep host keyId _
    (if c.keyId = keyId then resultEvent c (exec host c s).1 else none) _
  by_cases hkey : c.keyId = keyId
  · obtain rfl := hkey
    rw [if_pos rfl, exec]
    cases h : (operation host c).run s with
    | ok out t => exact keyStep_ok h
    | error e t => exact keyStep_error h
  · rw [if_neg hkey]
    have hview : view keyId (exec host c s).2.store = view keyId s.store := by
      rw [exec]
      cases h : (operation host c).run s with
      | ok out t => exact (onlyKey_operation c s).1 out t h keyId (Ne.symm hkey)
      | error e t => exact (onlyKey_operation c s).2 e t h keyId (Ne.symm hkey)
    rw [hview]
    exact .idle

/-- Runs of a setup service that starts with no keys. Others may make draws between the calls. -/
abbrev SetupRun (host : SetupHost A) : List (CallStep A) → Party A → Prop :=
  Run (exec host) (fun s => s.store = .empty) SameStore

/-- What the steps preserve of the entries of a key holds after every run. -/
theorem SetupRun.invariant {I : List (CallStep A) → KeyView A → Prop}
    {history : List (CallStep A)} (h : SetupRun host history s) (hstart : I [] ⟨none, none, none⟩)
    (hstep : ∀ history step v v', I history v → KeyStep host keyId v (event keyId step) v' →
      I (step :: history) v') : I history (view keyId s.store) := by
  refine Run.invariant (I := fun history s => I history (view keyId s.store))
    (fun s hs => ?_) (fun history s t hI hst => ?_) (fun history s c hI => ?_) h
  · rw [hs]
    exact hstart
  · rw [hst]
    exact hI
  · exact hstep _ _ _ _ hI (keyStep_exec c s keyId)

end Calls

section Concrete
open KeySetupSessions NodePrograms

/-- The last replies of two players to the same calls. -/
def replies {V : Type} (pick : Output → Option V) (calls : List Call) : PlayerMap V :=
  ofEntries ([1, 2].filterMap fun i =>
    match (follow (exec (concretePlayers.host i)) Party.initial calls).1 with
    | [] => none
    | last :: _ =>
      match last.result with
      | .ok out => (pick out).map fun v => (i, v)
      | .error _ => none)

/-- The calls by which two players set up a key, the latest first. -/
def pairCommits : List Call := [.generateSetupCommitments (ascii "key") [1, 2] 2 ⟨[], []⟩]

def pairStores : List Call :=
  .storeSetupCommitments (ascii "key") (replies (fun
    | .commitment c => some c
    | _ => none) pairCommits) :: pairCommits

def pairProves : List Call :=
  .generateSetupProofs (ascii "key") (replies (fun
    | .decommitment d => some d
    | _ => none) pairStores) :: pairStores

end Concrete

end MpcDemo.SetupCalls
