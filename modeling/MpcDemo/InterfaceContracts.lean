import MpcDemo.TotalRuns
import MpcDemo.PreprocessingContract
import MpcDemo.AsymmetricEddsaCosignerServer
import MpcDemo.AsymmetricEddsaCosignerClient

/-!
# Persistencies that meet their contracts

What the cosigners rely on of the stores of a party, whatever a store looks like: a view of what
it holds, and calls that succeed and change the view as the interface says whenever the interface
lets them.
-/

namespace MpcDemo.InterfaceContracts
open ByteStrings Ed25519Algebra CosignerTypes AsymmetricEddsaCosigner FallibleState TotalRuns
open PreprocessingContract (ConsumeOnceArray)
open AsymmetricEddsaCosignerServer (Server)
open AsymmetricEddsaCosignerClient (Client)

variable {σ V : Type}

section Keys

def SameKeys (keys : CmpKeyPersistency σ) (s t : σ) : Prop :=
  ∀ keyId, keys.getTenantidFromKeyid keyId t = keys.getTenantidFromKeyid keyId s ∧
    keys.loadKeyMetadata keyId t = keys.loadKeyMetadata keyId s ∧
    keys.loadKey keyId t = keys.loadKey keyId s

/-- The keys stay, and the store looks as given. -/
def Leaves (keys : CmpKeyPersistency σ) (view : σ → V) (v : V) (s t : σ) : Prop :=
  SameKeys keys s t ∧ view t = v

structure StoresKey (keys : CmpKeyPersistency σ) (keyId tenant : ByteString)
    (metadata : CmpKeyMetadata) (key : Ed25519Scalar) (s : σ) : Prop where
  tenant : keys.getTenantidFromKeyid keyId s = tenant
  metadata : keys.loadKeyMetadata keyId s = .ok metadata
  key : keys.loadKey keyId s = .ok (.eddsaEd25519, key)

variable {keys : CmpKeyPersistency σ} {view : σ → V} {s t u : σ} {v w : V}

theorem SameKeys.refl (keys : CmpKeyPersistency σ) (s : σ) : SameKeys keys s s :=
  fun _ => ⟨rfl, rfl, rfl⟩

theorem SameKeys.trans (hst : SameKeys keys s t) (htu : SameKeys keys t u) : SameKeys keys s u :=
  fun keyId => ⟨(htu keyId).1.trans (hst keyId).1, (htu keyId).2.1.trans (hst keyId).2.1,
    (htu keyId).2.2.trans (hst keyId).2.2⟩

theorem Leaves.trans (hst : Leaves keys view v s t) (htu : Leaves keys view w t u) :
    Leaves keys view w s u := ⟨hst.1.trans htu.1, htu.2⟩

theorem StoresKey.of_sameKeys {keyId tenant : ByteString} {metadata : CmpKeyMetadata}
    {key : Ed25519Scalar} (h : StoresKey keys keyId tenant metadata key s)
    (hst : SameKeys keys s t) : StoresKey keys keyId tenant metadata key t := by
  obtain ⟨htenant, hmetadata, hkey⟩ := hst keyId
  exact ⟨htenant.trans h.tenant, hmetadata.trans h.metadata, hkey.trans h.key⟩

theorem returns_verifyTenantId_bind {α : Type} {service : PlatformService}
    {keyId tenant : ByteString} {metadata : CmpKeyMetadata} {key : Ed25519Scalar}
    {f : Unit → EStateM Failure σ α} {post : α → σ → Prop}
    (h : StoresKey keys keyId tenant metadata key s) (htenant : service.getCurrentTenantid = tenant)
    (hf : Returns (f ()) s post) : Returns (verifyTenantId service keys keyId >>= f) s post :=
  .bind_of_run (run_verifyTenantId_ok_iff.2 ⟨htenant.trans h.tenant.symm, rfl⟩) hf

/-- The source of random scalars works and leaves the stores alone. -/
def DrawsScalars (keys : CmpKeyPersistency σ) (view : σ → V)
    (rand : EStateM Failure σ (Except AlgebraStatus DrawnScalar)) : Prop :=
  ∀ s, Returns rand s fun r t =>
    (∃ k, r = .ok k ∧ beValue k.value.val < order) ∧ Leaves keys view (view s) s t

end Keys

section Stores

/-- What a server's store holds. -/
structure ServerStore where
  preprocessed : ByteString → Option (ConsumeOnceArray EddsaCommitment)
  commitments : ByteString → Option (PlayerMap (List EddsaCommitment))
  signingData : ByteString → Option AsymmetricEddsaSigningMetadata

namespace ServerStore

def setPreprocessed (v : ServerStore) (keyId : ByteString)
    (array : ConsumeOnceArray EddsaCommitment) : ServerStore :=
  { v with preprocessed := Function.update v.preprocessed keyId (some array) }

def setCommitments (v : ServerStore) (txid : ByteString)
    (commitments : Option (PlayerMap (List EddsaCommitment))) : ServerStore :=
  { v with commitments := Function.update v.commitments txid commitments }

def setSigningData (v : ServerStore) (txid : ByteString)
    (data : Option AsymmetricEddsaSigningMetadata) : ServerStore :=
  { v with signingData := Function.update v.signingData txid data }

variable (v : ServerStore) (keyId txid : ByteString) (array : ConsumeOnceArray EddsaCommitment)

@[simp] theorem preprocessed_setPreprocessed :
    (v.setPreprocessed keyId array).preprocessed keyId = some array := Function.update_self ..

@[simp] theorem setPreprocessed_setPreprocessed (array' : ConsumeOnceArray EddsaCommitment) :
    (v.setPreprocessed keyId array).setPreprocessed keyId array' =
      v.setPreprocessed keyId array' := by
  simp only [setPreprocessed, Function.update_idem]

@[simp] theorem commitments_setPreprocessed :
    (v.setPreprocessed keyId array).commitments = v.commitments := rfl

@[simp] theorem signingData_setPreprocessed :
    (v.setPreprocessed keyId array).signingData = v.signingData := rfl

@[simp] theorem commitments_setCommitments (c : Option (PlayerMap (List EddsaCommitment))) :
    (v.setCommitments txid c).commitments txid = c := Function.update_self ..

@[simp] theorem signingData_setCommitments (c : Option (PlayerMap (List EddsaCommitment))) :
    (v.setCommitments txid c).signingData = v.signingData := rfl

@[simp] theorem preprocessed_setCommitments (c : Option (PlayerMap (List EddsaCommitment))) :
    (v.setCommitments txid c).preprocessed = v.preprocessed := rfl

@[simp] theorem signingData_setSigningData (d : Option AsymmetricEddsaSigningMetadata) :
    (v.setSigningData txid d).signingData txid = d := Function.update_self ..

@[simp] theorem commitments_setSigningData (d : Option AsymmetricEddsaSigningMetadata) :
    (v.setSigningData txid d).commitments = v.commitments := rfl

@[simp] theorem preprocessed_setSigningData (d : Option AsymmetricEddsaSigningMetadata) :
    (v.setSigningData txid d).preprocessed = v.preprocessed := rfl

end ServerStore

/-- The contract of a server's persistency, as far as a session goes. An array is created and
signing data and commitments are first stored where there is nothing yet. -/
structure ServerContract (S : Server σ) (view : σ → ServerStore) : Prop where
  rand : DrawsScalars S.keyPersistency view S.rand
  createPreprocessedData : ∀ s keyId size, (view s).preprocessed keyId = none →
    Returns (S.signingPersistency.createPreprocessedData keyId size) s fun _ t =>
      Leaves S.keyPersistency view ((view s).setPreprocessed keyId (.create size)) s t
  storePreprocessedData : ∀ s keyId array index RCommitment array',
    (view s).preprocessed keyId = some array → array.store index RCommitment = some array' →
    Returns (S.signingPersistency.storePreprocessedData keyId index RCommitment) s fun _ t =>
      Leaves S.keyPersistency view ((view s).setPreprocessed keyId array') s t
  loadPreprocessedData : ∀ s keyId array index RCommitment array',
    (view s).preprocessed keyId = some array → array.load index = some (RCommitment, array') →
    Returns (S.signingPersistency.loadPreprocessedData keyId index) s fun c t => c = RCommitment ∧
      Leaves S.keyPersistency view ((view s).setPreprocessed keyId array') s t
  storeCommitments : ∀ s txid commitments, (view s).commitments txid = none →
    Returns (S.signingPersistency.storeCommitments txid commitments) s fun _ t =>
      Leaves S.keyPersistency view ((view s).setCommitments txid (some commitments)) s t
  loadCommitments : ∀ s txid commitments, (view s).commitments txid = some commitments →
    Returns (S.signingPersistency.loadCommitments txid) s fun c t => c = commitments ∧
      Leaves S.keyPersistency view (view s) s t
  deleteCommitments : ∀ s txid, Returns (S.signingPersistency.deleteCommitments txid) s fun _ t =>
    Leaves S.keyPersistency view ((view s).setCommitments txid none) s t
  storeSigningData : ∀ s txid data update, update = true ∨ (view s).signingData txid = none →
    Returns (S.signingPersistency.storeSigningData txid data update) s fun _ t =>
      Leaves S.keyPersistency view ((view s).setSigningData txid (some data)) s t
  loadSigningData : ∀ s txid data, (view s).signingData txid = some data →
    Returns (S.signingPersistency.loadSigningData txid) s fun d t => d = data ∧
      Leaves S.keyPersistency view (view s) s t
  deleteTemporarySigningData : ∀ s txid,
    Returns (S.signingPersistency.deleteTemporarySigningData txid) s fun _ t =>
      Leaves S.keyPersistency view ((view s).setSigningData txid none) s t

/-- What a client's store holds. -/
abbrev ClientStore := ByteString → Option (ConsumeOnceArray DrawnScalar)

/-- The contract of a client's persistency, as far as a session goes. -/
structure ClientContract (C : Client σ) (view : σ → ClientStore) : Prop where
  rand : DrawsScalars C.keyPersistency view C.rand
  createPreprocessedData : ∀ s keyId size, view s keyId = none →
    Returns (C.preprocessingPersistency.createPreprocessedData keyId size) s fun _ t =>
      Leaves C.keyPersistency view (Function.update (view s) keyId (some (.create size))) s t
  storePreprocessedData : ∀ s keyId array index k array', view s keyId = some array →
    array.store index k = some array' →
    Returns (C.preprocessingPersistency.storePreprocessedData keyId index k) s fun _ t =>
      Leaves C.keyPersistency view (Function.update (view s) keyId (some array')) s t
  loadPreprocessedData : ∀ s keyId array index k array', view s keyId = some array →
    array.load index = some (k, array') →
    Returns (C.preprocessingPersistency.loadPreprocessedData keyId index) s fun k' t => k' = k ∧
      Leaves C.keyPersistency view (Function.update (view s) keyId (some array')) s t

end Stores

end MpcDemo.InterfaceContracts
