import MpcDemo.InterfaceContracts

/-!
# Persistencies that do what their interfaces say

The stores of a session as plain maps and consume-once arrays. They throw where the interfaces
allow it and meet the contracts everywhere else.
-/

namespace MpcDemo.ReferencePersistencies
open ByteStrings CosignerTypes FallibleState TotalRuns InterfaceContracts PreprocessingContract
open AsymmetricEddsaCosignerServer (Server)
open AsymmetricEddsaCosignerClient (Client)

/-- Keys that are the same in every state. -/
def fixedKeys {σ : Type} (tenant : ByteString) (metadata : CmpKeyMetadata)
    (key : Ed25519Algebra.Ed25519Scalar) : CmpKeyPersistency σ where
  keyExist _ _ := true
  loadKey _ _ := .ok (.eddsaEd25519, key)
  getTenantidFromKeyid _ _ := tenant
  loadKeyMetadata _ _ := .ok metadata

/-- Continue with a value that there is, throw without one. -/
def replace {σ α : Type} (e : ExceptionCode) (next : σ → Option (α × σ)) :
    EStateM Failure σ α := fun s =>
  match next s with
  | some (a, t) => .ok a t
  | none => .error (.cosignerException e) s

theorem returns_replace {σ α : Type} {e : ExceptionCode} {next : σ → Option (α × σ)}
    {s t : σ} {a : α} {post : α → σ → Prop} (h : next s = some (a, t)) (hpost : post a t) :
    Returns (replace e next) s post := by
  refine ⟨a, t, ?_, hpost⟩
  show replace e next s = _
  rw [replace, h]

def signingPersistency : SigningPersistency ServerStore where
  createPreprocessedData keyId size := replace .invalidTransaction fun v =>
    if v.preprocessed keyId = none then some ((), v.setPreprocessed keyId (.create size)) else none
  storePreprocessedData keyId index RCommitment := replace .invalidPresigningIndex fun v =>
    ((v.preprocessed keyId).bind (·.store index RCommitment)).map fun array =>
      ((), v.setPreprocessed keyId array)
  loadPreprocessedData keyId index := replace .invalidPresigningIndex fun v =>
    ((v.preprocessed keyId).bind (·.load index)).map fun r => (r.1, v.setPreprocessed keyId r.2)
  deletePreprocessedData keyId := modify fun v =>
    { v with preprocessed := Function.update v.preprocessed keyId none }
  storeCommitments txid commitments := replace .invalidTransaction fun v =>
    if v.commitments txid = none then some ((), v.setCommitments txid (some commitments)) else none
  loadCommitments txid := replace .invalidTransaction fun v =>
    (v.commitments txid).map fun c => (c, v)
  deleteCommitments txid := modify fun v => v.setCommitments txid none
  storeSigningData txid data update := replace .invalidTransaction fun v =>
    if update = true ∨ v.signingData txid = none then some ((), v.setSigningData txid (some data))
    else none
  loadSigningData txid := replace .invalidTransaction fun v =>
    (v.signingData txid).map fun d => (d, v)
  deleteTemporarySigningData txid := modify fun v => v.setSigningData txid none

def preprocessingPersistency : PreprocessingPersistency ClientStore where
  createPreprocessedData keyId size := replace .invalidTransaction fun v =>
    if v keyId = none then some ((), Function.update v keyId (some (.create size))) else none
  storePreprocessedData keyId index k := replace .invalidPresigningIndex fun v =>
    ((v keyId).bind (·.store index k)).map fun array => ((), Function.update v keyId (some array))
  loadPreprocessedData keyId index := replace .invalidPresigningIndex fun v =>
    ((v keyId).bind (·.load index)).map fun r => (r.1, Function.update v keyId (some r.2))
  deletePreprocessedData keyId := modify fun v => Function.update v keyId none

theorem serverContract {S : Server ServerStore} (hp : S.signingPersistency = signingPersistency)
    (hkeys : ∀ s t, SameKeys S.keyPersistency s t)
    (hrand : DrawsScalars S.keyPersistency id S.rand) : ServerContract S id where
  rand := hrand
  createPreprocessedData s keyId size h := by
    rw [hp]
    exact returns_replace (if_pos h) ⟨hkeys _ _, rfl⟩
  storePreprocessedData s keyId array index c array' h hstore := by
    rw [hp]
    have hnext : ((s.preprocessed keyId).bind (·.store index c)) = some array' := by
      rw [show s.preprocessed keyId = some array from h]
      exact hstore
    exact returns_replace (congrArg (Option.map _) hnext) ⟨hkeys _ _, rfl⟩
  loadPreprocessedData s keyId array index c array' h hload := by
    rw [hp]
    have hnext : ((s.preprocessed keyId).bind (·.load index)) = some (c, array') := by
      rw [show s.preprocessed keyId = some array from h]
      exact hload
    exact returns_replace (congrArg (Option.map _) hnext) ⟨rfl, hkeys _ _, rfl⟩
  storeCommitments s txid commitments h := by
    rw [hp]
    exact returns_replace (if_pos h) ⟨hkeys _ _, rfl⟩
  loadCommitments s txid commitments h := by
    rw [hp]
    exact returns_replace (congrArg (Option.map _) h) ⟨rfl, hkeys _ _, rfl⟩
  deleteCommitments s txid := by
    rw [hp]
    exact ⟨(), _, rfl, hkeys _ _, rfl⟩
  storeSigningData s txid data update h := by
    rw [hp]
    exact returns_replace (if_pos h) ⟨hkeys _ _, rfl⟩
  loadSigningData s txid data h := by
    rw [hp]
    exact returns_replace (congrArg (Option.map _) h) ⟨rfl, hkeys _ _, rfl⟩
  deleteTemporarySigningData s txid := by
    rw [hp]
    exact ⟨(), _, rfl, hkeys _ _, rfl⟩

theorem clientContract {C : Client ClientStore}
    (hp : C.preprocessingPersistency = preprocessingPersistency)
    (hkeys : ∀ s t, SameKeys C.keyPersistency s t)
    (hrand : DrawsScalars C.keyPersistency id C.rand) : ClientContract C id where
  rand := hrand
  createPreprocessedData s keyId size h := by
    rw [hp]
    exact returns_replace (if_pos h) ⟨hkeys _ _, rfl⟩
  storePreprocessedData s keyId array index k array' h hstore := by
    rw [hp]
    have hnext : ((s keyId).bind (·.store index k)) = some array' := by
      rw [show s keyId = some array from h]
      exact hstore
    exact returns_replace (congrArg (Option.map _) hnext) ⟨hkeys _ _, rfl⟩
  loadPreprocessedData s keyId array index k array' h hload := by
    rw [hp]
    have hnext : ((s keyId).bind (·.load index)) = some (k, array') := by
      rw [show s keyId = some array from h]
      exact hload
    exact returns_replace (congrArg (Option.map _) hnext) ⟨rfl, hkeys _ _, rfl⟩

end MpcDemo.ReferencePersistencies
