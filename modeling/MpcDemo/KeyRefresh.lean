import MpcDemo.KeySetupSessions
import MpcDemo.GroupScalars

/-!
# The refresh of a key

`cmp_offline_refresh_service` over the stores of `ecdsa_offline_test.cpp`, for all four curves: the
players of a key send each other seeds, and each of them changes its share of the key and of every
presignature by what the seeds expand to, until the new shares are committed.
-/

namespace MpcDemo.KeyRefresh
open ByteStrings Ed25519Algebra CosignerTypes FallibleState NodeState GroupScalars
open SetupService (invalidParameters)
open KeySetup KeySetupSessions PlayerRounds StoredDraws

/-- `cmp_signature_preprocessed_data`. -/
structure PreprocessedData where
  k : Bytes 32
  chi : Bytes 32
  R : EllipticCurvePoint
  deriving DecidableEq

/-- What is left of the data of a signature that has been made. -/
def usedUp : PreprocessedData := ⟨zeroBytes 32, zeroBytes 32, zeroBytes 33⟩

/-- The key store with the presignatures, and `key_refresh_persistency`. -/
structure RefreshPersistency (A : AuxiliaryScheme) where
  setup : SetupPersistency A
  preprocessedData : ByteString → Option (List PreprocessedData)
  seeds : ByteString → Option (PlayerMap (Bytes 32))
  tempPreprocessedData : ByteString → Option (List PreprocessedData)
  tempKeys : ByteString → Option (Bytes 32 × CosignerSignAlgorithm)

/-- A player whose key is refreshed. -/
abbrev Refresher (A : AuxiliaryScheme) : Type := Drawing (RefreshPersistency A)

variable {A : AuxiliaryScheme}

def invalidTransaction : Failure := .cosignerException .invalidTransaction

namespace RefreshPersistency
variable (p : RefreshPersistency A) (keyId requestId : ByteString)

def loadRefreshKeySeeds : Except Failure (PlayerMap (Bytes 32)) :=
  match p.seeds requestId with
  | none => .error invalidTransaction
  | some seeds => .ok seeds

def storeRefreshKeySeeds (seeds : PlayerMap (Bytes 32)) : Except Failure (RefreshPersistency A) :=
  if (p.seeds requestId).isSome then .error invalidTransaction
  else .ok { p with seeds := Function.update p.seeds requestId (some seeds) }

/-- The transformed data are kept apart, under the id of the key. -/
def transformPreprocessedDataAndStoreTemporary
    (fn : ℕ → PreprocessedData → Except Failure PreprocessedData) :
    Except Failure (RefreshPersistency A) :=
  match p.preprocessedData keyId with
  | none => .error invalidTransaction
  | some data => do
    if (p.tempPreprocessedData keyId).isSome then .error invalidTransaction
    else
      let temp ← data.zipIdx.mapM fun d => if d.1 = usedUp then .ok d.1 else fn d.2 d.1
      .ok { p with
        tempPreprocessedData := Function.update p.tempPreprocessedData keyId (some temp) }

def commit : Except Failure (RefreshPersistency A) :=
  match p.tempKeys requestId with
  | none => .error SetupPersistency.badKey
  | some key => .ok
    { setup := p.setup.storeKey keyId key.2 key.1
      preprocessedData := Function.update p.preprocessedData keyId
        (some ((p.tempPreprocessedData keyId).getD []))
      seeds := p.seeds
      tempPreprocessedData := Function.update p.tempPreprocessedData keyId none
      tempKeys := Function.update p.tempKeys requestId none }

/-- What is deleted are not the seeds but the data kept apart, under the id of the request. -/
def deleteRefreshKeySeeds : RefreshPersistency A :=
  { p with tempPreprocessedData := Function.update p.tempPreprocessedData requestId none }

def deleteTemporaryKey : RefreshPersistency A :=
  { p with tempKeys := Function.update p.tempKeys requestId none }

def storeTemporaryKey (algorithm : CosignerSignAlgorithm) (privateKey : Bytes 32) :
    Except Failure (RefreshPersistency A) :=
  if (p.tempKeys requestId).isSome then .error SetupPersistency.badKey
  else .ok { p with
    tempKeys := Function.update p.tempKeys requestId (some (privateKey, algorithm)) }

end RefreshPersistency

section Masks
variable (H : HashFunctions) (algorithm : CosignerSignAlgorithm)

def prf (seed : Bytes 32) (aad : ByteString) (id : ℕ) : Bytes 32 :=
  H.sha256 (seed.val ++ aad ++ leList 8 id)

/-- Change a scalar by what some pairs of seeds, one received and one sent, expand to. -/
def maskScalar (aad : ByteString) (id : ℕ) (seeds : List (Bytes 32 × Bytes 32))
    (value : Bytes 32) : Except Failure (Bytes 32) :=
  seeds.foldlM (fun value seed => do
    let value ← throwCosignerException (addScalars algorithm value.val (prf H seed.1 aad id).val)
    throwCosignerException (subScalars algorithm value.val (prf H seed.2 aad id).val)) value

/-- The handler that `refresh_key` applies to each presignature. -/
def refreshPreprocessedData (requestId : ByteString) (seeds : List (Bytes 32 × Bytes 32))
    (privateKey newPrivateKey : Bytes 32) (index : ℕ) (data : PreprocessedData) :
    Except Failure PreprocessedData := do
  let k ← maskScalar H algorithm (requestId ++ ascii "k") index seeds data.k
  let tmp ← throwCosignerException (mulScalars algorithm data.k.val privateKey.val)
  let chi ← throwCosignerException (addScalars algorithm data.chi.val tmp.val)
  let tmp ← throwCosignerException (mulScalars algorithm k.val newPrivateKey.val)
  let chi ← throwCosignerException (subScalars algorithm chi.val tmp.val)
  let chi ← maskScalar H algorithm (requestId ++ ascii "chi") index seeds chi
  .ok ⟨k, chi, data.R⟩

/-- The share of a signature before it is scaled: `k (m + r delta) + r (k x + chi)`. -/
def partialS (r delta : Bytes 32) (m : ByteString) (key : Bytes 32) (data : PreprocessedData) :
    Except Failure (Bytes 32) := do
  let tmp ← throwCosignerException (mulScalars algorithm r.val delta.val)
  let tmp ← throwCosignerException (addScalars algorithm tmp.val m)
  let s ← throwCosignerException (mulScalars algorithm tmp.val data.k.val)
  let tmp ← throwCosignerException (mulScalars algorithm data.k.val key.val)
  let tmp ← throwCosignerException (addScalars algorithm tmp.val data.chi.val)
  let tmp ← throwCosignerException (mulScalars algorithm tmp.val r.val)
  throwCosignerException (addScalars algorithm s.val tmp.val)

end Masks

section Operations
variable (host : SetupHost A)

/-- A seed for one other player, and the message with it. -/
def drawSeed (playerId : ℕ) : EStateM Failure (Refresher A) (ℕ × Bytes 32 × ByteString) := do
  let n ← drawn
  let seed := host.tape.genRandom n
  let n ← drawn
  pure (playerId, seed, host.encryptForPlayer playerId seed.val n)

def refreshKeyRequest (tenant keyId requestId : ByteString) (playersIds : Finset ℕ) :
    EStateM Failure (Refresher A) (PlayerMap ByteString) := do
  require (tenant = tenantId) (.cosignerException .unauthorized)
  let metadata ← reading (·.setup.loadKeyMetadata keyId)
  require (playersIds.card ≤ metadata.n) invalidParameters
  require (∀ i ∈ playersIds, i ∈ metadata.playersInfo) invalidParameters
  let myId := host.service.getIdFromKeyid keyId
  let entries ← (playersIds.sort.filter fun i => i ≠ myId).mapM (drawSeed host)
  writing (·.storeRefreshKeySeeds requestId
    (NodePrograms.ofEntries (entries.map fun e => (e.1, e.2.1))))
  pure (NodePrograms.ofEntries (entries.map fun e => (e.1, e.2.2)))

/-- The seeds received from one other player and sent to it. -/
def seedsWith (myId : ℕ) (playerIdToSeed : PlayerMap (Bytes 32))
    (encryptedSeeds : ℕ × PlayerMap ByteString) : Except Failure (Bytes 32 × Bytes 32) :=
  match encryptedSeeds.2[myId]? with
  | none => .error invalidParameters
  | some message =>
    if h : (host.decryptMessage message).length = 32 then
      match playerIdToSeed[encryptedSeeds.1]? with
      -- `player_id_to_seed.at`
      | none => .error (.runtimeError "map::at")
      | some seed => .ok (⟨host.decryptMessage message, h⟩, seed)
    else .error invalidParameters

/-- The public key is returned as it is stored. -/
def refreshKey (keyId requestId : ByteString) (encryptedSeeds : PlayerMap (PlayerMap ByteString)) :
    EStateM Failure (Refresher A) ByteString := do
  require (host.service.getCurrentTenantid = tenantId) (.cosignerException .unauthorized)
  let metadata ← reading (·.setup.loadKeyMetadata keyId)
  require (encryptedSeeds.size ≤ metadata.n) invalidParameters
  require (∀ i ∈ encryptedSeeds.keys, i ∈ metadata.playersInfo) invalidParameters
  let myId := host.service.getIdFromKeyid keyId
  let playerIdToSeed ← reading (·.loadRefreshKeySeeds requestId)
  let seeds ← ofExcept ((encryptedSeeds.toList.filter fun e => e.1 ≠ myId).mapM
    (seedsWith host myId playerIdToSeed))
  let key ← reading (·.setup.loadKey keyId)
  let newPrivateKey ← ofExcept (maskScalar host.hash metadata.algorithm (requestId ++ ascii "x") 0
    seeds key.2)
  writing (·.transformPreprocessedDataAndStoreTemporary keyId
    (refreshPreprocessedData host.hash metadata.algorithm requestId seeds key.2 newPrivateKey))
  writing fun p => .ok (p.deleteRefreshKeySeeds requestId)
  writing (·.storeTemporaryKey requestId key.1 newPrivateKey)
  pure (metadata.publicKey.val.take (pointSize metadata.algorithm))

def refreshKeyFastAck (tenant keyId requestId : ByteString) :
    EStateM Failure (Refresher A) Unit := do
  require (tenant = tenantId) (.cosignerException .unauthorized)
  writing (·.commit keyId requestId)
  let metadata ← reading (·.setup.loadKeyMetadata keyId)
  let key ← reading (·.setup.loadKey keyId)
  let aux ← reading (·.setup.loadAuxiliaryKeys keyId)
  require (host.backupKey keyId metadata.algorithm key.2 metadata aux = true)
    (.cosignerException .backupFailed)

/-- Nothing can go wrong in the stores. -/
def cancelRefreshKey (requestId : ByteString) : EStateM Failure (Refresher A) Unit :=
  writing fun p => .ok ((p.deleteRefreshKeySeeds requestId).deleteTemporaryKey requestId)

end Operations

/-- `key_refresh` of `ecdsa_offline_test.cpp`. -/
def keyRefresh (P : Players A) (players : Finset ℕ) (keyId requestId : ByteString) :
    EStateM Failure (ℕ → Refresher A) (PlayerMap ByteString) := do
  let encryptedSeeds ← eachPlayer players fun i =>
    refreshKeyRequest (P.host i) tenantId keyId requestId players
  let publicKeys ← eachPlayer players fun i =>
    refreshKey (P.host i) keyId requestId encryptedSeeds
  let _ ← eachPlayer players fun i => refreshKeyFastAck (P.host i) tenantId keyId requestId
  pure publicKeys

end MpcDemo.KeyRefresh
