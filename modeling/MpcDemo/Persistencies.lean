import MpcDemo.CosignerTypes

/-!
# The in-memory stores of the demo

`InMemoryKeyPersistency`, `MockServerPersistency` and `MockClientPersistency`. A string-keyed
map is a function to optional values; the sizes and update flags that the mocks ignore are
ignored here.
-/

namespace MpcDemo.Persistencies
open ByteStrings Ed25519Algebra CosignerTypes

/-- The constants of `mpc_config.h`. -/
def tenantId : ByteString := ascii "DEMO_TENANT"

def configKeyId : ByteString := ascii "demo-key-1"

def totalPlayers : ℕ := 3

def mpcProtocolVersion : ℕ := 1

def preprocessingCount : ℕ := 1000

structure InMemoryKeyPersistency where
  keys : ByteString → Option Ed25519Scalar
  metas : ByteString → Option CmpKeyMetadata
  auxs : ByteString → Option AuxiliaryKeys
  setupDatas : ByteString → Option SetupData
  setupComms : ByteString → Option (PlayerMap Commitment)

namespace InMemoryKeyPersistency
variable (p : InMemoryKeyPersistency) (id : ByteString)

def empty : InMemoryKeyPersistency where
  keys _ := none
  metas _ := none
  auxs _ := none
  setupDatas _ := none
  setupComms _ := none

/-- What a load returns for a missing entry: `BAD_KEY`. -/
def found {α : Type} (entry : Option α) : Except Failure α :=
  match entry with
  | some a => .ok a
  | none => .error (.cosignerException .badKey)

def keyExist : Bool := (p.keys id).isSome

/-- The algorithm is reported as EdDSA whatever it was stored with. -/
def loadKey : Except Failure (CosignerSignAlgorithm × Ed25519Scalar) :=
  (found (p.keys id)).map fun key => (.eddsaEd25519, key)

def getTenantidFromKeyid : ByteString := tenantId

def loadKeyMetadata : Except Failure CmpKeyMetadata := found (p.metas id)

def loadAuxiliaryKeys : Except Failure AuxiliaryKeys := found (p.auxs id)

def loadSetupData : Except Failure SetupData := found (p.setupDatas id)

def loadSetupCommitments : Except Failure (PlayerMap Commitment) := found (p.setupComms id)

def storeKey (_algorithm : CosignerSignAlgorithm) (key : Ed25519Scalar) :
    InMemoryKeyPersistency := { p with keys := Function.update p.keys id (some key) }

def storeKeyMetadata (m : CmpKeyMetadata) (_allowOverride : Bool) : InMemoryKeyPersistency :=
  { p with metas := Function.update p.metas id (some m) }

def storeAuxiliaryKeys (a : AuxiliaryKeys) : InMemoryKeyPersistency :=
  { p with auxs := Function.update p.auxs id (some a) }

def storeKeyidTenantId (_tenantId : ByteString) : InMemoryKeyPersistency := p

def storeSetupData (data : SetupData) : InMemoryKeyPersistency :=
  { p with setupDatas := Function.update p.setupDatas id (some data) }

def storeSetupCommitments (commitments : PlayerMap Commitment) : InMemoryKeyPersistency :=
  { p with setupComms := Function.update p.setupComms id (some commitments) }

/-- The key, its metadata and its auxiliary keys stay whatever the flag says. -/
def deleteTemporaryKeyData (_deleteKey : Bool) : InMemoryKeyPersistency :=
  { p with
    setupDatas := Function.update p.setupDatas id none
    setupComms := Function.update p.setupComms id none }

theorem found_eq_ok_iff {α : Type} {entry : Option α} {a : α} :
    found entry = .ok a ↔ entry = some a := by
  cases entry <;> simp [found]

@[simp] theorem metas_storeKeyMetadata (m : CmpKeyMetadata) (allowOverride : Bool) :
    (p.storeKeyMetadata id m allowOverride).metas id = some m := Function.update_self ..

@[simp] theorem setupComms_storeKeyMetadata (m : CmpKeyMetadata) (allowOverride : Bool) :
    (p.storeKeyMetadata id m allowOverride).setupComms = p.setupComms := rfl

@[simp] theorem setupComms_storeSetupCommitments (commitments : PlayerMap Commitment) :
    (p.storeSetupCommitments id commitments).setupComms id = some commitments :=
  Function.update_self ..

end InMemoryKeyPersistency

structure MockServerPersistency where
  signingData : ByteString → Option AsymmetricEddsaSigningMetadata
  commitments : ByteString → Option (PlayerMap (List EddsaCommitment))
  preprocessedData : ByteString → ℕ → Option EddsaCommitment

namespace MockServerPersistency
variable (p : MockServerPersistency)

def empty : MockServerPersistency where
  signingData _ := none
  commitments _ := none
  preprocessedData _ _ := none

def createPreprocessedData (keyId : ByteString) (_size : ℕ) : MockServerPersistency :=
  { p with preprocessedData := Function.update p.preprocessedData keyId fun _ => none }

def storePreprocessedData (keyId : ByteString) (index : ℕ) (RCommitment : EddsaCommitment) :
    MockServerPersistency :=
  let array := Function.update (p.preprocessedData keyId) index (some RCommitment)
  { p with preprocessedData := Function.update p.preprocessedData keyId array }

/-- Zeros when there is nothing at the index; the entry stays where it is. -/
def loadPreprocessedData (keyId : ByteString) (index : ℕ) : EddsaCommitment :=
  (p.preprocessedData keyId index).getD (zeroBytes 32)

def deletePreprocessedData (keyId : ByteString) : MockServerPersistency :=
  { p with preprocessedData := Function.update p.preprocessedData keyId fun _ => none }

def storeCommitments (txid : ByteString) (comms : PlayerMap (List EddsaCommitment)) :
    MockServerPersistency :=
  { p with commitments := Function.update p.commitments txid (some comms) }

def deleteCommitments (txid : ByteString) : MockServerPersistency :=
  { p with commitments := Function.update p.commitments txid none }

def storeSigningData (txid : ByteString) (data : AsymmetricEddsaSigningMetadata)
    (_update : Bool) : MockServerPersistency :=
  { p with signingData := Function.update p.signingData txid (some data) }

def deleteTemporarySigningData (txid : ByteString) : MockServerPersistency :=
  { p with signingData := Function.update p.signingData txid none }

/-- What a load returns for a missing entry: `INVALID_TRANSACTION`. -/
def found {α : Type} (entry : Option α) : Except Failure α :=
  match entry with
  | some a => .ok a
  | none => .error (.cosignerException .invalidTransaction)

def loadCommitments (txid : ByteString) : Except Failure (PlayerMap (List EddsaCommitment)) :=
  found (p.commitments txid)

def loadSigningData (txid : ByteString) : Except Failure AsymmetricEddsaSigningMetadata :=
  found (p.signingData txid)

theorem found_eq_ok_iff {α : Type} {entry : Option α} {a : α} :
    found entry = .ok a ↔ entry = some a := by
  cases entry <;> simp [found]

section Stored
variable (txid : ByteString)

@[simp] theorem signingData_storeSigningData (data : AsymmetricEddsaSigningMetadata)
    (update : Bool) : (p.storeSigningData txid data update).signingData txid = some data :=
  Function.update_self ..

@[simp] theorem signingData_deleteTemporarySigningData :
    (p.deleteTemporarySigningData txid).signingData txid = none := Function.update_self ..

@[simp] theorem commitments_storeCommitments (comms : PlayerMap (List EddsaCommitment)) :
    (p.storeCommitments txid comms).commitments txid = some comms := Function.update_self ..

@[simp] theorem commitments_deleteCommitments :
    (p.deleteCommitments txid).commitments txid = none := Function.update_self ..

@[simp] theorem commitments_storeSigningData (data : AsymmetricEddsaSigningMetadata)
    (update : Bool) : (p.storeSigningData txid data update).commitments = p.commitments := rfl

@[simp] theorem commitments_deleteTemporarySigningData :
    (p.deleteTemporarySigningData txid).commitments = p.commitments := rfl

end Stored

end MockServerPersistency

structure MockClientPersistency where
  storedNonces : ByteString → ℕ → Option DrawnScalar

namespace MockClientPersistency
variable (p : MockClientPersistency)

def empty : MockClientPersistency where
  storedNonces _ _ := none

def createPreprocessedData (keyId : ByteString) (_size : ℕ) : MockClientPersistency :=
  { p with storedNonces := Function.update p.storedNonces keyId fun _ => none }

def storePreprocessedData (keyId : ByteString) (index : ℕ) (k : DrawnScalar) :
    MockClientPersistency :=
  let array := Function.update (p.storedNonces keyId) index (some k)
  { p with storedNonces := Function.update p.storedNonces keyId array }

/-- The entry stays where it is. -/
def loadPreprocessedData (keyId : ByteString) (index : ℕ) : Except Failure DrawnScalar :=
  match p.storedNonces keyId index with
  | some k => .ok k
  | none => .error (.cosignerException .invalidPresigningIndex)

def deletePreprocessedData (keyId : ByteString) : MockClientPersistency :=
  { p with storedNonces := Function.update p.storedNonces keyId fun _ => none }

end MockClientPersistency

end MpcDemo.Persistencies
