import MpcDemo.NodeState

/-!
# The first two rounds of key generation

`cmp_setup_service::generate_setup_commitments` and `store_setup_commitments` for the
algorithm EdDSA, without a master key to derive from, over the key store of a node.
-/

namespace MpcDemo.SetupService
open ByteStrings Ed25519Algebra CosignerTypes AsymmetricEddsaCosigner FallibleState Persistencies
open NodeState

def internalError : Failure := .cosignerException .internalError

def invalidParameters : Failure := .cosignerException .invalidParameters

variable (host : Host)

/-- Draw a key share, at most so many times. -/
def sampleKeyShare : ℕ → EStateM Failure Node Ed25519Scalar
  | 0 => throw internalError
  | attempts + 1 => do
    let n ← nextDraw
    match reduce (host.tape.genRandom n) with
    | .ok key => pure key
    | .error _ => sampleKeyShare attempts

/-- `update_fn` on a hash input: the size is a 32-bit argument and must not be zero. -/
def update (input data : ByteString) : Except Failure ByteString :=
  let data := data.take (data.length % 2 ^ 32)
  if data = [] then .error invalidParameters else .ok (input ++ data)

/-- The hash of a decommitment under a salt. -/
def commitmentHash (H : HashFunctions) (salt : Bytes 32) (keyId : ByteString) (id : ℕ)
    (decommitment : SetupDecommitment) : Except Failure (Bytes 32) := do
  let input ← update salt.val keyId
  let input ← update input (leList 8 id)
  let input ← update input decommitment.seed.val
  let input ← update input decommitment.share.X.val
  let input ← update input decommitment.share.schnorrR.val
  let input ← update input decommitment.paillierPublicKey
  let input ← update input decommitment.ringPedersenPublicKey
  .ok (H.sha256 input)

/-- `create_setup_commitment` with a fresh salt. -/
def createSetupCommitment (keyId : ByteString) (id : ℕ) (decommitment : SetupDecommitment) :
    EStateM Failure Node Commitment := do
  let n ← nextDraw
  match host.tape.randBytes n with
  | none => throw internalError
  | some salt => do
    let hash ← ofExcept (commitmentHash host.hash salt keyId id decommitment)
    pure ⟨salt, hash⟩

/-- `create_setup_commitment` that verifies: the decommitment opens the commitment. -/
def verifySetupCommitment (H : HashFunctions) (keyId : ByteString) (id : ℕ)
    (decommitment : SetupDecommitment) (commitment : Commitment) : Except Failure Unit := do
  let hash ← commitmentHash H commitment.salt keyId id decommitment
  if hash = commitment.commitment then .ok () else .error invalidParameters

/-- The ack is filled in later. -/
def createSetupDecommitment (E : Ed25519) (aux : AuxiliaryKeys) (data : SetupData)
    (ack : Bytes 32) : Except Failure SetupDecommitment := do
  let schnorrR ← throwCosignerException (generatorMul E data.k)
  .ok ⟨ack, data.seed, ⟨data.publicKey, schnorrR⟩, aux.paillierPublicKey,
    aux.ringPedersenPublicKey⟩

def ackMessage (H : HashFunctions) (commitments : PlayerMap Commitment) : Bytes 32 :=
  H.sha256 (commitments.toList.flatMap fun c =>
    leList 8 c.1 ++ c.2.salt.val ++ c.2.commitment.val)

/-- The metadata that is stored before the other players' shares are known. -/
def initialMetadata (playersIds : List ℕ) (t : ℕ) : CmpKeyMetadata where
  publicKey := infinityPoint
  algorithm := .eddsaEd25519
  t := t
  n := playersIds.length
  playersInfo := playersIds.foldl (fun info i => info.insert i ⟨zeroBytes 33⟩) ∅

/-- The second half of `generate_setup_commitments`, once the key share is known. -/
def commitToShare (keyId : ByteString) (playersIds : List ℕ) (t : ℕ) (key : Ed25519Scalar) :
    EStateM Failure Node Commitment := do
  let k ← host.rand
  let k ← ofExcept (k.mapError fun _ => internalError)
  let publicKey ← ofExcept (throwCosignerException (generatorMul host.algebra key))
  let n ← nextDraw
  let data : SetupData := ⟨k.value, host.tape.genRandom n, publicKey⟩
  let n ← nextDraw
  let aux ← ofExcept (host.tape.auxiliaryKeys n)
  let myId := host.service.getIdFromKeyid keyId
  let decommitment ← ofExcept (createSetupDecommitment host.algebra aux data (zeroBytes 32))
  let setupCommitment ← createSetupCommitment host keyId myId decommitment
  modifyKeys fun p =>
    ((((p.storeKeyMetadata keyId (initialMetadata playersIds t) false).storeSetupData keyId
      data).storeKeyidTenantId tenantId).storeAuxiliaryKeys keyId aux).storeKey keyId
      .eddsaEd25519 key
  pure setupCommitment

def generateSetupCommitments (keyId : ByteString) (playersIds : List ℕ) (t : ℕ) :
    EStateM Failure Node Commitment := do
  let n := playersIds.length
  require (n ≠ 0 ∧ t ≠ 0 ∧ t ≤ n ∧ n ≤ 255) invalidParameters
  require (t = n) invalidParameters
  let myId := host.service.getIdFromKeyid keyId
  require (myId ∈ playersIds) (.cosignerException .badKey)
  require playersIds.Nodup invalidParameters
  let exists_ ← inspect fun s => .ok (s.keys.keyExist keyId)
  require (exists_ = false) (.cosignerException .badKey)
  let key ← sampleKeyShare host 1024
  commitToShare host keyId playersIds t key

def storeSetupCommitments (keyId : ByteString) (commitments : PlayerMap Commitment) :
    EStateM Failure Node SetupDecommitment := do
  verifyTenantId host.service keyPersistency keyId
  let data ← inspect fun s => s.keys.loadSetupData keyId
  let aux ← inspect fun s => s.keys.loadAuxiliaryKeys keyId
  let metadata ← inspect fun s => s.keys.loadKeyMetadata keyId
  let myId := host.service.getIdFromKeyid keyId
  require (commitments.size = metadata.playersInfo.size) invalidParameters
  require (∀ i ∈ metadata.playersInfo.keys, i ∈ commitments) invalidParameters
  match commitments[myId]? with
  -- `commitments.at(my_id)`
  | none => throw (.runtimeError "map::at")
  | some commit => do
    let decommitment ← ofExcept (createSetupDecommitment host.algebra aux data
      (ackMessage host.hash commitments))
    ofExcept (verifySetupCommitment host.hash keyId myId decommitment commit)
    modifyKeys (·.storeSetupCommitments keyId commitments)
    pure decommitment

end MpcDemo.SetupService
