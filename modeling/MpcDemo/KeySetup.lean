import MpcDemo.SetupService
import MpcDemo.PlayerRounds
import MpcDemo.StoredDraws

/-!
# The whole key setup

`cmp_setup_service` for the algorithm EdDSA over the key store of `setup_test.cpp`: from the
commitments to the shares over their proofs to the finished key, and the requests by which the
players of a key share it with new ones. The Paillier and ring Pedersen library is a parameter.
-/

namespace MpcDemo.KeySetup
open ByteStrings Ed25519Algebra CosignerTypes AsymmetricEddsaCosigner FallibleState NodeState
open SetupService PlayerRounds StoredDraws

/-- The Paillier and ring Pedersen keys and the proofs about them. The private keys are known by
the serialized public ones; what generates a proof also takes the number of a random draw. -/
structure AuxiliaryScheme where
  Paillier : Type
  RingPedersen : Type
  paillierPublicKeyDeserialize : ByteString → Option Paillier
  paillierPublicKeySize : Paillier → ℕ
  ringPedersenPublicDeserialize : ByteString → Option RingPedersen
  ringPedersenPublicSize : RingPedersen → ℕ
  generatePaillierBlumZkp : AuxiliaryKeys → ByteString → ℕ → Option ByteString
  verifyPaillierBlumZkp : Option Paillier → ByteString → ByteString → Except Failure Unit
  ringPedersenParametersZkpGenerate : AuxiliaryKeys → ByteString → ℕ → Option ByteString
  ringPedersenParametersZkpVerify : Option RingPedersen → ByteString → ByteString →
    Except Failure Unit
  paillierLargeFactorsZkpGenerate : AuxiliaryKeys → Option RingPedersen → ByteString → ℕ →
    Except Failure ByteString
  paillierLargeFactorsZkpVerify : Option Paillier → AuxiliaryKeys → ByteString → ByteString →
    Except Failure Unit

section Types
variable (A : AuxiliaryScheme)

/-- `cmp_player_info`. -/
structure PlayerInfo where
  publicShare : EllipticCurvePoint
  paillier : Option A.Paillier
  ringPedersen : Option A.RingPedersen

/-- `cmp_key_metadata`. -/
structure KeyMetadata where
  publicKey : EllipticCurvePoint
  algorithm : CosignerSignAlgorithm
  t : ℕ
  n : ℕ
  seed : Bytes 32
  playersInfo : PlayerMap (PlayerInfo A)

/-- `setup_data`, with the points of the players' Schnorr proofs. -/
structure SetupRecord extends SetupData where
  playersSchnorrR : PlayerMap EllipticCurvePoint

structure SetupZkProofs where
  schnorrS : Ed25519Scalar
  paillierBlumZkp : ByteString
  ringPedersenParamZkp : ByteString

structure AddUserData where
  encryptedShares : PlayerMap ByteString
  publicKey : EllipticCurvePoint

structure ShareDerivationArgs where
  masterKeyId : ByteString
  chaincode : ByteString

structure KeyInfo where
  algorithm : CosignerSignAlgorithm
  privateKey : Ed25519Scalar
  metadata : Option (KeyMetadata A)
  auxKeys : Option AuxiliaryKeys

/-- `setup_persistency`. -/
structure SetupPersistency where
  keys : ByteString → Option (KeyInfo A)
  setupData : ByteString → Option SetupRecord
  commitments : ByteString → Option (PlayerMap Commitment)

/-- A player with its key store. -/
abbrev Party : Type := Drawing (SetupPersistency A)

/-- The host of a player, with the rest of its platform. -/
structure SetupHost extends Host where
  encryptForPlayer : ℕ → ByteString → ℕ → ByteString
  decryptMessage : ByteString → ByteString
  backupKey : ByteString → CosignerSignAlgorithm → Ed25519Scalar → KeyMetadata A →
    AuxiliaryKeys → Bool
  deriveInitialShare : ShareDerivationArgs → CosignerSignAlgorithm → Except Failure Ed25519Scalar

end Types

/-- `TENANT_ID`. -/
def tenantId : ByteString := ascii "test tenant"

variable {A : AuxiliaryScheme}

namespace SetupPersistency
variable (p : SetupPersistency A) (keyId : ByteString)

def empty : SetupPersistency A := ⟨fun _ => none, fun _ => none, fun _ => none⟩

def badKey : Failure := .cosignerException .badKey

def keyExist : Bool := (p.keys keyId).isSome

def loadKey : Except Failure (CosignerSignAlgorithm × Ed25519Scalar) :=
  match p.keys keyId with
  | none => .error badKey
  | some info => .ok (info.algorithm, info.privateKey)

def loadKeyMetadata : Except Failure (KeyMetadata A) :=
  match p.keys keyId with
  | none => .error badKey
  | some info =>
    match info.metadata with
    | none => .error (.runtimeError "bad optional access")
    | some metadata => .ok metadata

/-- Nothing can be done with missing keys. -/
def loadAuxiliaryKeys : Except Failure AuxiliaryKeys :=
  match p.keys keyId with
  | none => .error badKey
  | some info =>
    match info.auxKeys with
    | none => .error internalError
    | some aux => .ok aux

/-- The entry of a key, made when it is not there. -/
def entry : KeyInfo A := (p.keys keyId).getD ⟨.ecdsaSecp256k1, zeroBytes 32, none, none⟩

def setEntry (info : KeyInfo A) : SetupPersistency A :=
  { p with keys := Function.update p.keys keyId (some info) }

def storeKey (algorithm : CosignerSignAlgorithm) (privateKey : Ed25519Scalar) :
    SetupPersistency A :=
  p.setEntry keyId { p.entry keyId with algorithm := algorithm, privateKey := privateKey }

def storeKeyMetadata (metadata : KeyMetadata A) (allowOverride : Bool) :
    Except Failure (SetupPersistency A) :=
  if allowOverride = false ∧ (p.entry keyId).metadata.isSome then .error internalError
  else .ok (p.setEntry keyId { p.entry keyId with metadata := some metadata })

def storeAuxiliaryKeys (aux : AuxiliaryKeys) : SetupPersistency A :=
  p.setEntry keyId { p.entry keyId with auxKeys := some aux }

def storeSetupData (data : SetupRecord) : SetupPersistency A :=
  { p with setupData := Function.update p.setupData keyId (some data) }

def loadSetupData : SetupRecord :=
  (p.setupData keyId).getD ⟨⟨zeroBytes 32, zeroBytes 32, zeroBytes 33⟩, ∅⟩

def storeSetupCommitments (commitments : PlayerMap Commitment) :
    Except Failure (SetupPersistency A) :=
  if (p.commitments keyId).isSome then .error internalError
  else .ok { p with commitments := Function.update p.commitments keyId (some commitments) }

def loadSetupCommitments : PlayerMap Commitment := (p.commitments keyId).getD ∅

/-- Looking for the commitments of a key makes an entry for them. -/
def withSetupCommitments : SetupPersistency A :=
  { p with
    commitments := Function.update p.commitments keyId (some (p.loadSetupCommitments keyId)) }

def deleteTemporaryKeyData (deleteKey : Bool) : SetupPersistency A where
  keys := if deleteKey then Function.update p.keys keyId none else p.keys
  setupData := Function.update p.setupData keyId none
  commitments := Function.update p.commitments keyId none

end SetupPersistency

def Party.initial : Party A := ⟨0, .empty⟩

/-- What a node does with its random draws and nothing else. -/
def drawing {α : Type} (x : EStateM Failure Node α) : EStateM Failure (Party A) α := fun s =>
  match x.run { Node.initial with draws := s.draws } with
  | .ok a n => .ok a { s with draws := n.draws }
  | .error e n => .error e { s with draws := n.draws }

section Schnorr
variable (E : Ed25519) (H : HashFunctions)

def ed25519AlgebraSubScalars (a b : ByteString) : Except AlgebraStatus Ed25519Scalar :=
  if a = [] ∨ b = [] then .error .invalidParameter
  else .ok (beBytes 32 (((beValue a : ℤ) - beValue b) % order).toNat)

/-- One term of a linear combination. A coefficient with its highest bit set is refused. -/
def linearTerm (term : EllipticCurvePoint × Ed25519Scalar) : Except AlgebraStatus E.Point :=
  match E.decode term.1.ed25519 with
  | none => .error .invalidPoint
  | some P =>
    if (term.2.val.headD 0) &&& 0x80 ≠ 0 then .error .invalidScalar
    else .ok (E.mul (beValue term.2.val) P)

def verifyLinearCombination (sum : EllipticCurvePoint)
    (terms : List (EllipticCurvePoint × Ed25519Scalar)) : Except AlgebraStatus Bool :=
  if terms = [] then .error .invalidParameter
  else match E.decode sum.ed25519 with
  | none => .error .invalidPoint
  | some _ => do
    let points ← terms.mapM (linearTerm E)
    .ok (decide (E.encode points.sum = sum.ed25519))

/-- The length of a prover id is a 32-bit argument. -/
def proverIdOf (id : ByteString) : ByteString := id.take (id.length % 2 ^ 32)

def schnorrChallenge (proverId : ByteString) (R X : EllipticCurvePoint) : Bytes 32 :=
  H.sha256 (proverId ++ R.val ++ X.val)

/-- `schnorr_zkp_generate_with_custom_randomness`, of which only `s` is used. -/
def schnorrZkpGenerate (id : ByteString) (secret : Ed25519Scalar) (publicData : EllipticCurvePoint)
    (randomness : Ed25519Scalar) : Except Failure Ed25519Scalar := do
  if proverIdOf id = [] ∨ randomness = zeroBytes 32 then .error invalidParameters
  else
    let R ← throwCosignerException (generatorMul E randomness)
    let c := schnorrChallenge H (proverIdOf id) R publicData
    let c ← throwCosignerException (ed25519AlgebraMulScalars secret.val c.val)
    throwCosignerException (ed25519AlgebraSubScalars randomness.val c.val)

def one : Ed25519Scalar := beBytes 32 1

def schnorrZkpVerify (id : ByteString) (publicData R : EllipticCurvePoint) (s : Ed25519Scalar) :
    Except Failure Unit := do
  if proverIdOf id = [] then .error invalidParameters
  else
    let c := schnorrChallenge H (proverIdOf id) R publicData
    let p ← throwCosignerException (pointMul E publicData c)
    let q ← throwCosignerException (generatorMul E s)
    let res ← throwCosignerException (verifyLinearCombination E R [(p, one), (q, one)])
    if res then .ok () else .error internalError

end Schnorr

section Pieces

def xorSeed (a b : Bytes 32) : Bytes 32 :=
  ⟨List.zipWith (· ^^^ ·) a.val b.val, by rw [List.length_zipWith, a.2, b.2, min_self]⟩

def buildAad (sid : ByteString) (id : ℕ) (srid : Bytes 32) : ByteString :=
  sid ++ leList 8 id ++ srid.val

def paillierKeySize : ℕ := 32 * 8 * 8

def ringPedersenKeySize : ℕ := 32 * 8 * 4

def deserializeAuxiliaryKeys (A : AuxiliaryScheme) (paillierPublicKey ringPedersenPublicKey :
    ByteString) : Except Failure (A.Paillier × A.RingPedersen) :=
  match A.paillierPublicKeyDeserialize paillierPublicKey with
  | none => .error invalidParameters
  | some paillier =>
    if A.paillierPublicKeySize paillier < paillierKeySize then .error invalidParameters
    else match A.ringPedersenPublicDeserialize ringPedersenPublicKey with
    | none => .error invalidParameters
    | some ringPedersen =>
      if A.ringPedersenPublicSize ringPedersen < ringPedersenKeySize then .error invalidParameters
      else .ok (paillier, ringPedersen)

/-- The metadata that is stored before the other players' shares are known. -/
def initialMetadata (playersIds : List ℕ) (t : ℕ) (pubkey : EllipticCurvePoint) :
    KeyMetadata A where
  publicKey := pubkey
  algorithm := .eddsaEd25519
  t := t
  n := playersIds.length % 256
  seed := zeroBytes 32
  playersInfo := playersIds.foldl (fun info i => info.insert i ⟨zeroBytes 33, none, none⟩) ∅

variable (H : HashFunctions) (keyId : ByteString)

/-- The decommitment of one player: it opens the player's commitment, and the player has seen
these commitments. -/
def loadDecommitment (ack : Bytes 32) (decommitments : PlayerMap SetupDecommitment)
    (playersInfo : PlayerMap (PlayerInfo A)) (c : ℕ × Commitment) :
    Except Failure (PlayerMap (PlayerInfo A)) :=
  match decommitments[c.1]? with
  | none => .error invalidParameters
  | some d => do
    verifySetupCommitment H keyId c.1 d c.2
    if d.ack ≠ ack then .error invalidParameters
    else if c.1 ∉ playersInfo then .error (.runtimeError "map::at")
    else
      let aux ← deserializeAuxiliaryKeys A d.paillierPublicKey d.ringPedersenPublicKey
      .ok (playersInfo.insert c.1 ⟨d.share.X, some aux.1, some aux.2⟩)

def verifyAndLoadSetupDecommitments (commitments : PlayerMap Commitment)
    (decommitments : PlayerMap SetupDecommitment) (playersInfo : PlayerMap (PlayerInfo A)) :
    Except Failure (PlayerMap (PlayerInfo A)) :=
  if decommitments.size ≠ commitments.size then .error invalidParameters
  else commitments.toList.foldlM
    (loadDecommitment H keyId (ackMessage H commitments) decommitments) playersInfo

/-- The sum of the public shares, over the point at infinity. -/
def sumShares (E : Ed25519) (playersInfo : PlayerMap (PlayerInfo A)) :
    Except Failure EllipticCurvePoint :=
  playersInfo.toList.foldlM
    (fun sum i => throwCosignerException (addPoints E sum i.2.publicShare)) infinityPoint

end Pieces

section Operations
variable (host : SetupHost A) (keyId : ByteString)

def verifyTenant : EStateM Failure (Party A) Unit :=
  require (host.service.getCurrentTenantid = tenantId) (.cosignerException .unauthorized)

/-- The second half of `generate_setup_commitments` and `add_user`. -/
def commitToShare (playersIds : List ℕ) (t : ℕ) (key : Ed25519Scalar)
    (pubkey : EllipticCurvePoint) : EStateM Failure (Party A) Commitment := do
  let k ← drawing host.toHost.rand
  let k ← ofExcept (k.mapError fun _ => internalError)
  let publicKey ← ofExcept (throwCosignerException (generatorMul host.algebra key))
  let n ← drawn
  let data : SetupData := ⟨k.value, host.tape.genRandom n, publicKey⟩
  let n ← drawn
  let aux ← ofExcept (host.tape.auxiliaryKeys n)
  let myId := host.service.getIdFromKeyid keyId
  let decommitment ← ofExcept (createSetupDecommitment host.algebra aux data (zeroBytes 32))
  let setupCommitment ← drawing (createSetupCommitment host.toHost keyId myId decommitment)
  writing (·.storeKeyMetadata keyId (initialMetadata playersIds t pubkey) false)
  writing fun p => .ok (((p.storeSetupData keyId ⟨data, ∅⟩).storeAuxiliaryKeys keyId aux).storeKey
    keyId .eddsaEd25519 key)
  pure setupCommitment

def generateSetupCommitments (playersIds : List ℕ) (t : ℕ) (deriveFrom : ShareDerivationArgs) :
    EStateM Failure (Party A) Commitment := do
  let n := playersIds.length
  require (n ≠ 0 ∧ t ≠ 0 ∧ t ≤ n ∧ n ≤ 255) invalidParameters
  require (t = n) invalidParameters
  let myId := host.service.getIdFromKeyid keyId
  require (myId ∈ playersIds) (.cosignerException .badKey)
  require playersIds.Nodup invalidParameters
  let exists_ ← reading fun p => .ok (p.keyExist keyId)
  require (exists_ = false) (.cosignerException .badKey)
  let key ← if deriveFrom.masterKeyId ≠ [] then
      ofExcept (host.deriveInitialShare deriveFrom .eddsaEd25519)
    else drawing (sampleKeyShare host.toHost 1024)
  commitToShare host keyId playersIds t key infinityPoint

def storeSetupCommitments (commitments : PlayerMap Commitment) :
    EStateM Failure (Party A) SetupDecommitment := do
  verifyTenant host
  let data ← reading fun p => .ok (p.loadSetupData keyId)
  let aux ← reading (·.loadAuxiliaryKeys keyId)
  let metadata ← reading (·.loadKeyMetadata keyId)
  let myId := host.service.getIdFromKeyid keyId
  require (commitments.size = metadata.playersInfo.size) invalidParameters
  require (∀ i ∈ metadata.playersInfo.keys, i ∈ commitments) invalidParameters
  match commitments[myId]? with
  -- `commitments.at(my_id)`
  | none => throw (.runtimeError "map::at")
  | some commit => do
    let decommitment ← ofExcept (createSetupDecommitment host.algebra aux data.toSetupData
      (ackMessage host.hash commitments))
    ofExcept (verifySetupCommitment host.hash keyId myId decommitment commit)
    writing (·.storeSetupCommitments keyId commitments)
    pure decommitment

/-- The second half of `generate_setup_proofs`. -/
def proveSetup (data : SetupRecord) (srid : Bytes 32) :
    EStateM Failure (Party A) SetupZkProofs := do
  let aad := buildAad keyId (host.service.getIdFromKeyid keyId) srid
  let aux ← reading (·.loadAuxiliaryKeys keyId)
  let n ← drawn
  let paillierBlumZkp ← ofExcept ((A.generatePaillierBlumZkp aux aad n).elim
    (.error internalError) .ok)
  let n ← drawn
  let ringPedersenParamZkp ← ofExcept ((A.ringPedersenParametersZkpGenerate aux aad n).elim
    (.error internalError) .ok)
  let key ← reading (·.loadKey keyId)
  let schnorrS ← ofExcept (schnorrZkpGenerate host.algebra host.hash aad key.2 data.publicKey
    data.k)
  pure ⟨schnorrS, paillierBlumZkp, ringPedersenParamZkp⟩

def generateSetupProofs (decommitments : PlayerMap SetupDecommitment) :
    EStateM Failure (Party A) SetupZkProofs := do
  verifyTenant host
  let metadata ← reading (·.loadKeyMetadata keyId)
  writing fun p => .ok (p.withSetupCommitments keyId)
  let commitments ← reading fun p => .ok (p.loadSetupCommitments keyId)
  let playersInfo ← ofExcept (verifyAndLoadSetupDecommitments host.hash keyId commitments
    decommitments metadata.playersInfo)
  let data ← reading fun p => .ok (p.loadSetupData keyId)
  let seed := decommitments.toList.foldl (fun seed d => xorSeed seed d.2.seed) (zeroBytes 32)
  let playersSchnorrR := decommitments.toList.foldl
    (fun points d => points.insert d.1 d.2.share.schnorrR) data.playersSchnorrR
  let data : SetupRecord := ⟨data.toSetupData, playersSchnorrR⟩
  let proofs ← proveSetup host keyId data seed
  writing fun p => .ok (p.storeSetupData keyId data)
  writing (·.storeKeyMetadata keyId
    { metadata with playersInfo := playersInfo, seed := seed } true)
  pure proofs

/-- The proofs of one other player. -/
def verifyPlayerProofs (metadata : KeyMetadata A) (data : SetupRecord)
    (proofs : PlayerMap SetupZkProofs) (info : ℕ × PlayerInfo A) : Except Failure Unit :=
  match proofs[info.1]? with
  | none => .error invalidParameters
  | some proof => do
    if info.1 = host.service.getIdFromKeyid keyId then .ok ()
    else
      let aad := buildAad keyId info.1 metadata.seed
      match data.playersSchnorrR[info.1]? with
      -- `players_schnorr_R.at`
      | none => .error (.runtimeError "map::at")
      | some R => do
        schnorrZkpVerify host.algebra host.hash aad info.2.publicShare R proof.schnorrS
        A.verifyPaillierBlumZkp info.2.paillier aad proof.paillierBlumZkp
        A.ringPedersenParametersZkpVerify info.2.ringPedersen aad proof.ringPedersenParamZkp

/-- The public key, or an error where one has been set that is not the sum of the shares. -/
def checkedPublicKey (metadata : KeyMetadata A) : Except Failure EllipticCurvePoint := do
  let pubkey ← sumShares host.algebra metadata.playersInfo
  if infinityPoint ≠ metadata.publicKey ∧ pubkey ≠ metadata.publicKey then .error invalidParameters
  else .ok pubkey

/-- The proof for one other player that the own Paillier key has large factors. -/
def proveLargeFactors (seed : Bytes 32) (aux : AuxiliaryKeys) (info : ℕ × PlayerInfo A) :
    EStateM Failure (Party A) (ℕ × ByteString) := do
  let aad := buildAad keyId (host.service.getIdFromKeyid keyId) seed
  let n ← drawn
  let proof ← ofExcept (A.paillierLargeFactorsZkpGenerate aux info.2.ringPedersen aad n)
  pure (info.1, proof)

def verifySetupProofs (proofs : PlayerMap SetupZkProofs) :
    EStateM Failure (Party A) (PlayerMap ByteString) := do
  verifyTenant host
  let metadata ← reading (·.loadKeyMetadata keyId)
  require (proofs.size = metadata.playersInfo.size) invalidParameters
  let data ← reading fun p => .ok (p.loadSetupData keyId)
  let _ ← ofExcept (metadata.playersInfo.toList.mapM (verifyPlayerProofs host keyId metadata data
    proofs))
  let pubkey ← ofExcept (checkedPublicKey host metadata)
  writing (·.storeKeyMetadata keyId { metadata with publicKey := pubkey } true)
  let myId := host.service.getIdFromKeyid keyId
  let aux ← reading (·.loadAuxiliaryKeys keyId)
  let entries ← (metadata.playersInfo.toList.filter fun i => i.1 ≠ myId).mapM
    (proveLargeFactors host keyId metadata.seed aux)
  pure (NodePrograms.ofEntries entries)

/-- One other player's proof that its Paillier key has large factors. -/
def verifyLargeFactors (metadata : KeyMetadata A) (aux : AuxiliaryKeys)
    (proofs : ℕ × PlayerMap ByteString) : Except Failure Unit :=
  let myId := host.service.getIdFromKeyid keyId
  if proofs.1 = myId then .ok ()
  else match metadata.playersInfo[proofs.1]? with
  | none => .error invalidParameters
  | some info =>
    match proofs.2[myId]? with
    | none => .error invalidParameters
    | some proof =>
      A.paillierLargeFactorsZkpVerify info.paillier aux (buildAad keyId proofs.1 metadata.seed)
        proof

/-- The public key and the algorithm of the finished key. -/
def createSecret (paillierLargeFactorProofs : PlayerMap (PlayerMap ByteString)) :
    EStateM Failure (Party A) (Ed25519Point × CosignerSignAlgorithm) := do
  verifyTenant host
  let metadata ← reading (·.loadKeyMetadata keyId)
  let aux ← reading (·.loadAuxiliaryKeys keyId)
  require (paillierLargeFactorProofs.size = metadata.playersInfo.size) invalidParameters
  let _ ← ofExcept (paillierLargeFactorProofs.toList.mapM
    (verifyLargeFactors host keyId metadata aux))
  writing fun p => .ok (p.deleteTemporaryKeyData keyId false)
  let key ← reading (·.loadKey keyId)
  if host.backupKey keyId metadata.algorithm key.2 metadata aux then
    pure (metadata.publicKey.ed25519, key.1)
  else do
    writing fun p => .ok (p.deleteTemporaryKeyData keyId true)
    throw (.cosignerException .backupFailed)

end Operations

end MpcDemo.KeySetup
