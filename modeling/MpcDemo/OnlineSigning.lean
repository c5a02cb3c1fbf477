import MpcDemo.KeySetupSessions

/-!
# Online EdDSA signing

`eddsa_online_signing_service` over the stores of `eddsa_online_test.cpp`: any number of players
commit to their nonce points, open them, send each other their shares of the signatures and check
what the shares add up to.
-/

namespace MpcDemo.OnlineSigning
open ByteStrings Ed25519Algebra CosignerTypes AsymmetricEddsaCosigner FallibleState NodeState
open SetupService (invalidParameters internalError)
open KeySetup KeySetupSessions PlayerRounds StoredDraws

/-- `eddsa_signature_data`. -/
structure EddsaSignatureData where
  /-- The nonce, little-endian. -/
  k : DrawnScalar
  R : EllipticCurvePoint
  s : Ed25519Scalar
  path : List ℕ
  message : ByteString
  flags : ℕ
  deriving DecidableEq

structure EddsaSigningMetadata where
  keyId : ByteString
  chaincode : HDChaincode
  sigData : List EddsaSignatureData
  signersIds : Finset ℕ
  version : ℕ

/-- The key store, which is only read, and `eddsa_signing_persistency`. -/
structure OnlinePersistency (A : AuxiliaryScheme) where
  keys : SetupPersistency A
  metadata : ByteString → Option EddsaSigningMetadata
  commitments : ByteString → Option (PlayerMap (List Commitment))

/-- A player that signs. -/
abbrev Signer (A : AuxiliaryScheme) : Type := Drawing (OnlinePersistency A)

variable {A : AuxiliaryScheme}

def invalidTransaction : Failure := .cosignerException .invalidTransaction

/-- `MPC_PROTOCOL_VERSION`. -/
def mpcProtocolVersion : ℕ := 10

namespace OnlinePersistency
variable (p : OnlinePersistency A) (txid : ByteString)

def setMetadata (data : EddsaSigningMetadata) : OnlinePersistency A :=
  { p with metadata := Function.update p.metadata txid (some data) }

def setCommitments (commitments : PlayerMap (List Commitment)) : OnlinePersistency A :=
  { p with commitments := Function.update p.commitments txid (some commitments) }

def storeSigningData (data : EddsaSigningMetadata) : Except Failure (OnlinePersistency A) :=
  if (p.metadata txid).isSome then .error invalidTransaction else .ok (p.setMetadata txid data)

def loadSigningData : Except Failure EddsaSigningMetadata :=
  match p.metadata txid with
  | none => .error invalidTransaction
  | some data => .ok data

def updateSigningData (data : EddsaSigningMetadata) : Except Failure (OnlinePersistency A) :=
  if (p.metadata txid).isSome then .ok (p.setMetadata txid data) else .error invalidTransaction

def storeSigningCommitments (commitments : PlayerMap (List Commitment)) :
    Except Failure (OnlinePersistency A) :=
  if (p.commitments txid).isSome then .error invalidTransaction
  else .ok (p.setCommitments txid commitments)

def loadSigningCommitments : Except Failure (PlayerMap (List Commitment)) :=
  match p.commitments txid with
  | none => .error invalidTransaction
  | some commitments => .ok commitments

def deleteTemporarySigningData : OnlinePersistency A :=
  { p with
    metadata := Function.update p.metadata txid none
    commitments := Function.update p.commitments txid none }

end OnlinePersistency

section Pieces
variable (E : Ed25519) (H : HashFunctions)

/-- `commitments_create_commitment_for_data`, once the salt is drawn. -/
def commitTo (salt : Bytes 32) (R : EllipticCurvePoint) : Commitment :=
  ⟨salt, H.sha256 (salt.val ++ R.val)⟩

def verifyCommitment (R : EllipticCurvePoint) (commitment : Commitment) : Except Failure Unit :=
  if H.sha256 (commitment.salt.val ++ R.val) = commitment.commitment then .ok ()
  else .error invalidParameters

/-- The messages of the signers: one list for each of them, with one entry for each block. -/
def CompleteFor {V : Type} (data : EddsaSigningMetadata) (messages : PlayerMap (List V)) : Prop :=
  data.signersIds.card = messages.size ∧ (∀ i ∈ data.signersIds, i ∈ messages) ∧
    ∀ e ∈ messages.toList, e.2.length = data.sigData.length

instance {V : Type} (data : EddsaSigningMetadata) (messages : PlayerMap (List V)) :
    Decidable (CompleteFor data messages) :=
  inferInstanceAs (Decidable (_ ∧ _ ∧ _))

/-- `operator[]` of a vector, which is undefined behind its end. -/
def entryAt {V : Type} (l : List V) (index : ℕ) : Except Failure V :=
  match l[index]? with
  | none => .error .undefinedBehaviour
  | some a => .ok a

/-- The nonce points of one player are those that it has committed to. -/
def verifyDecommitment (blocks : ℕ) (Rs : PlayerMap (List EllipticCurvePoint))
    (c : ℕ × List Commitment) : Except Failure Unit :=
  match Rs[c.1]? with
  | none => .error invalidParameters
  | some points => (List.range blocks).forM fun j => do
    let R ← entryAt points j
    let commitment ← entryAt c.2 j
    verifyCommitment H R commitment

/-- The points of all players for one block are added to the first of them. -/
def sumPoints (own : EllipticCurvePoint) (index : ℕ) :
    List (ℕ × List EllipticCurvePoint) → Except Failure EllipticCurvePoint
  | [] => .ok own
  | first :: rest => do
    let R ← entryAt first.2 index
    rest.foldlM (fun sum e => do
      let R ← entryAt e.2 index
      throwCosignerException (addPoints E sum R)) R

/-- The tweak of a path and the derived public key. -/
def derivedKey (publicKey : EllipticCurvePoint) (chaincode : HDChaincode) (path : List ℕ) :
    Except Failure (Ed25519Scalar × EllipticCurvePoint) :=
  if path = [] then .ok (zeroBytes 32, publicKey)
  else
    match derivePrivateAndPublicKeys E H publicKey (zeroBytes 32) chaincode path with
    | .error _ => .error internalError
    | .ok derived => .ok (derived.privkey, derived.pubkey)

/-- One player's part of a tweak. The number of signers is made a byte. -/
def splitDelta (delta : Ed25519Scalar) (path : List ℕ) (signers : ℕ) :
    Except Failure Ed25519Scalar :=
  if path ≠ [] ∧ 1 < signers then do
    let inv ← throwCosignerException (ed25519AlgebraInverse (beBytes 32 (signers % 256)))
    throwCosignerException (ed25519AlgebraMulScalars delta.val inv.val)
  else .ok delta

/-- One block of `broadcast_si`: the sum of the nonce points and this player's share. -/
def signBlock (publicKey : EllipticCurvePoint) (share : Ed25519Scalar) (chaincode : HDChaincode)
    (signers : ℕ) (Rs : PlayerMap (List EllipticCurvePoint)) (index : ℕ) (d : EddsaSignatureData) :
    Except Failure EddsaSignatureData := do
  let R ← sumPoints E d.R index Rs.toList
  let derived ← derivedKey E H publicKey chaincode d.path
  let k ← throwCosignerException
    (ed25519CalcHram H R.ed25519 derived.2.ed25519 d.message (eddsaKeccak d.flags))
  let delta ← splitDelta derived.1 d.path signers
  let x ← throwCosignerException (ed25519AlgebraAddScalars delta.val share.val)
  let s ← throwCosignerException (ed25519AlgebraMulAdd k (swapBytes x) d.k.value)
  .ok { d with R := R, s := swapBytes s }

/-- One block of `get_eddsa_signature`: what the shares add up to, if it verifies. -/
def finishBlock (publicKey : EllipticCurvePoint) (chaincode : HDChaincode) (myId : ℕ)
    (shares : PlayerMap (List Ed25519Scalar)) (index : ℕ) (d : EddsaSignatureData) :
    Except Failure EddsaSignature := do
  match (shares.getD myId [])[index]? with
  -- `my_s->at(index)`
  | none => .error (.runtimeError "vector::_M_range_check")
  | some own =>
    if own ≠ d.s then .error invalidParameters
    else
      let sum ← shares.toList.foldlM (fun sum e => do
        let s ← entryAt e.2 index
        throwCosignerException (ed25519AlgebraAddScalars sum.val s.val)) (zeroBytes 32)
      let derived ← (derivePublicKeyGeneric E H publicKey chaincode d.path).mapError
        fun _ => internalError
      if ed25519Verify E H d.message d.R.ed25519 (swapBytes sum) derived.ed25519
          (eddsaKeccak d.flags) then .ok ⟨d.R.ed25519, swapBytes sum⟩
      else .error internalError

end Pieces

section Operations
variable (host : SetupHost A)

def verifyTenant : EStateM Failure (Signer A) Unit :=
  require (host.service.getCurrentTenantid = tenantId) (.cosignerException .unauthorized)

/-- A nonce for one block, and a commitment to its point. -/
def startBlock (block : SigningBlockData) :
    EStateM Failure (Signer A) (EddsaSignatureData × Commitment) := do
  let n ← drawn
  let k ← ofExcept (throwCosignerException (host.tape.rand n))
  let k : Ed25519Scalar := beBytes 32 (Fin.val k)
  let R ← ofExcept (throwCosignerException (generatorMul host.algebra k))
  let m ← drawn
  let salt ← ofExcept ((host.tape.randBytes m).elim (.error internalError) .ok)
  pure (⟨⟨n, swapBytes k⟩, R, zeroBytes 32, block.path, block.data, 0⟩,
    commitTo host.hash salt R)

def startSigning (keyId txid : ByteString) (data : SigningData) (metadataJson : ByteString)
    (players : Finset ByteString) (playersIds : Finset ℕ) :
    EStateM Failure (Signer A) (List Commitment) := do
  verifyTenant host
  let metadata ← reading (·.keys.loadKeyMetadata keyId)
  require (metadata.algorithm = .eddsaEd25519) invalidParameters
  require (metadata.t ≤ playersIds.card) invalidParameters
  require (∀ i ∈ playersIds, i ∈ metadata.playersInfo) invalidParameters
  ofExcept (host.service.onStartSigning keyId txid data metadataJson players)
  require (data.blocks.length ≤ maxBlocksToSign) invalidParameters
  let blocks ← data.blocks.mapM (startBlock host)
  let flags := host.service.fillSigningInfoFromMetadata metadataJson
  writing (·.storeSigningData txid
    { keyId := keyId
      chaincode := data.chaincode
      sigData := blocks.mapIdx fun i b => { b.1 with flags := flags i }
      signersIds := playersIds
      version := mpcProtocolVersion })
  pure (blocks.map (·.2))

def storeCommitments (txid : ByteString) (commitments : PlayerMap (List Commitment))
    (version : ℕ) : EStateM Failure (Signer A) (List EllipticCurvePoint) := do
  let data ← reading (·.loadSigningData txid)
  verifyTenant host
  let myId := host.service.getIdFromKeyid data.keyId
  require (CompleteFor data commitments) invalidParameters
  -- `assert(my_commit != commitments.end())`
  require (myId ∈ commitments) .undefinedBehaviour
  ofExcept ((data.sigData.zip (commitments.getD myId [])).forM fun b =>
    verifyCommitment host.hash b.1.R b.2)
  if data.version ≠ version then
    writing (·.updateSigningData txid { data with version := version })
  writing (·.storeSigningCommitments txid commitments)
  pure (data.sigData.map (·.R))

def broadcastSi (txid : ByteString) (Rs : PlayerMap (List EllipticCurvePoint)) :
    EStateM Failure (Signer A) (List Ed25519Scalar) := do
  let data ← reading (·.loadSigningData txid)
  verifyTenant host
  require (CompleteFor data Rs) invalidParameters
  let commitments ← reading (·.loadSigningCommitments txid)
  ofExcept (commitments.toList.forM (verifyDecommitment host.hash data.sigData.length Rs))
  let metadata ← reading (·.keys.loadKeyMetadata data.keyId)
  let key ← reading (·.keys.loadKey data.keyId)
  require (key.1 = metadata.algorithm) internalError
  let sigData ← ofExcept (data.sigData.zipIdx.mapM fun d =>
    signBlock host.algebra host.hash metadata.publicKey key.2 data.chaincode data.signersIds.card Rs
      d.2 d.1)
  writing (·.updateSigningData txid { data with sigData := sigData })
  pure (sigData.map (·.s))

def getEddsaSignature (txid : ByteString) (shares : PlayerMap (List Ed25519Scalar)) :
    EStateM Failure (Signer A) (List EddsaSignature) := do
  let data ← reading (·.loadSigningData txid)
  verifyTenant host
  let myId := host.service.getIdFromKeyid data.keyId
  require (shares.size = data.signersIds.card) invalidParameters
  require (∀ i ∈ data.signersIds, i ∈ shares ∧
    (shares.getD i []).length = data.sigData.length) invalidParameters
  require (myId ∈ data.signersIds) internalError
  let metadata ← reading (·.keys.loadKeyMetadata data.keyId)
  let sigs ← ofExcept (data.sigData.zipIdx.mapM fun d =>
    finishBlock host.algebra host.hash metadata.publicKey data.chaincode myId shares d.2 d.1)
  writing fun p => .ok (p.deleteTemporarySigningData txid)
  pure sigs

end Operations

/-- `eddsa_sign` of `eddsa_online_test.cpp`, without the calls that are repeated. -/
def eddsaSign (P : Players A) (players : Finset ℕ) (keyId txid : ByteString) (data : SigningData)
    (names : Finset ByteString) (version : ℕ) :
    EStateM Failure (ℕ → Signer A) (PlayerMap (List EddsaSignature)) := do
  let commitments ← eachPlayer players fun i =>
    startSigning (P.host i) keyId txid data [] names players
  let Rs ← eachPlayer players fun i => storeCommitments (P.host i) txid commitments version
  let shares ← eachPlayer players fun i => broadcastSi (P.host i) txid Rs
  eachPlayer players fun i => getEddsaSignature (P.host i) txid shares

end MpcDemo.OnlineSigning
