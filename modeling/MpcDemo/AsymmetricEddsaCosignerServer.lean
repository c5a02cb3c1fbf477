import MpcDemo.AsymmetricEddsaCosigner

/-!
# The server side of asymmetric EdDSA signing

The operations of `asymmetric_eddsa_cosigner_server.cpp` over an arbitrary
`signing_persistency`. A loop whose iterations can only throw one and the same exception is
one `require`; a block loop is a map over the blocks that carries its index along.
-/

namespace MpcDemo.AsymmetricEddsaCosignerServer
open ByteStrings Ed25519Algebra CosignerTypes AsymmetricEddsaCosigner FallibleState

/-- An `asymmetric_eddsa_cosigner_server`. -/
structure Server (σ : Type) extends Cosigner σ where
  signingPersistency : SigningPersistency σ

def invalidParameters : Failure := .cosignerException .invalidParameters

variable {σ : Type} (S : Server σ)

def storePresigningData (keyId _requestId : ByteString) (startIndex count totalCount : ℕ)
    (playersIds : Finset ℕ) (sender : ℕ) (RCommitments : List EddsaCommitment) :
    EStateM Failure σ Unit := do
  verifyTenantId S.service S.keyPersistency keyId
  require (RCommitments.length = count) invalidParameters
  let metadata ← inspect (S.keyPersistency.loadKeyMetadata keyId)
  require (metadata.algorithm = .eddsaEd25519) invalidParameters
  require (metadata.playersInfo.size = playersIds.card) invalidParameters
  require (S.service.isClientId sender) invalidParameters
  require (∀ i ∈ playersIds, i ∈ metadata.playersInfo ∧ (S.service.isClientId i → i = sender))
    invalidParameters
  S.signingPersistency.createPreprocessedData keyId totalCount
  RCommitments.zipIdx.forM fun (commitment, i) =>
    S.signingPersistency.storePreprocessedData keyId (startIndex + i) commitment

/-- `while (j < 1024 && status != SUCCESS)`: draw until a draw succeeds, but not at all when
the status is already a success. -/
def retryRand : ℕ → Except AlgebraStatus DrawnScalar →
    EStateM Failure σ (Except AlgebraStatus DrawnScalar)
  | 0, status => pure status
  | _ + 1, .ok k => pure (.ok k)
  | j + 1, .error _ => do
    let status ← S.rand
    retryRand j status

/-- The block loop of `eddsa_sign_offline`. The status of the last draw and its scalar are
declared outside the loop and carried from block to block. -/
def drawNonces : Except AlgebraStatus DrawnScalar → List SigningBlockData →
    EStateM Failure σ (List AsymmetricEddsaSignatureData)
  | _, [] => pure []
  | status, block :: blocks => do
    let status ← retryRand S 1024 status
    let k ← ofExcept (status.mapError fun _ => .cosignerException .internalError)
    let R ← ofExcept (throwCosignerException (generatorMul S.algebra k.value))
    let sigData ← drawNonces (.ok k) blocks
    pure (⟨⟨k.draw, swapBytes k.value⟩, R, block.path, block.data, 0⟩ :: sigData)

/-- The output arguments of `eddsa_sign_offline`: commitments when there are more than two
players, the nonce points themselves otherwise. -/
structure SignOfflineOutput where
  RCommitments : List EddsaCommitment
  Rs : Option RsAndCommitments
  deriving DecidableEq

def eddsaSignOffline (keyId txid : ByteString) (data : SigningData) (metadataJson : ByteString)
    (players : Finset ByteString) (playersIds : Finset ℕ) (preprocessedDataIndex : ℕ) :
    EStateM Failure σ SignOfflineOutput := do
  verifyTenantId S.service S.keyPersistency keyId
  let metadata ← inspect (S.keyPersistency.loadKeyMetadata keyId)
  require (metadata.algorithm = .eddsaEd25519) invalidParameters
  require (playersIds.card = metadata.n) invalidParameters
  require (2 ≤ playersIds.card) invalidParameters
  require (∀ i ∈ playersIds, i ∈ metadata.playersInfo) invalidParameters
  ofExcept (S.service.onStartSigning keyId txid data metadataJson players)
  require (data.blocks.length ≤ maxBlocksToSign) invalidParameters
  let myId := S.service.getIdFromKeyid keyId
  let sigData ← drawNonces S (.error .unknownError) data.blocks
  let flags := S.service.fillSigningInfoFromMetadata metadataJson
  S.signingPersistency.storeSigningData txid
    { keyId := keyId
      chaincode := data.chaincode
      sigData := sigData.mapIdx fun i d => { d with flags := flags i }
      signersIds := playersIds
      startIndex := preprocessedDataIndex % 2 ^ 32 } false
  if metadata.n = 2 then
    let Rs := sigData.map (·.R)
    pure ⟨[], some ⟨Rs, commitToRs S.hash txid myId Rs⟩⟩
  else
    pure ⟨sigData.mapIdx fun i d =>
      commitToR S.hash txid (i + preprocessedDataIndex) myId d.R.ed25519, none⟩

def decommitR (txid : ByteString) (commitments : PlayerMap (List EddsaCommitment)) :
    EStateM Failure σ (List EllipticCurvePoint) := do
  let data ← S.signingPersistency.loadSigningData txid
  verifyTenantId S.service S.keyPersistency data.keyId
  let myId := S.service.getIdFromKeyid data.keyId
  require (data.signersIds.card = commitments.size + 1) invalidParameters
  require (∀ i ∈ data.signersIds, S.service.isClientId i ∨ i ∈ commitments) invalidParameters
  require (∀ c ∈ commitments.toList, c.2.length = data.sigData.length) invalidParameters
  -- `my_commit` is only dereferenced inside the block loop
  require (data.sigData = [] ∨ myId ∈ commitments) .undefinedBehaviour
  let myCommit := commitments.getD myId []
  require (∀ b ∈ (myCommit.zip data.sigData).zipIdx, verifyCommitToR S.hash b.1.1 txid
    (b.2 + data.startIndex) myId b.1.2.R.ed25519) invalidParameters
  S.signingPersistency.storeCommitments txid commitments
  pure (data.sigData.map (·.R))

section Blocks
variable (E : Ed25519) (H : HashFunctions)

/-- One player's turn in `broadcast_r`: check its nonce points against its commitments and,
unless it is this server, add them to the aggregate. -/
def aggregatePlayer (txid : ByteString) (startIndex myId playerId : ℕ)
    (commitments : List EddsaCommitment) (Rs : List EllipticCurvePoint)
    (sigData : List AsymmetricEddsaSignatureData) :
    Except Failure (List AsymmetricEddsaSignatureData) :=
  sigData.zipIdx.mapM fun (d, j) =>
    match commitments[j]?, Rs[j]? with
    | some commitment, some R =>
      if verifyCommitToR H commitment txid (j + startIndex) playerId R.ed25519 then
        if playerId = myId then .ok d
        else (throwCosignerException (addPoints E d.R R)).map fun R => { d with R := R }
      else .error invalidParameters
    | _, _ => .error .undefinedBehaviour

def aggregatePlayers (txid : ByteString) (startIndex myId : ℕ)
    (playersR : PlayerMap (List EllipticCurvePoint)) :
    List (ℕ × List EddsaCommitment) → List AsymmetricEddsaSignatureData →
    Except Failure (List AsymmetricEddsaSignatureData)
  | [], sigData => .ok sigData
  | (playerId, commitments) :: rest, sigData =>
    match playersR[playerId]? with
    | none => .error invalidParameters
    | some Rs => do
      let sigData ← aggregatePlayer E H txid startIndex myId playerId commitments Rs sigData
      aggregatePlayers txid startIndex myId playersR rest sigData

/-- `memcpy` of an encoded point over the first 32 bytes of a stored point. -/
def overwritePoint (stored : EllipticCurvePoint) (R : Ed25519Point) : EllipticCurvePoint :=
  ⟨R.val ++ stored.val.drop 32, by rw [List.length_append, R.2, List.length_drop, stored.2]⟩

/-- The end of a block in `broadcast_si`, from this server's share on: the full signature, or
the share to send, with the client's share added by exactly one server. -/
def finishBlock (finalSig addClientShare : Bool) (R : Ed25519Point) (s : Ed25519LeScalar)
    (partialSig : EddsaSignature) (d : AsymmetricEddsaSignatureData) :
    Except Failure (EddsaSignature × AsymmetricEddsaSignatureData) :=
  if finalSig then do
    let s ← throwCosignerException (ed25519AlgebraAddLeScalars s (swapBytes partialSig.s))
    pure (⟨R, s⟩, d)
  else do
    let s ← if addClientShare then
        throwCosignerException (ed25519AlgebraAddScalars (swapBytes s).val partialSig.s.val)
      else pure (swapBytes s)
    pure (⟨R, s⟩, { d with R := overwritePoint d.R R })

/-- One block of `broadcast_si` after the client's commitment has been checked: the signature
or share to send, and the block's record. -/
def signBlock (metadata : CmpKeyMetadata) (key : Ed25519Scalar) (chaincode : HDChaincode)
    (signers : ℕ) (finalSig addClientShare : Bool) (partialSig : EddsaSignature)
    (d : AsymmetricEddsaSignatureData) :
    Except Failure (EddsaSignature × AsymmetricEddsaSignatureData) := do
  let R ← throwCosignerException (ed25519AlgebraAddPoints E d.R.ed25519 partialSig.R)
  let (delta, derivedPublicKey) ←
    derivationKeyDelta E H metadata.publicKey chaincode d.path signers
  let hram ← throwCosignerException
    (ed25519CalcHram H R derivedPublicKey d.message (eddsaKeccak d.flags))
  let x ← throwCosignerException (ed25519AlgebraAddScalars key.val delta.val)
  let s ← throwCosignerException (ed25519AlgebraMulAdd hram (swapBytes x) d.k.value)
  finishBlock finalSig addClientShare R s partialSig d

/-- The sum of the delivered shares of one block, each of which must name the stored `R`. -/
def sumShares (R : Ed25519Point) (index : ℕ) :
    List (ℕ × List EddsaSignature) → Ed25519LeScalar → Except Failure Ed25519LeScalar
  | [], s => .ok s
  | (_, sigs) :: rest, s =>
    match sigs[index]? with
    | none => .error .undefinedBehaviour
    | some sig =>
      if sig.R = R then do
        let s ← throwCosignerException (ed25519AlgebraAddLeScalars s (swapBytes sig.s))
        sumShares R index rest s
      else .error invalidParameters

/-- One block of `get_eddsa_signature`. The derived key is computed and not used: the check
of the signature is commented out. -/
def finalizeBlock (metadata : CmpKeyMetadata) (chaincode : HDChaincode)
    (partialSigs : PlayerMap (List EddsaSignature)) (d : AsymmetricEddsaSignatureData)
    (index : ℕ) : Except Failure EddsaSignature := do
  let s ← sumShares d.R.ed25519 index partialSigs.toList (zeroBytes 32)
  let _ ← (derivePublicKeyGeneric E H metadata.publicKey chaincode d.path).mapError
    fun _ => Failure.cosignerException .internalError
  pure ⟨d.R.ed25519, s⟩

/-- The check of a client's share. Its only call, in `broadcast_si`, is commented out. -/
def verifyClientS (R : Ed25519Point) (s : Ed25519Scalar) (hram : Ed25519LeScalar)
    (publicShare : EllipticCurvePoint) (delta : Ed25519Scalar) : Except Failure Bool := do
  let p₁ ← throwCosignerException (generatorMul E s)
  let p₂ ← throwCosignerException (generatorMul E delta)
  let p₂ ← throwCosignerException (addPoints E p₂ publicShare)
  let p₂ ← throwCosignerException (pointMul E p₂ (swapBytes hram))
  let p₂ ← throwCosignerException (addPoints E p₂ (Ed25519Point.generic R))
  pure (decide (p₁ = p₂))

end Blocks

structure BroadcastROutput where
  Rs : RsAndCommitments
  /-- The last client among the signers; left as it was when there is none. -/
  sendTo : Option ℕ

def broadcastR (txid : ByteString) (playersR : PlayerMap (List EllipticCurvePoint)) :
    EStateM Failure σ BroadcastROutput := do
  let data ← S.signingPersistency.loadSigningData txid
  verifyTenantId S.service S.keyPersistency data.keyId
  let myId := S.service.getIdFromKeyid data.keyId
  require (data.signersIds.card = playersR.size + 1) invalidParameters
  require (∀ i ∈ data.signersIds, S.service.isClientId i ∨ i ∈ playersR) invalidParameters
  require (∀ r ∈ playersR.toList, r.2.length = data.sigData.length) invalidParameters
  let commitments ← S.signingPersistency.loadCommitments txid
  let sigData ← ofExcept (aggregatePlayers S.algebra S.hash txid data.startIndex myId playersR
    commitments.toList data.sigData)
  S.signingPersistency.deleteCommitments txid
  let Rs := sigData.map (·.R)
  S.signingPersistency.storeSigningData txid { data with sigData := sigData } true
  pure ⟨⟨Rs, commitToRs S.hash txid myId Rs⟩,
    (data.signersIds.filter fun i => S.service.isClientId i).max⟩

/-- The block loop of `broadcast_si`. -/
def signBlocks (data : AsymmetricEddsaSigningMetadata) (sender : ℕ) (metadata : CmpKeyMetadata)
    (key : Ed25519Scalar) (finalSig addClientShare : Bool) (partialSigs : List EddsaSignature) :
    EStateM Failure σ (List (EddsaSignature × AsymmetricEddsaSignatureData)) :=
  (partialSigs.zip data.sigData).zipIdx.mapM fun b => do
    let commitment ← S.signingPersistency.loadPreprocessedData data.keyId (data.startIndex + b.2)
    require (verifyCommitToR S.hash commitment data.keyId (b.2 + data.startIndex) sender
      b.1.1.R) invalidParameters
    ofExcept (signBlock S.algebra S.hash metadata key data.chaincode data.signersIds.card finalSig
      addClientShare b.1.1 b.1.2)

structure BroadcastSiOutput where
  sigs : List EddsaSignature
  sendTo : Finset ℕ
  finalSignature : Bool
  deriving DecidableEq

def broadcastSi (txid : ByteString) (sender _version : ℕ) (partialSigs : List EddsaSignature) :
    EStateM Failure σ BroadcastSiOutput := do
  let data ← S.signingPersistency.loadSigningData txid
  verifyTenantId S.service S.keyPersistency data.keyId
  let myId := S.service.getIdFromKeyid data.keyId
  require (sender ∈ data.signersIds) invalidParameters
  require (partialSigs.length = data.sigData.length) invalidParameters
  let metadata ← inspect (S.keyPersistency.loadKeyMetadata data.keyId)
  require (sender ∈ metadata.playersInfo) (.cosignerException .internalError)
  let (algo, key) ← inspect (S.keyPersistency.loadKey data.keyId)
  require (algo = .eddsaEd25519) invalidParameters
  let finalSig : Bool := data.signersIds.card = 2
  let sendTo := data.signersIds.erase sender
  -- `*send_to.begin()`
  require (sendTo ≠ ∅) .undefinedBehaviour
  let addClientShare : Bool := sendTo.min = myId
  let blocks ← signBlocks S data sender metadata key finalSig addClientShare partialSigs
  if finalSig then S.signingPersistency.deleteTemporarySigningData txid
  else
    let data := { data with sigData := blocks.map (·.2) }
    S.signingPersistency.storeSigningData txid data true
  pure ⟨blocks.map (·.1), sendTo, finalSig⟩

def getEddsaSignature (txid : ByteString) (partialSigs : PlayerMap (List EddsaSignature)) :
    EStateM Failure σ (List EddsaSignature) := do
  let data ← S.signingPersistency.loadSigningData txid
  verifyTenantId S.service S.keyPersistency data.keyId
  require (data.signersIds.card = partialSigs.size + 1) invalidParameters
  require (∀ i ∈ data.signersIds, S.service.isClientId i ∨
    (i ∈ partialSigs ∧ (partialSigs.getD i []).length = data.sigData.length)) invalidParameters
  let metadata ← inspect (S.keyPersistency.loadKeyMetadata data.keyId)
  let sigs ← ofExcept (data.sigData.zipIdx.mapM fun (d, index) =>
    finalizeBlock S.algebra S.hash metadata data.chaincode partialSigs d index)
  S.signingPersistency.deleteTemporarySigningData txid
  pure sigs

def cancelSigning (txid : ByteString) : EStateM Failure σ Unit := do
  S.signingPersistency.deleteCommitments txid
  S.signingPersistency.deleteTemporarySigningData txid

end MpcDemo.AsymmetricEddsaCosignerServer
