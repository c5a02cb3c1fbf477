import MpcDemo.AsymmetricEddsaCosigner

/-!
# The client side of asymmetric EdDSA signing

The operations of `asymmetric_eddsa_cosigner_client.cpp` over an arbitrary
`preprocessing_persistency`.
-/

namespace MpcDemo.AsymmetricEddsaCosignerClient
open ByteStrings Ed25519Algebra CosignerTypes AsymmetricEddsaCosigner FallibleState

/-- An `asymmetric_eddsa_cosigner_client`. -/
structure Client (σ : Type) extends Cosigner σ where
  preprocessingPersistency : PreprocessingPersistency σ

def invalidParameters : Failure := .cosignerException .invalidParameters

/-- A share together with the draw of the nonce in it, which is not part of the message. -/
structure PartialSignature where
  sig : EddsaSignature
  draw : ℕ
  deriving DecidableEq

/-- One block of `eddsa_sign_offline` with its nonce and the servers' aggregate point. -/
def signBlock (E : Ed25519) (H : HashFunctions) (metadata : CmpKeyMetadata) (key : Ed25519Scalar)
    (chaincode : HDChaincode) (signers : ℕ) (flags : ℕ) (block : SigningBlockData) (k : DrawnScalar)
    (serversR : EllipticCurvePoint) : Except Failure PartialSignature := do
  let sigR ← throwCosignerException (ed25519AlgebraGeneratorMul E k.value)
  let R ← throwCosignerException (ed25519AlgebraAddPoints E sigR serversR.ed25519)
  let (delta, derivedPublicKey) ←
    derivationKeyDelta E H metadata.publicKey chaincode block.path signers
  let hram ← throwCosignerException
    (ed25519CalcHram H R derivedPublicKey block.data (eddsaKeccak flags))
  let x ← throwCosignerException (ed25519AlgebraAddScalars key.val delta.val)
  let s ← throwCosignerException (ed25519AlgebraMulAdd hram (swapBytes x) (swapBytes k.value))
  pure ⟨⟨sigR, swapBytes s⟩, k.draw⟩

variable {σ : Type} (C : Client σ)

/-- The loop of `start_signature_preprocessing`: draw, commit and store, index by index. -/
def preprocessNonces (keyId : ByteString) (myId : ℕ) : ℕ → ℕ →
    EStateM Failure σ (List EddsaCommitment)
  | _, 0 => pure []
  | index, count + 1 => do
    let k ← C.rand
    let k ← ofExcept (throwCosignerException k)
    let R ← ofExcept (throwCosignerException (ed25519AlgebraGeneratorMul C.algebra k.value))
    C.preprocessingPersistency.storePreprocessedData keyId index k
    let RCommitments ← preprocessNonces keyId myId (index + 1) count
    pure (commitToR C.hash keyId index myId R :: RCommitments)

def startSignaturePreprocessing (tenantId keyId _requestId : ByteString)
    (startIndex count totalCount : ℕ) (playersIds : Finset ℕ) :
    EStateM Failure σ (List EddsaCommitment) := do
  let keyTenantId ← inspect fun s => .ok (C.keyPersistency.getTenantidFromKeyid keyId s)
  require (tenantId = keyTenantId) (.cosignerException .unauthorized)
  let metadata ← inspect (C.keyPersistency.loadKeyMetadata keyId)
  require (metadata.algorithm = .eddsaEd25519) invalidParameters
  require (metadata.playersInfo.size = playersIds.card) invalidParameters
  require (∀ i ∈ playersIds, i ∈ metadata.playersInfo) invalidParameters
  let myId := C.service.getIdFromKeyid keyId
  C.preprocessingPersistency.createPreprocessedData keyId totalCount
  preprocessNonces C keyId myId startIndex count

/-- One server's nonce points in `eddsa_sign_offline`: they come from another player of the
key, one for each block, equal to the first player's, under a matching commitment. -/
def acceptsRs (metadata : CmpKeyMetadata) (txid : ByteString) (myId blocks : ℕ)
    (first : List EllipticCurvePoint) (playerId : ℕ) (Rs : RsAndCommitments) : Prop :=
  playerId ≠ myId ∧ playerId ∈ metadata.playersInfo ∧ Rs.Rs.length = blocks ∧ Rs.Rs = first ∧
    commitToRs C.hash txid playerId Rs.Rs = Rs.RCommitment

instance (metadata : CmpKeyMetadata) (txid : ByteString) (myId blocks : ℕ)
    (first : List EllipticCurvePoint) (playerId : ℕ) (Rs : RsAndCommitments) :
    Decidable (acceptsRs C metadata txid myId blocks first playerId Rs) := by
  unfold acceptsRs
  infer_instance

def eddsaSignOffline (keyId txid : ByteString) (data : SigningData) (metadataJson : ByteString)
    (_players : Finset ByteString) (playersIds : Finset ℕ) (preprocessedDataIndex : ℕ)
    (Rs : PlayerMap RsAndCommitments) : EStateM Failure σ (List PartialSignature) := do
  verifyTenantId C.service C.keyPersistency keyId
  let metadata ← inspect (C.keyPersistency.loadKeyMetadata keyId)
  require (playersIds.card = metadata.n) invalidParameters
  require (2 ≤ playersIds.card) invalidParameters
  require (∀ i ∈ playersIds, i ∈ metadata.playersInfo) invalidParameters
  require ((Rs.size : ℤ) = metadata.t - 1) invalidParameters
  let blocks := data.blocks.length
  require (blocks ≤ maxBlocksToSign) invalidParameters
  let myId := C.service.getIdFromKeyid keyId
  let first := (Rs.toList.head?.map fun r => r.2.Rs).getD []
  require (∀ r ∈ Rs.toList, acceptsRs C metadata txid myId blocks first r.1 r.2)
    invalidParameters
  let flags := C.service.fillSigningInfoFromMetadata metadataJson
  let (algo, key) ← inspect (C.keyPersistency.loadKey keyId)
  require (algo = .eddsaEd25519 ∧ metadata.algorithm = .eddsaEd25519) invalidParameters
  -- `first_player->second.Rs.size()` with no first player
  require (Rs.toList ≠ []) .undefinedBehaviour
  (first.zip data.blocks).zipIdx.mapM fun ((serversR, block), i) => do
    let k ← C.preprocessingPersistency.loadPreprocessedData keyId (preprocessedDataIndex + i)
    ofExcept (signBlock C.algebra C.hash metadata key data.chaincode playersIds.card (flags i)
      block k serversR)

end MpcDemo.AsymmetricEddsaCosignerClient
