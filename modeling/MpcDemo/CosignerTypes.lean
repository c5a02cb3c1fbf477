import MpcDemo.Ed25519Algebra
import MpcDemo.FallibleState

/-!
# Data types and interfaces of the cosigner library

The records of `types.h`, `asymmetric_eddsa_cosigner.h` and `cmp_key_persistency.h`, the
exceptions, and the interfaces through which a cosigner reaches its platform, its key store
and its stores of pre- and signing data. Fields that the modelled operations never read are
left out.
-/

namespace MpcDemo.CosignerTypes
open ByteStrings Ed25519Algebra

/-- `cosigner_exception::exception_code`. -/
inductive ExceptionCode
  | genericError | internalError | invalidParameters | badKey | invalidTransaction
  | notAlignedData | notImplemented | unknownAlgorithm | noMem | unauthorized | rejected | busy
  | backupFailed | authorizationFailed | disabledDevice | invalidPresigningIndex
  | badImportedPublicKey | badImportedPrivateKey | badImportedKeyAlreadyExists
  | noSigningInfoGiven | partialSigningInfoGiven
  deriving DecidableEq, Repr

/-- How an operation ends abnormally. The last case is no exception: the code reads outside
an object there, and nothing is known of what it does next. -/
inductive Failure
  | cosignerException (code : ExceptionCode)
  | runtimeError (what : String)
  | undefinedBehaviour
  deriving DecidableEq, Repr

def AlgebraStatus.exceptionCode : AlgebraStatus → ExceptionCode
  | .invalidParameter | .invalidPoint | .invalidScalar => .invalidParameters
  | .outOfMemory => .noMem
  | .insufficientBuffer | .unknownError | .invalidSignature => .internalError

def throwCosignerException {α : Type} : Except AlgebraStatus α → Except Failure α
  | .ok a => .ok a
  | .error status => .error (.cosignerException (AlgebraStatus.exceptionCode status))

@[simp] theorem throwCosignerException_ok {α : Type} (a : α) :
    throwCosignerException (.ok a) = .ok a := rfl

theorem throwCosignerException_eq_ok_iff {α : Type} {x : Except AlgebraStatus α} {a : α} :
    throwCosignerException x = .ok a ↔ x = .ok a := by
  cases x <;> simp [throwCosignerException]

/-- A `std::map` keyed by player ids, in the order of the ids. -/
abbrev PlayerMap (V : Type) := Std.ExtTreeMap ℕ V

abbrev EddsaCommitment := Bytes 32
abbrev HDChaincode := Bytes 32

inductive CosignerSignAlgorithm
  | ecdsaSecp256k1 | eddsaEd25519 | ecdsaSecp256r1 | ecdsaStark
  deriving DecidableEq, Repr

structure EddsaSignature where
  R : Ed25519Point
  s : Ed25519Scalar
  deriving DecidableEq

structure RsAndCommitments where
  Rs : List EllipticCurvePoint
  RCommitment : EddsaCommitment
  deriving DecidableEq

structure SigningBlockData where
  data : ByteString
  path : List ℕ
  deriving DecidableEq

structure SigningData where
  chaincode : HDChaincode
  blocks : List SigningBlockData
  deriving DecidableEq

/-- A random scalar with its provenance: the number of the draw that produced it. Only the
value exists in the code. -/
structure DrawnScalar where
  draw : ℕ
  value : Ed25519Scalar
  deriving DecidableEq

/-- The bit of `SIGNING_FLAGS` that selects Keccak. -/
def eddsaKeccak (flags : ℕ) : Bool := flags.testBit 1

structure AsymmetricEddsaSignatureData where
  /-- The nonce, little-endian. -/
  k : DrawnScalar
  R : EllipticCurvePoint
  path : List ℕ
  message : ByteString
  flags : ℕ
  deriving DecidableEq

structure AsymmetricEddsaSigningMetadata where
  keyId : ByteString
  chaincode : HDChaincode
  sigData : List AsymmetricEddsaSignatureData
  signersIds : Finset ℕ
  /-- A 32-bit field. -/
  startIndex : ℕ
  deriving DecidableEq

structure CmpPlayerInfo where
  publicShare : EllipticCurvePoint
  deriving DecidableEq

structure CmpKeyMetadata where
  publicKey : EllipticCurvePoint
  algorithm : CosignerSignAlgorithm
  t : ℕ
  n : ℕ
  playersInfo : PlayerMap CmpPlayerInfo

/-- `commitments_commitment_t`: a salt and the hash it opens. -/
structure Commitment where
  salt : Bytes 32
  commitment : Bytes 32
  deriving DecidableEq

/-- A Paillier and a ring Pedersen key pair, of which only the serialized public keys are
used. A serialized key is never empty and its length fits 32 bits. -/
structure AuxiliaryKeys where
  paillierPublicKey : ByteString
  ringPedersenPublicKey : ByteString
  paillier_pos : 0 < paillierPublicKey.length
  paillier_lt : paillierPublicKey.length < 2 ^ 32
  ringPedersen_pos : 0 < ringPedersenPublicKey.length
  ringPedersen_lt : ringPedersenPublicKey.length < 2 ^ 32

structure SetupData where
  k : Ed25519Scalar
  seed : Bytes 32
  publicKey : EllipticCurvePoint
  deriving DecidableEq

structure PublicShare where
  X : EllipticCurvePoint
  schnorrR : EllipticCurvePoint
  deriving DecidableEq

structure SetupDecommitment where
  ack : Bytes 32
  seed : Bytes 32
  share : PublicShare
  paillierPublicKey : ByteString
  ringPedersenPublicKey : ByteString
  deriving DecidableEq

/-- `MAX_BLOCKS_TO_SIGN`. -/
def maxBlocksToSign : ℕ := 1000

structure PlatformService where
  getCurrentTenantid : ByteString
  getIdFromKeyid : ByteString → ℕ
  isClientId : ℕ → Bool
  onStartSigning : ByteString → ByteString → SigningData → ByteString → Finset ByteString →
    Except Failure Unit
  /-- The flags that `fill_signing_info_from_metadata` sets, block by block. -/
  fillSigningInfoFromMetadata : ByteString → ℕ → ℕ

/-- `cmp_key_persistency`, read from a state of type `σ`. -/
structure CmpKeyPersistency (σ : Type) where
  keyExist : ByteString → σ → Bool
  loadKey : ByteString → σ → Except Failure (CosignerSignAlgorithm × Ed25519Scalar)
  getTenantidFromKeyid : ByteString → σ → ByteString
  loadKeyMetadata : ByteString → σ → Except Failure CmpKeyMetadata

/-- `asymmetric_eddsa_cosigner_server::signing_persistency`. -/
structure SigningPersistency (σ : Type) where
  createPreprocessedData : ByteString → ℕ → EStateM Failure σ Unit
  storePreprocessedData : ByteString → ℕ → EddsaCommitment → EStateM Failure σ Unit
  loadPreprocessedData : ByteString → ℕ → EStateM Failure σ EddsaCommitment
  deletePreprocessedData : ByteString → EStateM Failure σ Unit
  storeCommitments : ByteString → PlayerMap (List EddsaCommitment) → EStateM Failure σ Unit
  loadCommitments : ByteString → EStateM Failure σ (PlayerMap (List EddsaCommitment))
  deleteCommitments : ByteString → EStateM Failure σ Unit
  storeSigningData : ByteString → AsymmetricEddsaSigningMetadata → Bool → EStateM Failure σ Unit
  loadSigningData : ByteString → EStateM Failure σ AsymmetricEddsaSigningMetadata
  deleteTemporarySigningData : ByteString → EStateM Failure σ Unit

/-- `asymmetric_eddsa_cosigner_client::preprocessing_persistency`. -/
structure PreprocessingPersistency (σ : Type) where
  createPreprocessedData : ByteString → ℕ → EStateM Failure σ Unit
  storePreprocessedData : ByteString → ℕ → DrawnScalar → EStateM Failure σ Unit
  loadPreprocessedData : ByteString → ℕ → EStateM Failure σ DrawnScalar
  deletePreprocessedData : ByteString → EStateM Failure σ Unit

/-- What an `asymmetric_eddsa_cosigner` works with: the algebra, the hashes, its platform and
key store, and the source of random scalars (`_ctx->rand`). -/
structure Cosigner (σ : Type) where
  algebra : Ed25519
  hash : HashFunctions
  service : PlatformService
  keyPersistency : CmpKeyPersistency σ
  rand : EStateM Failure σ (Except AlgebraStatus DrawnScalar)

end MpcDemo.CosignerTypes
