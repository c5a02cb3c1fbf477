import MpcDemo.CosignerTypes

/-!
# Common parts of the asymmetric EdDSA cosigners

Child key derivation (`hd_derive.cpp`), the per-party fraction of the derivation tweak, the
commitments to nonce points and the tenant check.
-/

namespace MpcDemo.AsymmetricEddsaCosigner
open ByteStrings Ed25519Algebra CosignerTypes FallibleState

inductive HdDeriveStatus
  | errorHardenedPublic | errorAddingTweakToPub | errorAddingTweakToPriv | errorGeneral
  deriving DecidableEq, Repr

def isHardened (childNum : ℕ) : Bool := childNum >>> 31 != 0

def bip32Hash (H : HashFunctions) (chaincode : HDChaincode) (nChild : ℕ) (header : UInt8)
    (data : ByteString) : Bytes 64 :=
  H.hmacSha512 chaincode.val (header :: data ++ beList 4 nChild)

def hashForDerive (H : HashFunctions) (pubkey : EllipticCurvePoint) (privkey : Ed25519Scalar)
    (chaincode : HDChaincode) (childNum : ℕ) : Bytes 64 :=
  if isHardened childNum then bip32Hash H chaincode childNum 0 privkey.val
  else bip32Hash H chaincode childNum (pubkey.val.headD 0) pubkey.val.tail

/-- The two halves of a 64-byte hash. -/
def leftHalf (hash : Bytes 64) : Bytes 32 :=
  ⟨hash.val.take 32, by rw [List.length_take, hash.2]; rfl⟩

def rightHalf (hash : Bytes 64) : Bytes 32 :=
  ⟨hash.val.drop 32, by rw [List.length_drop, hash.2]⟩

structure DerivedKeys where
  pubkey : EllipticCurvePoint
  privkey : Ed25519Scalar
  chaincode : HDChaincode

section Derivation
variable (E : Ed25519) (H : HashFunctions)

def deriveNextKeyLevel (derivePrivate : Bool) (keys : DerivedKeys) (childNum : ℕ) :
    Except HdDeriveStatus DerivedKeys :=
  if isHardened childNum && !derivePrivate then .error .errorHardenedPublic
  else
    let hash := hashForDerive H keys.pubkey keys.privkey keys.chaincode childNum
    match generatorMul E (leftHalf hash) with
    | .error _ => .error .errorAddingTweakToPub
    | .ok tweak =>
      match addPoints E keys.pubkey tweak with
      | .error _ => .error .errorAddingTweakToPub
      | .ok pubkey =>
        if derivePrivate then
          match ed25519AlgebraAddScalars keys.privkey.val (leftHalf hash).val with
          | .error _ => .error .errorAddingTweakToPriv
          | .ok privkey => .ok ⟨pubkey, privkey, rightHalf hash⟩
        else .ok ⟨pubkey, keys.privkey, rightHalf hash⟩

def derivePublicKeyGeneric (pubkey : EllipticCurvePoint) (chaincode : HDChaincode)
    (path : List ℕ) : Except HdDeriveStatus EllipticCurvePoint :=
  (path.foldlM (deriveNextKeyLevel E H false) ⟨pubkey, zeroBytes 32, chaincode⟩).map
    DerivedKeys.pubkey

/-- A failed level is reported as a general error: the status of the level is kept in a
shadowed variable. -/
def derivePrivateAndPublicKeys (pubkey : EllipticCurvePoint) (privkey : Ed25519Scalar)
    (chaincode : HDChaincode) (path : List ℕ) : Except HdDeriveStatus DerivedKeys :=
  (path.foldlM (deriveNextKeyLevel E H true) ⟨pubkey, privkey, chaincode⟩).mapError
    fun _ => .errorGeneral

/-- The tweak of one party and the derived public key. -/
def derivationKeyDelta (publicKey : EllipticCurvePoint) (chaincode : HDChaincode)
    (path : List ℕ) (signers : ℕ) : Except Failure (Ed25519Scalar × Ed25519Point) :=
  if path = [] then .ok (zeroBytes 32, publicKey.ed25519)
  else
    match derivePrivateAndPublicKeys E H publicKey (zeroBytes 32) chaincode path with
    | .error _ => .error (.cosignerException .internalError)
    | .ok derived =>
      let splitFactor := signers % 256
      if 1 < splitFactor then do
        let inv ← throwCosignerException (ed25519AlgebraInverse (beBytes 32 splitFactor))
        let delta ← throwCosignerException (ed25519AlgebraMulScalars derived.privkey.val inv.val)
        .ok (delta, derived.pubkey.ed25519)
      else .ok (derived.privkey, derived.pubkey.ed25519)

end Derivation

section Commitments
variable (H : HashFunctions)

/-- The index is hashed as 32 bits, the player id as 64. -/
def commitToR (id : ByteString) (index playerId : ℕ) (R : Ed25519Point) : EddsaCommitment :=
  H.sha256 (id ++ leList 4 index ++ leList 8 playerId ++ R.val)

def verifyCommitToR (commitment : EddsaCommitment) (id : ByteString) (index playerId : ℕ)
    (R : Ed25519Point) : Bool :=
  commitToR H id index playerId R = commitment

def commitToRs (txid : ByteString) (id : ℕ) (Rs : List EllipticCurvePoint) : EddsaCommitment :=
  H.sha256 (txid ++ leList 8 id ++ Rs.flatMap (·.val))

theorem verifyCommitToR_iff {commitment : EddsaCommitment} {id : ByteString}
    {index playerId : ℕ} {R : Ed25519Point} :
    verifyCommitToR H commitment id index playerId R = true ↔
      commitToR H id index playerId R = commitment := by
  simp [verifyCommitToR]

end Commitments

section Tenant
variable {σ : Type} (service : PlatformService) (keys : CmpKeyPersistency σ) (keyId : ByteString)

def verifyTenantId : EStateM Failure σ Unit := do
  let keyTenantId ← inspect fun s => .ok (keys.getTenantidFromKeyid keyId s)
  require (service.getCurrentTenantid = keyTenantId) (.cosignerException .unauthorized)

variable {service keys keyId}

theorem run_verifyTenantId_ok_iff {s t : σ} {u : Unit} :
    (verifyTenantId service keys keyId).run s = .ok u t ↔
      service.getCurrentTenantid = keys.getTenantidFromKeyid keyId s ∧ s = t := by
  simp only [verifyTenantId, run_bind_ok_iff, run_inspect_ok_iff, run_require_ok_iff,
    Except.ok.injEq]
  constructor
  · rintro ⟨_, _, ⟨rfl, rfl⟩, h, rfl⟩
    exact ⟨h, rfl⟩
  · rintro ⟨h, rfl⟩
    exact ⟨_, s, ⟨rfl, rfl⟩, h, rfl⟩

theorem keeps_verifyTenantId {R : σ → σ → Prop} [Std.Refl R] [IsTrans σ R] :
    Keeps R (verifyTenantId service keys keyId) :=
  (keeps_inspect _).bind fun _ => keeps_require _ _

end Tenant

end MpcDemo.AsymmetricEddsaCosigner
