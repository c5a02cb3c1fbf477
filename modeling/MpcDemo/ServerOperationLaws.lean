import MpcDemo.NodeState

/-!
# What a server operation does when it succeeds

For each operation of the signing server over the stores of a node: the checks it makes, and
that it succeeds exactly when they hold, with which result and which new state.
-/

namespace MpcDemo.ServerOperationLaws
open ByteStrings Ed25519Algebra CosignerTypes AsymmetricEddsaCosigner FallibleState Persistencies
open NodeState AsymmetricEddsaCosignerServer

variable (host : Host)

def TenantMatches : Prop := host.service.getCurrentTenantid = tenantId

theorem run_tenantCheck_ok_iff {s t : Node} {keyId : ByteString} {u : Unit} :
    (verifyTenantId host.service keyPersistency keyId).run s = .ok u t ↔
      TenantMatches host ∧ s = t := run_verifyTenantId_ok_iff

def myId (data : AsymmetricEddsaSigningMetadata) : ℕ := host.service.getIdFromKeyid data.keyId

structure DecommitChecks (txid : ByteString) (data : AsymmetricEddsaSigningMetadata)
    (commitments : PlayerMap (List EddsaCommitment)) : Prop where
  tenant : TenantMatches host
  size : data.signersIds.card = commitments.size + 1
  members : ∀ i ∈ data.signersIds, host.service.isClientId i ∨ i ∈ commitments
  blocks : ∀ c ∈ commitments.toList, c.2.length = data.sigData.length
  own : data.sigData = [] ∨ myId host data ∈ commitments
  opens : ∀ b ∈ ((commitments.getD (myId host data) []).zip data.sigData).zipIdx,
    verifyCommitToR host.hash b.1.1 txid (b.2 + data.startIndex) (myId host data)
      b.1.2.R.ed25519

structure BroadcastRChecks (data : AsymmetricEddsaSigningMetadata)
    (playersR : PlayerMap (List EllipticCurvePoint)) : Prop where
  tenant : TenantMatches host
  size : data.signersIds.card = playersR.size + 1
  members : ∀ i ∈ data.signersIds, host.service.isClientId i ∨ i ∈ playersR
  blocks : ∀ r ∈ playersR.toList, r.2.length = data.sigData.length

structure BroadcastSiChecks (s : Node) (data : AsymmetricEddsaSigningMetadata) (sender : ℕ)
    (partialSigs : List EddsaSignature) (metadata : CmpKeyMetadata) (key : Ed25519Scalar) :
    Prop where
  tenant : TenantMatches host
  signer : sender ∈ data.signersIds
  blocks : partialSigs.length = data.sigData.length
  loadsMetadata : s.keys.metas data.keyId = some metadata
  player : sender ∈ metadata.playersInfo
  loadsKey : s.keys.keys data.keyId = some key
  others : data.signersIds.erase sender ≠ ∅
  opens : ∀ b ∈ (partialSigs.zip data.sigData).zipIdx,
    verifyCommitToR host.hash (s.server.loadPreprocessedData data.keyId (data.startIndex + b.2))
      data.keyId (b.2 + data.startIndex) sender b.1.1.R

structure PresigningChecks (s : Node) (keyId : ByteString) (count : ℕ) (playersIds : Finset ℕ)
    (sender : ℕ) (RCommitments : List EddsaCommitment) (metadata : CmpKeyMetadata) : Prop where
  tenant : TenantMatches host
  count : RCommitments.length = count
  loadsMetadata : s.keys.metas keyId = some metadata
  algorithm : metadata.algorithm = .eddsaEd25519
  size : metadata.playersInfo.size = playersIds.card
  client : host.service.isClientId sender
  players : ∀ i ∈ playersIds, i ∈ metadata.playersInfo ∧
    (host.service.isClientId i → i = sender)

structure SignOfflineChecks (s : Node) (keyId txid : ByteString) (data : SigningData)
    (metadataJson : ByteString) (players : Finset ByteString) (playersIds : Finset ℕ)
    (metadata : CmpKeyMetadata) : Prop where
  tenant : TenantMatches host
  loadsMetadata : s.keys.metas keyId = some metadata
  algorithm : metadata.algorithm = .eddsaEd25519
  size : playersIds.card = metadata.n
  two_le : 2 ≤ playersIds.card
  members : ∀ i ∈ playersIds, i ∈ metadata.playersInfo
  authorized : host.service.onStartSigning keyId txid data metadataJson players = .ok ()
  blocks : data.blocks.length ≤ maxBlocksToSign

structure GetSignatureChecks (s : Node) (data : AsymmetricEddsaSigningMetadata)
    (partialSigs : PlayerMap (List EddsaSignature)) (metadata : CmpKeyMetadata) : Prop where
  tenant : TenantMatches host
  size : data.signersIds.card = partialSigs.size + 1
  members : ∀ i ∈ data.signersIds, host.service.isClientId i ∨
    (i ∈ partialSigs ∧ (partialSigs.getD i []).length = data.sigData.length)
  loadsMetadata : s.keys.metas data.keyId = some metadata

variable {host} {s t : Node} {txid : ByteString}

theorem decommitR_ok_iff {commitments : PlayerMap (List EddsaCommitment)}
    {Rs : List EllipticCurvePoint} :
    (decommitR host.server txid commitments).run s = .ok Rs t ↔
      ∃ data, s.server.signingData txid = some data ∧
        DecommitChecks host txid data commitments ∧ Rs = data.sigData.map (·.R) ∧
        t = { s with server := s.server.storeCommitments txid commitments } := by
  simp only [decommitR, run_bind_ok_iff, run_pure_ok_iff, run_require_ok_iff]
  simp only [Host.server_hash, Host.server_service, Host.server_keyPersistency,
    Host.server_signingPersistency, run_loadSigningData_ok_iff, run_tenantCheck_ok_iff]
  constructor
  · rintro ⟨data, _, ⟨hdata, rfl⟩, _, _, ⟨htenant, rfl⟩, _, _, ⟨hsize, rfl⟩, _, _,
      ⟨hmembers, rfl⟩, _, _, ⟨hblocks, rfl⟩, _, _, ⟨hown, rfl⟩, _, _, ⟨hopens, rfl⟩, _, _, hstore,
      rfl, rfl⟩
    cases hstore
    exact ⟨data, hdata, ⟨htenant, hsize, hmembers, hblocks, hown, hopens⟩, rfl, rfl⟩
  · rintro ⟨data, hdata, h, rfl, rfl⟩
    exact ⟨data, s, ⟨hdata, rfl⟩, (), s, ⟨h.tenant, rfl⟩, (), s, ⟨h.size, rfl⟩, (), s,
      ⟨h.members, rfl⟩, (), s, ⟨h.blocks, rfl⟩, (), s, ⟨h.own, rfl⟩, (), s, ⟨h.opens, rfl⟩, (), _,
      rfl, rfl, rfl⟩

/-- What a successful `broadcast_r` leaves in the store. -/
def afterBroadcastR (p : MockServerPersistency) (txid : ByteString)
    (data : AsymmetricEddsaSigningMetadata) (sigData : List AsymmetricEddsaSignatureData) :
    MockServerPersistency :=
  (p.deleteCommitments txid).storeSigningData txid {data with sigData := sigData} true

theorem broadcastR_ok_iff {playersR : PlayerMap (List EllipticCurvePoint)}
    {out : BroadcastROutput} :
    (broadcastR host.server txid playersR).run s = .ok out t ↔
      ∃ data commitments sigData, s.server.signingData txid = some data ∧
        BroadcastRChecks host data playersR ∧ s.server.commitments txid = some commitments ∧
        aggregatePlayers host.algebra host.hash txid data.startIndex (myId host data) playersR
          commitments.toList data.sigData = .ok sigData ∧
        out = ⟨⟨sigData.map (·.R), commitToRs host.hash txid (myId host data) (sigData.map (·.R))⟩,
          (data.signersIds.filter fun i => host.service.isClientId i).max⟩ ∧
        t = { s with server := afterBroadcastR s.server txid data sigData } := by
  simp only [broadcastR, run_bind_ok_iff, run_pure_ok_iff, run_require_ok_iff,
    run_ofExcept_ok_iff]
  simp only [Host.server_service, Host.server_keyPersistency, Host.server_signingPersistency,
    Host.server_algebra, Host.server_hash, run_loadSigningData_ok_iff, run_loadCommitments_ok_iff,
    run_tenantCheck_ok_iff]
  constructor
  · rintro ⟨data, _, ⟨hdata, rfl⟩, _, _, ⟨htenant, rfl⟩, _, _, ⟨hsize, rfl⟩, _, _,
      ⟨hmembers, rfl⟩, _, _, ⟨hblocks, rfl⟩, commitments, _, ⟨hcomm, rfl⟩, sigData, _,
      ⟨hagg, rfl⟩, _, _, hdelete, _, _, hstore, rfl, rfl⟩
    cases hdelete
    cases hstore
    exact ⟨data, commitments, sigData, hdata, ⟨htenant, hsize, hmembers, hblocks⟩, hcomm, hagg,
      rfl, rfl⟩
  · rintro ⟨data, commitments, sigData, hdata, h, hcomm, hagg, rfl, rfl⟩
    exact ⟨data, s, ⟨hdata, rfl⟩, (), s, ⟨h.tenant, rfl⟩, (), s, ⟨h.size, rfl⟩, (), s,
      ⟨h.members, rfl⟩, (), s, ⟨h.blocks, rfl⟩, commitments, s, ⟨hcomm, rfl⟩, sigData, s,
      ⟨hagg, rfl⟩, (), _, rfl, (), _, rfl, rfl, rfl⟩

/-- What a successful `broadcast_si` leaves in the store. -/
def afterBroadcastSi (p : MockServerPersistency) (txid : ByteString)
    (data : AsymmetricEddsaSigningMetadata) (sigData : List AsymmetricEddsaSignatureData) :
    MockServerPersistency :=
  if data.signersIds.card = 2 then p.deleteTemporarySigningData txid
  else p.storeSigningData txid {data with sigData := sigData} true

private theorem run_signBlocks_ok_iff {data : AsymmetricEddsaSigningMetadata} {sender : ℕ}
    {metadata : CmpKeyMetadata} {key : Ed25519Scalar} {finalSig addClientShare : Bool}
    {partialSigs : List EddsaSignature}
    {blocks : List (EddsaSignature × AsymmetricEddsaSignatureData)} :
    (signBlocks host.server data sender metadata key finalSig addClientShare partialSigs).run s =
        .ok blocks t ↔
      t = s ∧ (∀ b ∈ (partialSigs.zip data.sigData).zipIdx, verifyCommitToR host.hash
          (s.server.loadPreprocessedData data.keyId (data.startIndex + b.2)) data.keyId
          (b.2 + data.startIndex) sender b.1.1.R) ∧
        List.Forall₂ (fun b r => signBlock host.algebra host.hash metadata key data.chaincode
          data.signersIds.card finalSig addClientShare b.1 b.2 = .ok r)
          (partialSigs.zip data.sigData) blocks := by
  rw [signBlocks, run_mapM_ok_iff_forall₂ (P := fun b r => verifyCommitToR host.hash
    (s.server.loadPreprocessedData data.keyId (data.startIndex + b.2)) data.keyId
    (b.2 + data.startIndex) sender b.1.1.R ∧ signBlock host.algebra host.hash metadata key
      data.chaincode data.signersIds.card finalSig addClientShare b.1.1 b.1.2 = .ok r)]
  · rw [List.forall₂_and_left]
    exact and_congr_right' (and_congr_right' (forall₂_zipIdx_iff (P := fun b r =>
      signBlock host.algebra host.hash metadata key data.chaincode data.signersIds.card finalSig
        addClientShare (Prod.fst b) (Prod.snd b) = .ok r) 0))
  · intro b r u
    simp only [run_bind_ok_iff, run_require_ok_iff, run_ofExcept_ok_iff]
    simp only [Host.server_algebra, Host.server_hash, Host.server_signingPersistency,
      run_loadPreprocessedData_ok_iff]
    constructor
    · rintro ⟨_, _, ⟨rfl, rfl⟩, _, _, ⟨hv, rfl⟩, hr, rfl⟩
      exact ⟨rfl, hv, hr⟩
    · rintro ⟨rfl, hv, hr⟩
      exact ⟨_, u, ⟨rfl, rfl⟩, (), u, ⟨hv, rfl⟩, hr, rfl⟩

theorem broadcastSi_ok_iff {sender version : ℕ} {partialSigs : List EddsaSignature}
    {out : BroadcastSiOutput} :
    (broadcastSi host.server txid sender version partialSigs).run s = .ok out t ↔
      ∃ data metadata key blocks, s.server.signingData txid = some data ∧
        BroadcastSiChecks host s data sender partialSigs metadata key ∧
        List.Forall₂ (fun b r => signBlock host.algebra host.hash metadata key data.chaincode
          data.signersIds.card (data.signersIds.card = 2)
          ((data.signersIds.erase sender).min = myId host data) b.1 b.2 = .ok r)
          (partialSigs.zip data.sigData) blocks ∧
        out = ⟨blocks.map (·.1), data.signersIds.erase sender, data.signersIds.card = 2⟩ ∧
        t = { s with server := afterBroadcastSi s.server txid data (blocks.map (·.2)) } := by
  simp only [broadcastSi, run_bind_ok_iff, run_require_ok_iff, run_signBlocks_ok_iff]
  simp only [Host.server_service, Host.server_keyPersistency, Host.server_signingPersistency,
    run_loadSigningData_ok_iff, run_loadKeyMetadata_ok_iff, run_loadKey_ok_iff, Prod.exists,
    run_tenantCheck_ok_iff]
  constructor
  · rintro ⟨data, _, ⟨hdata, rfl⟩, _, _, ⟨htenant, rfl⟩, _, _, ⟨hsigner, rfl⟩, _, _,
      ⟨hblocks, rfl⟩, metadata, _, ⟨hmeta, rfl⟩, _, _, ⟨hplayer, rfl⟩, algo, key, _,
      ⟨⟨hkey, rfl⟩, rfl⟩, _, _, ⟨-, rfl⟩, _, _, ⟨hothers, rfl⟩, blocks, _, ⟨rfl, hopens, hsign⟩,
      hstore⟩
    refine ⟨data, metadata, key, blocks, hdata, ⟨htenant, hsigner, hblocks, hmeta, hplayer, hkey,
      hothers, hopens⟩, hsign, ?_⟩
    by_cases hcard : data.signersIds.card = 2
    · simp only [hcard, decide_true, if_true] at hstore
      cases hstore
      exact ⟨by simp [hcard], by simp [afterBroadcastSi, hcard]⟩
    · simp only [hcard, decide_false, Bool.false_eq_true, if_false] at hstore
      cases hstore
      exact ⟨by simp [hcard], by simp [afterBroadcastSi, hcard]⟩
  · rintro ⟨data, metadata, key, blocks, hdata, h, hsign, rfl, rfl⟩
    refine ⟨data, s, ⟨hdata, rfl⟩, (), s, ⟨h.tenant, rfl⟩, (), s, ⟨h.signer, rfl⟩, (), s,
      ⟨h.blocks, rfl⟩, metadata, s, ⟨h.loadsMetadata, rfl⟩, (), s, ⟨h.player, rfl⟩, _, key, s,
      ⟨⟨h.loadsKey, rfl⟩, rfl⟩, (), s, ⟨rfl, rfl⟩, (), s, ⟨h.others, rfl⟩, blocks, s,
      ⟨rfl, h.opens, hsign⟩, ?_⟩
    by_cases hcard : data.signersIds.card = 2
    · simp only [hcard, decide_true, if_true, afterBroadcastSi]
      rfl
    · simp only [hcard, decide_false, Bool.false_eq_true, if_false, afterBroadcastSi]
      rfl

theorem getEddsaSignature_ok_iff {partialSigs : PlayerMap (List EddsaSignature)}
    {sigs : List EddsaSignature} :
    (getEddsaSignature host.server txid partialSigs).run s = .ok sigs t ↔
      ∃ data metadata, s.server.signingData txid = some data ∧
        GetSignatureChecks host s data partialSigs metadata ∧
        List.Forall₂ (fun b sig => finalizeBlock host.algebra host.hash metadata data.chaincode
          partialSigs b.1 b.2 = .ok sig) data.sigData.zipIdx sigs ∧
        t = { s with server := s.server.deleteTemporarySigningData txid } := by
  simp only [getEddsaSignature, run_bind_ok_iff, run_pure_ok_iff, run_require_ok_iff,
    run_ofExcept_ok_iff, except_mapM_ok_iff_forall₂]
  simp only [Host.server_service, Host.server_keyPersistency, Host.server_signingPersistency,
    Host.server_algebra, Host.server_hash, run_loadSigningData_ok_iff, run_loadKeyMetadata_ok_iff,
    run_tenantCheck_ok_iff]
  constructor
  · rintro ⟨data, _, ⟨hdata, rfl⟩, _, _, ⟨htenant, rfl⟩, _, _, ⟨hsize, rfl⟩, _, _,
      ⟨hmembers, rfl⟩, metadata, _, ⟨hmeta, rfl⟩, _, _, ⟨hsigs, rfl⟩, _, _, hdelete, rfl, rfl⟩
    cases hdelete
    exact ⟨data, metadata, hdata, ⟨htenant, hsize, hmembers, hmeta⟩, hsigs, rfl⟩
  · rintro ⟨data, metadata, hdata, h, hsigs, rfl⟩
    exact ⟨data, s, ⟨hdata, rfl⟩, (), s, ⟨h.tenant, rfl⟩, (), s, ⟨h.size, rfl⟩, (), s,
      ⟨h.members, rfl⟩, metadata, s, ⟨h.loadsMetadata, rfl⟩, sigs, s, ⟨hsigs, rfl⟩, (), _, rfl,
      rfl, rfl⟩

/-- What `cancel_signing` leaves in the store. -/
def afterCancel (p : MockServerPersistency) (txid : ByteString) : MockServerPersistency :=
  (p.deleteCommitments txid).deleteTemporarySigningData txid

theorem run_cancelSigning (s : Node) :
    (cancelSigning host.server txid).run s =
      .ok () { s with server := afterCancel s.server txid } := rfl

section Nonces

/-- The first of some consecutive draws that succeeds. -/
def firstSuccess (tape : Tape) : ℕ → ℕ → Option DrawnScalar
  | 0, _ => none
  | attempts + 1, n =>
    match tape.rand n with
    | .ok k => some ⟨n, beBytes 32 k⟩
    | .error _ => firstSuccess tape attempts (n + 1)

theorem firstSuccess_eq_some {tape : Tape} {attempts n : ℕ} {k : DrawnScalar}
    (h : firstSuccess tape attempts n = some k) :
    n ≤ k.draw ∧ k.draw < n + attempts ∧
      ∃ v, tape.rand k.draw = .ok v ∧ k.value = beBytes 32 v := by
  induction attempts generalizing n with
  | zero => cases h
  | succ attempts ih =>
    rw [firstSuccess] at h
    cases hr : tape.rand n with
    | ok v =>
      rw [hr] at h
      obtain rfl := Option.some.inj h
      exact ⟨le_rfl, by simp, v, hr, rfl⟩
    | error e =>
      rw [hr] at h
      obtain ⟨hle, hlt, hv⟩ := ih h
      exact ⟨by omega, by omega, hv⟩

/-- The record of a block that is signed under a given nonce. -/
def blockRecord (E : Ed25519) (k : DrawnScalar) (block : SigningBlockData) :
    AsymmetricEddsaSignatureData :=
  ⟨⟨k.draw, swapBytes k.value⟩, Ed25519Point.generic (E.encode (beValue k.value.val • E.base)),
    block.path, block.data, 0⟩

theorem run_retryRand_ok (k : DrawnScalar) (attempts : ℕ) (s : Node) :
    (retryRand host.server attempts (.ok k)).run s = .ok (.ok k) s := by
  cases attempts <;> rfl

theorem run_retryRand_error (host : Host) (e : AlgebraStatus) (attempts : ℕ) (s : Node) :
    ∃ status, status.toOption = firstSuccess host.tape attempts s.draws ∧
      (retryRand host.server attempts (.error e)).run s = .ok status { s with draws :=
        ((firstSuccess host.tape attempts s.draws).elim (s.draws + attempts) (·.draw + 1)) } := by
  induction attempts generalizing s e with
  | zero => exact ⟨.error e, rfl, rfl⟩
  | succ attempts ih =>
    simp only [retryRand, firstSuccess]
    have hrand : host.server.rand.run s = _ := host.run_rand s
    cases hr : host.tape.rand s.draws with
    | ok v =>
      rw [hr] at hrand
      exact ⟨.ok ⟨s.draws, beBytes 32 v⟩, rfl, by
        rw [run_bind_of_ok hrand]
        exact run_retryRand_ok _ _ _⟩
    | error e' =>
      rw [hr] at hrand
      obtain ⟨status, hstatus, hrun⟩ := ih e' { s with draws := s.draws + 1 }
      refine ⟨status, hstatus, ?_⟩
      rw [run_bind_of_ok hrand]
      refine hrun.trans ?_
      simp only [add_assoc, add_comm 1 attempts]

theorem run_drawNonces_ok (k : DrawnScalar) (blocks : List SigningBlockData) (s : Node) :
    (drawNonces host.server (.ok k) blocks).run s =
      .ok (blocks.map (blockRecord host.algebra k)) s := by
  induction blocks with
  | nil => rfl
  | cons block blocks ih =>
    simp only [drawNonces, run_bind_of_ok (run_retryRand_ok k 1024 s), Except.mapError]
    rw [run_bind_of_ok (run_ofExcept_ok k s), Host.server_algebra, generatorMul_eq,
      throwCosignerException_ok, run_bind_of_ok (run_ofExcept_ok _ s), run_bind_of_ok ih]
    rfl

/-- The records of a request's blocks and the number of draws made for them, when the draws
are made from a given position on. One nonce serves all blocks. -/
def drawnRecords (host : Host) (blocks : List SigningBlockData) (n : ℕ) :
    Option (List AsymmetricEddsaSignatureData × ℕ) :=
  if blocks = [] then some ([], n)
  else (firstSuccess host.tape 1024 n).map fun k =>
    (blocks.map (blockRecord host.algebra k), k.draw + 1)

theorem run_drawNonces (blocks : List SigningBlockData) (s : Node) :
    (drawNonces host.server (.error .unknownError) blocks).run s =
      match drawnRecords host blocks s.draws with
      | some (sigData, n) => .ok sigData { s with draws := n }
      | none => .error (.cosignerException .internalError)
          { s with draws := s.draws + 1024 } := by
  cases blocks with
  | nil => rfl
  | cons block blocks =>
    obtain ⟨status, hstatus, hrun⟩ := run_retryRand_error host .unknownError 1024 s
    simp only [drawNonces, run_bind_of_ok hrun, drawnRecords, reduceCtorEq, if_false]
    cases hfirst : firstSuccess host.tape 1024 s.draws with
    | none =>
      rw [hfirst] at hstatus
      cases status with
      | ok k => cases hstatus
      | error e => rfl
    | some k =>
      rw [hfirst] at hstatus
      cases status with
      | error e => cases hstatus
      | ok k' =>
        obtain rfl := Option.some.inj hstatus
        simp only [Option.elim_some, Except.mapError, Option.map_some]
        rw [run_bind_of_ok (run_ofExcept_ok k' _), Host.server_algebra, generatorMul_eq,
          throwCosignerException_ok, run_bind_of_ok (run_ofExcept_ok _ _),
          run_bind_of_ok (run_drawNonces_ok k' blocks _)]
        rfl

end Nonces

/-- What a successful `store_presigning_data` leaves in the store. -/
def afterPresigning (p : MockServerPersistency) (keyId : ByteString) (startIndex totalCount : ℕ)
    (RCommitments : List EddsaCommitment) : MockServerPersistency :=
  RCommitments.zipIdx.foldl (fun p c => p.storePreprocessedData keyId (startIndex + c.2) c.1)
    (p.createPreprocessedData keyId totalCount)

private theorem run_forM_modifyServer {α : Type}
    (f : α → MockServerPersistency → MockServerPersistency) (l : List α) (s : Node) :
    (l.forM fun a => modifyServer (f a)).run s =
      .ok () { s with server := l.foldl (fun p a => f a p) s.server } := by
  induction l generalizing s with
  | nil => rfl
  | cons a l ih =>
    rw [List.forM_eq_forM] at ih ⊢
    rw [List.forM_cons, run_bind_of_ok (run_modifyServer (f a) s), ih]
    rfl

theorem run_storeAll {keyId : ByteString} {startIndex : ℕ} {RCommitments : List EddsaCommitment}
    (s : Node) : (RCommitments.zipIdx.forM fun c =>
        signingPersistency.storePreprocessedData keyId (startIndex + c.2) c.1).run s =
      .ok () { s with server := (RCommitments.zipIdx.foldl (fun p c =>
        p.storePreprocessedData keyId (startIndex + c.2) c.1) s.server) } :=
  run_forM_modifyServer (fun (c : EddsaCommitment × ℕ) =>
    (·.storePreprocessedData keyId (startIndex + c.2) c.1)) _ s

theorem storePresigningData_ok_iff {keyId requestId : ByteString}
    {startIndex count totalCount : ℕ} {playersIds : Finset ℕ} {sender : ℕ}
    {RCommitments : List EddsaCommitment} {u : Unit} :
    (storePresigningData host.server keyId requestId startIndex count totalCount playersIds sender
        RCommitments).run s = .ok u t ↔
      (∃ metadata, PresigningChecks host s keyId count playersIds sender RCommitments metadata) ∧
        t = { s with server :=
          afterPresigning s.server keyId startIndex totalCount RCommitments } := by
  simp only [storePresigningData, run_bind_ok_iff, run_require_ok_iff]
  simp only [Host.server_service, Host.server_keyPersistency, Host.server_signingPersistency,
    run_loadKeyMetadata_ok_iff, run_tenantCheck_ok_iff]
  constructor
  · rintro ⟨_, _, ⟨htenant, rfl⟩, _, _, ⟨hcount, rfl⟩, metadata, _, ⟨hmeta, rfl⟩, _, _,
      ⟨halgo, rfl⟩, _, _, ⟨hsize, rfl⟩, _, _, ⟨hclient, rfl⟩, _, _, ⟨hplayers, rfl⟩, _, _, hcreate,
      hloop⟩
    cases hcreate
    refine ⟨⟨metadata, htenant, hcount, hmeta, halgo, hsize, hclient, hplayers⟩, ?_⟩
    have h := hloop.symm.trans (run_storeAll _)
    cases h
    rfl
  · rintro ⟨⟨metadata, h⟩, rfl⟩
    refine ⟨(), s, ⟨h.tenant, rfl⟩, (), s, ⟨h.count, rfl⟩, metadata, s, ⟨h.loadsMetadata, rfl⟩, (),
      s, ⟨h.algorithm, rfl⟩, (), s, ⟨h.size, rfl⟩, (), s, ⟨h.client, rfl⟩, (), s, ⟨h.players, rfl⟩,
      (), _, rfl, ?_⟩
    exact run_storeAll _

/-- The record that `eddsa_sign_offline` stores. -/
def signingRecord (host : Host) (keyId : ByteString) (data : SigningData)
    (metadataJson : ByteString) (playersIds : Finset ℕ) (preprocessedDataIndex : ℕ)
    (sigData : List AsymmetricEddsaSignatureData) : AsymmetricEddsaSigningMetadata where
  keyId := keyId
  chaincode := data.chaincode
  sigData := sigData.mapIdx fun i d =>
    { d with flags := host.service.fillSigningInfoFromMetadata metadataJson i }
  signersIds := playersIds
  startIndex := preprocessedDataIndex % 2 ^ 32

/-- The output of `eddsa_sign_offline` for a key of `n` players. -/
def signOfflineOutput (host : Host) (keyId txid : ByteString) (n preprocessedDataIndex : ℕ)
    (sigData : List AsymmetricEddsaSignatureData) : SignOfflineOutput :=
  let myId := host.service.getIdFromKeyid keyId
  if n = 2 then
    ⟨[], some ⟨sigData.map (·.R), commitToRs host.hash txid myId (sigData.map (·.R))⟩⟩
  else
    ⟨sigData.mapIdx fun i d => commitToR host.hash txid (i + preprocessedDataIndex) myId
      d.R.ed25519, none⟩

theorem eddsaSignOffline_ok_iff {keyId : ByteString} {data : SigningData}
    {metadataJson : ByteString} {players : Finset ByteString} {playersIds : Finset ℕ}
    {preprocessedDataIndex : ℕ} {out : SignOfflineOutput} :
    (eddsaSignOffline host.server keyId txid data metadataJson players playersIds
        preprocessedDataIndex).run s = .ok out t ↔
      ∃ metadata sigData n, SignOfflineChecks host s keyId txid data metadataJson players playersIds
          metadata ∧
        drawnRecords host data.blocks s.draws = some (sigData, n) ∧
        out = signOfflineOutput host keyId txid metadata.n preprocessedDataIndex sigData ∧
        t = { s with
          draws := n
          server := s.server.storeSigningData txid (signingRecord host keyId data metadataJson
            playersIds preprocessedDataIndex sigData) false } := by
  simp only [eddsaSignOffline, run_bind_ok_iff, run_require_ok_iff, run_ofExcept_ok_iff]
  simp only [Host.server_service, Host.server_keyPersistency, Host.server_signingPersistency,
    run_loadKeyMetadata_ok_iff, run_tenantCheck_ok_iff, run_drawNonces]
  constructor
  · rintro ⟨_, _, ⟨htenant, rfl⟩, metadata, _, ⟨hmeta, rfl⟩, _, _, ⟨halgo, rfl⟩, _, _,
      ⟨hsize, rfl⟩, _, _, ⟨htwo, rfl⟩, _, _, ⟨hplayers, rfl⟩, _, _, ⟨hstart, rfl⟩, _, _,
      ⟨hblocks, rfl⟩, sigData, _, hdraw, _, _, hstore, hout⟩
    cases hrec : drawnRecords host data.blocks s.draws with
    | none =>
      rw [hrec] at hdraw
      cases hdraw
    | some r =>
      rw [hrec] at hdraw
      cases hdraw
      cases hstore
      refine ⟨metadata, r.1, r.2, ⟨htenant, hmeta, halgo, hsize, htwo, hplayers, hstart, hblocks⟩,
        rfl, ?_⟩
      by_cases hn : metadata.n = 2
      · simp only [hn, if_true] at hout
        cases hout
        exact ⟨by simp [signOfflineOutput, hn], rfl⟩
      · simp only [hn, if_false] at hout
        cases hout
        exact ⟨by simp [signOfflineOutput, hn], rfl⟩
  · rintro ⟨metadata, sigData, n, h, hrec, rfl, rfl⟩
    refine ⟨(), s, ⟨h.tenant, rfl⟩, metadata, s, ⟨h.loadsMetadata, rfl⟩, (), s, ⟨h.algorithm, rfl⟩,
      (), s, ⟨h.size, rfl⟩, (), s, ⟨h.two_le, rfl⟩, (), s, ⟨h.members, rfl⟩, (), s,
      ⟨h.authorized, rfl⟩, (), s, ⟨h.blocks, rfl⟩, sigData, { s with draws := n }, ?_, (), _, rfl,
      ?_⟩
    · simp only [hrec]
    · by_cases hn : metadata.n = 2
      · simp only [hn, if_true, signOfflineOutput]
        rfl
      · simp only [hn, if_false, signOfflineOutput]
        rfl

end MpcDemo.ServerOperationLaws
