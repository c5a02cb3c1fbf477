import MpcDemo.ServerOperationLaws

/-!
# What a client operation does when it succeeds

`start_signature_preprocessing` fills the store with one nonce for every index, each of a draw
of its own, and `eddsa_sign_offline` reads the stores without changing anything.
-/

namespace MpcDemo.ClientOperationLaws
open ByteStrings Ed25519Algebra CosignerTypes AsymmetricEddsaCosigner FallibleState Persistencies
open NodeState ServerOperationLaws AsymmetricEddsaCosignerClient

variable {host : Host} {s t : Node} {keyId txid : ByteString}

/-- The states differ at most in the client's store and in the number of draws made. -/
def OnlyClient (s t : Node) : Prop :=
  s.draws ≤ t.draws ∧ t = { s with draws := t.draws, client := t.client }

instance : Std.Refl OnlyClient := ⟨fun _ => ⟨le_rfl, rfl⟩⟩

instance : IsTrans Node OnlyClient where
  trans s t u hst htu := by
    refine ⟨hst.1.trans htu.1, ?_⟩
    rw [htu.2, hst.2]

section Preprocessing

private theorem keeps_rand : Keeps OnlyClient host.client.rand := by
  intro s
  constructor
  · intro a t h
    cases h
    exact ⟨Nat.le_succ _, rfl⟩
  · intro e t h
    cases h

private theorem keeps_modifyClient (f : MockClientPersistency → MockClientPersistency) :
    Keeps OnlyClient (modifyClient f) := by
  intro s
  constructor
  · intro a t h
    cases h
    exact ⟨le_rfl, rfl⟩
  · intro e t h
    cases h

private theorem keeps_storePreprocessedData (index : ℕ) (k : DrawnScalar) :
    Keeps OnlyClient (preprocessingPersistency.storePreprocessedData keyId index k) :=
  keeps_modifyClient (·.storePreprocessedData keyId index k)

private theorem keeps_createPreprocessedData (size : ℕ) :
    Keeps OnlyClient (preprocessingPersistency.createPreprocessedData keyId size) :=
  keeps_modifyClient (·.createPreprocessedData keyId size)

theorem keeps_preprocessNonces (myId index count : ℕ) :
    Keeps OnlyClient (preprocessNonces host.client keyId myId index count) := by
  induction count generalizing index with
  | zero => exact keeps_pure []
  | succ count ih =>
    exact keeps_rand.bind fun _ => (keeps_ofExcept _).bind fun _ => (keeps_ofExcept _).bind fun _ =>
      (keeps_storePreprocessedData _ _).bind fun _ => (ih (index + 1)).bind fun _ => keeps_pure _

theorem keeps_startSignaturePreprocessing (tenantId requestId : ByteString)
    (startIndex count totalCount : ℕ) (playersIds : Finset ℕ) :
    Keeps OnlyClient (startSignaturePreprocessing host.client tenantId keyId requestId startIndex
      count totalCount playersIds) :=
  (keeps_inspect _).bind fun _ => (keeps_require _ _).bind fun _ => (keeps_inspect _).bind fun _ =>
    (keeps_require _ _).bind fun _ => (keeps_require _ _).bind fun _ =>
    (keeps_require _ _).bind fun _ => (keeps_createPreprocessedData _).bind fun _ =>
    keeps_preprocessNonces _ _ _

/-- The nonce of a draw. -/
def drawnNonce (draw : ℕ) (v : Fin order) : DrawnScalar := ⟨draw, beBytes 32 v.val⟩

theorem beValue_drawnNonce (draw : ℕ) (v : Fin order) :
    beValue (drawnNonce draw v).value.val = v.val :=
  beValue_beList_of_lt (v.isLt.trans order_lt)

/-- The nonce that was drawn for an index is stored there, and its commitment is returned. -/
def NonceStored (host : Host) (keyId : ByteString) (myId index draw : ℕ) (t : Node)
    (RCommitment : Option EddsaCommitment) : Prop :=
  ∃ v, host.tape.rand draw = .ok v ∧
    t.client.storedNonces keyId index = some (drawnNonce draw v) ∧
    RCommitment = some (commitToR host.hash keyId index myId
      (host.algebra.encode (v.val • host.algebra.base)))

private theorem storedNonces_storePreprocessedData (p : MockClientPersistency) (index j : ℕ)
    (k : DrawnScalar) : (p.storePreprocessedData keyId index k).storedNonces keyId j =
      if j = index then some k else p.storedNonces keyId j := by
  simp only [MockClientPersistency.storePreprocessedData, Function.update_self,
    Function.update_apply]

theorem preprocessNonces_ok {myId index count : ℕ} {RCommitments : List EddsaCommitment}
    (h : (preprocessNonces host.client keyId myId index count).run s = .ok RCommitments t) :
    RCommitments.length = count ∧ t.draws = s.draws + count ∧
      (∀ j < index, t.client.storedNonces keyId j = s.client.storedNonces keyId j) ∧
      ∀ i < count, NonceStored host keyId myId (index + i) (s.draws + i) t RCommitments[i]? := by
  induction count generalizing s index RCommitments with
  | zero =>
    cases h
    exact ⟨rfl, rfl, fun _ _ => rfl, fun i hi => absurd hi (Nat.not_lt_zero i)⟩
  | succ count ih =>
    obtain ⟨k, _, hk, h⟩ := run_bind_ok_iff.1 h
    cases hk
    simp only [run_bind_ok_iff, run_ofExcept_ok_iff, throwCosignerException_eq_ok_iff,
      run_pure_ok_iff] at h
    obtain ⟨k, _, ⟨hk, rfl⟩, R, _, ⟨hR, rfl⟩, _, u, hstore, rest, _, hrest, rfl, rfl⟩ := h
    cases hv : host.tape.rand s.draws with
    | error e =>
      rw [hv] at hk
      cases hk
    | ok v =>
      rw [hv] at hk
      obtain rfl : drawnNonce s.draws v = k := Except.ok.inj hk
      have hR' := ed25519AlgebraGeneratorMul_eq_ok hR
      rw [beValue_drawnNonce] at hR'
      cases hstore
      obtain ⟨hlength, hdraws, hbelow, hstored⟩ := ih hrest
      refine ⟨by rw [List.length_cons, hlength], by rw [hdraws]; simp only; omega, ?_, ?_⟩
      · intro j hj
        rw [hbelow j (by omega)]
        simp only [storedNonces_storePreprocessedData, hj.ne, if_false]
      · intro i hi
        cases i with
        | zero =>
          refine ⟨v, hv, ?_, ?_⟩
          · rw [hbelow (index + 0) (by omega)]
            simp only [add_zero, storedNonces_storePreprocessedData, if_true]
          · rw [hR']
            rfl
        | succ i =>
          have hnext := hstored i (by omega)
          rw [List.getElem?_cons_succ]
          have hindex : index + 1 + i = index + (i + 1) := by omega
          have hdraw : s.draws + 1 + i = s.draws + (i + 1) := by omega
          simp only [hindex, hdraw] at hnext
          exact hnext

theorem startSignaturePreprocessing_ok {tenant requestId : ByteString}
    {startIndex count totalCount : ℕ} {playersIds : Finset ℕ}
    {RCommitments : List EddsaCommitment}
    (h : (startSignaturePreprocessing host.client tenant keyId requestId startIndex count
      totalCount playersIds).run s = .ok RCommitments t) :
    RCommitments.length = count ∧ t.draws = s.draws + count ∧ ∀ i < count,
      NonceStored host keyId (host.service.getIdFromKeyid keyId) (startIndex + i) (s.draws + i) t
        RCommitments[i]? := by
  simp only [startSignaturePreprocessing, run_bind_ok_iff, run_require_ok_iff] at h
  obtain ⟨_, _, htenant, _, _, ⟨-, rfl⟩, metadata, _, hmetadata, _, _, ⟨-, rfl⟩, _, _, ⟨-, rfl⟩,
    _, _, ⟨-, rfl⟩, _, _, hcreate, hnonces⟩ := h
  obtain ⟨-, rfl⟩ := run_inspect_ok_iff.1 htenant
  obtain ⟨-, rfl⟩ := run_loadKeyMetadata_ok_iff.1 hmetadata
  cases hcreate
  obtain ⟨hlength, hdraws, -, hstored⟩ := preprocessNonces_ok hnonces
  exact ⟨hlength, hdraws, hstored⟩

end Preprocessing

section Signing

/-- What `eddsa_sign_offline` checks before it computes a share. -/
structure SignChecks (host : Host) (s : Node) (keyId txid : ByteString) (data : SigningData)
    (playersIds : Finset ℕ) (Rs : PlayerMap RsAndCommitments) (metadata : CmpKeyMetadata)
    (key : Ed25519Scalar) (first : List EllipticCurvePoint) : Prop where
  tenant : TenantMatches host
  loadsMetadata : s.keys.metas keyId = some metadata
  size : playersIds.card = metadata.n
  two_le : 2 ≤ playersIds.card
  members : ∀ i ∈ playersIds, i ∈ metadata.playersInfo
  servers : (Rs.size : ℤ) = metadata.t - 1
  blocks : data.blocks.length ≤ maxBlocksToSign
  accepts : ∀ r ∈ Rs.toList, acceptsRs host.client metadata txid
    (host.service.getIdFromKeyid keyId) data.blocks.length first r.1 r.2
  loadsKey : s.keys.keys keyId = some key
  algorithm : metadata.algorithm = .eddsaEd25519
  nonempty : ∃ r rest, Rs.toList = r :: rest ∧ first = r.2.Rs

private theorem run_loadNonce_ok_iff {i : ℕ} {k : DrawnScalar} :
    (preprocessingPersistency.loadPreprocessedData keyId i).run s = .ok k t ↔
      s.client.storedNonces keyId i = some k ∧ s = t := by
  simp only [preprocessingPersistency, run_inspect_ok_iff,
    MockClientPersistency.loadPreprocessedData]
  cases s.client.storedNonces keyId i with
  | none => simp
  | some k' => simp

private theorem keeps_loadNonce {R : Node → Node → Prop} [Std.Refl R] (i : ℕ) :
    Keeps R (preprocessingPersistency.loadPreprocessedData keyId i) :=
  keeps_inspect fun s : Node => s.client.loadPreprocessedData keyId i

theorem eddsaSignOffline_ok_iff {data : SigningData} {metadataJson : ByteString}
    {players : Finset ByteString} {playersIds : Finset ℕ} {preprocessedDataIndex : ℕ}
    {Rs : PlayerMap RsAndCommitments} {sigs : List PartialSignature} :
    (eddsaSignOffline host.client keyId txid data metadataJson players playersIds
        preprocessedDataIndex Rs).run s = .ok sigs t ↔
      ∃ metadata key first, SignChecks host s keyId txid data playersIds Rs metadata key first ∧
        t = s ∧ List.Forall₂ (fun b sig => ∃ k,
          s.client.storedNonces keyId (preprocessedDataIndex + b.2) = some k ∧
          signBlock host.algebra host.hash metadata key data.chaincode playersIds.card
            (host.service.fillSigningInfoFromMetadata metadataJson b.2) b.1.2 k b.1.1 = .ok sig)
          (first.zip data.blocks).zipIdx sigs := by
  have hblock : ∀ (metadata : CmpKeyMetadata) (key : Ed25519Scalar)
      (b : (EllipticCurvePoint × SigningBlockData) × ℕ) (sig : PartialSignature) (u : Node),
      (preprocessingPersistency.loadPreprocessedData keyId (preprocessedDataIndex + b.2) >>=
        fun k => ofExcept (signBlock host.algebra host.hash metadata key data.chaincode
          playersIds.card (host.service.fillSigningInfoFromMetadata metadataJson b.2) b.1.2 k
          b.1.1)).run s = .ok sig u ↔
        u = s ∧ ∃ k, s.client.storedNonces keyId (preprocessedDataIndex + b.2) = some k ∧
          signBlock host.algebra host.hash metadata key data.chaincode playersIds.card
            (host.service.fillSigningInfoFromMetadata metadataJson b.2) b.1.2 k b.1.1 =
              .ok sig := by
    intro metadata key b sig u
    simp only [run_bind_ok_iff, run_loadNonce_ok_iff, run_ofExcept_ok_iff]
    constructor
    · intro h
      obtain ⟨k, _, ⟨hk, rfl⟩, hsig, rfl⟩ := h
      exact ⟨rfl, k, hk, hsig⟩
    · intro h
      obtain ⟨rfl, k, hk, hsig⟩ := h
      exact ⟨k, u, ⟨hk, rfl⟩, hsig, rfl⟩
  simp only [eddsaSignOffline, run_bind_ok_iff, run_require_ok_iff]
  simp only [Host.client_service, Host.client_keyPersistency, Host.client_algebra,
    Host.client_hash, Host.client_preprocessingPersistency, run_loadKeyMetadata_ok_iff,
    run_loadKey_ok_iff, Prod.exists, run_tenantCheck_ok_iff]
  constructor
  · intro h
    obtain ⟨_, _, ⟨htenant, rfl⟩, metadata, _, ⟨hmetadata, rfl⟩, _, _, ⟨hsize, rfl⟩, _, _,
      ⟨htwo, rfl⟩, _, _, ⟨hmembers, rfl⟩, _, _, ⟨hservers, rfl⟩, _, _, ⟨hblocks, rfl⟩, _, _,
      ⟨haccepts, rfl⟩, algo, key, _, ⟨⟨hkey, halgo⟩, rfl⟩, _, _, ⟨⟨-, halgorithm⟩, rfl⟩, _, _,
      ⟨hnonempty, rfl⟩, hsigs⟩ := h
    obtain ⟨ht, hsigs⟩ := (run_mapM_ok_iff_forall₂ (hblock metadata key)).1 hsigs
    obtain ⟨r, rest, hRs⟩ := List.exists_cons_of_ne_nil hnonempty
    refine ⟨metadata, key, _, ⟨htenant, hmetadata, hsize, htwo, hmembers, hservers, hblocks,
      haccepts, hkey, halgorithm, r, rest, hRs, ?_⟩, ht, hsigs⟩
    rw [hRs]
    rfl
  · intro h
    obtain ⟨metadata, key, first, hchecks, rfl, hsigs⟩ := h
    obtain ⟨r, rest, hRs, rfl⟩ := hchecks.nonempty
    have hfirst : (Rs.toList.head?.map fun r => r.2.Rs).getD [] = r.2.Rs := by
      rw [hRs]
      rfl
    simp only [hfirst]
    exact ⟨(), t, ⟨hchecks.tenant, rfl⟩, metadata, t, ⟨hchecks.loadsMetadata, rfl⟩, (), t,
      ⟨hchecks.size, rfl⟩, (), t, ⟨hchecks.two_le, rfl⟩, (), t, ⟨hchecks.members, rfl⟩, (), t,
      ⟨hchecks.servers, rfl⟩, (), t, ⟨hchecks.blocks, rfl⟩, (), t, ⟨hchecks.accepts, rfl⟩, _,
      key, t, ⟨⟨hchecks.loadsKey, rfl⟩, rfl⟩, (), t, ⟨⟨rfl, hchecks.algorithm⟩, rfl⟩, (), t,
      ⟨by rw [hRs]; exact List.cons_ne_nil _ _, rfl⟩,
      (run_mapM_ok_iff_forall₂ (hblock metadata key)).2 ⟨rfl, hsigs⟩⟩

/-- A client that signs changes nothing. -/
theorem keeps_eddsaSignOffline {data : SigningData} {metadataJson : ByteString}
    {players : Finset ByteString} {playersIds : Finset ℕ} {preprocessedDataIndex : ℕ}
    {Rs : PlayerMap RsAndCommitments} : Keeps (fun s t => t = s) (eddsaSignOffline host.client keyId
      txid data metadataJson players playersIds preprocessedDataIndex Rs) := by
  have : Std.Refl fun s t : Node => t = s := ⟨fun _ => rfl⟩
  have : IsTrans Node fun s t => t = s := ⟨fun _ _ _ hst htu => htu.trans hst⟩
  exact keeps_verifyTenantId.bind fun _ => (keeps_inspect _).bind fun _ =>
    (keeps_require _ _).bind fun _ => (keeps_require _ _).bind fun _ =>
    (keeps_require _ _).bind fun _ => (keeps_require _ _).bind fun _ =>
    (keeps_require _ _).bind fun _ => (keeps_require _ _).bind fun _ =>
    (keeps_inspect _).bind fun _ => (keeps_require _ _).bind fun _ =>
    (keeps_require _ _).bind fun _ => keeps_mapM (fun _ => (keeps_loadNonce _).bind fun _ =>
    keeps_ofExcept _) _

end Signing

end MpcDemo.ClientOperationLaws
