import MpcDemo.ServerOperationLaws
import MpcDemo.SetupService

/-!
# What the first two setup rounds do when they succeed

`generate_setup_commitments` stores a key share and what opens the commitment to it, and
`store_setup_commitments` records the commitments of all players and opens the own one.
-/

namespace MpcDemo.SetupServiceLaws
open ByteStrings Ed25519Algebra CosignerTypes AsymmetricEddsaCosigner FallibleState Persistencies
open NodeState SetupService ServerOperationLaws

variable {host : Host} {s t : Node} {keyId : ByteString} {c : Commitment}

section Sampling

theorem keeps_sampleKeyShare (attempts : ℕ) : Keeps OnlyDraws (sampleKeyShare host attempts) := by
  induction attempts with
  | zero =>
    intro s
    constructor
    · intro a t h
      cases h
    · intro e t h
      cases h
      exact refl_of OnlyDraws s
  | succ attempts ih =>
    rw [sampleKeyShare]
    refine keeps_nextDraw.bind fun n => ?_
    cases reduce (host.tape.genRandom n) with
    | ok key => exact keeps_pure key
    | error e => exact ih

theorem exists_sampleKeyShare {attempts : ℕ}
    (h : ∃ k < attempts, ∃ key, reduce (host.tape.genRandom (s.draws + k)) = .ok key) :
    ∃ key t, (sampleKeyShare host attempts).run s = .ok key t := by
  induction attempts generalizing s with
  | zero =>
    obtain ⟨k, hk, -⟩ := h
    omega
  | succ attempts ih =>
    obtain ⟨k, hk, key, hkey⟩ := h
    rw [sampleKeyShare, run_bind_of_ok (run_nextDraw s)]
    cases hr : reduce (host.tape.genRandom s.draws) with
    | ok key => exact ⟨key, _, rfl⟩
    | error e =>
      have hne : k ≠ 0 := by
        intro hzero
        rw [hzero, add_zero, hr] at hkey
        cases hkey
      refine ih ⟨k - 1, by omega, key, ?_⟩
      have hindex : s.draws + 1 + (k - 1) = s.draws + k := by omega
      rw [← hkey]
      exact congrArg (fun n => reduce (host.tape.genRandom n)) hindex

end Sampling

section Hashing

theorem update_of_length {input data : ByteString} (hpos : 0 < data.length)
    (hlt : data.length < 2 ^ 32) : update input data = .ok (input ++ data) := by
  have hne : data ≠ [] := List.ne_nil_of_length_pos hpos
  have htake : data.take (data.length % 2 ^ 32) = data := by
    rw [Nat.mod_eq_of_lt hlt, List.take_length]
  simp only [update, htake, hne, if_false]

theorem update_bytes {n : ℕ} (input : ByteString) (b : Bytes n) (hpos : 0 < n)
    (hlt : n < 2 ^ 32) : update input b.val = .ok (input ++ b.val) :=
  update_of_length (by rwa [b.2]) (by rwa [b.2])

/-- A commitment can be computed for a key id and public keys of usable lengths. -/
theorem exists_commitmentHash (H : HashFunctions) (salt : Bytes 32) (id : ℕ)
    {d : SetupDecommitment} {aux : AuxiliaryKeys} (hkey : 0 < keyId.length ∧ keyId.length < 2 ^ 32)
    (hpaillier : d.paillierPublicKey = aux.paillierPublicKey)
    (hring : d.ringPedersenPublicKey = aux.ringPedersenPublicKey) :
    ∃ hash, commitmentHash H salt keyId id d = .ok hash := by
  have hid : 0 < (leList 8 id).length ∧ (leList 8 id).length < 2 ^ 32 := by
    rw [length_leList]
    decide
  have hp : 0 < d.paillierPublicKey.length ∧ d.paillierPublicKey.length < 2 ^ 32 := by
    rw [hpaillier]
    exact ⟨aux.paillier_pos, aux.paillier_lt⟩
  have hr : 0 < d.ringPedersenPublicKey.length ∧ d.ringPedersenPublicKey.length < 2 ^ 32 := by
    rw [hring]
    exact ⟨aux.ringPedersen_pos, aux.ringPedersen_lt⟩
  simp only [commitmentHash, bind, Except.bind, update_of_length hkey.1 hkey.2,
    update_of_length hid.1 hid.2, update_bytes _ d.seed (by decide) (by decide),
    update_bytes _ d.share.X (by decide) (by decide),
    update_bytes _ d.share.schnorrR (by decide) (by decide), update_of_length hp.1 hp.2,
    update_of_length hr.1 hr.2]
  exact ⟨_, rfl⟩

theorem verifySetupCommitment_ok_iff {H : HashFunctions} {id : ℕ} {d : SetupDecommitment}
    {u : Unit} : verifySetupCommitment H keyId id d c = .ok u ↔
      commitmentHash H c.salt keyId id d = .ok c.commitment := by
  simp only [verifySetupCommitment, except_bind_ok_iff]
  constructor
  · intro h
    obtain ⟨hash, hhash, hif⟩ := h
    by_cases heq : hash = c.commitment
    · rw [hhash, heq]
    · rw [if_neg heq] at hif
      cases hif
  · intro h
    exact ⟨c.commitment, h, if_pos rfl⟩

/-- The decommitment of a node's setup data. -/
def decommitmentOf (E : Ed25519) (aux : AuxiliaryKeys) (data : SetupData) (ack : Bytes 32) :
    SetupDecommitment :=
  ⟨ack, data.seed, ⟨data.publicKey,
    Ed25519Point.generic (E.encode (beValue data.k.val • E.base))⟩, aux.paillierPublicKey,
    aux.ringPedersenPublicKey⟩

theorem createSetupDecommitment_eq (E : Ed25519) (aux : AuxiliaryKeys) (data : SetupData)
    (ack : Bytes 32) :
    createSetupDecommitment E aux data ack = .ok (decommitmentOf E aux data ack) := by
  simp only [createSetupDecommitment, generatorMul_eq, throwCosignerException_ok, bind,
    Except.bind, decommitmentOf]

end Hashing

section Commitments

theorem createSetupCommitment_ok {id : ℕ} {d : SetupDecommitment}
    (h : (createSetupCommitment host keyId id d).run s = .ok c t) :
    commitmentHash host.hash c.salt keyId id d = .ok c.commitment ∧ OnlyDraws s t := by
  obtain ⟨n, u, hn, h⟩ := run_bind_ok_iff.1 h
  have hu := (keeps_nextDraw s).1 n u hn
  cases hsalt : host.tape.randBytes n with
  | none =>
    rw [hsalt] at h
    cases h
  | some salt =>
    rw [hsalt] at h
    simp only [run_bind_ok_iff, run_ofExcept_ok_iff, run_pure_ok_iff] at h
    obtain ⟨hash, _, ⟨hhash, rfl⟩, rfl, rfl⟩ := h
    exact ⟨hhash, hu⟩

theorem keeps_createSetupCommitment {id : ℕ} {d : SetupDecommitment} :
    Keeps OnlyDraws (createSetupCommitment host keyId id d) := by
  refine keeps_nextDraw.bind fun n => ?_
  cases host.tape.randBytes n with
  | none =>
    intro s
    constructor
    · intro a t h
      cases h
    · intro e t h
      cases h
      exact refl_of OnlyDraws s
  | some salt => exact (keeps_ofExcept _).bind fun hash => keeps_pure _

/-- What `generate_setup_commitments` leaves in the key store. -/
def afterSetup (p : InMemoryKeyPersistency) (keyId : ByteString) (playersIds : List ℕ) (t : ℕ)
    (data : SetupData) (aux : AuxiliaryKeys) (key : Ed25519Scalar) : InMemoryKeyPersistency :=
  ((((p.storeKeyMetadata keyId (initialMetadata playersIds t) false).storeSetupData keyId
    data).storeKeyidTenantId tenantId).storeAuxiliaryKeys keyId aux).storeKey keyId
    .eddsaEd25519 key

/-- The key share, setup data and auxiliary keys behind a node's own commitment. -/
structure OwnSetup (host : Host) (keyId : ByteString) (playersIds : List ℕ) (threshold : ℕ)
    (p : InMemoryKeyPersistency) (c : Commitment) (key : Ed25519Scalar) (data : SetupData)
    (aux : AuxiliaryKeys) : Prop where
  loadsKey : p.keys keyId = some key
  loadsData : p.setupDatas keyId = some data
  loadsAux : p.auxs keyId = some aux
  loadsMetadata : p.metas keyId = some (initialMetadata playersIds threshold)
  publicKey : data.publicKey =
    Ed25519Point.generic (host.algebra.encode (beValue key.val • host.algebra.base))
  opens : ∀ ack, commitmentHash host.hash c.salt keyId (host.service.getIdFromKeyid keyId)
    (decommitmentOf host.algebra aux data ack) = .ok c.commitment

variable {playersIds : List ℕ} {threshold : ℕ}

theorem commitToShare_ok {key : Ed25519Scalar}
    (h : (commitToShare host keyId playersIds threshold key).run s = .ok c t) :
    ∃ data aux, OwnSetup host keyId playersIds threshold t.keys c key data aux ∧
      s.draws ≤ t.draws ∧
      t = { s with draws := t.draws
                   keys := afterSetup s.keys keyId playersIds threshold data aux key } := by
  obtain ⟨k, s₁, hk, h⟩ := run_bind_ok_iff.1 h
  have h₁ := (keeps_hostRand s).1 k s₁ hk
  simp only [run_bind_ok_iff, run_ofExcept_ok_iff, generatorMul_eq, throwCosignerException_ok,
    Except.ok.injEq, createSetupDecommitment_eq] at h
  obtain ⟨k', _, ⟨-, rfl⟩, publicKey, _, ⟨hpublicKey, rfl⟩, n, s₂, hn, n', s₃, hn', aux, _,
    ⟨-, rfl⟩, d, _, ⟨rfl, rfl⟩, commit, s₄, hcommit, _, s₅, hmodify, hc⟩ := h
  obtain ⟨hopens, h₄⟩ := createSetupCommitment_ok hcommit
  cases hc
  cases hmodify
  have hdraws : OnlyDraws s s₄ := trans_of OnlyDraws h₁ (trans_of OnlyDraws
    ((keeps_nextDraw _).1 n s₂ hn) (trans_of OnlyDraws ((keeps_nextDraw _).1 n' s₃ hn') h₄))
  refine ⟨⟨k'.value, host.tape.genRandom n, publicKey⟩, aux, ?_, hdraws.1, ?_⟩
  · exact ⟨Function.update_self .., Function.update_self .., Function.update_self ..,
      Function.update_self .., hpublicKey.symm, fun _ => hopens⟩
  · obtain ⟨n₄, rfl⟩ : ∃ n, s₄ = { s with draws := n } := ⟨s₄.draws, hdraws.2⟩
    rfl

theorem commitToShare_failsKeeping {key : Ed25519Scalar} :
    FailsKeeping OnlyDraws (commitToShare host keyId playersIds threshold key) :=
  .bind keeps_hostRand fun _ => .bind (keeps_ofExcept _) fun _ =>
    .bind (keeps_ofExcept _) fun _ => .bind keeps_nextDraw fun _ =>
    .bind keeps_nextDraw fun _ => .bind (keeps_ofExcept _) fun _ =>
    .bind (keeps_ofExcept _) fun _ => .bind keeps_createSetupCommitment fun c =>
    failsKeeping_of_total fun _ => ⟨c, _, rfl⟩

theorem exists_createSetupCommitment (htape : host.tape.Works)
    (hkeyId : 0 < keyId.length ∧ keyId.length < 2 ^ 32) (id : ℕ) (aux : AuxiliaryKeys)
    (data : SetupData) (ack : Bytes 32) : ∃ c t, (createSetupCommitment host keyId id
      (decommitmentOf host.algebra aux data ack)).run s = .ok c t := by
  obtain ⟨salt, hsalt⟩ := htape.randBytes s.draws
  obtain ⟨hash, hhash⟩ := exists_commitmentHash host.hash salt id
    (d := decommitmentOf host.algebra aux data ack) hkeyId rfl rfl
  rw [createSetupCommitment, run_bind_of_ok (run_nextDraw s)]
  simp only [hsalt, hhash]
  exact ⟨_, _, rfl⟩

/-- With working sources a commitment to a share is always made. -/
theorem exists_commitToShare (htape : host.tape.Works)
    (hkeyId : 0 < keyId.length ∧ keyId.length < 2 ^ 32) (key : Ed25519Scalar) :
    ∃ c t, (commitToShare host keyId playersIds threshold key).run s = .ok c t := by
  obtain ⟨v, hv⟩ := htape.rand s.draws
  obtain ⟨aux, haux⟩ := htape.auxiliaryKeys (s.draws + 1 + 1)
  have hrand := host.run_rand s
  rw [hv] at hrand
  simp only [commitToShare, generatorMul_eq, createSetupDecommitment_eq, throwCosignerException_ok]
  rw [run_bind_of_ok hrand]
  simp only [Except.map, Except.mapError]
  rw [run_bind_of_ok (run_ofExcept_ok _ _), run_bind_of_ok (run_ofExcept_ok _ _),
    run_bind_of_ok (run_nextDraw _), run_bind_of_ok (run_nextDraw _)]
  simp only [haux]
  rw [run_bind_of_ok (run_ofExcept_ok _ _), run_bind_of_ok (run_ofExcept_ok _ _)]
  obtain ⟨c, u, hc⟩ := exists_createSetupCommitment
    (s := { s with draws := s.draws + 1 + 1 + 1 }) htape hkeyId
    (host.service.getIdFromKeyid keyId) aux _ (zeroBytes 32)
  rw [run_bind_of_ok hc]
  exact ⟨c, _, rfl⟩

end Commitments

section Rounds
variable {playersIds : List ℕ} {threshold : ℕ}

theorem generateSetupCommitments_ok
    (h : (generateSetupCommitments host keyId playersIds threshold).run s = .ok c t) :
    ∃ key data aux, OwnSetup host keyId playersIds threshold t.keys c key data aux ∧
      s.draws ≤ t.draws ∧
      t = { s with draws := t.draws
                   keys := afterSetup s.keys keyId playersIds threshold data aux key } := by
  simp only [generateSetupCommitments, run_bind_ok_iff, run_require_ok_iff,
    run_inspect_ok_iff] at h
  obtain ⟨_, _, ⟨-, rfl⟩, _, _, ⟨-, rfl⟩, _, _, ⟨-, rfl⟩, _, _, ⟨-, rfl⟩, _, _, ⟨-, rfl⟩, _, _,
    ⟨-, rfl⟩, key, u, hkey, h⟩ := h
  obtain ⟨data, aux, hown, hle, ht⟩ := commitToShare_ok h
  have hdraws := (keeps_sampleKeyShare 1024 s).1 key u hkey
  obtain ⟨n, rfl⟩ : ∃ n, u = { s with draws := n } := ⟨u.draws, hdraws.2⟩
  exact ⟨key, data, aux, hown, hdraws.1.trans hle, ht⟩

theorem generateSetupCommitments_failsKeeping :
    FailsKeeping OnlyDraws (generateSetupCommitments host keyId playersIds threshold) :=
  .bind (keeps_require _ _) fun _ => .bind (keeps_require _ _) fun _ =>
    .bind (keeps_require _ _) fun _ => .bind (keeps_require _ _) fun _ =>
    .bind (keeps_inspect _) fun _ => .bind (keeps_require _ _) fun _ =>
    .bind (keeps_sampleKeyShare _) fun _ => commitToShare_failsKeeping

theorem exists_generateSetupCommitments (htape : host.tape.Works)
    (hplayer : host.service.getIdFromKeyid configKeyId ∈ [1, 2, 3])
    (hfresh : s.keys.keys configKeyId = none) :
    ∃ c t, (generateSetupCommitments host configKeyId [1, 2, 3] 3).run s = .ok c t := by
  obtain ⟨key, u, hkey⟩ := exists_sampleKeyShare (s := s) (htape.genRandom s.draws)
  have hexist : s.keys.keyExist configKeyId = false := by
    rw [InMemoryKeyPersistency.keyExist, hfresh]
    rfl
  obtain ⟨c, t, h⟩ : ∃ c t, (commitToShare host configKeyId [1, 2, 3] 3 key).run u = .ok c t :=
    exists_commitToShare htape (by decide) key
  refine ⟨c, t, ?_⟩
  simp only [generateSetupCommitments, run_bind_ok_iff, run_require_ok_iff, run_inspect_ok_iff]
  exact ⟨(), s, ⟨by decide, rfl⟩, (), s, ⟨rfl, rfl⟩, (), s, ⟨hplayer, rfl⟩, (), s,
    ⟨by decide, rfl⟩, false, s, ⟨by rw [hexist], rfl⟩, (), s, ⟨rfl, rfl⟩, key, u, hkey, h⟩

/-- What `store_setup_commitments` checks: every player of the metadata has a commitment and
nobody else, and the own decommitment opens the own commitment. -/
structure SetupChecks (host : Host) (keyId : ByteString) (p : InMemoryKeyPersistency)
    (commitments : PlayerMap Commitment) (data : SetupData) (aux : AuxiliaryKeys)
    (metadata : CmpKeyMetadata) (commit : Commitment) : Prop where
  tenant : TenantMatches host
  loadsData : p.setupDatas keyId = some data
  loadsAux : p.auxs keyId = some aux
  loadsMetadata : p.metas keyId = some metadata
  size : commitments.size = metadata.playersInfo.size
  members : ∀ i ∈ metadata.playersInfo.keys, i ∈ commitments
  own : commitments[host.service.getIdFromKeyid keyId]? = some commit
  opens : commitmentHash host.hash commit.salt keyId (host.service.getIdFromKeyid keyId)
    (decommitmentOf host.algebra aux data (ackMessage host.hash commitments)) =
      .ok commit.commitment

theorem storeSetupCommitments_ok_iff {commitments : PlayerMap Commitment}
    {d : SetupDecommitment} :
    (storeSetupCommitments host keyId commitments).run s = .ok d t ↔
      ∃ data aux metadata commit,
        SetupChecks host keyId s.keys commitments data aux metadata commit ∧
        d = decommitmentOf host.algebra aux data (ackMessage host.hash commitments) ∧
        t = { s with keys := s.keys.storeSetupCommitments keyId commitments } := by
  simp only [storeSetupCommitments, run_bind_ok_iff, run_require_ok_iff, run_inspect_ok_iff,
    run_tenantCheck_ok_iff, InMemoryKeyPersistency.loadSetupData,
    InMemoryKeyPersistency.loadAuxiliaryKeys, InMemoryKeyPersistency.loadKeyMetadata,
    InMemoryKeyPersistency.found_eq_ok_iff]
  constructor
  · intro h
    obtain ⟨_, _, ⟨htenant, rfl⟩, data, _, ⟨hdata, rfl⟩, aux, _, ⟨haux, rfl⟩, metadata, _,
      ⟨hmetadata, rfl⟩, _, _, ⟨hsize, rfl⟩, _, _, ⟨hmembers, rfl⟩, h⟩ := h
    cases hcommit : commitments[host.service.getIdFromKeyid keyId]? with
    | none =>
      rw [hcommit] at h
      cases h
    | some commit =>
      simp only [hcommit, run_bind_ok_iff, run_ofExcept_ok_iff, createSetupDecommitment_eq,
        Except.ok.injEq, verifySetupCommitment_ok_iff, run_pure_ok_iff] at h
      obtain ⟨_, _, ⟨rfl, rfl⟩, _, _, ⟨hopens, rfl⟩, _, _, hmodify, rfl, rfl⟩ := h
      cases hmodify
      exact ⟨data, aux, metadata, commit,
        ⟨htenant, hdata, haux, hmetadata, hsize, hmembers, hcommit, hopens⟩, rfl, rfl⟩
  · intro h
    obtain ⟨data, aux, metadata, commit, hchecks, rfl, rfl⟩ := h
    refine ⟨(), s, ⟨hchecks.tenant, rfl⟩, data, s, ⟨hchecks.loadsData, rfl⟩, aux, s,
      ⟨hchecks.loadsAux, rfl⟩, metadata, s, ⟨hchecks.loadsMetadata, rfl⟩, (), s,
      ⟨hchecks.size, rfl⟩, (), s, ⟨hchecks.members, rfl⟩, ?_⟩
    simp only [hchecks.own, run_bind_ok_iff, run_ofExcept_ok_iff, createSetupDecommitment_eq,
      Except.ok.injEq, verifySetupCommitment_ok_iff, run_pure_ok_iff]
    exact ⟨_, s, ⟨rfl, rfl⟩, (), s, ⟨hchecks.opens, rfl⟩, (), _, rfl, rfl, rfl⟩

theorem storeSetupCommitments_keepsStores {commitments : PlayerMap Commitment} :
    FailsKeeping OnlyDraws (storeSetupCommitments host keyId commitments) := by
  refine .bind keeps_verifyTenantId fun _ => .bind (keeps_inspect _) fun _ =>
    .bind (keeps_inspect _) fun _ => .bind (keeps_inspect _) fun _ =>
    .bind (keeps_require _ _) fun _ => .bind (keeps_require _ _) fun _ => ?_
  cases commitments[host.service.getIdFromKeyid keyId]? with
  | none =>
    intro s e t h
    cases h
    exact refl_of OnlyDraws s
  | some commit =>
    exact .bind (keeps_ofExcept _) fun _ => .bind (keeps_ofExcept _) fun _ =>
      failsKeeping_of_total fun _ => ⟨_, _, rfl⟩

/-- As many entries as another map and all of its keys: the same keys. -/
theorem mem_iff_of_size {V W : Type} {m : PlayerMap V} {m' : PlayerMap W}
    (hsize : m.size = m'.size) (hkeys : ∀ i ∈ m'.keys, i ∈ m) (i : ℕ) : i ∈ m ↔ i ∈ m' := by
  have hsubset : m'.keys ⊆ m.keys := fun i hi => Std.ExtTreeMap.mem_keys.2 (hkeys i hi)
  have hnodup : m'.keys.Nodup := Std.ExtTreeMap.nodup_keys
  have hlength : m.keys.length ≤ m'.keys.length := by
    rw [Std.ExtTreeMap.length_keys, Std.ExtTreeMap.length_keys, hsize]
  have hperm := (hnodup.subperm hsubset).perm_of_length_le hlength
  rw [← Std.ExtTreeMap.mem_keys, ← Std.ExtTreeMap.mem_keys]
  exact hperm.mem_iff.symm

theorem mem_initialMetadata (i : ℕ) :
    i ∈ (initialMetadata [1, 2, 3] 3).playersInfo ↔ i = 1 ∨ i = 2 ∨ i = 3 := by
  simp only [initialMetadata, List.foldl_cons, List.foldl_nil, Std.ExtTreeMap.mem_insert,
    Nat.compare_eq_eq, Std.ExtTreeMap.not_mem_empty, or_false]
  omega

theorem size_initialMetadata : (initialMetadata [1, 2, 3] 3).playersInfo.size = 3 := rfl

end Rounds

end MpcDemo.SetupServiceLaws
