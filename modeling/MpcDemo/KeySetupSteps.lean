import MpcDemo.KeySetupLaws

/-!
# The operations of an honest player

Each operation of the key setup returns when the messages it is given are those of honest players,
and what it leaves in the key store is what the next one needs.
-/

namespace MpcDemo.KeySetupSteps
open ByteStrings Ed25519Algebra CosignerTypes FallibleState TotalRuns NodeState
open SetupService (commitmentHash ackMessage)
open SetupServiceLaws KeySetup KeySetupLaws PlayerTables StoredDraws

variable {A : AuxiliaryScheme}

/-- What the auxiliary keys that are generated can do: they are read again from their serialized
form, and every proof about them is accepted. -/
structure Complete (A : AuxiliaryScheme) (valid : AuxiliaryKeys → Prop)
    (paillier : AuxiliaryKeys → A.Paillier) (ringPedersen : AuxiliaryKeys → A.RingPedersen) :
    Prop where
  deserializes : ∀ aux, valid aux → deserializeAuxiliaryKeys A aux.paillierPublicKey
    aux.ringPedersenPublicKey = .ok (paillier aux, ringPedersen aux)
  paillierBlum : ∀ aux aad n, valid aux → ∃ proof, A.generatePaillierBlumZkp aux aad n =
    some proof ∧ A.verifyPaillierBlumZkp (some (paillier aux)) aad proof = .ok ()
  ringPedersenParameters : ∀ aux aad n, valid aux → ∃ proof,
    A.ringPedersenParametersZkpGenerate aux aad n = some proof ∧
      A.ringPedersenParametersZkpVerify (some (ringPedersen aux)) aad proof = .ok ()
  largeFactors : ∀ aux aux' aad n, valid aux → valid aux' → ∃ proof,
    A.paillierLargeFactorsZkpGenerate aux (some (ringPedersen aux')) aad n = .ok proof ∧
      A.paillierLargeFactorsZkpVerify (some (paillier aux)) aux' aad proof = .ok ()

/-- What a player draws for a key. -/
structure Secret where
  key : Ed25519Scalar
  data : SetupData
  aux : AuxiliaryKeys

/-- The point of a player's share. -/
def Secret.share (E : Ed25519) (x : Secret) : E.Point := beValue x.key.val • E.base

/-- What a player draws fits together and opens its commitment. -/
structure Secret.Good (x : Secret) (host : SetupHost A) (keyId : ByteString)
    (valid : AuxiliaryKeys → Prop) (c : Commitment) : Prop where
  publicKey : x.data.publicKey =
    Ed25519Point.generic (host.algebra.encode (x.share host.algebra))
  k : x.data.k ≠ zeroBytes 32
  valid : valid x.aux
  opens : ∀ ack, commitmentHash host.hash c.salt keyId (host.service.getIdFromKeyid keyId)
    (decommitmentOf host.algebra x.aux x.data ack) = .ok c.commitment

/-- What a player's key store holds of a key while it is set up. -/
structure Holds (keyId : ByteString) (x : Secret) (metadata : KeyMetadata A)
    (points : PlayerMap EllipticCurvePoint) (commitments : Option (PlayerMap Commitment))
    (p : SetupPersistency A) : Prop where
  keys : p.keys keyId = some ⟨.eddsaEd25519, x.key, some metadata, some x.aux⟩
  setupData : p.setupData keyId = some ⟨x.data, points⟩
  commitments : p.commitments keyId = commitments

/-- A player's sources of randomness work, and a nonce is never zero. -/
structure Draws (host : SetupHost A) (valid : AuxiliaryKeys → Prop) : Prop where
  works : host.tape.Works
  rand_ne : ∀ n, host.tape.rand n ≠ .ok 0
  valid : ∀ n aux, host.tape.auxiliaryKeys n = .ok aux → valid aux

/-- Nothing is stored of a key. -/
structure Fresh (keyId : ByteString) (p : SetupPersistency A) : Prop where
  keys : p.keys keyId = none
  commitments : p.commitments keyId = none

variable {host : SetupHost A} {keyId : ByteString} {valid : AuxiliaryKeys → Prop} {s : Party A}
variable {x : Secret} {metadata : KeyMetadata A} {points : PlayerMap EllipticCurvePoint}

section Loads
variable {commitments : Option (PlayerMap Commitment)}

theorem Holds.loadKey {p : SetupPersistency A} (h : Holds keyId x metadata points commitments p) :
    p.loadKey keyId = .ok (.eddsaEd25519, x.key) := loadKey_eq h.keys

theorem Holds.loadKeyMetadata {p : SetupPersistency A}
    (h : Holds keyId x metadata points commitments p) :
    p.loadKeyMetadata keyId = .ok metadata := loadKeyMetadata_ok_iff.2 ⟨_, h.keys, rfl⟩

theorem Holds.loadAuxiliaryKeys {p : SetupPersistency A}
    (h : Holds keyId x metadata points commitments p) :
    p.loadAuxiliaryKeys keyId = .ok x.aux := loadAuxiliaryKeys_ok_iff.2 ⟨_, h.keys, rfl⟩

theorem Holds.loadSetupData {p : SetupPersistency A}
    (h : Holds keyId x metadata points commitments p) :
    p.loadSetupData keyId = ⟨x.data, points⟩ := by
  rw [SetupPersistency.loadSetupData, h.setupData, Option.getD_some]

/-- New metadata takes the place of the old. -/
theorem Holds.storeKeyMetadata {p : SetupPersistency A}
    (h : Holds keyId x metadata points commitments p) (metadata' : KeyMetadata A) :
    ∃ p', p.storeKeyMetadata keyId metadata' true = .ok p' ∧
      Holds keyId x metadata' points commitments p' :=
  ⟨_, storeKeyMetadata_override h.keys, keys_setEntry, h.setupData, h.commitments⟩

theorem returns_verifyTenant_bind {α : Type} {f : Unit → EStateM Failure (Party A) α}
    {post : α → Party A → Prop} (htenant : host.service.getCurrentTenantid = tenantId)
    (hf : Returns (f ()) s post) : Returns (verifyTenant host >>= f) s post :=
  returns_require_bind htenant hf

end Loads

section Commitments

theorem beBytes_ne_zero {v : Fin order} (h : v ≠ 0) : beBytes 32 v.val ≠ zeroBytes 32 := by
  intro heq
  have hvalue := congrArg (fun b : Bytes 32 => beValue b.val) heq
  have hv : beValue (beBytes 32 v.val).val = v.val :=
    beValue_beList_of_lt (v.isLt.trans order_lt)
  simp only [hv, beValue_zeroBytes] at hvalue
  exact h (Fin.ext hvalue)

theorem returns_commitToShare (hdraws : Draws host valid)
    (hkeyId : 0 < keyId.length ∧ keyId.length < 2 ^ 32) (hfresh : Fresh keyId s.store)
    (playersIds : List ℕ) (t : ℕ) (key : Ed25519Scalar) (pubkey : EllipticCurvePoint) :
    Returns (commitToShare host keyId playersIds t key pubkey) s fun c u =>
      ∃ x : Secret, x.key = key ∧ x.Good host keyId valid c ∧
        Holds keyId x (initialMetadata playersIds t pubkey) ∅ none u.store := by
  rw [commitToShare]
  apply returns_drawing_bind
    (fun r => ∃ k : DrawnScalar, r = .ok k ∧ k.value ≠ zeroBytes 32) fun n => by
      obtain ⟨v, hv⟩ := hdraws.works.rand n.draws
      refine ⟨_, _, host.toHost.run_rand n, ⟨n.draws, beBytes 32 v.val⟩, ?_, ?_⟩
      · rw [hv]
        rfl
      · exact beBytes_ne_zero fun hzero => hdraws.rand_ne n.draws (by rw [hv, hzero])
  intro r m hr
  obtain ⟨k, rfl, hk⟩ := hr
  simp only [Except.mapError, generatorMul_eq, throwCosignerException_ok,
    createSetupDecommitment_eq]
  refine returns_ofExcept_bind rfl (returns_ofExcept_bind rfl (returns_drawn_bind fun n _ =>
    returns_drawn_bind fun n' _ => ?_))
  obtain ⟨aux, haux⟩ := hdraws.works.auxiliaryKeys n'
  let x : Secret := ⟨key, ⟨k.value, host.tape.genRandom n,
    Ed25519Point.generic (host.algebra.encode (beValue key.val • host.algebra.base))⟩, aux⟩
  refine returns_ofExcept_bind haux (returns_ofExcept_bind rfl ?_)
  apply returns_drawing_bind (fun c => ∀ ack, commitmentHash host.hash c.salt keyId
    (host.service.getIdFromKeyid keyId) (decommitmentOf host.algebra aux x.data ack) =
      .ok c.commitment) fun n => by
    obtain ⟨c, t, hc⟩ := exists_createSetupCommitment (s := n) hdraws.works hkeyId
      (host.service.getIdFromKeyid keyId) aux x.data (zeroBytes 32)
    exact ⟨c, t, hc, fun _ => (createSetupCommitment_ok hc).1⟩
  intro c n₃ hopens
  have hentry : s.store.entry keyId = ⟨.ecdsaSecp256k1, zeroBytes 32, none, none⟩ := by
    rw [SetupPersistency.entry, hfresh.keys, Option.getD_none]
  have hstore : s.store.storeKeyMetadata keyId (initialMetadata playersIds t pubkey) false =
      .ok (s.store.setEntry keyId ⟨.ecdsaSecp256k1, zeroBytes 32,
        some (initialMetadata playersIds t pubkey), none⟩) := by
    rw [SetupPersistency.storeKeyMetadata, hentry, if_neg (by simp)]
  refine returns_writing_bind hstore (returns_writing_bind rfl (returns_pure
    ⟨x, rfl, ⟨rfl, hk, hdraws.valid n' aux haux, hopens⟩, ?_, ?_, hfresh.commitments⟩))
  · simp only [SetupPersistency.storeKey, SetupPersistency.storeAuxiliaryKeys,
      SetupPersistency.storeSetupData, SetupPersistency.entry, keys_setEntry, Option.getD_some]
    rfl
  · exact Function.update_self ..

theorem returns_generateSetupCommitments (hdraws : Draws host valid)
    (hkeyId : 0 < keyId.length ∧ keyId.length < 2 ^ 32) (hfresh : Fresh keyId s.store)
    {playersIds : List ℕ} (hnodup : playersIds.Nodup)
    (hid : host.service.getIdFromKeyid keyId ∈ playersIds) (hlength : playersIds.length ≤ 255) :
    Returns (generateSetupCommitments host keyId playersIds playersIds.length ⟨[], []⟩) s
      fun c u => ∃ x : Secret, x.Good host keyId valid c ∧
        Holds keyId x (initialMetadata playersIds playersIds.length infinityPoint) ∅ none
          u.store := by
  have hpos : playersIds.length ≠ 0 := (List.length_pos_of_mem hid).ne'
  rw [generateSetupCommitments]
  refine returns_require_bind ⟨hpos, hpos, le_rfl, hlength⟩ (returns_require_bind rfl
    (returns_require_bind hid (returns_require_bind hnodup ?_)))
  apply returns_reading_bind (a := false)
  · rw [SetupPersistency.keyExist, hfresh.keys]
    rfl
  refine returns_require_bind rfl ?_
  simp only [ne_eq, not_true, if_false]
  apply returns_drawing_bind (fun _ => True) fun n => by
    obtain ⟨key, t, hkey⟩ := @exists_sampleKeyShare host.toHost n 1024
      (hdraws.works.genRandom n.draws)
    exact ⟨key, t, hkey, trivial⟩
  intro key n _
  exact (returns_commitToShare hdraws hkeyId (s := ⟨n, s.store⟩) hfresh playersIds _ key _).imp
    fun c u h => by
      obtain ⟨x, -, hgood, hholds⟩ := h
      exact ⟨x, hgood, hholds⟩

theorem returns_storeSetupCommitments {commitments : PlayerMap Commitment} {c : Commitment}
    (htenant : host.service.getCurrentTenantid = tenantId)
    (h : Holds keyId x metadata points none s.store) (hgood : x.Good host keyId valid c)
    (hsize : commitments.size = metadata.playersInfo.size)
    (hmembers : ∀ i ∈ metadata.playersInfo.keys, i ∈ commitments)
    (hown : commitments[host.service.getIdFromKeyid keyId]? = some c) :
    Returns (storeSetupCommitments host keyId commitments) s fun d u =>
      d = decommitmentOf host.algebra x.aux x.data (ackMessage host.hash commitments) ∧
        Holds keyId x metadata points (some commitments) u.store := by
  rw [storeSetupCommitments]
  refine returns_verifyTenant_bind htenant (returns_reading_bind rfl (returns_reading_bind
    h.loadAuxiliaryKeys (returns_reading_bind h.loadKeyMetadata (returns_require_bind hsize
    (returns_require_bind hmembers ?_)))))
  simp only [hown, h.loadSetupData]
  have hverify := verifySetupCommitment_ok_iff (u := ()).2
    (hgood.opens (ackMessage host.hash commitments))
  refine returns_ofExcept_bind (createSetupDecommitment_eq ..) (returns_ofExcept_bind hverify ?_)
  have hstore : s.store.storeSetupCommitments keyId commitments = .ok { s.store with
      commitments := Function.update s.store.commitments keyId (some commitments) } := by
    rw [SetupPersistency.storeSetupCommitments, h.commitments, if_neg (by simp)]
  exact returns_writing_bind hstore (returns_pure ⟨rfl, h.keys, h.setupData,
    Function.update_self ..⟩)

end Commitments

section Proofs
variable {paillier : AuxiliaryKeys → A.Paillier} {ringPedersen : AuxiliaryKeys → A.RingPedersen}
variable {commitments : PlayerMap Commitment}

/-- The xor of the seeds of some decommitments. -/
def seedOf (decommitments : PlayerMap SetupDecommitment) : Bytes 32 :=
  decommitments.toList.foldl (fun seed d => xorSeed seed d.2.seed) (zeroBytes 32)

def pointsOf (decommitments : PlayerMap SetupDecommitment)
    (points : PlayerMap EllipticCurvePoint) : PlayerMap EllipticCurvePoint :=
  decommitments.toList.foldl (fun points d => points.insert d.1 d.2.share.schnorrR) points

/-- The point of a player's proof of knowledge. -/
def Secret.nonce (E : Ed25519) (x : Secret) : EllipticCurvePoint :=
  Ed25519Point.generic (E.encode (beValue x.data.k.val • E.base))

/-- The proofs of a player are accepted. -/
structure Accepted (E : Ed25519) (H : HashFunctions) (paillier : AuxiliaryKeys → A.Paillier)
    (ringPedersen : AuxiliaryKeys → A.RingPedersen) (x : Secret) (aad : ByteString)
    (proofs : SetupZkProofs) : Prop where
  schnorr : schnorrZkpVerify E H aad x.data.publicKey (x.nonce E) proofs.schnorrS = .ok ()
  paillierBlum : A.verifyPaillierBlumZkp (some (paillier x.aux)) aad proofs.paillierBlumZkp = .ok ()
  ringPedersenParameters : A.ringPedersenParametersZkpVerify (some (ringPedersen x.aux)) aad
    proofs.ringPedersenParamZkp = .ok ()

theorem length_buildAad (id : ℕ) (seed : Bytes 32) :
    (buildAad keyId id seed).length = keyId.length + 40 := by
  rw [buildAad, List.length_append, List.length_append, length_leList, seed.2]

theorem proverIdOf_buildAad (hkeyId : keyId.length + 40 < 2 ^ 32) (id : ℕ) (seed : Bytes 32) :
    proverIdOf (buildAad keyId id seed) = buildAad keyId id seed := by
  rw [proverIdOf, Nat.mod_eq_of_lt (by rw [length_buildAad]; exact hkeyId), List.take_length]

theorem proverIdOf_ne_nil (hkeyId : keyId.length + 40 < 2 ^ 32) (id : ℕ) (seed : Bytes 32) :
    proverIdOf (buildAad keyId id seed) ≠ [] := by
  rw [proverIdOf_buildAad hkeyId]
  apply List.ne_nil_of_length_pos
  rw [length_buildAad]
  omega

theorem returns_proveSetup (hA : Complete A valid paillier ringPedersen)
    (hkeyId : keyId.length + 40 < 2 ^ 32) {c : Commitment} (hgood : x.Good host keyId valid c)
    (h : Holds keyId x metadata points (some commitments) s.store)
    (data : SetupRecord) (hdata : data.toSetupData = x.data) (seed : Bytes 32) :
    Returns (proveSetup host keyId data seed) s fun proofs u => u.store = s.store ∧
      Accepted host.algebra host.hash paillier ringPedersen x
        (buildAad keyId (host.service.getIdFromKeyid keyId) seed) proofs := by
  let aad := buildAad keyId (host.service.getIdFromKeyid keyId) seed
  obtain ⟨schnorrS, hgenerate, hverify⟩ := @exists_schnorrZkpGenerate host.algebra host.hash aad
    x.key x.data.k (proverIdOf_ne_nil hkeyId _ _) hgood.k
  have hpublicKey : data.publicKey =
      Ed25519Point.generic (host.algebra.encode (beValue x.key.val • host.algebra.base)) := by
    rw [hdata]
    exact hgood.publicKey
  have hk : data.k = x.data.k := by rw [hdata]
  rw [proveSetup]
  refine returns_reading_bind h.loadAuxiliaryKeys (returns_drawn_bind fun n _ => ?_)
  obtain ⟨blum, hblum, hblum'⟩ := hA.paillierBlum x.aux aad n hgood.valid
  refine returns_ofExcept_bind (a := blum) (by rw [hblum]; rfl) (returns_drawn_bind fun n _ => ?_)
  obtain ⟨ring, hring, hring'⟩ := hA.ringPedersenParameters x.aux aad n hgood.valid
  refine returns_ofExcept_bind (a := ring) (by rw [hring]; rfl) (returns_reading_bind
    h.loadKey (returns_ofExcept_bind (a := schnorrS) ?_ (returns_pure ⟨rfl, ?_, hblum', hring'⟩)))
  · rw [hpublicKey, hk]
    exact hgenerate
  · rw [← hdata, hpublicKey]
    exact hverify

theorem returns_generateSetupProofs (hA : Complete A valid paillier ringPedersen)
    (htenant : host.service.getCurrentTenantid = tenantId)
    (hkeyId : keyId.length + 40 < 2 ^ 32) {c : Commitment} (hgood : x.Good host keyId valid c)
    (h : Holds keyId x metadata points (some commitments) s.store)
    {decommitments : PlayerMap SetupDecommitment} {info : PlayerMap (PlayerInfo A)}
    (hload : verifyAndLoadSetupDecommitments host.hash keyId commitments decommitments
      metadata.playersInfo = .ok info) :
    Returns (generateSetupProofs host keyId decommitments) s fun proofs u =>
      Accepted host.algebra host.hash paillier ringPedersen x (buildAad keyId
        (host.service.getIdFromKeyid keyId) (seedOf decommitments)) proofs ∧
      Holds keyId x { metadata with playersInfo := info, seed := seedOf decommitments }
        (pointsOf decommitments points) (some commitments) u.store := by
  rw [generateSetupProofs]
  refine returns_verifyTenant_bind htenant (returns_reading_bind h.loadKeyMetadata
    (returns_writing_bind rfl (returns_reading_bind rfl ?_)))
  rw [withSetupCommitments_eq h.commitments]
  have hcommitments : s.store.loadSetupCommitments keyId = commitments := by
    rw [SetupPersistency.loadSetupCommitments, h.commitments, Option.getD_some]
  refine returns_ofExcept_bind (a := info) (by rw [hcommitments, hload])
    (returns_reading_bind rfl ?_)
  simp only [h.loadSetupData]
  apply (returns_proveSetup hA hkeyId hgood h ⟨x.data, pointsOf decommitments points⟩ rfl
    (seedOf decommitments)).bind
  intro proofs u hu
  obtain ⟨hstore, haccepted⟩ := hu
  have hholds : Holds keyId x metadata (pointsOf decommitments points) (some commitments)
      (u.store.storeSetupData keyId ⟨x.data, pointsOf decommitments points⟩) := by
    rw [hstore]
    exact ⟨h.keys, Function.update_self .., h.commitments⟩
  obtain ⟨p, hp, hfinal⟩ := hholds.storeKeyMetadata
    { metadata with playersInfo := info, seed := seedOf decommitments }
  exact returns_writing_bind rfl (returns_writing_bind hp (returns_pure ⟨haccepted, hfinal⟩))

/-- The last messages: a proof for each other player. -/
theorem returns_verifySetupProofs
    (htenant : host.service.getCurrentTenantid = tenantId)
    (h : Holds keyId x metadata points (some commitments) s.store)
    {proofs : PlayerMap SetupZkProofs} (hsize : proofs.size = metadata.playersInfo.size)
    (hverify : ∀ info ∈ metadata.playersInfo.toList,
      verifyPlayerProofs host keyId metadata ⟨x.data, points⟩ proofs info = .ok ())
    {pubkey : EllipticCurvePoint} (hpubkey : checkedPublicKey host metadata = .ok pubkey)
    (Accepts : ℕ → ByteString → Prop)
    (hprove : ∀ info ∈ metadata.playersInfo.toList, ∀ n, ∃ proof,
      A.paillierLargeFactorsZkpGenerate x.aux info.2.ringPedersen (buildAad keyId
        (host.service.getIdFromKeyid keyId) metadata.seed) n = .ok proof ∧ Accepts info.1 proof) :
    Returns (verifySetupProofs host keyId proofs) s fun large u =>
      (∀ info ∈ metadata.playersInfo.toList, info.1 ≠ host.service.getIdFromKeyid keyId →
        ∃ proof, large[info.1]? = some proof ∧ Accepts info.1 proof) ∧
      Holds keyId x { metadata with publicKey := pubkey } points (some commitments) u.store := by
  have hverified : metadata.playersInfo.toList.mapM (verifyPlayerProofs host keyId metadata
      ⟨x.data, points⟩ proofs) = .ok (metadata.playersInfo.toList.map fun _ => ()) :=
    except_mapM_eq_ok hverify
  obtain ⟨p, hp, hholds⟩ := h.storeKeyMetadata { metadata with publicKey := pubkey }
  rw [verifySetupProofs]
  refine returns_verifyTenant_bind htenant (returns_reading_bind h.loadKeyMetadata
    (returns_require_bind hsize (returns_reading_bind rfl ?_)))
  rw [h.loadSetupData]
  refine returns_ofExcept_bind hverified (returns_ofExcept_bind hpubkey
    (returns_writing_bind hp (returns_reading_bind hholds.loadAuxiliaryKeys ?_)))
  let others := metadata.playersInfo.toList.filter fun i =>
    i.1 ≠ host.service.getIdFromKeyid keyId
  have hothers : ∀ info ∈ others, info ∈ metadata.playersInfo.toList :=
    fun info hinfo => (List.mem_filter.1 hinfo).1
  have hloop := returns_mapM (s := (⟨s.draws, p⟩ : Party A)) (l := others)
    (f := proveLargeFactors host keyId metadata.seed x.aux)
    (fun done entries u => u.store = p ∧ entries.map Prod.fst = done.map Prod.fst ∧
      ∀ e ∈ entries, Accepts e.1 e.2)
    ⟨rfl, rfl, fun e he => absurd he List.not_mem_nil⟩
    (by
      intro done info rest entries u hl hI
      obtain ⟨hstore, hkeys, haccepts⟩ := hI
      have hmem : info ∈ metadata.playersInfo.toList := hothers info (by
        rw [hl]
        exact List.mem_append_right _ List.mem_cons_self)
      rw [proveLargeFactors]
      refine returns_drawn_bind fun n _ => ?_
      obtain ⟨proof, hproof, haccept⟩ := hprove info hmem n
      refine returns_ofExcept_bind hproof (returns_pure ⟨hstore, ?_, fun e he => ?_⟩)
      · rw [List.map_append, List.map_append, hkeys]
        rfl
      · rcases List.mem_append.1 he with he | he
        · exact haccepts e he
        · obtain rfl := List.mem_singleton.1 he
          exact haccept)
  apply hloop.bind
  intro entries u hu
  obtain ⟨hstore, hkeys, haccepts⟩ := hu
  refine returns_pure ⟨fun info hinfo hne => ?_, by rw [hstore]; exact hholds⟩
  have hnodup : (entries.map Prod.fst).Nodup := by
    rw [hkeys]
    exact (NodePrograms.nodup_keys metadata.playersInfo).sublist
      (List.filter_sublist.map Prod.fst)
  have hkey : info.1 ∈ entries.map Prod.fst := by
    rw [hkeys]
    exact List.mem_map_of_mem (List.mem_filter.2 ⟨hinfo, by simpa using hne⟩)
  obtain ⟨⟨j, proof⟩, he, rfl⟩ := List.mem_map.1 hkey
  exact ⟨proof, (NodePrograms.getElem?_ofEntries hnodup _ _).2 he, haccepts _ he⟩

theorem returns_createSecret
    (htenant : host.service.getCurrentTenantid = tenantId)
    (hbackup : host.backupKey keyId metadata.algorithm x.key metadata x.aux = true)
    (h : Holds keyId x metadata points (some commitments) s.store)
    {proofs : PlayerMap (PlayerMap ByteString)} (hsize : proofs.size = metadata.playersInfo.size)
    (hverify : ∀ p ∈ proofs.toList, verifyLargeFactors host keyId metadata x.aux p = .ok ()) :
    Returns (createSecret host keyId proofs) s fun out u =>
      out = (metadata.publicKey.ed25519, .eddsaEd25519) ∧
        u.store.keys keyId = some ⟨.eddsaEd25519, x.key, some metadata, some x.aux⟩ ∧
        u.store.setupData keyId = none ∧ u.store.commitments keyId = none := by
  have hverified : proofs.toList.mapM (verifyLargeFactors host keyId metadata x.aux) =
      .ok (proofs.toList.map fun _ => ()) := except_mapM_eq_ok hverify
  have hkeys : (s.store.deleteTemporaryKeyData keyId false).keys = s.store.keys := rfl
  rw [createSecret]
  refine returns_verifyTenant_bind htenant (returns_reading_bind h.loadKeyMetadata
    (returns_reading_bind h.loadAuxiliaryKeys (returns_require_bind hsize
    (returns_ofExcept_bind hverified (returns_writing_bind rfl (returns_reading_bind
    (loadKey_eq (by rw [hkeys, h.keys])) ?_))))))
  simp only [hbackup, if_true]
  exact returns_pure ⟨rfl, by rw [hkeys, h.keys], Function.update_self .., Function.update_self ..⟩

end Proofs

end MpcDemo.KeySetupSteps
