import MpcDemo.KeyRefresh
import MpcDemo.KeySetupLaws

/-!
# A refreshed key is the same key

What one player adds to its share for a seed another player takes away from its own. So a refresh
changes no sum of shares, of the key or of a presignature, whatever the players, and signatures that
are made from refreshed presignatures are the same.
-/

namespace MpcDemo.RefreshedShares
open ByteStrings Ed25519Algebra CosignerTypes FallibleState TotalRuns NodeState GroupScalars
open KeySetup KeySetupLaws KeySetupSessions KeyRefresh PlayerTables PlayerRounds
open StoredDraws

variable {A : AuxiliaryScheme} {α β : Type}

section Masks
variable {H : HashFunctions} {algorithm : CosignerSignAlgorithm}

/-- What the seeds received and sent add up to. -/
def mask (H : HashFunctions) (algorithm : CosignerSignAlgorithm) (aad : ByteString) (id : ℕ)
    (seeds : List (Bytes 32 × Bytes 32)) : ZMod (groupOrder algorithm) :=
  (seeds.map fun seed => residue algorithm (prf H seed.1 aad id).val -
    residue algorithm (prf H seed.2 aad id).val).sum

theorem throwCosignerException_bind {x : Except AlgebraStatus α} {a : α} {b : β}
    {f : α → Except Failure β} (hx : x = .ok a) (hf : f a = .ok b) :
    (throwCosignerException x >>= f) = .ok b := by
  rw [hx, throwCosignerException_ok]
  exact hf

theorem exists_maskScalar (aad : ByteString) (id : ℕ) (seeds : List (Bytes 32 × Bytes 32))
    (value : Bytes 32) : ∃ v, maskScalar H algorithm aad id seeds value = .ok v ∧
      residue algorithm v.val = residue algorithm value.val + mask H algorithm aad id seeds := by
  induction seeds generalizing value with
  | nil => exact ⟨value, rfl, by rw [mask, List.map_nil, List.sum_nil, add_zero]⟩
  | cons seed seeds ih =>
    obtain ⟨added, hadded, haddedValue⟩ := @exists_addScalars algorithm value.val
      (prf H seed.1 aad id).val (val_ne_nil _) (val_ne_nil _)
    obtain ⟨next, hnext, hnextValue⟩ := @exists_subScalars algorithm added.val
      (prf H seed.2 aad id).val (val_ne_nil _) (val_ne_nil _)
    obtain ⟨v, hv, hvalue⟩ := ih next
    refine ⟨v, ?_, ?_⟩
    · rw [maskScalar, List.foldlM_cons]
      refine except_bind_ok_iff.2 ⟨next, throwCosignerException_bind hadded ?_, hv⟩
      rw [hnext, throwCosignerException_ok]
    · rw [hvalue, hnextValue, haddedValue, mask, mask, List.map_cons, List.sum_cons]
      ring

/-- A refreshed presignature: its point is the same, and its two sums change by masks. -/
theorem exists_refreshPreprocessedData (requestId : ByteString)
    (seeds : List (Bytes 32 × Bytes 32)) (key newKey : Bytes 32) (index : ℕ)
    (data : PreprocessedData) :
    ∃ d, refreshPreprocessedData H algorithm requestId seeds key newKey index data = .ok d ∧
      d.R = data.R ∧
      residue algorithm d.k.val = residue algorithm data.k.val +
        mask H algorithm (requestId ++ ascii "k") index seeds ∧
      residue algorithm d.chi.val + residue algorithm d.k.val * residue algorithm newKey.val =
        residue algorithm data.chi.val + residue algorithm data.k.val *
          residue algorithm key.val + mask H algorithm (requestId ++ ascii "chi") index seeds := by
  have hne : ∀ b : Bytes 32, b.val ≠ [] := val_ne_nil
  obtain ⟨k, hk, hkValue⟩ := @exists_maskScalar H algorithm (requestId ++ ascii "k") index seeds
    data.k
  obtain ⟨own, hown, hownValue⟩ := @exists_mulScalars algorithm _ _ (hne data.k) (hne key)
  obtain ⟨total, htotal, htotalValue⟩ := @exists_addScalars algorithm _ _ (hne data.chi) (hne own)
  obtain ⟨new, hnew, hnewValue⟩ := @exists_mulScalars algorithm _ _ (hne k) (hne newKey)
  obtain ⟨rest, hrest, hrestValue⟩ := @exists_subScalars algorithm _ _ (hne total) (hne new)
  obtain ⟨chi, hchi, hchiValue⟩ := @exists_maskScalar H algorithm (requestId ++ ascii "chi") index
    seeds rest
  refine ⟨⟨k, chi, data.R⟩, ?_, rfl, hkValue, ?_⟩
  · rw [refreshPreprocessedData]
    exact except_bind_ok_iff.2 ⟨k, hk, throwCosignerException_bind hown
      (throwCosignerException_bind htotal (throwCosignerException_bind hnew
      (throwCosignerException_bind hrest (except_bind_ok_iff.2 ⟨chi, hchi, rfl⟩))))⟩
  · rw [hchiValue, hrestValue, hnewValue, htotalValue, hownValue]
    ring

theorem exists_partialS (r delta : Bytes 32) {m : ByteString} (hm : m ≠ []) (key : Bytes 32)
    (data : PreprocessedData) :
    ∃ s, partialS algorithm r delta m key data = .ok s ∧ residue algorithm s.val =
      residue algorithm data.k.val *
        (residue algorithm m + residue algorithm r.val * residue algorithm delta.val) +
      residue algorithm r.val * (residue algorithm data.chi.val +
        residue algorithm data.k.val * residue algorithm key.val) := by
  have hne : ∀ b : Bytes 32, b.val ≠ [] := val_ne_nil
  obtain ⟨a, ha, haValue⟩ := @exists_mulScalars algorithm _ _ (hne r) (hne delta)
  obtain ⟨b, hb, hbValue⟩ := @exists_addScalars algorithm _ _ (hne a) hm
  obtain ⟨c, hc, hcValue⟩ := @exists_mulScalars algorithm _ _ (hne b) (hne data.k)
  obtain ⟨d, hd, hdValue⟩ := @exists_mulScalars algorithm _ _ (hne data.k) (hne key)
  obtain ⟨e, he, heValue⟩ := @exists_addScalars algorithm _ _ (hne d) (hne data.chi)
  obtain ⟨f, hf, hfValue⟩ := @exists_mulScalars algorithm _ _ (hne e) (hne r)
  obtain ⟨s, hs, hsValue⟩ := @exists_addScalars algorithm _ _ (hne c) (hne f)
  refine ⟨s, ?_, ?_⟩
  · rw [partialS]
    refine throwCosignerException_bind ha (throwCosignerException_bind hb
      (throwCosignerException_bind hc (throwCosignerException_bind hd
      (throwCosignerException_bind he (throwCosignerException_bind hf ?_)))))
    rw [hs, throwCosignerException_ok]
  · rw [hsValue, hfValue, heValue, hdValue, hcValue, hbValue, haValue]
    ring

theorem sum_map_filter {M : Type} [AddCommMonoid M] {p : α → Bool} {g : α → M} {l : List α}
    (h : ∀ a ∈ l, p a = false → g a = 0) : ((l.filter p).map g).sum = (l.map g).sum := by
  induction l with
  | nil => rfl
  | cons a l ih =>
    have hl := ih fun b hb => h b (List.mem_cons_of_mem a hb)
    cases ha : p a with
    | true => rw [List.filter_cons_of_pos ha, List.map_cons, List.sum_cons, hl, List.map_cons,
        List.sum_cons]
    | false => rw [List.filter_cons_of_neg (by simp [ha]), hl, List.map_cons, List.sum_cons,
        h a List.mem_cons_self ha, zero_add]

/-- The seeds that one player has of the others, where `seed i j` is what `i` has sent to `j`. -/
def seedsOf (players : Finset ℕ) (seed : ℕ → ℕ → Bytes 32) (i : ℕ) :
    List (Bytes 32 × Bytes 32) :=
  (players.sort.filter fun j => j ≠ i).map fun j => (seed j i, seed i j)

theorem mask_seedsOf (players : Finset ℕ) (seed : ℕ → ℕ → Bytes 32) (i : ℕ) (aad : ByteString)
    (id : ℕ) : mask H algorithm aad id (seedsOf players seed i) =
      ∑ j ∈ players, (residue algorithm (prf H (seed j i) aad id).val -
        residue algorithm (prf H (seed i j) aad id).val) := by
  rw [mask, seedsOf, List.map_map, sum_map_filter]
  · exact sum_sort _
  · intro j _ hj
    have hown : j = i := by simpa using hj
    simp only [Function.comp_apply, hown, sub_self]

/-- The masks of all players cancel. -/
theorem sum_mask (players : Finset ℕ) (seed : ℕ → ℕ → Bytes 32) (aad : ByteString) (id : ℕ) :
    ∑ i ∈ players, mask H algorithm aad id (seedsOf players seed i) = 0 := by
  simp only [mask_seedsOf, Finset.sum_sub_distrib]
  rw [Finset.sum_comm, sub_self]

end Masks

section Stores

/-- The presignatures that are kept apart: those used up stay so. -/
theorem exists_transformed {p : RefreshPersistency A} {keyId : ByteString}
    {data : List PreprocessedData} (fn : ℕ → PreprocessedData → Except Failure PreprocessedData)
    (hdata : p.preprocessedData keyId = some data) (htemp : p.tempPreprocessedData keyId = none)
    (hfn : ∀ index d, ∃ d', fn index d = .ok d') :
    ∃ temp : List PreprocessedData, p.transformPreprocessedDataAndStoreTemporary keyId fn =
      .ok { p with
        tempPreprocessedData := Function.update p.tempPreprocessedData keyId (some temp) } ∧
      ∀ (index : ℕ), (data[index]? = none → temp[index]? = none) ∧
        ∀ d, data[index]? = some d → ∃ d', temp[index]? = some d' ∧
          if d = usedUp then d' = d else fn index d = .ok d' := by
  choose g hg using hfn
  let change : PreprocessedData × ℕ → PreprocessedData := fun d =>
    if d.1 = usedUp then d.1 else g d.2 d.1
  have hloop : data.zipIdx.mapM (fun d => if d.1 = usedUp then .ok d.1 else fn d.2 d.1) =
      .ok (data.zipIdx.map change) := by
    refine except_mapM_eq_ok fun d _ => ?_
    by_cases hd : d.1 = usedUp
    · simp only [change, if_pos hd]
    · simp only [change, if_neg hd]
      exact hg d.2 d.1
  have htemp' : ¬ (p.tempPreprocessedData keyId).isSome = true := by rw [htemp]; simp
  refine ⟨data.zipIdx.map change, ?_, fun index => ⟨fun hnone => ?_, fun d hd => ?_⟩⟩
  · rw [RefreshPersistency.transformPreprocessedDataAndStoreTemporary, hdata]
    simp only [if_neg htemp', hloop]
    rfl
  · rw [List.getElem?_map, List.getElem?_zipIdx, hnone]
    rfl
  · refine ⟨change (d, index), ?_, ?_⟩
    · rw [List.getElem?_map, List.getElem?_zipIdx, hd]
      simp
    · by_cases hused : d = usedUp
      · simp only [change, if_pos hused]
      · simp only [change, if_neg hused]
        exact hg index d

end Stores

section Operations
variable {host : SetupHost A} {s : Refresher A} {keyId requestId : ByteString}
variable {players : Finset ℕ} {info : KeyInfo A} {metadata : KeyMetadata A}
variable {data : List PreprocessedData}

/-- A player's stores when a key is to be refreshed by some of its players. -/
structure Refreshable (keyId requestId : ByteString) (players : Finset ℕ) (info : KeyInfo A)
    (metadata : KeyMetadata A) (data : List PreprocessedData) (p : RefreshPersistency A) :
    Prop where
  keys : p.setup.keys keyId = some info
  hasMetadata : info.metadata = some metadata
  aux : info.auxKeys.isSome
  card : players.card ≤ metadata.n
  members : ∀ i ∈ players, i ∈ metadata.playersInfo
  preprocessedData : p.preprocessedData keyId = some data
  tempPreprocessedData : p.tempPreprocessedData keyId = none
  tempKeys : p.tempKeys requestId = none

/-- The seeds of a player are those in its messages. -/
def Sends (host : SetupHost A) (players : Finset ℕ) (myId : ℕ) (own : PlayerMap (Bytes 32))
    (sent : PlayerMap ByteString) : Prop :=
  ∀ j ∈ players, j ≠ myId → ∃ seed n, own[j]? = some seed ∧
    sent[j]? = some (host.encryptForPlayer j seed.val n)

theorem Refreshable.loadKeyMetadata {p : RefreshPersistency A}
    (h : Refreshable keyId requestId players info metadata data p) :
    p.setup.loadKeyMetadata keyId = .ok metadata :=
  loadKeyMetadata_ok_iff.2 ⟨info, h.keys, h.hasMetadata⟩

theorem returns_refreshKeyRequest
    (h : Refreshable keyId requestId players info metadata data s.store)
    (hseeds : s.store.seeds requestId = none) :
    Returns (refreshKeyRequest host tenantId keyId requestId players) s fun sent u =>
      ∃ own, Sends host players (host.service.getIdFromKeyid keyId) own sent ∧
        u.store = { s.store with seeds := Function.update s.store.seeds requestId (some own) } := by
  rw [refreshKeyRequest]
  refine returns_require_bind rfl (returns_reading_bind h.loadKeyMetadata
    (returns_require_bind h.card (returns_require_bind h.members ?_)))
  let others := players.sort.filter fun i => i ≠ host.service.getIdFromKeyid keyId
  have hloop := returns_mapM (s := s) (l := others) (f := drawSeed host)
    (fun done entries u => u.store = s.store ∧ entries.map Prod.fst = done ∧
      ∀ e ∈ entries, ∃ n, e.2.2 = host.encryptForPlayer e.1 e.2.1.val n)
    ⟨rfl, rfl, fun e he => absurd he List.not_mem_nil⟩
    (by
      intro done j rest entries u hl hI
      obtain ⟨hstore, hkeys, hentries⟩ := hI
      rw [drawSeed]
      refine returns_drawn_bind fun n _ => returns_drawn_bind fun n' _ => returns_pure
        ⟨hstore, by rw [List.map_append, hkeys]; rfl, fun e he => ?_⟩
      rcases List.mem_append.1 he with he | he
      · exact hentries e he
      · obtain rfl := List.mem_singleton.1 he
        exact ⟨n', rfl⟩)
  apply hloop.bind
  intro entries u hu
  obtain ⟨hstore, hkeys, hentries⟩ := hu
  let own : PlayerMap (Bytes 32) := NodePrograms.ofEntries (entries.map fun e => (e.1, e.2.1))
  have hstored : u.store.storeRefreshKeySeeds requestId own =
      .ok { u.store with seeds := Function.update u.store.seeds requestId (some own) } := by
    rw [RefreshPersistency.storeRefreshKeySeeds, hstore, hseeds, if_neg (by simp)]
  refine returns_writing_bind hstored (returns_pure ⟨own, fun j hj hother => ?_, by rw [hstore]⟩)
  have hnodup : (entries.map Prod.fst).Nodup := by
    rw [hkeys]
    exact (players.sort_nodup (· ≤ ·)).filter _
  have hmem : j ∈ entries.map Prod.fst := by
    rw [hkeys]
    exact List.mem_filter.2 ⟨(Finset.mem_sort (· ≤ ·)).2 hj, by simpa using hother⟩
  obtain ⟨e, he, rfl⟩ := List.mem_map.1 hmem
  obtain ⟨n, hn⟩ := hentries e he
  refine ⟨e.2.1, n, (NodePrograms.getElem?_ofEntries ?_ _ _).2 (List.mem_map.2 ⟨e, he, rfl⟩),
    (NodePrograms.getElem?_ofEntries ?_ _ _).2 (List.mem_map.2 ⟨e, he, by rw [hn]⟩)⟩
  · rw [List.map_map]
    exact hnodup
  · rw [List.map_map]
    exact hnodup

/-- What a player keeps apart before it commits to its new share. -/
structure Refreshed (keyId requestId : ByteString) (info : KeyInfo A) (p : RefreshPersistency A)
    (newKey : Bytes 32) (newData : List PreprocessedData) (p' : RefreshPersistency A) : Prop where
  setup : p'.setup = p.setup
  preprocessedData : p'.preprocessedData = p.preprocessedData
  tempPreprocessedData : p'.tempPreprocessedData keyId = some newData
  tempKeys : p'.tempKeys requestId = some (newKey, info.algorithm)

/-- A player's new presignature. -/
def RefreshedData (H : HashFunctions) (algorithm : CosignerSignAlgorithm) (requestId : ByteString)
    (seeds : List (Bytes 32 × Bytes 32)) (key newKey : Bytes 32)
    (data newData : List PreprocessedData) : Prop :=
  ∀ (index : ℕ), (data[index]? = none → newData[index]? = none) ∧
    ∀ d, data[index]? = some d → ∃ d', newData[index]? = some d' ∧
      if d = usedUp then d' = d
      else refreshPreprocessedData H algorithm requestId seeds key newKey index d = .ok d'

theorem returns_refreshKey {sent : ℕ → PlayerMap ByteString} {seed : ℕ → ℕ → Bytes 32}
    {own : PlayerMap (Bytes 32)} {i : ℕ} (hid : host.service.getIdFromKeyid keyId = i)
    (htenant : host.service.getCurrentTenantid = tenantId)
    (h : Refreshable keyId requestId players info metadata data s.store)
    (hne : keyId ≠ requestId) (hown : s.store.seeds requestId = some own)
    (hseeds : ∀ j ∈ players, j ≠ i → seedsWith host i own (j, sent j) = .ok (seed j i, seed i j)) :
    Returns (refreshKey host keyId requestId (table players sent)) s fun publicKey u =>
      publicKey = metadata.publicKey.val.take (pointSize metadata.algorithm) ∧
      ∃ newKey newData, maskScalar host.hash metadata.algorithm (requestId ++ ascii "x") 0
          (seedsOf players seed i) info.privateKey = .ok newKey ∧
        RefreshedData host.hash metadata.algorithm requestId (seedsOf players seed i)
          info.privateKey newKey data newData ∧
        Refreshed keyId requestId info s.store newKey newData u.store := by
  have hmembers : ∀ j ∈ (table players sent).keys, j ∈ metadata.playersInfo := by
    intro j hj
    rw [Std.ExtTreeMap.mem_keys, mem_table] at hj
    exact h.members j hj
  have hload : s.store.loadRefreshKeySeeds requestId = .ok own := by
    rw [RefreshPersistency.loadRefreshKeySeeds, hown]
  have hall : ((table players sent).toList.filter fun e => e.1 ≠ i).mapM (seedsWith host i own) =
      .ok (seedsOf players seed i) := by
    have heach := except_mapM_eq_ok (l := (table players sent).toList.filter fun e => e.1 ≠ i)
      (f := seedsWith host i own) (g := fun e => (seed e.1 i, seed i e.1)) fun e he => by
        obtain ⟨hmem, hother⟩ := List.mem_filter.1 he
        obtain ⟨hj, hsent⟩ := mem_toList_table.1 hmem
        have hpair : e = (e.1, sent e.1) := Prod.ext rfl hsent
        rw [hpair]
        exact hseeds e.1 hj (by simpa using hother)
    rw [heach, seedsOf, ← keys_table players sent, ← Std.ExtTreeMap.map_fst_toList_eq_keys,
      List.filter_map, List.map_map]
    rfl
  obtain ⟨newKey, hnewKey, -⟩ := @exists_maskScalar host.hash metadata.algorithm
    (requestId ++ ascii "x") 0 (seedsOf players seed i) info.privateKey
  obtain ⟨newData, htransform, hnewData⟩ := exists_transformed (p := s.store)
    (refreshPreprocessedData host.hash metadata.algorithm requestId (seedsOf players seed i)
      info.privateKey newKey) h.preprocessedData h.tempPreprocessedData
    fun index d => by
      obtain ⟨d', hd', -⟩ := @exists_refreshPreprocessedData host.hash metadata.algorithm requestId
        (seedsOf players seed i) info.privateKey newKey index d
      exact ⟨d', hd'⟩
  rw [refreshKey]
  refine returns_require_bind htenant (returns_reading_bind h.loadKeyMetadata
    (returns_require_bind (by rw [size_table]; exact h.card) (returns_require_bind hmembers
    (returns_reading_bind hload (returns_ofExcept_bind (a := seedsOf players seed i)
    (by rw [hid, hall]) (returns_reading_bind (loadKey_eq h.keys) (returns_ofExcept_bind hnewKey
    (returns_writing_bind htransform (returns_writing_bind rfl ?_)))))))))
  have hstore : ∀ p : RefreshPersistency A, p.tempKeys requestId = none →
      p.storeTemporaryKey requestId info.algorithm newKey = .ok { p with
        tempKeys := Function.update p.tempKeys requestId (some (newKey, info.algorithm)) } := by
    intro p hp
    rw [RefreshPersistency.storeTemporaryKey, hp, if_neg (by simp)]
  refine returns_writing_bind (hstore _ h.tempKeys) (returns_pure ⟨rfl, newKey, newData, hnewKey,
    hnewData, rfl, rfl, ?_, Function.update_self ..⟩)
  show Function.update (Function.update s.store.tempPreprocessedData keyId (some newData))
    requestId none keyId = some newData
  rw [Function.update_of_ne hne, Function.update_self]

/-- A player has committed to its new share. -/
structure Committed (keyId requestId : ByteString) (info : KeyInfo A) (p : RefreshPersistency A)
    (newKey : Bytes 32) (newData : List PreprocessedData) (p' : RefreshPersistency A) : Prop where
  setup : p'.setup = p.setup.setEntry keyId { info with privateKey := newKey }
  preprocessedData : p'.preprocessedData = Function.update p.preprocessedData keyId (some newData)
  tempPreprocessedData : p'.tempPreprocessedData keyId = none
  tempKeys : p'.tempKeys requestId = none

theorem returns_refreshKeyFastAck {p : RefreshPersistency A} {newKey : Bytes 32}
    {newData : List PreprocessedData}
    (hbackup : ∀ algorithm key metadata aux,
      host.backupKey keyId algorithm key metadata aux = true)
    (h : Refreshable keyId requestId players info metadata data p)
    (hs : Refreshed keyId requestId info p newKey newData s.store) :
    Returns (refreshKeyFastAck host tenantId keyId requestId) s fun _ u =>
      Committed keyId requestId info p newKey newData u.store := by
  have hentry : s.store.setup.entry keyId = info := by
    rw [hs.setup, SetupPersistency.entry, h.keys, Option.getD_some]
  have hsetup : s.store.setup.storeKey keyId info.algorithm newKey =
      p.setup.setEntry keyId { info with privateKey := newKey } := by
    rw [SetupPersistency.storeKey, hentry, hs.setup]
  obtain ⟨p', hcommit, hcommitted⟩ : ∃ p', s.store.commit keyId requestId = .ok p' ∧
      Committed keyId requestId info p newKey newData p' := by
    rw [RefreshPersistency.commit, hs.tempKeys]
    refine ⟨_, rfl, hsetup, ?_, Function.update_self .., Function.update_self ..⟩
    rw [hs.tempPreprocessedData, Option.getD_some, hs.preprocessedData]
  have hkeys : p'.setup.keys keyId = some { info with privateKey := newKey } := by
    rw [hcommitted.setup, keys_setEntry]
  obtain ⟨aux, haux⟩ := Option.isSome_iff_exists.1 h.aux
  rw [refreshKeyFastAck]
  refine returns_require_bind rfl (returns_writing_bind hcommit (returns_reading_bind
    (loadKeyMetadata_ok_iff.2 ⟨_, hkeys, h.hasMetadata⟩) (returns_reading_bind (loadKey_eq hkeys)
    (returns_reading_bind (loadAuxiliaryKeys_ok_iff.2 ⟨_, hkeys, haux⟩) ?_))))
  exact ⟨(), _, run_require_ok_iff.2 ⟨hbackup _ _ _ _, rfl⟩, hcommitted⟩

end Operations

section Sums
variable {players : Finset ℕ} {key newKey : ℕ → Bytes 32} {d d' : ℕ → PreprocessedData}

/-- The parts of a presignature add up to what they did. -/
structure SamePresignature (algorithm : CosignerSignAlgorithm) (players : Finset ℕ)
    (key newKey : ℕ → Bytes 32) (d d' : ℕ → PreprocessedData) : Prop where
  R : ∀ i ∈ players, (d' i).R = (d i).R
  k : ∑ i ∈ players, residue algorithm (d' i).k.val = ∑ i ∈ players, residue algorithm (d i).k.val
  chi : ∑ i ∈ players, (residue algorithm (d' i).chi.val +
      residue algorithm (d' i).k.val * residue algorithm (newKey i).val) =
    ∑ i ∈ players, (residue algorithm (d i).chi.val +
      residue algorithm (d i).k.val * residue algorithm (key i).val)

/-- The shares of every signature add up to what they did. -/
def SameSignatures (algorithm : CosignerSignAlgorithm) (players : Finset ℕ)
    (key newKey : ℕ → Bytes 32) (d d' : ℕ → PreprocessedData) : Prop :=
  ∀ r delta m, m ≠ [] → ∃ s s' : ℕ → Bytes 32,
    (∀ i ∈ players, partialS algorithm r delta m (key i) (d i) = .ok (s i) ∧
      partialS algorithm r delta m (newKey i) (d' i) = .ok (s' i)) ∧
    ∑ i ∈ players, residue algorithm (s' i).val = ∑ i ∈ players, residue algorithm (s i).val

theorem SamePresignature.sameSignatures {algorithm : CosignerSignAlgorithm}
    (h : SamePresignature algorithm players key newKey d d') :
    SameSignatures algorithm players key newKey d d' := by
  intro r delta m hm
  choose s hs hsum using fun i => @exists_partialS algorithm r delta m hm (key i) (d i)
  choose s' hs' hsum' using fun i => @exists_partialS algorithm r delta m hm (newKey i) (d' i)
  refine ⟨s, s', fun i _ => ⟨hs i, hs' i⟩, ?_⟩
  simp only [hsum, hsum', Finset.sum_add_distrib, ← Finset.sum_mul, ← Finset.mul_sum]
  have hchi := h.chi
  rw [Finset.sum_add_distrib, Finset.sum_add_distrib] at hchi
  rw [h.k, hchi]

variable {H : HashFunctions} {algorithm : CosignerSignAlgorithm} {requestId : ByteString}
variable {seed : ℕ → ℕ → Bytes 32}

theorem sum_newKey {aad : ByteString} {id : ℕ} (h : ∀ i ∈ players,
    maskScalar H algorithm aad id (seedsOf players seed i) (key i) = .ok (newKey i)) :
    ∑ i ∈ players, residue algorithm (newKey i).val =
      ∑ i ∈ players, residue algorithm (key i).val := by
  have heach : ∀ i ∈ players, residue algorithm (newKey i).val = residue algorithm (key i).val +
      mask H algorithm aad id (seedsOf players seed i) := by
    intro i hi
    obtain ⟨v, hv, hvalue⟩ := @exists_maskScalar H algorithm aad id (seedsOf players seed i) (key i)
    obtain rfl := Except.ok.inj ((h i hi).symm.trans hv)
    exact hvalue
  rw [Finset.sum_congr rfl heach, Finset.sum_add_distrib, sum_mask, add_zero]

theorem samePresignature {index : ℕ} (h : ∀ i ∈ players, refreshPreprocessedData H algorithm
    requestId (seedsOf players seed i) (key i) (newKey i) index (d i) = .ok (d' i)) :
    SamePresignature algorithm players key newKey d d' := by
  have heach : ∀ i ∈ players, (d' i).R = (d i).R ∧
      residue algorithm (d' i).k.val = residue algorithm (d i).k.val +
        mask H algorithm (requestId ++ ascii "k") index (seedsOf players seed i) ∧
      residue algorithm (d' i).chi.val +
          residue algorithm (d' i).k.val * residue algorithm (newKey i).val =
        residue algorithm (d i).chi.val +
          residue algorithm (d i).k.val * residue algorithm (key i).val +
          mask H algorithm (requestId ++ ascii "chi") index (seedsOf players seed i) := by
    intro i hi
    obtain ⟨v, hv, hvalue⟩ := @exists_refreshPreprocessedData H algorithm requestId
      (seedsOf players seed i) (key i) (newKey i) index (d i)
    obtain rfl := Except.ok.inj ((h i hi).symm.trans hv)
    exact hvalue
  refine ⟨fun i hi => (heach i hi).1, ?_, ?_⟩
  · rw [Finset.sum_congr rfl fun i hi => (heach i hi).2.1, Finset.sum_add_distrib, sum_mask,
      add_zero]
  · rw [Finset.sum_congr rfl fun i hi => (heach i hi).2.2, Finset.sum_add_distrib, sum_mask,
      add_zero]

end Sums

section Refresh
variable {P : Players A} {players : Finset ℕ} {keyId requestId : ByteString}
variable {algorithm : CosignerSignAlgorithm} {info : ℕ → KeyInfo A} {metadata : ℕ → KeyMetadata A}
variable {data : ℕ → List PreprocessedData} {w : ℕ → Refresher A}

/-- Players that follow the protocol and can read each other's messages. -/
structure Refreshes (P : Players A) (players : Finset ℕ) (keyId : ByteString) : Prop where
  nonempty : players.Nonempty
  id : ∀ i ∈ players, (P.service i).getIdFromKeyid keyId = i
  tenant : ∀ i ∈ players, (P.service i).getCurrentTenantid = tenantId
  decrypts : ∀ i ∈ players, ∀ j ∈ players, ∀ bytes n,
    P.decryptMessage j (P.encryptForPlayer i j bytes n) = bytes
  backup : ∀ i ∈ players, ∀ algorithm key metadata aux,
    P.backupKey i keyId algorithm key metadata aux = true

/-- The refresh of a key by any of its players keeps the key, and every presignature that has not
been used up: the shares change, what they add up to does not. -/
theorem key_refresh_keeps_key (hP : Refreshes P players keyId) (hne : keyId ≠ requestId)
    (hw : ∀ i ∈ players, Refreshable keyId requestId players (info i) (metadata i) (data i)
      (w i).store ∧ (w i).store.seeds requestId = none)
    (halgorithm : ∀ i ∈ players, (metadata i).algorithm = algorithm) :
    Returns (keyRefresh P players keyId requestId) w fun out w' =>
      out = table players (fun i => (metadata i).publicKey.val.take (pointSize algorithm)) ∧
      ∃ (newKey : ℕ → Bytes 32) (newData : ℕ → List PreprocessedData),
        (∀ i ∈ players, Committed keyId requestId (info i) (w i).store (newKey i) (newData i)
          (w' i).store) ∧
        ∑ i ∈ players, residue algorithm (newKey i).val =
          ∑ i ∈ players, residue algorithm (info i).privateKey.val ∧
        ∀ (index : ℕ),
          (∀ i ∈ players, ((data i)[index]? = none → (newData i)[index]? = none) ∧
            ((data i)[index]? = some usedUp → (newData i)[index]? = some usedUp)) ∧
          ∀ d : ℕ → PreprocessedData, (∀ i ∈ players, (data i)[index]? = some (d i) ∧
            d i ≠ usedUp) → ∃ d' : ℕ → PreprocessedData,
            (∀ i ∈ players, (newData i)[index]? = some (d' i)) ∧
            SamePresignature algorithm players (fun i => (info i).privateKey) newKey d d' ∧
            SameSignatures algorithm players (fun i => (info i).privateKey) newKey d d' := by
  rw [keyRefresh]
  have hrequest := returns_eachPlayer (w := w) hP.nonempty (f := fun i =>
    refreshKeyRequest (P.host i) tenantId keyId requestId players) fun i hi =>
      returns_refreshKeyRequest (hw i hi).1 (hw i hi).2
  apply hrequest.bind
  intro _ w₁ hw₁
  obtain ⟨-, sent, rfl, h₁⟩ := hw₁
  have hown : ∀ i, ∃ own : PlayerMap (Bytes 32), i ∈ players →
      Sends (P.host i) players i own (sent i) ∧ (w₁ i).store = { (w i).store with
        seeds := Function.update (w i).store.seeds requestId (some own) } := by
    intro i
    by_cases hi : i ∈ players
    · obtain ⟨own, hsends, hstore⟩ := h₁ i hi
      have hid : (P.host i).service.getIdFromKeyid keyId = i := hP.id i hi
      rw [hid] at hsends
      exact ⟨own, fun _ => ⟨hsends, hstore⟩⟩
    · exact ⟨∅, fun hi' => absurd hi' hi⟩
  choose own hown using hown
  have hseed : ∀ i j, ∃ seed : Bytes 32, i ∈ players → j ∈ players → j ≠ i → ∃ n,
      (own i)[j]? = some seed ∧ (sent i)[j]? = some (P.encryptForPlayer i j seed.val n) := by
    intro i j
    by_cases h : i ∈ players ∧ j ∈ players ∧ j ≠ i
    · obtain ⟨seed, n, hseed⟩ := (hown i h.1).1 j h.2.1 h.2.2
      exact ⟨seed, fun _ _ _ => ⟨n, hseed⟩⟩
    · exact ⟨zeroBytes 32, fun hi hj hother => absurd ⟨hi, hj, hother⟩ h⟩
  choose seed hseed using hseed
  have hpairs : ∀ i ∈ players, ∀ j ∈ players, j ≠ i →
      seedsWith (P.host i) i (own i) (j, sent j) = .ok (seed j i, seed i j) := by
    intro i hi j hj hother
    obtain ⟨n, -, hmessage⟩ := hseed j i hj hi (Ne.symm hother)
    obtain ⟨-, hmine, -⟩ := hseed i j hi hj hother
    have hdecrypt : (P.host i).decryptMessage (P.encryptForPlayer j i (seed j i).val n) =
        (seed j i).val := hP.decrypts j hj i hi _ n
    simp only [seedsWith, hmessage, hmine, hdecrypt, (seed j i).2, dif_pos]
  have hready : ∀ i ∈ players, Refreshable keyId requestId players (info i) (metadata i) (data i)
      (w₁ i).store := by
    intro i hi
    rw [(hown i hi).2]
    exact { (hw i hi).1 with }
  have hrefresh : ∀ i ∈ players, Returns (refreshKey (P.host i) keyId requestId
      (table players sent)) (w₁ i) fun publicKey u =>
        publicKey = (metadata i).publicKey.val.take (pointSize algorithm) ∧
        ∃ newKey newData, maskScalar P.hash algorithm (requestId ++ ascii "x") 0
            (seedsOf players seed i) (info i).privateKey = .ok newKey ∧
          RefreshedData P.hash algorithm requestId (seedsOf players seed i) (info i).privateKey
            newKey (data i) newData ∧
          Refreshed keyId requestId (info i) (w₁ i).store newKey newData u.store := by
    intro i hi
    have hseeds : (w₁ i).store.seeds requestId = some (own i) := by
      rw [(hown i hi).2]
      exact Function.update_self ..
    rw [← halgorithm i hi]
    exact returns_refreshKey (hP.id i hi) (hP.tenant i hi) (hready i hi) hne hseeds (hpairs i hi)
  apply (returns_eachPlayer hP.nonempty hrefresh).bind
  intro _ w₂ hw₂
  obtain ⟨-, publicKeys, rfl, h₂⟩ := hw₂
  have hnew : ∀ i, ∃ (newKey : Bytes 32) (newData : List PreprocessedData), i ∈ players →
      maskScalar P.hash algorithm (requestId ++ ascii "x") 0 (seedsOf players seed i)
        (info i).privateKey = .ok newKey ∧
      RefreshedData P.hash algorithm requestId (seedsOf players seed i) (info i).privateKey
        newKey (data i) newData ∧
      Refreshed keyId requestId (info i) (w₁ i).store newKey newData (w₂ i).store := by
    intro i
    by_cases hi : i ∈ players
    · obtain ⟨-, newKey, newData, h⟩ := h₂ i hi
      exact ⟨newKey, newData, fun _ => h⟩
    · exact ⟨zeroBytes 32, [], fun hi' => absurd hi' hi⟩
  choose newKey newData hnew using hnew
  have hack := returns_eachPlayer (w := w₂) hP.nonempty (f := fun i =>
    refreshKeyFastAck (P.host i) tenantId keyId requestId) fun i hi =>
      returns_refreshKeyFastAck (hP.backup i hi) (hready i hi) (hnew i hi).2.2
  apply hack.bind
  intro _ w₃ hw₃
  obtain ⟨-, _, rfl, h₃⟩ := hw₃
  refine returns_pure ⟨table_congr fun i hi => (h₂ i hi).1, newKey, newData, fun i hi => ?_,
    sum_newKey fun i hi => (hnew i hi).1, fun index => ⟨fun i hi => ⟨?_, fun hused => ?_⟩,
    fun d hd => ?_⟩⟩
  · obtain ⟨hsetup, hdata, htemp, hkeys⟩ := h₃ i hi
    rw [(hown i hi).2] at hsetup hdata
    exact ⟨hsetup, hdata, htemp, hkeys⟩
  · exact ((hnew i hi).2.1 index).1
  · obtain ⟨d', hd', hsame⟩ := ((hnew i hi).2.1 index).2 usedUp hused
    rw [if_pos rfl] at hsame
    rw [hd', hsame]
  · have hnext : ∀ i, ∃ d' : PreprocessedData, i ∈ players → (newData i)[index]? = some d' ∧
        refreshPreprocessedData P.hash algorithm requestId (seedsOf players seed i)
          (info i).privateKey (newKey i) index (d i) = .ok d' := by
      intro i
      by_cases hi : i ∈ players
      · obtain ⟨d', hd', hrefreshed⟩ := ((hnew i hi).2.1 index).2 (d i) (hd i hi).1
        rw [if_neg (hd i hi).2] at hrefreshed
        exact ⟨d', fun _ => ⟨hd', hrefreshed⟩⟩
      · exact ⟨usedUp, fun hi' => absurd hi' hi⟩
    choose d' hd' using hnext
    have hsame : SamePresignature algorithm players (fun i => (info i).privateKey) newKey d d' :=
      samePresignature fun i hi => (hd' i hi).2
    exact ⟨d', fun i hi => (hd' i hi).1, hsame, hsame.sameSignatures⟩

end Refresh

section Concrete

def sharedMetadata : KeyMetadata trustingScheme where
  publicKey := infinityPoint
  algorithm := .ecdsaSecp256k1
  t := 3
  n := 3
  seed := zeroBytes 32
  playersInfo := table {1, 2, 3} fun _ => ⟨infinityPoint, none, none⟩

/-- A key of three players with one presignature that is used up and one that is not. -/
def sharedInfo (i : ℕ) : KeyInfo trustingScheme :=
  ⟨.ecdsaSecp256k1, beBytes 32 i, some sharedMetadata, some concreteAux⟩

def sharedData (i : ℕ) : PreprocessedData :=
  ⟨beBytes 32 (i + 1), beBytes 32 (i + 2), infinityPoint⟩

def sharingRefresher (i : ℕ) : Refresher trustingScheme where
  draws := 0
  store := ⟨SetupPersistency.empty.setEntry (ascii "key") (sharedInfo i),
    fun id => if id = ascii "key" then some [usedUp, sharedData i] else none, fun _ => none,
    fun _ => none, fun _ => none⟩

theorem key_refresh_keeps_key_concrete :
    Returns (keyRefresh concretePlayers {1, 2, 3} (ascii "key") (ascii "request")) sharingRefresher
      fun out w' => out = table {1, 2, 3} (fun _ => infinityPoint.val.take 33) ∧
      ∃ (newKey : ℕ → Bytes 32) (newData : ℕ → List PreprocessedData),
        (∀ i ∈ ({1, 2, 3} : Finset ℕ), Committed (ascii "key") (ascii "request") (sharedInfo i)
          (sharingRefresher i).store (newKey i) (newData i) (w' i).store) ∧
        ∑ i ∈ ({1, 2, 3} : Finset ℕ), residue .ecdsaSecp256k1 (newKey i).val =
          ∑ i ∈ ({1, 2, 3} : Finset ℕ), residue .ecdsaSecp256k1 (beBytes 32 i).val ∧
        (∀ i ∈ ({1, 2, 3} : Finset ℕ), (newData i)[0]? = some usedUp) ∧
        ∃ d' : ℕ → PreprocessedData,
          (∀ i ∈ ({1, 2, 3} : Finset ℕ), (newData i)[1]? = some (d' i)) ∧
          SameSignatures .ecdsaSecp256k1 {1, 2, 3} (fun i => beBytes 32 i) newKey sharedData
            d' := by
  have hrefresh := @key_refresh_keeps_key trustingScheme concretePlayers {1, 2, 3} (ascii "key")
    (ascii "request") .ecdsaSecp256k1 sharedInfo (fun _ => sharedMetadata)
    (fun i => [usedUp, sharedData i]) sharingRefresher
    ⟨⟨1, by decide⟩, fun _ _ => rfl, fun _ _ => rfl, fun _ _ _ _ _ _ => rfl,
      fun _ _ _ _ _ _ => rfl⟩ (by decide)
    (fun i _ => ⟨⟨keys_setEntry, rfl, rfl, by decide, fun _ hj => mem_table.2 hj,
      by simp [sharingRefresher], rfl, rfl⟩, rfl⟩) fun _ _ => rfl
  apply hrefresh.imp
  intro out w' h
  obtain ⟨hout, newKey, newData, hcommitted, hsum, hdata⟩ := h
  have hunused : ∀ i ∈ ({1, 2, 3} : Finset ℕ), sharedData i ≠ usedUp := by decide
  obtain ⟨d', hd', -, hsignatures⟩ := (hdata 1).2 sharedData fun i hi => ⟨rfl, hunused i hi⟩
  exact ⟨hout, newKey, newData, hcommitted, hsum, fun i hi => ((hdata 0).1 i hi).2 rfl, d', hd',
    hsignatures⟩

end Concrete

end MpcDemo.RefreshedShares
