import MpcDemo.ContractClient
import MpcDemo.ServerOperationLaws

/-!
# A server over a persistency that meets its contract

For each operation of a signing session: when its checks hold it returns, with which result and
which record of the transaction.
-/

namespace MpcDemo.ContractServer
open ByteStrings Ed25519Algebra CosignerTypes AsymmetricEddsaCosigner FallibleState TotalRuns
open PreprocessingContract InterfaceContracts AsymmetricEddsaCosignerServer
open ContractClient (getElem?_of_zipIdx_eq map_index_zipIdx store_eq_some load_eq_some)
open ServerOperationLaws (blockRecord)

variable {σ : Type} {S : Server σ} {view : σ → ServerStore} {keyId tenant txid : ByteString}
variable {metadata : CmpKeyMetadata} {key : Ed25519Scalar} {s : σ}

section Presigning

theorem returns_storePresigningData (hS : ServerContract S view)
    (hkey : StoresKey S.keyPersistency keyId tenant metadata key s)
    (htenant : S.service.getCurrentTenantid = tenant)
    (halgorithm : metadata.algorithm = .eddsaEd25519) {playersIds : Finset ℕ}
    (hsize : metadata.playersInfo.size = playersIds.card) {sender : ℕ}
    (hsender : S.service.isClientId sender)
    (hplayers : ∀ i ∈ playersIds, i ∈ metadata.playersInfo ∧
      (S.service.isClientId i → i = sender))
    (hnew : (view s).preprocessed keyId = none) {requestId : ByteString}
    {startIndex count totalCount : ℕ} {RCommitments : List EddsaCommitment}
    (hlength : RCommitments.length = count) (hrange : startIndex + count ≤ totalCount) :
    Returns (storePresigningData S keyId requestId startIndex count totalCount playersIds sender
        RCommitments) s fun _ t => ∃ array,
      Leaves S.keyPersistency view ((view s).setPreprocessed keyId array) s t ∧
        ∀ i < count, array.entry (startIndex + i) = RCommitments[i]? := by
  rw [storePresigningData]
  apply returns_verifyTenantId_bind hkey htenant
  apply returns_require_bind hlength
  apply returns_inspect_bind hkey.metadata
  apply returns_require_bind halgorithm
  apply returns_require_bind hsize
  apply returns_require_bind hsender
  apply returns_require_bind hplayers
  apply (hS.createPreprocessedData s keyId totalCount hnew).bind
  intro _ t ht
  have hloop := returns_forM (s := t) (l := RCommitments.zipIdx)
    (f := fun c => S.signingPersistency.storePreprocessedData keyId (startIndex + c.2) c.1)
    (fun done u => ∃ array, Leaves S.keyPersistency view ((view s).setPreprocessed keyId array) s u ∧
      array.size = totalCount ∧
        ∀ i < done.length, array.entry (startIndex + i) = RCommitments[i]?)
    ⟨.create totalCount, ht, rfl, fun i hi => absurd hi (Nat.not_lt_zero i)⟩
    (by
      intro done c rest u hl hI
      obtain ⟨array, hu, hsize, hentries⟩ := hI
      obtain ⟨hc, hindex⟩ := getElem?_of_zipIdx_eq hl
      have hlt : done.length < RCommitments.length := (List.getElem?_eq_some_iff.1 hc).1
      have harray : (view u).preprocessed keyId = some array := by
        rw [hu.2, ServerStore.preprocessed_setPreprocessed]
      have hstored := store_eq_some (show startIndex + c.2 < array.size by omega) c.1
      apply (hS.storePreprocessedData u keyId array _ _ _ harray hstored).imp
      intro _ v hv
      refine ⟨array.assign (startIndex + c.2) (some c.1), ⟨hu.1.trans hv.1, ?_⟩, hsize,
        fun i hi => ?_⟩
      · rw [hv.2, hu.2, ServerStore.setPreprocessed_setPreprocessed]
      · rw [List.length_append, List.length_singleton] at hi
        rw [ConsumeOnceArray.entry_assign _ (Or.inl (by omega))]
        by_cases hlast : i = done.length
        · rw [if_pos (by omega), hlast, hc]
        · rw [if_neg (by omega), hentries i (by omega)])
  apply hloop.imp
  intro _ u hu
  obtain ⟨array, hu, -, hentries⟩ := hu
  rw [List.length_zipIdx, hlength] at hentries
  exact ⟨array, hu, hentries⟩

end Presigning

section Drawing

theorem run_retryRand_ok (S : Server σ) (k : DrawnScalar) (attempts : ℕ) (s : σ) :
    (retryRand S attempts (.ok k)).run s = .ok (.ok k) s := by
  cases attempts with
  | zero => rfl
  | succ attempts => rfl

theorem run_drawNonces_ok (S : Server σ) (k : DrawnScalar) (blocks : List SigningBlockData)
    (s : σ) :
    (drawNonces S (.ok k) blocks).run s = .ok (blocks.map (blockRecord S.algebra k)) s := by
  induction blocks with
  | nil => rfl
  | cons block blocks ih =>
    simp only [drawNonces, run_bind_of_ok (run_retryRand_ok S k 1024 s), Except.mapError]
    rw [run_bind_of_ok (run_ofExcept_ok k s), generatorMul_eq, throwCosignerException_ok,
      run_bind_of_ok (run_ofExcept_ok _ s), run_bind_of_ok ih]
    rfl

theorem returns_drawNonces (hS : ServerContract S view) (blocks : List SigningBlockData) (s : σ) :
    Returns (drawNonces S (.error .unknownError) blocks) s fun sigData t =>
      (∃ k, sigData = blocks.map (blockRecord S.algebra k)) ∧
        Leaves S.keyPersistency view (view s) s t := by
  cases blocks with
  | nil => exact returns_pure ⟨⟨⟨0, zeroBytes 32⟩, rfl⟩, SameKeys.refl _ _, rfl⟩
  | cons block blocks =>
    have hretry : Returns (retryRand S 1024 (.error .unknownError)) s fun r t =>
        (∃ k, r = .ok k) ∧ Leaves S.keyPersistency view (view s) s t := by
      rw [retryRand]
      apply (hS.rand s).bind
      intro r t hr
      obtain ⟨⟨k, rfl, -⟩, ht⟩ := hr
      exact ⟨_, t, run_retryRand_ok S k 1023 t, ⟨k, rfl⟩, ht⟩
    rw [drawNonces]
    apply hretry.bind
    intro r t hr
    obtain ⟨⟨k, rfl⟩, ht⟩ := hr
    apply returns_ofExcept_bind (rfl : Except.mapError _ (.ok k) = .ok k)
    have hpoint : throwCosignerException (generatorMul S.algebra k.value) =
        .ok (Ed25519Point.generic (S.algebra.encode (beValue k.value.val • S.algebra.base))) := by
      rw [generatorMul_eq, throwCosignerException_ok]
    apply returns_ofExcept_bind hpoint
    apply Returns.bind_of_run (run_drawNonces_ok S k blocks t)
    exact returns_pure ⟨⟨k, rfl⟩, ht⟩

end Drawing

section Signing

/-- The record of a transaction before and after its points are replaced. -/
def session (keyId : ByteString) (chaincode : HDChaincode) (signersIds : Finset ℕ)
    (startIndex blocks : ℕ) (record : ℕ → AsymmetricEddsaSignatureData) :
    AsymmetricEddsaSigningMetadata where
  keyId := keyId
  chaincode := chaincode
  sigData := (List.range blocks).map record
  signersIds := signersIds
  startIndex := startIndex

variable {chaincode : HDChaincode} {signersIds : Finset ℕ} {startIndex blocks : ℕ}
variable {record : ℕ → AsymmetricEddsaSignatureData}

@[simp] theorem length_session :
    (session keyId chaincode signersIds startIndex blocks record).sigData.length = blocks := by
  rw [session, List.length_map, List.length_range]

/-- The record of a block with its nonce and point. -/
def offlineRecord (E : Ed25519) (k : DrawnScalar) (block : SigningBlockData) (flags : ℕ) :
    AsymmetricEddsaSignatureData :=
  { blockRecord E k block with flags := flags }

@[simp] theorem ed25519_offlineRecord (E : Ed25519) (k : DrawnScalar) (block : SigningBlockData)
    (flags : ℕ) : (offlineRecord E k block flags).R.ed25519 =
      E.encode (beValue k.value.val • E.base) := ed25519_generic _

/-- The point of a nonce, once for each block. -/
def ownPoints (E : Ed25519) (k : DrawnScalar) (blocks : ℕ) : List EllipticCurvePoint :=
  (List.range blocks).map fun _ => Ed25519Point.generic (E.encode (beValue k.value.val • E.base))

theorem returns_eddsaSignOffline (hS : ServerContract S view)
    (hkey : StoresKey S.keyPersistency keyId tenant metadata key s)
    (htenant : S.service.getCurrentTenantid = tenant)
    (halgorithm : metadata.algorithm = .eddsaEd25519)
    (hsize : signersIds.card = metadata.n) (htwo : 2 ≤ signersIds.card)
    (hmembers : ∀ i ∈ signersIds, i ∈ metadata.playersInfo) {data : SigningData}
    {metadataJson : ByteString} {players : Finset ByteString}
    (hauthorized : S.service.onStartSigning keyId txid data metadataJson players = .ok ())
    {block : ℕ → SigningBlockData} (hblocks : data.blocks = (List.range blocks).map block)
    (hmax : blocks ≤ maxBlocksToSign) (hnew : (view s).signingData txid = none) {index : ℕ}
    (hindex : index < 2 ^ 32) :
    Returns (eddsaSignOffline S keyId txid data metadataJson players signersIds index) s
      fun out t => ∃ k, Leaves S.keyPersistency view ((view s).setSigningData txid
          (some (session keyId data.chaincode signersIds index blocks fun j =>
            offlineRecord S.algebra k (block j)
              (S.service.fillSigningInfoFromMetadata metadataJson j)))) s t ∧
        (metadata.n = 2 → out.Rs = some ⟨ownPoints S.algebra k blocks,
          commitToRs S.hash txid (S.service.getIdFromKeyid keyId) (ownPoints S.algebra k blocks)⟩) ∧
        (metadata.n ≠ 2 → out.RCommitments = (List.range blocks).map fun j =>
          commitToR S.hash txid (j + index) (S.service.getIdFromKeyid keyId)
            (S.algebra.encode (beValue k.value.val • S.algebra.base))) := by
  have hlength : data.blocks.length ≤ maxBlocksToSign := by
    rwa [hblocks, List.length_map, List.length_range]
  rw [eddsaSignOffline]
  apply returns_verifyTenantId_bind hkey htenant
  apply returns_inspect_bind hkey.metadata
  apply returns_require_bind halgorithm
  apply returns_require_bind hsize
  apply returns_require_bind htwo
  apply returns_require_bind hmembers
  apply returns_ofExcept_bind hauthorized
  apply returns_require_bind hlength
  apply (returns_drawNonces hS data.blocks s).bind
  intro sigData t ht
  obtain ⟨⟨k, rfl⟩, ht⟩ := ht
  have hmap : ∀ {β : Type} (f : ℕ → AsymmetricEddsaSignatureData → β),
      (data.blocks.map (blockRecord S.algebra k)).mapIdx f =
        (List.range blocks).map fun j => f j (blockRecord S.algebra k (block j)) := by
    intro β f
    rw [hblocks]
    apply List.ext_getElem?
    intro j
    simp only [List.getElem?_mapIdx, List.getElem?_map]
    by_cases hj : j < blocks
    · rw [List.getElem?_range hj]
      rfl
    · rw [List.getElem?_eq_none (by rw [List.length_range]; omega)]
      rfl
  have hpoints : (data.blocks.map (blockRecord S.algebra k)).map (·.R) =
      ownPoints S.algebra k blocks := by
    rw [hblocks, List.map_map, List.map_map]
    rfl
  have hnew' : (view t).signingData txid = none := by rw [ht.2, hnew]
  apply (hS.storeSigningData t txid _ false (Or.inr hnew')).bind
  intro _ u hu
  have hrecord : Leaves S.keyPersistency view ((view s).setSigningData txid
      (some (session keyId data.chaincode signersIds index blocks fun j =>
        offlineRecord S.algebra k (block j)
          (S.service.fillSigningInfoFromMetadata metadataJson j)))) s u := by
    refine ⟨ht.1.trans hu.1, ?_⟩
    rw [hu.2, ht.2, session, hmap, Nat.mod_eq_of_lt hindex]
    rfl
  by_cases hn : metadata.n = 2
  · simp only [hn, if_true]
    apply returns_pure
    exact ⟨k, hrecord, fun _ => by rw [hpoints], fun hne => absurd rfl hne⟩
  · simp only [hn, if_false]
    apply returns_pure
    refine ⟨k, hrecord, fun htwo => htwo.elim, fun _ => ?_⟩
    rw [hmap]
    exact List.map_congr_left fun j _ =>
      congrArg (commitToR S.hash txid _ _) (ed25519_generic _)

variable (hdata : (view s).signingData txid =
  some (session keyId chaincode signersIds startIndex blocks record))
  (hkey : StoresKey S.keyPersistency keyId tenant metadata key s)
  (htenant : S.service.getCurrentTenantid = tenant)

include hdata hkey htenant

theorem returns_decommitR (hS : ServerContract S view)
    (hnew : (view s).commitments txid = none) {commitments : PlayerMap (List EddsaCommitment)}
    (hsize : signersIds.card = commitments.size + 1)
    (hmembers : ∀ i ∈ signersIds, S.service.isClientId i ∨ i ∈ commitments)
    (hblocks : ∀ c ∈ commitments.toList, c.2.length = blocks)
    (hown : commitments[S.service.getIdFromKeyid keyId]? = some ((List.range blocks).map fun j =>
      commitToR S.hash txid (j + startIndex) (S.service.getIdFromKeyid keyId)
        (record j).R.ed25519)) :
    Returns (decommitR S txid commitments) s fun Rs t =>
      Rs = (List.range blocks).map (fun j => (record j).R) ∧
        Leaves S.keyPersistency view ((view s).setCommitments txid (some commitments)) s t := by
  rw [decommitR]
  apply (hS.loadSigningData s txid _ hdata).bind
  intro data t ht
  obtain ⟨rfl, hkeys, hview⟩ := ht
  apply returns_verifyTenantId_bind (hkey.of_sameKeys hkeys) htenant
  apply returns_require_bind hsize
  apply returns_require_bind hmembers
  apply returns_require_bind fun c hc => (hblocks c hc).trans length_session.symm
  have hmem : S.service.getIdFromKeyid keyId ∈ commitments := by
    rw [← Std.ExtTreeMap.isSome_getElem?_iff_mem, hown]
    rfl
  apply returns_require_bind (Or.inr hmem)
  apply returns_require_bind
  · intro b hb
    obtain ⟨j, hj, rfl⟩ := List.mem_iff_getElem.1 hb
    have hown' : commitments.getD (S.service.getIdFromKeyid keyId) [] = (List.range blocks).map
        fun j => commitToR S.hash txid (j + startIndex) (S.service.getIdFromKeyid keyId)
          (record j).R.ed25519 := by
      rw [Std.ExtTreeMap.getD_eq_getD_getElem?, hown]
      rfl
    rw [verifyCommitToR_iff]
    simp only [session, hown', List.getElem_zipIdx, List.getElem_zip, List.getElem_map,
      List.getElem_range, Nat.zero_add]
  · apply (hS.storeCommitments t txid commitments (by rw [hview, hnew])).bind
    intro _ u hu
    apply returns_pure
    refine ⟨?_, hkeys.trans hu.1, by rw [hu.2, hview]⟩
    rw [session, List.map_map]
    rfl

theorem returns_broadcastR (hS : ServerContract S view)
    {commitments : PlayerMap (List EddsaCommitment)}
    (hcommitments : (view s).commitments txid = some commitments)
    {playersR : PlayerMap (List EllipticCurvePoint)}
    (hsize : signersIds.card = playersR.size + 1)
    (hmembers : ∀ i ∈ signersIds, S.service.isClientId i ∨ i ∈ playersR)
    (hblocks : ∀ r ∈ playersR.toList, r.2.length = blocks)
    {record' : ℕ → AsymmetricEddsaSignatureData}
    (haggregate : aggregatePlayers S.algebra S.hash txid startIndex
      (S.service.getIdFromKeyid keyId) playersR commitments.toList ((List.range blocks).map record) =
        .ok ((List.range blocks).map record')) :
    Returns (broadcastR S txid playersR) s fun out t =>
      let Rs := (List.range blocks).map fun j => (record' j).R
      out.Rs = ⟨Rs, commitToRs S.hash txid (S.service.getIdFromKeyid keyId) Rs⟩ ∧
        SameKeys S.keyPersistency s t ∧ (view t).signingData txid =
          some (session keyId chaincode signersIds startIndex blocks record') ∧
        (view t).preprocessed = (view s).preprocessed := by
  rw [broadcastR]
  apply (hS.loadSigningData s txid _ hdata).bind
  intro data t ht
  obtain ⟨rfl, hkeys, hview⟩ := ht
  apply returns_verifyTenantId_bind (hkey.of_sameKeys hkeys) htenant
  apply returns_require_bind hsize
  apply returns_require_bind hmembers
  apply returns_require_bind fun r hr => (hblocks r hr).trans length_session.symm
  apply (hS.loadCommitments t txid commitments (by rw [hview, hcommitments])).bind
  intro c u hu
  obtain ⟨rfl, hkeys', hview'⟩ := hu
  apply returns_ofExcept_bind haggregate
  apply (hS.deleteCommitments u txid).bind
  intro _ v hv
  apply (hS.storeSigningData v txid _ true (Or.inl rfl)).bind
  intro _ w hw
  apply returns_pure
  have hpoints : ((List.range blocks).map record').map (·.R) =
      (List.range blocks).map fun j => (record' j).R := List.map_map
  refine ⟨by rw [hpoints]; rfl, ?_, ?_, ?_⟩
  · exact hkeys.trans (hkeys'.trans (hv.1.trans hw.1))
  · rw [hw.2, ServerStore.signingData_setSigningData]
    rfl
  · rw [hw.2, hv.2, hview', hview]
    rfl

theorem returns_broadcastSi (hS : ServerContract S view) {sender version : ℕ}
    (hsender : sender ∈ signersIds) (hplayer : sender ∈ metadata.playersInfo)
    (hothers : signersIds.erase sender ≠ ∅) {partialSig : ℕ → EddsaSignature}
    {array : ConsumeOnceArray EddsaCommitment}
    (harray : (view s).preprocessed keyId = some array)
    (hopens : ∀ j < blocks, array.entry (startIndex + j) =
      some (commitToR S.hash keyId (j + startIndex) sender (partialSig j).R))
    {sig : ℕ → EddsaSignature} {record' : ℕ → AsymmetricEddsaSignatureData}
    (hsig : ∀ j < blocks, signBlock S.algebra S.hash metadata key chaincode signersIds.card
      (signersIds.card = 2)
      ((signersIds.erase sender).min = S.service.getIdFromKeyid keyId) (partialSig j) (record j) =
        .ok (sig j, record' j)) :
    Returns (broadcastSi S txid sender version ((List.range blocks).map partialSig)) s
      fun out t => out.sigs = (List.range blocks).map sig ∧ SameKeys S.keyPersistency s t ∧
        (signersIds.card ≠ 2 → (view t).signingData txid =
          some (session keyId chaincode signersIds startIndex blocks record')) := by
  rw [broadcastSi]
  apply (hS.loadSigningData s txid _ hdata).bind
  intro data t ht
  obtain ⟨rfl, hkeys, hview⟩ := ht
  have hkey' := hkey.of_sameKeys hkeys
  apply returns_verifyTenantId_bind hkey' htenant
  apply returns_require_bind hsender
  apply returns_require_bind
  · rw [length_session, List.length_map, List.length_range]
  apply returns_inspect_bind hkey'.metadata
  apply returns_require_bind hplayer
  apply returns_inspect_bind hkey'.key
  apply returns_require_bind rfl
  apply returns_require_bind hothers
  have hzip : ((List.range blocks).map partialSig).zip
      (session keyId chaincode signersIds startIndex blocks record).sigData =
        (List.range blocks).map fun j => (partialSig j, record j) := List.zip_map'
  have hloop := returns_mapM (s := t)
    (l := ((List.range blocks).map fun j => (partialSig j, record j)).zipIdx)
    (f := fun b => do
      let commitment ← S.signingPersistency.loadPreprocessedData keyId (startIndex + b.2)
      require (verifyCommitToR S.hash commitment keyId (b.2 + startIndex) sender b.1.1.R)
        invalidParameters
      ofExcept (signBlock S.algebra S.hash metadata key chaincode signersIds.card
        (signersIds.card = 2) ((signersIds.erase sender).min = S.service.getIdFromKeyid keyId)
          b.1.1 b.1.2))
    (fun done results u => results = done.map (fun b => (sig b.2, record' b.2)) ∧
      SameKeys S.keyPersistency t u ∧ ∃ array', (view u).preprocessed keyId = some array' ∧
        ∀ j, done.length ≤ j → array'.entry (startIndex + j) = array.entry (startIndex + j))
    ⟨rfl, SameKeys.refl _ _, array, by rw [hview, harray], fun _ _ => rfl⟩
    (by
      intro done b rest results u hl hI
      obtain ⟨rfl, hkeys', array', harray', hentries⟩ := hI
      obtain ⟨hb, hindex⟩ := getElem?_of_zipIdx_eq hl
      obtain ⟨hlt, hb⟩ := List.getElem?_eq_some_iff.1 hb
      rw [List.length_map, List.length_range] at hlt
      rw [List.getElem_map, List.getElem_range] at hb
      have hentry := hopens done.length hlt
      rw [← hentries _ le_rfl] at hentry
      rw [hindex, ← hb]
      apply (hS.loadPreprocessedData u keyId array' _ _ _ harray' (load_eq_some hentry)).bind
      intro c v hv
      obtain ⟨rfl, hkeys'', hview''⟩ := hv
      apply returns_require_bind ((verifyCommitToR_iff S.hash).2 rfl)
      refine ⟨_, v, run_ofExcept_ok_iff.2 ⟨hsig _ hlt, rfl⟩, ?_, hkeys'.trans hkeys'', _,
        by rw [hview'', ServerStore.preprocessed_setPreprocessed], fun j hj => ?_⟩
      · rw [List.map_append, List.map_singleton, hindex]
      · rw [List.length_append, List.length_singleton] at hj
        rw [ConsumeOnceArray.entry_assign _ (Or.inr rfl), if_neg (by omega),
          hentries j (by omega)])
  have hblocks : Returns (signBlocks S (session keyId chaincode signersIds startIndex blocks record)
      sender metadata key (signersIds.card = 2)
      ((signersIds.erase sender).min = S.service.getIdFromKeyid keyId)
      ((List.range blocks).map partialSig)) t fun results u =>
        results = (List.range blocks).map (fun j => (sig j, record' j)) ∧
          SameKeys S.keyPersistency t u := by
    rw [signBlocks, hzip]
    apply hloop.imp
    intro results u hu
    obtain ⟨rfl, hkeys', -⟩ := hu
    refine ⟨?_, hkeys'⟩
    rw [map_index_zipIdx _ fun j => (sig j, record' j), List.length_map, List.length_range]
  apply hblocks.bind
  intro results u hu
  obtain ⟨rfl, hkeys'⟩ := hu
  have hsigs : ((List.range blocks).map fun j => (sig j, record' j)).map Prod.fst =
      (List.range blocks).map sig := List.map_map
  by_cases hcard : signersIds.card = 2
  · have hdelete := hS.deleteTemporarySigningData u txid
    simp only [session, hcard, decide_true, if_true]
    apply hdelete.bind
    intro _ v hv
    exact returns_pure ⟨hsigs, hkeys.trans (hkeys'.trans hv.1), fun hne => absurd rfl hne⟩
  · have hstore := hS.storeSigningData u txid
      (session keyId chaincode signersIds startIndex blocks record') true (Or.inl rfl)
    simp only [session, hcard, decide_false, Bool.false_eq_true, if_false, List.map_map]
    simp only [session] at hstore
    apply Returns.bind hstore
    intro _ v hv
    refine returns_pure ⟨rfl, hkeys.trans (hkeys'.trans hv.1), fun _ => ?_⟩
    rw [hv.2, ServerStore.signingData_setSigningData]

theorem returns_getEddsaSignature (hS : ServerContract S view)
    {partialSigs : PlayerMap (List EddsaSignature)}
    (hsize : signersIds.card = partialSigs.size + 1)
    (hmembers : ∀ i ∈ signersIds, S.service.isClientId i ∨
      (i ∈ partialSigs ∧ (partialSigs.getD i []).length = blocks))
    {sig : ℕ → EddsaSignature} (hsig : ∀ j < blocks, finalizeBlock S.algebra S.hash metadata
      chaincode partialSigs (record j) j = .ok (sig j)) :
    Returns (getEddsaSignature S txid partialSigs) s fun sigs t =>
      sigs = (List.range blocks).map sig ∧ SameKeys S.keyPersistency s t := by
  rw [getEddsaSignature]
  apply (hS.loadSigningData s txid _ hdata).bind
  intro data t ht
  obtain ⟨rfl, hkeys, hview⟩ := ht
  have hkey' := hkey.of_sameKeys hkeys
  apply returns_verifyTenantId_bind hkey' htenant
  apply returns_require_bind hsize
  apply returns_require_bind
  · intro i hi
    rw [length_session]
    exact hmembers i hi
  apply returns_inspect_bind hkey'.metadata
  have hsigs : (session keyId chaincode signersIds startIndex blocks record).sigData.zipIdx.mapM
      (fun d => finalizeBlock S.algebra S.hash metadata chaincode partialSigs d.1 d.2) =
        .ok ((List.range blocks).map sig) := by
    have hzip : (session keyId chaincode signersIds startIndex blocks record).sigData.zipIdx =
        (List.range blocks).map fun j => (record j, j) := by
      apply List.ext_getElem?
      intro j
      by_cases hj : j < blocks
      · simp [session, List.getElem?_zipIdx, List.getElem?_range hj]
      · have hnone : (List.range blocks)[j]? = none :=
          List.getElem?_eq_none (by rw [List.length_range]; omega)
        simp [session, List.getElem?_zipIdx, hnone]
    rw [hzip, List.mapM_map]
    exact except_mapM_eq_ok fun j hj => hsig j (List.mem_range.1 hj)
  apply returns_ofExcept_bind hsigs
  apply (hS.deleteTemporarySigningData t txid).bind
  intro _ u hu
  exact returns_pure ⟨rfl, hkeys.trans hu.1⟩

end Signing

end MpcDemo.ContractServer
