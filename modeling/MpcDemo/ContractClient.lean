import MpcDemo.InterfaceContracts

/-!
# The client over a persistency that meets its contract

Preprocessing stores a nonce for every index of its range and returns the commitments, and
signing consumes the nonces of its blocks.
-/

namespace MpcDemo.ContractClient
open ByteStrings Ed25519Algebra CosignerTypes AsymmetricEddsaCosigner FallibleState TotalRuns
open PreprocessingContract InterfaceContracts AsymmetricEddsaCosignerClient

section Lists

theorem getElem?_of_zipIdx_eq {α : Type} {l : List α} {done rest : List (α × ℕ)} {a : α × ℕ}
    (h : l.zipIdx = done ++ a :: rest) : l[done.length]? = some a.1 ∧ a.2 = done.length := by
  have helem := congrArg (fun m : List (α × ℕ) => m[done.length]?) h
  simp only [List.getElem?_zipIdx, List.getElem?_append_right le_rfl, Nat.sub_self,
    List.getElem?_cons_zero] at helem
  obtain ⟨b, hb, heq⟩ := Option.map_eq_some_iff.1 helem
  obtain ⟨rfl, hindex⟩ := Prod.mk.inj heq
  exact ⟨hb, by omega⟩

theorem map_index_zipIdx {α β : Type} (l : List α) (f : ℕ → β) :
    l.zipIdx.map (fun b => f b.2) = (List.range l.length).map f := by
  rw [List.range_eq_range', ← List.zipIdx_map_snd 0 l, List.map_map]
  rfl

end Lists

section Arrays
variable {α : Type} {array : ConsumeOnceArray α} {index : ℕ} {value : α}

theorem store_eq_some (h : index < array.size) (value : α) :
    array.store index value = some (array.assign index (some value)) := if_pos h

theorem load_eq_some (h : array.entry index = some value) :
    array.load index = some (value, array.assign index none) := by
  rw [ConsumeOnceArray.load, h]
  rfl

end Arrays

variable {τ : Type} {C : Client τ} {view : τ → ClientStore} {keyId tenant : ByteString}
variable {metadata : CmpKeyMetadata} {key : Ed25519Scalar} {s : τ}

/-- The commitment to the nonce of an index. -/
def nonceCommitment (C : Client τ) (keyId : ByteString) (index : ℕ) (k : DrawnScalar) :
    EddsaCommitment :=
  commitToR C.hash keyId index (C.service.getIdFromKeyid keyId)
    (C.algebra.encode (beValue k.value.val • C.algebra.base))

/-- The array holds nonces for some consecutive indices, and these are their commitments. -/
def HoldsNonces (C : Client τ) (keyId : ByteString) (array : ConsumeOnceArray DrawnScalar)
    (index : ℕ) (RCommitments : List EddsaCommitment) : Prop :=
  ∀ i < RCommitments.length, ∃ k, array.entry (index + i) = some k ∧
    beValue k.value.val < order ∧ RCommitments[i]? = some (nonceCommitment C keyId (index + i) k)

theorem returns_preprocessNonces (hC : ClientContract C view) {index count : ℕ}
    {array : ConsumeOnceArray DrawnScalar} (harray : view s keyId = some array)
    (hrange : index + count ≤ array.size) :
    Returns (preprocessNonces C keyId (C.service.getIdFromKeyid keyId) index count) s
      fun RCommitments t => RCommitments.length = count ∧ ∃ array',
        Leaves C.keyPersistency view (Function.update (view s) keyId (some array')) s t ∧
        (∀ j < index, array'.entry j = array.entry j) ∧
        HoldsNonces C keyId array' index RCommitments := by
  induction count generalizing s index array with
  | zero =>
    apply returns_pure
    refine ⟨rfl, array, ⟨SameKeys.refl _ _, ?_⟩, fun _ _ => rfl, fun i hi => ?_⟩
    · rw [← harray, Function.update_eq_self]
    · exact absurd hi (Nat.not_lt_zero i)
  | succ count ih =>
    rw [preprocessNonces]
    apply (hC.rand s).bind
    intro r t hr
    obtain ⟨⟨k, rfl, hk⟩, hkeys, hview⟩ := hr
    apply returns_ofExcept_bind (throwCosignerException_ok k)
    have hpoint : throwCosignerException (ed25519AlgebraGeneratorMul C.algebra k.value) =
        .ok (C.algebra.encode (beValue k.value.val • C.algebra.base)) := by
      rw [ed25519AlgebraGeneratorMul_of_lt hk, throwCosignerException_ok]
    apply returns_ofExcept_bind hpoint
    have hstored := store_eq_some (show index < array.size by omega) k
    apply (hC.storePreprocessedData t keyId array index k _ (by rw [hview, harray]) hstored).bind
    intro _ u hu
    obtain ⟨hkeys', hview'⟩ := hu
    have harray' : view u keyId = some (array.assign index (some k)) := by
      rw [hview', Function.update_self]
    apply (ih harray' (by rw [ConsumeOnceArray.size_assign]; omega)).bind
    intro RCommitments v hv
    obtain ⟨hlength, array', ⟨hkeys'', hview''⟩, hbelow, hholds⟩ := hv
    apply returns_pure
    refine ⟨by rw [List.length_cons, hlength], array', ⟨?_, ?_⟩, fun j hj => ?_, fun i hi => ?_⟩
    · exact hkeys.trans (hkeys'.trans hkeys'')
    · rw [hview'', hview', hview, Function.update_idem]
    · rw [hbelow j (by omega), ConsumeOnceArray.entry_assign _ (Or.inl (by omega)),
        if_neg (by omega)]
    · cases i with
      | zero =>
        refine ⟨k, ?_, hk, rfl⟩
        rw [hbelow (index + 0) (by omega), ConsumeOnceArray.entry_assign _ (Or.inl (by omega)),
          if_pos (Nat.add_zero index)]
      | succ i =>
        rw [List.length_cons] at hi
        have hindex : index + (i + 1) = index + 1 + i := by omega
        rw [List.getElem?_cons_succ, hindex]
        exact hholds i (by omega)

theorem returns_startSignaturePreprocessing (hC : ClientContract C view)
    (hkey : StoresKey C.keyPersistency keyId tenant metadata key s)
    (halgorithm : metadata.algorithm = .eddsaEd25519) {playersIds : Finset ℕ}
    (hsize : metadata.playersInfo.size = playersIds.card)
    (hmembers : ∀ i ∈ playersIds, i ∈ metadata.playersInfo) (hnew : view s keyId = none)
    {requestId : ByteString} {startIndex count totalCount : ℕ}
    (hrange : startIndex + count ≤ totalCount) :
    Returns (startSignaturePreprocessing C tenant keyId requestId startIndex count totalCount
        playersIds) s fun RCommitments t => RCommitments.length = count ∧
      SameKeys C.keyPersistency s t ∧ ∃ array, view t keyId = some array ∧
        HoldsNonces C keyId array startIndex RCommitments := by
  rw [startSignaturePreprocessing]
  apply returns_inspect_bind rfl
  apply returns_require_bind hkey.tenant.symm
  apply returns_inspect_bind hkey.metadata
  apply returns_require_bind halgorithm
  apply returns_require_bind hsize
  apply returns_require_bind hmembers
  apply (hC.createPreprocessedData s keyId totalCount hnew).bind
  intro _ t ht
  obtain ⟨hkeys, hview⟩ := ht
  have harray : view t keyId = some (.create totalCount) := by rw [hview, Function.update_self]
  apply (returns_preprocessNonces hC harray hrange).imp
  intro RCommitments u hu
  obtain ⟨hlength, array', ⟨hkeys', hview'⟩, -, hholds⟩ := hu
  refine ⟨hlength, hkeys.trans hkeys', array', ?_, hholds⟩
  rw [hview', Function.update_self]

/-- The client signs block by block with the nonces of consecutive indices, which are gone
afterwards. -/
theorem returns_eddsaSignOffline (hC : ClientContract C view)
    (hkey : StoresKey C.keyPersistency keyId tenant metadata key s)
    (htenant : C.service.getCurrentTenantid = tenant)
    (halgorithm : metadata.algorithm = .eddsaEd25519) {playersIds : Finset ℕ}
    (hsize : playersIds.card = metadata.n) (htwo : 2 ≤ playersIds.card)
    (hmembers : ∀ i ∈ playersIds, i ∈ metadata.playersInfo) {txid : ByteString}
    {data : SigningData} (hblocks : data.blocks.length ≤ maxBlocksToSign)
    {Rs : PlayerMap RsAndCommitments} (hservers : (Rs.size : ℤ) = metadata.t - 1)
    {points : List EllipticCurvePoint} (hpoints : points.length = data.blocks.length)
    (hne : Rs.toList ≠ [])
    (haccepts : ∀ r ∈ Rs.toList, r.1 ≠ C.service.getIdFromKeyid keyId ∧
      r.1 ∈ metadata.playersInfo ∧ r.2 = ⟨points, commitToRs C.hash txid r.1 points⟩)
    {metadataJson : ByteString} {players : Finset ByteString} {index : ℕ}
    {array : ConsumeOnceArray DrawnScalar} (harray : view s keyId = some array)
    {nonce : ℕ → DrawnScalar} {sig : ℕ → PartialSignature}
    (hsig : ∀ (j : ℕ) block R, data.blocks[j]? = some block → points[j]? = some R →
      array.entry (index + j) = some (nonce j) ∧
        signBlock C.algebra C.hash metadata key data.chaincode playersIds.card
          (C.service.fillSigningInfoFromMetadata metadataJson j) block (nonce j) R = .ok (sig j)) :
    Returns (eddsaSignOffline C keyId txid data metadataJson players playersIds index Rs) s
      fun sigs t => sigs = (List.range data.blocks.length).map sig ∧
        SameKeys C.keyPersistency s t := by
  have hfirst : (Rs.toList.head?.map fun r => r.2.Rs).getD [] = points := by
    obtain ⟨r, rest, hRs⟩ := List.exists_cons_of_ne_nil hne
    have hr := (haccepts r (by rw [hRs]; exact List.mem_cons_self)).2.2
    rw [hRs, List.head?_cons, Option.map_some, Option.getD_some, hr]
  rw [eddsaSignOffline]
  apply returns_verifyTenantId_bind hkey htenant
  apply returns_inspect_bind hkey.metadata
  apply returns_require_bind hsize
  apply returns_require_bind htwo
  apply returns_require_bind hmembers
  apply returns_require_bind hservers
  apply returns_require_bind hblocks
  apply returns_require_bind fun r hr => ?_
  · apply returns_inspect_bind hkey.key
    apply returns_require_bind ⟨rfl, halgorithm⟩
    apply returns_require_bind hne
    simp only [hfirst]
    have hloop := returns_mapM (s := s) (l := (points.zip data.blocks).zipIdx)
      (f := fun b => do
        let k ← C.preprocessingPersistency.loadPreprocessedData keyId (index + b.2)
        ofExcept (signBlock C.algebra C.hash metadata key data.chaincode playersIds.card
          (C.service.fillSigningInfoFromMetadata metadataJson b.2) b.1.2 k b.1.1))
      (fun done sigs t => sigs = done.map (fun b => sig b.2) ∧ SameKeys C.keyPersistency s t ∧
        ∃ array', view t keyId = some array' ∧
          ∀ j, done.length ≤ j → array'.entry (index + j) = array.entry (index + j))
      ⟨rfl, SameKeys.refl _ _, array, harray, fun _ _ => rfl⟩
      (by
        intro done b rest sigs t hl hI
        obtain ⟨rfl, hkeys, array', harray', hentries⟩ := hI
        obtain ⟨hb, hindex⟩ := getElem?_of_zipIdx_eq hl
        rw [List.getElem?_zip_eq_some] at hb
        obtain ⟨hentry, hsign⟩ := hsig _ _ _ hb.2 hb.1
        rw [← hentries _ le_rfl] at hentry
        rw [hindex]
        apply (hC.loadPreprocessedData t keyId array' _ _ _ harray' (load_eq_some hentry)).bind
        intro k u hu
        obtain ⟨rfl, hkeys', hview'⟩ := hu
        refine ⟨_, u, run_ofExcept_ok_iff.2 ⟨hsign, rfl⟩, ?_, hkeys.trans hkeys', _,
          by rw [hview', Function.update_self], fun j hj => ?_⟩
        · rw [List.map_append, List.map_singleton, hindex]
        · rw [List.length_append, List.length_singleton] at hj
          rw [ConsumeOnceArray.entry_assign _ (Or.inr rfl), if_neg (by omega),
            hentries j (by omega)])
    apply hloop.imp
    intro sigs t h
    obtain ⟨rfl, hkeys, -⟩ := h
    refine ⟨?_, hkeys⟩
    rw [map_index_zipIdx, List.length_zip, hpoints, min_self]
  · obtain ⟨hid, hplayer, hr⟩ := haccepts r hr
    have hRs : r.2.Rs = points := by rw [hr]
    have hcommitment : r.2.RCommitment = commitToRs C.hash txid r.1 points := by rw [hr]
    refine ⟨hid, hplayer, ?_, hRs.trans hfirst.symm, ?_⟩
    · rw [hRs, hpoints]
    · rw [hRs, hcommitment]

section Sizes

/-- The size of a signed message is not a multiple of those that the hash can take. -/
theorem size_of_signBlock {E : Ed25519} {H : HashFunctions} {metadata : CmpKeyMetadata}
    {key : Ed25519Scalar} {chaincode : HDChaincode} {signers flags : ℕ} {block : SigningBlockData}
    {k : DrawnScalar} {serversR : EllipticCurvePoint} {sig : PartialSignature}
    (h : signBlock E H metadata key chaincode signers flags block k serversR = .ok sig) :
    block.data.length % 2 ^ 32 ≠ 0 := by
  simp only [signBlock, except_bind_ok_iff] at h
  obtain ⟨_, _, _, _, _, _, _, hhram, _⟩ := h
  intro hsize
  rw [ed25519CalcHram, hsize, List.take_zero, if_pos rfl] at hhram
  cases hhram

theorem size_of_eddsaSignOffline {C : Client σ} {keyId txid metadataJson : ByteString}
    {data : SigningData} {players : Finset ByteString} {playersIds : Finset ℕ} {index : ℕ}
    {Rs : PlayerMap RsAndCommitments} {s t : σ} {sigs : List PartialSignature}
    (h : (eddsaSignOffline C keyId txid data metadataJson players playersIds index Rs).run s =
      .ok sigs t) {block : SigningBlockData} {rest : List SigningBlockData}
    (hblocks : data.blocks = block :: rest) : block.data.length % 2 ^ 32 ≠ 0 := by
  simp only [eddsaSignOffline, run_bind_ok_iff, run_require_ok_iff] at h
  obtain ⟨_, _, _, metadata, _, _, _, _, _, _, _, _, _, _, _, _, _, _, _, _, _, _, _, ⟨hRs, _⟩, _, _,
    _, _, _, _, _, _, ⟨hne, _⟩, hloop⟩ := h
  obtain ⟨r, others, hr⟩ := List.exists_cons_of_ne_nil hne
  obtain ⟨-, -, hlength, hfirst, -⟩ := hRs r (hr ▸ List.mem_cons_self)
  rw [← hfirst, hblocks] at hloop
  rw [hblocks] at hlength
  obtain ⟨R, Rs', hR⟩ := List.exists_cons_of_length_eq_add_one hlength
  rw [hR, List.zip_cons_cons, List.zipIdx_cons, run_mapM_cons_ok_iff] at hloop
  obtain ⟨sig, _, _, hsig, -⟩ := hloop
  obtain ⟨k, _, -, hsig⟩ := run_bind_ok_iff.1 hsig
  exact size_of_signBlock (run_ofExcept_ok_iff.1 hsig).1

end Sizes

end MpcDemo.ContractClient
