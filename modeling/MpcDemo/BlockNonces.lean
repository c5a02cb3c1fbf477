import MpcDemo.ServerCalls

/-!
# The nonces of the blocks of one request

`eddsa_sign_offline` declares the status of the last draw outside its block loop, so only the
first block draws. The nonces of a request come from separate draws exactly when the request has
one block.
-/

namespace MpcDemo.BlockNonces
open ByteStrings Ed25519Algebra CosignerTypes FallibleState Persistencies NodeState
open AsymmetricEddsaCosignerServer ServerOperationLaws ServerCalls CallHistories

/-- Between two states of a node a record of some blocks was stored, and the nonce of each block
was drawn successfully meanwhile, by a draw of its own. -/
def FreshNonces (host : Host) (s t : Node) (txid : ByteString) (blocks : ℕ) : Prop :=
  ∃ data, t.server.signingData txid = some data ∧ data.sigData.length = blocks ∧
    (data.sigData.map (·.k.draw)).Nodup ∧
    ∀ d ∈ data.sigData, s.draws ≤ d.k.draw ∧ d.k.draw < t.draws ∧
      ∃ v, host.tape.rand d.k.draw = .ok v ∧ d.k.value = leBytes 32 v.val

variable {host : Host} {s t : Node} {keyId txid metadataJson : ByteString} {data : SigningData}
variable {players : Finset ByteString} {playersIds : Finset ℕ} {index : ℕ}
variable {out : SignOfflineOutput}

/-- All blocks of a request are signed under one and the same draw. -/
theorem nonces_of_signOffline
    (h : (eddsaSignOffline host.server keyId txid data metadataJson players playersIds index).run
      s = .ok out t) (hblocks : data.blocks ≠ []) :
    ∃ record k, t.server.signingData txid = some record ∧
      firstSuccess host.tape 1024 s.draws = some k ∧ t.draws = k.draw + 1 ∧
      record.sigData.length = data.blocks.length ∧
      ∀ d ∈ record.sigData, d.k = ⟨k.draw, swapBytes k.value⟩ := by
  obtain ⟨metadata, sigData, n, -, hdrawn, -, rfl⟩ := eddsaSignOffline_ok_iff.1 h
  rw [drawnRecords, if_neg hblocks] at hdrawn
  cases hk : firstSuccess host.tape 1024 s.draws with
  | none =>
    rw [hk] at hdrawn
    cases hdrawn
  | some k =>
    rw [hk] at hdrawn
    cases hdrawn
    refine ⟨_, k, MockServerPersistency.signingData_storeSigningData _ _ _ false, rfl, rfl, ?_, ?_⟩
    · rw [signingRecord, List.length_mapIdx, List.length_map]
    · intro d hd
      obtain ⟨i, hi, rfl⟩ := List.mem_mapIdx.1 hd
      simp only [List.getElem_map, blockRecord]

/-- A successful request of at least one block has fresh nonces exactly when it has one block. -/
theorem freshNonces_iff
    (h : (eddsaSignOffline host.server keyId txid data metadataJson players playersIds index).run
      s = .ok out t) (hblocks : 1 ≤ data.blocks.length) :
    FreshNonces host s t txid data.blocks.length ↔ data.blocks.length = 1 := by
  have hne : data.blocks ≠ [] := List.ne_nil_of_length_pos hblocks
  obtain ⟨record, k, hrecord, hk, hdraws, hlength, hnonces⟩ := nonces_of_signOffline h hne
  have hmap : record.sigData.map (·.k.draw) = List.replicate data.blocks.length k.draw := by
    rw [List.eq_replicate_iff, List.length_map]
    refine ⟨hlength, fun draw hdraw => ?_⟩
    obtain ⟨d, hd, rfl⟩ := List.mem_map.1 hdraw
    rw [hnonces d hd]
  constructor
  · intro hfresh
    obtain ⟨record', hrecord', -, hnodup, -⟩ := hfresh
    obtain rfl := Option.some.inj (hrecord.symm.trans hrecord')
    rw [hmap, List.nodup_replicate] at hnodup
    omega
  · intro hone
    obtain ⟨hle, -, v, hv, hvalue⟩ := firstSuccess_eq_some hk
    refine ⟨record, hrecord, hlength, ?_, fun d hd => ?_⟩
    · rw [hmap, List.nodup_replicate]
      omega
    · rw [hnonces d hd]
      refine ⟨hle, ?_, v, hv, ?_⟩
      · rw [hdraws]
        exact Nat.lt_succ_self _
      · rw [hvalue, swapBytes_beBytes]

section Concrete

/-- Server 2 after keygen is asked to sign some messages. -/
def concreteRequest (messages : List ByteString) : EStateM Failure Node SignOfflineOutput :=
  eddsaSignOffline (concreteHost 2).server configKeyId [0]
    ⟨zeroBytes 32, messages.map fun message => ⟨message, []⟩⟩ [] ∅ {1, 2, 3} 0

theorem exists_concreteRequest (messages : List ByteString)
    (hlength : messages.length ≤ maxBlocksToSign) :
    ∃ out t, (concreteRequest messages).run concreteNode = .ok out t := by
  obtain ⟨sigData, n, hdrawn⟩ : ∃ sigData n, drawnRecords (concreteHost 2)
      (messages.map fun message => ⟨message, []⟩) concreteNode.draws = some (sigData, n) := by
    rw [drawnRecords]
    by_cases hnil : (messages.map fun message => (⟨message, []⟩ : SigningBlockData)) = []
    · exact ⟨_, _, if_pos hnil⟩
    · exact ⟨_, _, if_neg hnil⟩
  refine ⟨_, _, eddsaSignOffline_ok_iff.2 ⟨concreteMetadata, sigData, n, ?_, hdrawn, rfl, rfl⟩⟩
  exact ⟨rfl, InMemoryKeyPersistency.metas_storeKeyMetadata _ _ _ true, rfl, rfl, by decide,
    by decide +kernel, rfl, by
      rw [List.length_map]
      exact hlength⟩

/-- Two blocks of one request share their nonce. -/
theorem freshNonces_fails : ∃ out t, (concreteRequest [[1], [2]]).run concreteNode = .ok out t ∧
    ¬ FreshNonces (concreteHost 2) concreteNode t [0] 2 := by
  obtain ⟨out, t, h⟩ := exists_concreteRequest [[1], [2]] (by decide)
  refine ⟨out, t, h, fun hfresh => ?_⟩
  obtain ⟨record, k, hrecord, -, -, hlength, hnonces⟩ :=
    nonces_of_signOffline h (List.cons_ne_nil _ _)
  obtain ⟨record', hrecord', -, hnodup, -⟩ := hfresh
  obtain rfl := Option.some.inj (hrecord.symm.trans hrecord')
  obtain ⟨d₁, d₂, hd⟩ : ∃ d₁ d₂, record.sigData = [d₁, d₂] := List.length_eq_two.1 hlength
  rw [hd, List.map_cons, List.map_cons, hnonces d₁ (by rw [hd]; exact List.mem_cons_self),
    hnonces d₂ (by rw [hd]; exact List.mem_cons_of_mem _ List.mem_cons_self)] at hnodup
  exact (List.nodup_cons.1 hnodup).1 List.mem_cons_self

/-- A request of one block draws its nonce. -/
theorem freshNonces_iff_concreteRequest : ∃ out t,
    (concreteRequest [[1]]).run concreteNode = .ok out t ∧
      (FreshNonces (concreteHost 2) concreteNode t [0] [([1] : ByteString)].length ↔
        [([1] : ByteString)].length = 1) := by
  obtain ⟨out, t, h⟩ := exists_concreteRequest [[1]] (by decide)
  exact ⟨out, t, h, freshNonces_iff h le_rfl⟩

end Concrete

end MpcDemo.BlockNonces
