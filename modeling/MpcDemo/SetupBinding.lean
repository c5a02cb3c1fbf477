import MpcDemo.KeySetupSteps

/-!
# What commitments to shares bind

A commitment binds the seed and the points of a decommitment, and an ack binds the commitments that
were seen, up to two different texts with one SHA-256 hash.
-/

namespace MpcDemo.SetupBinding
open ByteStrings Ed25519Algebra CosignerTypes FallibleState NodePrograms
open SetupService (commitmentHash ackMessage update)
open SetupServiceLaws KeySetup KeySetupLaws KeySetupSteps

variable {A : AuxiliaryScheme} {H : HashFunctions} {keyId : ByteString}

section Hashing
variable {salt : Bytes 32} {id : ℕ} {d d' : SetupDecommitment}

/-- What is hashed of a text: its length is a 32-bit argument. -/
def hashedPart (data : ByteString) : ByteString := data.take (data.length % 2 ^ 32)

/-- The text behind a commitment. -/
def openingText (keyId : ByteString) (id : ℕ) (salt : Bytes 32) (d : SetupDecommitment) :
    ByteString :=
  salt.val ++ (hashedPart keyId ++ (leList 8 id ++ (d.seed.val ++ (d.share.X.val ++
    (d.share.schnorrR.val ++ (hashedPart d.paillierPublicKey ++
      hashedPart d.ringPedersenPublicKey))))))

theorem update_ok_iff {input data out : ByteString} :
    update input data = .ok out ↔ hashedPart data ≠ [] ∧ out = input ++ hashedPart data := by
  change (if hashedPart data = [] then .error SetupService.invalidParameters
    else .ok (input ++ hashedPart data) : Except Failure ByteString) = _ ↔ _
  by_cases h : hashedPart data = []
  · simp [h]
  · simp [h, eq_comm]

theorem hashedPart_bytes {n : ℕ} (b : Bytes n) (hn : n < 2 ^ 32) : hashedPart b.val = b.val := by
  rw [hashedPart, Nat.mod_eq_of_lt (b.2.trans_lt hn), List.take_length]

theorem hash_openingText {hash : Bytes 32} (h : commitmentHash H salt keyId id d = .ok hash) :
    hash = H.sha256 (openingText keyId id salt d) := by
  have hid : hashedPart (leList 8 id) = leList 8 id := hashedPart_bytes (leBytes 8 id) (by decide)
  simp only [commitmentHash, except_bind_ok_iff, update_ok_iff, hid,
    hashedPart_bytes d.seed (by decide), hashedPart_bytes d.share.X (by decide),
    hashedPart_bytes d.share.schnorrR (by decide)] at h
  obtain ⟨_, ⟨-, rfl⟩, _, ⟨-, rfl⟩, _, ⟨-, rfl⟩, _, ⟨-, rfl⟩, _, ⟨-, rfl⟩, _, ⟨-, rfl⟩, _,
    ⟨-, rfl⟩, h⟩ := h
  rw [← Except.ok.inj h, openingText]
  simp only [List.append_assoc]

/-- What a commitment binds. The two public keys behind the points are hashed without a mark
between them, so only their concatenation is bound. -/
structure SameShare (d d' : SetupDecommitment) : Prop where
  seed : d.seed = d'.seed
  X : d.share.X = d'.share.X
  schnorrR : d.share.schnorrR = d'.share.schnorrR

theorem sameShare_of_openingText
    (h : openingText keyId id salt d = openingText keyId id salt d') : SameShare d d' := by
  have h := List.append_cancel_left (List.append_cancel_left (List.append_cancel_left h))
  obtain ⟨hseed, h⟩ := List.append_inj h (by rw [d.seed.2, d'.seed.2])
  obtain ⟨hX, h⟩ := List.append_inj h (by rw [d.share.X.2, d'.share.X.2])
  obtain ⟨hR, -⟩ := List.append_inj h (by rw [d.share.schnorrR.2, d'.share.schnorrR.2])
  exact ⟨Subtype.ext hseed, Subtype.ext hX, Subtype.ext hR⟩

end Hashing

section Openings
variable {C : PlayerMap Commitment} {D D' : PlayerMap SetupDecommitment}
variable {info info' : PlayerMap (PlayerInfo A)}

theorem exists_getElem? {V : Type} {m : PlayerMap V} {i : ℕ} (h : i ∈ m) :
    ∃ v, m[i]? = some v := by
  rw [← Std.ExtTreeMap.isSome_getElem?_iff_mem] at h
  exact Option.isSome_iff_exists.1 h

theorem mem_of_getElem? {V : Type} {m : PlayerMap V} {i : ℕ} {v : V} (h : m[i]? = some v) :
    i ∈ m := by
  rw [← Std.ExtTreeMap.isSome_getElem?_iff_mem, h]
  rfl

/-- Some decommitments open some commitments. -/
structure Opened (H : HashFunctions) (keyId : ByteString) (C : PlayerMap Commitment)
    (D : PlayerMap SetupDecommitment) : Prop where
  members : ∀ i, i ∈ D ↔ i ∈ C
  opens : ∀ (i : ℕ) c d, C[i]? = some c → D[i]? = some d →
    H.sha256 (openingText keyId i c.salt d) = c.commitment
  acks : ∀ (i : ℕ) d, D[i]? = some d → d.ack = ackMessage H C

/-- What is known of the players once decommitments have been loaded. -/
structure Loaded (C : PlayerMap Commitment) (D : PlayerMap SetupDecommitment)
    (info info' : PlayerMap (PlayerInfo A)) : Prop where
  shares : ∀ (i : ℕ) d, D[i]? = some d → (info'[i]?).map (·.publicShare) = some d.share.X
  others : ∀ i : ℕ, i ∉ C → info'[i]? = info[i]?

theorem opened_of_load (h : verifyAndLoadSetupDecommitments H keyId C D info = .ok info') :
    Opened H keyId C D ∧ Loaded C D info info' := by
  rw [verifyAndLoadSetupDecommitments] at h
  split at h
  · cases h
  · rename_i hsize
    obtain ⟨hloaded, hothers⟩ := loadDecommitments_ok h (nodup_keys _)
    have hdecommits : ∀ (i : ℕ) c, C[i]? = some c → ∃ d aux,
        Decommits (A := A) H keyId (ackMessage H C) D (i, c) d aux ∧ i ∈ info ∧
          info'[i]? = some (infoOf d aux) :=
      fun i c hc => hloaded (i, c) (Std.ExtTreeMap.mem_toList_iff_getElem?_eq_some.2 hc)
    have hmembers : ∀ i, i ∈ D ↔ i ∈ C := by
      refine mem_iff_of_size (not_not.1 hsize) fun i hi => ?_
      obtain ⟨c, hc⟩ := exists_getElem? (Std.ExtTreeMap.mem_keys.1 hi)
      obtain ⟨d, aux, hd, -⟩ := hdecommits i c hc
      exact mem_of_getElem? hd.decommitment
    have hmatch : ∀ (i : ℕ) d, D[i]? = some d → ∃ c aux, C[i]? = some c ∧
        Decommits (A := A) H keyId (ackMessage H C) D (i, c) d aux ∧
          info'[i]? = some (infoOf d aux) := by
      intro i d hd
      obtain ⟨c, hc⟩ := exists_getElem? ((hmembers i).1 (mem_of_getElem? hd))
      obtain ⟨d', aux, hd', -, hinfo⟩ := hdecommits i c hc
      obtain rfl := Option.some.inj (hd'.decommitment.symm.trans hd)
      exact ⟨c, aux, hc, hd', hinfo⟩
    refine ⟨⟨hmembers, fun i c d hc hd => ?_, fun i d hd => ?_⟩, fun i d hd => ?_, fun i hi => ?_⟩
    · obtain ⟨c', aux, hc', hd', -⟩ := hmatch i d hd
      obtain rfl := Option.some.inj (hc'.symm.trans hc)
      exact (hash_openingText hd'.opens).symm
    · obtain ⟨c, aux, -, hd', -⟩ := hmatch i d hd
      exact hd'.ack
    · obtain ⟨c, aux, -, -, hinfo⟩ := hmatch i d hd
      rw [hinfo]
      rfl
    · apply hothers
      intro hmem
      obtain ⟨c, hc, rfl⟩ := List.mem_map.1 hmem
      exact hi (mem_of_getElem? (Std.ExtTreeMap.mem_toList_iff_getElem?_eq_some.1 hc))

/-- A commitment is opened by two texts with one hash. -/
def OpenedTwice (H : HashFunctions) (keyId : ByteString) (C : PlayerMap Commitment)
    (D D' : PlayerMap SetupDecommitment) : Prop :=
  ∃ (i : ℕ) (c : Commitment) (d d' : SetupDecommitment), C[i]? = some c ∧
    D[i]? = some d ∧ D'[i]? = some d' ∧
    openingText keyId i c.salt d ≠ openingText keyId i c.salt d' ∧
    H.sha256 (openingText keyId i c.salt d) = H.sha256 (openingText keyId i c.salt d')

theorem sameShares_of_opened (h : Opened H keyId C D) (h' : Opened H keyId C D') :
    OpenedTwice H keyId C D D' ∨
      ∀ (i : ℕ) d d', D[i]? = some d → D'[i]? = some d' → SameShare d d' := by
  by_cases htwice : OpenedTwice H keyId C D D'
  · exact Or.inl htwice
  · refine Or.inr fun i d d' hd hd' => ?_
    obtain ⟨c, hc⟩ := exists_getElem? ((h.members i).1 (mem_of_getElem? hd))
    by_contra hne
    refine htwice ⟨i, c, d, d', hc, hd, hd', fun htext => hne (sameShare_of_openingText htext), ?_⟩
    rw [h.opens i c d hc hd, h'.opens i c d' hc hd']

theorem map_values_eq {V W : Type} {m m' : PlayerMap V} {value : V → W}
    (h : ∀ i : ℕ, (m[i]?).map value = (m'[i]?).map value) :
    m.toList.map (fun e => value e.2) = m'.toList.map fun e => value e.2 := by
  have hmaps : m.map (fun _ v => value v) = m'.map fun _ v => value v := by
    apply Std.ExtTreeMap.ext_getElem?
    intro i
    rw [Std.ExtTreeMap.getElem?_map, Std.ExtTreeMap.getElem?_map, h i]
  have hlist := congrArg (fun m : PlayerMap W => m.toList.map Prod.snd) hmaps
  simpa [Std.ExtTreeMap.toList_map, List.map_map, Function.comp_def] using hlist

theorem seedOf_eq (h : ∀ i : ℕ, (D[i]?).map (·.seed) = (D'[i]?).map (·.seed)) :
    seedOf D = seedOf D' := by
  have hfold : ∀ D : PlayerMap SetupDecommitment,
      seedOf D = (D.toList.map fun d => d.2.seed).foldl xorSeed (zeroBytes 32) :=
    fun D => List.foldl_map.symm
  rw [hfold, hfold, map_values_eq h]

theorem sumShares_eq {E : Ed25519} (h : ∀ i : ℕ,
    (info[i]?).map (·.publicShare) = (info'[i]?).map (·.publicShare)) :
    sumShares E info = sumShares E info' := by
  have hfold : ∀ info : PlayerMap (PlayerInfo A), sumShares E info =
      (info.toList.map fun i => i.2.publicShare).foldlM
        (fun sum share => throwCosignerException (addPoints E sum share)) infinityPoint := by
    intro info
    rw [sumShares, List.foldlM_map]
  rw [hfold, hfold, map_values_eq h]

end Openings

end MpcDemo.SetupBinding
