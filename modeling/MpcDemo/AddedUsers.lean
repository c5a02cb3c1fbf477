import MpcDemo.KeySetupSessions

/-!
# A key for new players

The players of a key split their shares among new players, and each new player commits to the sum
of what it is sent. The setup of the new key then ends with the old public key.
-/

namespace MpcDemo.AddedUsers
open ByteStrings Ed25519Algebra CosignerTypes FallibleState TotalRuns NodeState
open SetupService (invalidParameters)
open KeySetup KeySetupLaws KeySetupSteps KeySetupSessions PlayerTables PlayerRounds StoredDraws

variable {A : AuxiliaryScheme}

section Operations
variable (host : SetupHost A)

/-- The shares for some players, of which the last one gets what is left. -/
def splitShare : List ℕ → Ed25519Scalar → EStateM Failure (Party A) (List (ℕ × ByteString))
  | [], _ => pure []
  | [id], lastShare => do
    let n ← drawn
    pure [(id, host.encryptForPlayer id lastShare.val n)]
  | id :: id' :: ids, lastShare => do
    let share ← drawing host.toHost.rand
    let share ← ofExcept (throwCosignerException share)
    let lastShare ← ofExcept (throwCosignerException
      (ed25519AlgebraSubScalars lastShare.val share.value.val))
    let n ← drawn
    let entries ← splitShare (id' :: ids) lastShare
    pure ((id, host.encryptForPlayer id share.value.val n) :: entries)

/-- Both `n` and `t` are bytes. -/
def addUserRequest (keyId : ByteString) (algorithm : CosignerSignAlgorithm)
    (newKeyId : ByteString) (playersIds : List ℕ) (t : ℕ) :
    EStateM Failure (Party A) AddUserData := do
  verifyTenant host
  require playersIds.Nodup invalidParameters
  require (t = playersIds.length % 256) invalidParameters
  let exists_ ← reading fun p => .ok (p.keyExist keyId)
  require (exists_ = true) (.cosignerException .badKey)
  let newExists ← reading fun p => .ok (p.keyExist newKeyId)
  require (newExists = false) (.cosignerException .badKey)
  require (1 < t ∧ t ≤ playersIds.length) invalidParameters
  require (playersIds.length ≤ 255) invalidParameters
  let metadata ← reading (·.loadKeyMetadata keyId)
  require (metadata.algorithm = algorithm) invalidParameters
  require (∀ i ∈ playersIds, i ∉ metadata.playersInfo) invalidParameters
  let key ← reading (·.loadKey keyId)
  let entries ← splitShare host playersIds key.2
  pure ⟨NodePrograms.ofEntries entries, metadata.publicKey⟩

/-- The data of a player agree with those of the first one. -/
def Agrees (first d : AddUserData) : Prop :=
  d.publicKey = first.publicKey ∧ d.encryptedShares.size = first.encryptedShares.size ∧
    ∀ i ∈ d.encryptedShares.keys, i ∈ first.encryptedShares.keys

instance (first d : AddUserData) : Decidable (Agrees first d) :=
  inferInstanceAs (Decidable (_ ∧ _ ∧ _))

/-- Add the share that a player has sent. -/
def addSentShare (myId : ℕ) (first : AddUserData) (key : Ed25519Scalar) (d : ℕ × AddUserData) :
    Except Failure Ed25519Scalar :=
  if Agrees first d.2 then
    match d.2.encryptedShares[myId]? with
    | none => .error invalidParameters
    | some message => throwCosignerException
        (ed25519AlgebraAddScalars key.val (host.decryptMessage message))
  else .error invalidParameters

def addUser (keyId : ByteString) (t : ℕ) (data : PlayerMap AddUserData) :
    EStateM Failure (Party A) Commitment :=
  match data.toList with
  | [] => throw invalidParameters
  | first :: rest => do
    let n := first.2.encryptedShares.size
    require (∀ d ∈ rest, d.2.encryptedShares.size = n) invalidParameters
    require (n ≠ 0 ∧ t ≠ 0 ∧ t ≤ n ∧ n ≤ 255 ∧ 1 < n) invalidParameters
    require (t = n) invalidParameters
    let myId := host.service.getIdFromKeyid keyId
    let exists_ ← reading fun p => .ok (p.keyExist keyId)
    require (exists_ = false) (.cosignerException .badKey)
    let key ← ofExcept ((first :: rest).foldlM (addSentShare host myId first.2) (zeroBytes 32))
    commitToShare host keyId first.2.encryptedShares.keys t key first.2.publicKey

end Operations

/-- `add_user` of `setup_test.cpp`. -/
def addUsers (P : Players A) (old new : Finset ℕ) (keyId newKeyId : ByteString) :
    EStateM Failure (ℕ → Party A) (PlayerMap (Ed25519Point × CosignerSignAlgorithm)) := do
  let data ← eachPlayer old fun i =>
    addUserRequest (P.host i) keyId .eddsaEd25519 newKeyId new.sort new.sort.length
  let commitments ← eachPlayer new fun j => addUser (P.host j) newKeyId new.sort.length data
  P.finishSetup new newKeyId commitments

section Splitting
variable {host : SetupHost A} {valid : AuxiliaryKeys → Prop} {s : Party A}

/-- Some messages hold shares of a value for some players. -/
structure Splits (host : SetupHost A) (ids : List ℕ) (total : ℕ) (message : ℕ → ByteString)
    (share : ℕ → Ed25519Scalar) : Prop where
  message : ∀ i ∈ ids, ∃ n, message i = host.encryptForPlayer i (share i).val n
  sum : (ids.map fun i => beValue (share i).val).sum ≡ total [MOD order]

theorem sub_value (a b : ℕ) :
    beValue (beBytes 32 ((((a : ℤ) - b) % order).toNat)).val + b ≡ a [MOD order] := by
  have hpos : (0 : ℤ) < order := by exact_mod_cast order_pos
  have hnonneg := Int.emod_nonneg ((a : ℤ) - b) hpos.ne'
  have hlt := Int.emod_lt_of_pos ((a : ℤ) - b) hpos
  have hsmall : (((a : ℤ) - b) % order).toNat < order := by omega
  have hvalue : beValue (beBytes 32 ((((a : ℤ) - b) % order).toNat)).val =
      (((a : ℤ) - b) % order).toNat := beValue_beList_of_lt (hsmall.trans order_lt)
  rw [hvalue, ← Int.natCast_modEq_iff, Int.natCast_add, Int.toNat_of_nonneg hnonneg]
  have hmod : ((a : ℤ) - b) % order + b ≡ (a : ℤ) - b + b [ZMOD order] :=
    (Int.mod_modEq _ _).add_right _
  rwa [sub_add_cancel] at hmod

theorem returns_splitShare (hdraws : Draws host valid) {ids : List ℕ} (hne : ids ≠ [])
    (hnodup : ids.Nodup) (lastShare : Ed25519Scalar) :
    Returns (splitShare host ids lastShare) s fun entries u => u.store = s.store ∧
      ∃ message share, entries = ids.map (fun i => (i, message i)) ∧
        Splits host ids (beValue lastShare.val) message share := by
  induction ids generalizing s lastShare with
  | nil => exact absurd rfl hne
  | cons id ids ih =>
    cases ids with
    | nil =>
      rw [splitShare]
      refine returns_drawn_bind fun n _ => returns_pure ⟨rfl, fun i =>
        host.encryptForPlayer i lastShare.val n, fun _ => lastShare, rfl, fun i hi => ⟨n, rfl⟩, ?_⟩
      rw [List.map_singleton, List.sum_singleton]
    | cons id' ids =>
      rw [splitShare]
      apply returns_drawing_bind (fun r => ∃ k : DrawnScalar, r = .ok k) fun n => by
        obtain ⟨v, hv⟩ := hdraws.works.rand n.draws
        refine ⟨_, _, host.toHost.run_rand n, ⟨n.draws, beBytes 32 v.val⟩, ?_⟩
        rw [hv]
        rfl
      intro r m hr
      obtain ⟨k, rfl⟩ := hr
      let rest : Ed25519Scalar :=
        beBytes 32 (((beValue lastShare.val : ℤ) - beValue k.value.val) % order).toNat
      refine returns_ofExcept_bind rfl (returns_ofExcept_bind (a := rest) ?_
        (returns_drawn_bind fun n m' => ?_))
      · rw [ed25519AlgebraSubScalars, if_neg (by simp [val_ne_nil])]
        rfl
      obtain ⟨hnew, hrest⟩ := List.nodup_cons.1 hnodup
      apply (@ih ⟨m', s.store⟩ (by simp) hrest rest).bind
      intro entries u hu
      obtain ⟨hstore, message, share, rfl, hsplits⟩ := hu
      have hne : ∀ i ∈ id' :: ids, i ≠ id := fun i hi heq => hnew (heq ▸ hi)
      have hshares : ((id' :: ids).map fun i =>
          beValue (Function.update share id k.value i).val) =
            (id' :: ids).map fun i => beValue (share i).val :=
        List.map_congr_left fun i hi => by rw [Function.update_of_ne (hne i hi)]
      refine returns_pure ⟨hstore, Function.update message id
        (host.encryptForPlayer id k.value.val n), Function.update share id k.value, ?_,
        fun i hi => ?_, ?_⟩
      · rw [List.map_cons (l := id' :: ids), Function.update_self]
        refine congrArg (_ :: ·) (List.map_congr_left fun i hi => ?_)
        rw [Function.update_of_ne (hne i hi)]
      · rcases List.mem_cons.1 hi with rfl | hi
        · exact ⟨n, by rw [Function.update_self, Function.update_self]⟩
        · rw [Function.update_of_ne (hne i hi), Function.update_of_ne (hne i hi)]
          exact hsplits.message i hi
      · rw [List.map_cons, List.sum_cons, hshares, Function.update_self, add_comm]
        exact (hsplits.sum.add_right _).trans (sub_value _ _)

end Splitting

section Requests
variable {host : SetupHost A} {valid : AuxiliaryKeys → Prop} {s : Party A}
variable {keyId newKeyId : ByteString} {metadata : KeyMetadata A} {key : Ed25519Scalar}

theorem returns_addUserRequest (hdraws : Draws host valid)
    (htenant : host.service.getCurrentTenantid = tenantId)
    (hkey : s.store.loadKey keyId = .ok (.eddsaEd25519, key))
    (hmetadata : s.store.loadKeyMetadata keyId = .ok metadata)
    (halgorithm : metadata.algorithm = .eddsaEd25519)
    (hnew : s.store.keyExist newKeyId = false) {ids : List ℕ} (hnodup : ids.Nodup)
    (hids : ∀ i ∈ ids, i ∉ metadata.playersInfo) (hlength : 1 < ids.length ∧ ids.length ≤ 255) :
    Returns (addUserRequest host keyId .eddsaEd25519 newKeyId ids ids.length) s fun d u =>
      u.store = s.store ∧ d.publicKey = metadata.publicKey ∧ ∃ message share,
        d.encryptedShares = NodePrograms.ofEntries (ids.map fun i => (i, message i)) ∧
        Splits host ids (beValue key.val) message share := by
  have hexist : s.store.keyExist keyId = true := by
    rw [SetupPersistency.loadKey] at hkey
    rw [SetupPersistency.keyExist]
    cases hinfo : s.store.keys keyId with
    | none =>
      rw [hinfo] at hkey
      cases hkey
    | some info => rfl
  have hbyte : ids.length = ids.length % 256 := (Nat.mod_eq_of_lt (by omega)).symm
  have hne : ids ≠ [] := List.ne_nil_of_length_pos (by omega)
  rw [addUserRequest]
  refine returns_verifyTenant_bind htenant (returns_require_bind hnodup (returns_require_bind hbyte
    (returns_reading_bind (a := true) (by rw [hexist]) (returns_require_bind rfl
    (returns_reading_bind (a := false) (by rw [hnew]) (returns_require_bind rfl
    (returns_require_bind ⟨hlength.1, le_rfl⟩ (returns_require_bind hlength.2
    (returns_reading_bind hmetadata (returns_require_bind halgorithm (returns_require_bind hids
    (returns_reading_bind hkey ?_))))))))))))
  apply (returns_splitShare hdraws hne hnodup key).bind
  intro entries u hu
  obtain ⟨hstore, message, share, rfl, hsplits⟩ := hu
  exact returns_pure ⟨hstore, rfl, message, share, rfl, hsplits⟩

theorem addScalars_eq (a : Ed25519Scalar) (b : Ed25519Scalar) :
    ed25519AlgebraAddScalars a.val b.val =
      .ok (beBytes 32 ((beValue a.val + beValue b.val) % order)) := by
  rw [ed25519AlgebraAddScalars, if_neg (by simp [val_ne_nil])]

/-- The sum of what some players have sent, over what has been added so far. -/
theorem exists_addSentShares {myId : ℕ} {first : AddUserData} {share : ℕ → Ed25519Scalar}
    {l : List (ℕ × AddUserData)} (h : ∀ d ∈ l, Agrees first d.2 ∧ ∃ message,
      d.2.encryptedShares[myId]? = some message ∧ host.decryptMessage message = (share d.1).val)
    (key : Ed25519Scalar) :
    ∃ sum, l.foldlM (addSentShare host myId first) key = .ok sum ∧
      beValue sum.val ≡ beValue key.val + (l.map fun d => beValue (share d.1).val).sum
        [MOD order] := by
  induction l generalizing key with
  | nil => exact ⟨key, rfl, by rw [List.map_nil, List.sum_nil, add_zero]⟩
  | cons d l ih =>
    obtain ⟨hagrees, message, hmessage, hdecrypt⟩ := h d List.mem_cons_self
    let next : Ed25519Scalar := beBytes 32 ((beValue key.val + beValue (share d.1).val) % order)
    have hnext : addSentShare host myId first key d = .ok next := by
      rw [addSentShare, if_pos hagrees]
      simp only [hmessage, hdecrypt, addScalars_eq, throwCosignerException_ok, next]
    obtain ⟨sum, hsum, hvalue⟩ := ih (fun d' hd' => h d' (List.mem_cons_of_mem d hd')) next
    refine ⟨sum, ?_, ?_⟩
    · rw [List.foldlM_cons, hnext]
      exact hsum
    · rw [List.map_cons, List.sum_cons, ← add_assoc]
      refine hvalue.trans (Nat.ModEq.add_right _ ?_)
      rw [beValue_beBytes_mod]
      exact Nat.mod_modEq _ _

/-- What the players of a key send to new ones. -/
structure Sent (P : Players A) (old new : Finset ℕ) (key : ℕ → Ed25519Scalar)
    (pubkey : EllipticCurvePoint) (data : ℕ → AddUserData) (message : ℕ → ℕ → ByteString)
    (share : ℕ → ℕ → Ed25519Scalar) : Prop where
  publicKey : ∀ i ∈ old, (data i).publicKey = pubkey
  encryptedShares : ∀ i ∈ old, (data i).encryptedShares = table new (message i)
  splits : ∀ i ∈ old, Splits (P.host i) new.sort (beValue (key i).val) (message i) (share i)

variable {P : Players A} {old new : Finset ℕ} {shares : ℕ → Ed25519Scalar}
variable {pubkey : EllipticCurvePoint} {data : ℕ → AddUserData} {message : ℕ → ℕ → ByteString}
variable {share : ℕ → ℕ → Ed25519Scalar}

theorem Sent.agrees (h : Sent P old new shares pubkey data message share) {i j : ℕ} (hi : i ∈ old)
    (hj : j ∈ old) : Agrees (data i) (data j) := by
  rw [Agrees, h.publicKey i hi, h.publicKey j hj, h.encryptedShares i hi, h.encryptedShares j hj,
    size_table, size_table]
  refine ⟨rfl, rfl, fun k hk => ?_⟩
  rw [Std.ExtTreeMap.mem_keys, mem_table] at hk ⊢
  exact hk

/-- A new player commits to the sum of the shares that it is sent. -/
theorem returns_addUser {j : ℕ} {messages : PlayerMap AddUserData} {first : ℕ × AddUserData}
    {rest : List (ℕ × AddUserData)} {ids : List ℕ} {sum : Ed25519Scalar}
    (hlist : messages.toList = first :: rest) (hids : first.2.encryptedShares.keys = ids)
    (hsizes : ∀ d ∈ first :: rest, d.2.encryptedShares.size = ids.length)
    (hlength : 1 < ids.length ∧ ids.length ≤ 255) (hpubkey : first.2.publicKey = pubkey)
    (hid : host.service.getIdFromKeyid newKeyId = j)
    (hsum : (first :: rest).foldlM (addSentShare host j first.2) (zeroBytes 32) = .ok sum)
    (hdraws : Draws host valid) (hkeyId : 0 < newKeyId.length ∧ newKeyId.length < 2 ^ 32)
    (hfresh : Fresh newKeyId s.store) :
    Returns (addUser host newKeyId ids.length messages) s fun c u =>
      ∃ x : Secret, x.key = sum ∧ x.Good host newKeyId valid c ∧
        Holds newKeyId x (initialMetadata ids ids.length pubkey) ∅ none u.store := by
  have hsize : first.2.encryptedShares.size = ids.length := hsizes first List.mem_cons_self
  have hexist : s.store.keyExist newKeyId = false := by
    rw [SetupPersistency.keyExist, hfresh.keys]
    rfl
  have hsmall : first.2.encryptedShares.size ≠ 0 ∧ ids.length ≠ 0 ∧
      ids.length ≤ first.2.encryptedShares.size ∧ first.2.encryptedShares.size ≤ 255 ∧
      1 < first.2.encryptedShares.size := by
    rw [hsize]
    omega
  have hothers : ∀ d ∈ rest, d.2.encryptedShares.size = first.2.encryptedShares.size :=
    fun d hd => (hsizes d (List.mem_cons_of_mem _ hd)).trans hsize.symm
  rw [addUser, hlist]
  refine returns_require_bind hothers (returns_require_bind hsmall (returns_require_bind
    hsize.symm (returns_reading_bind (a := false) (by rw [hexist]) (returns_require_bind rfl
    (returns_ofExcept_bind (a := sum) (by rw [hid, hsum]) ?_)))))
  rw [hids, hpubkey]
  exact returns_commitToShare hdraws hkeyId hfresh ids ids.length sum pubkey

end Requests

section Sharing
variable {P : Players A} {old new : Finset ℕ} {keyId newKeyId : ByteString}
variable {valid : AuxiliaryKeys → Prop} {paillier : AuxiliaryKeys → A.Paillier}
variable {ringPedersen : AuxiliaryKeys → A.RingPedersen} {key : ℕ → Ed25519Scalar}
variable {w : ℕ → Party A}

/-- The players of a key that share it with others. -/
structure SharesWith (P : Players A) (old new : Finset ℕ) (valid : AuxiliaryKeys → Prop) :
    Prop where
  nonempty : old.Nonempty
  disjoint : Disjoint old new
  two : 1 < new.card
  tenant : ∀ i ∈ old, (P.service i).getCurrentTenantid = tenantId
  draws : ∀ i ∈ old, Draws (P.host i) valid
  decrypts : ∀ i ∈ old, ∀ j ∈ new, ∀ bytes n,
    P.decryptMessage j (P.encryptForPlayer i j bytes n) = bytes

/-- The messages to one new player add up to its share. -/
theorem exists_sum_sent (hold : old.Nonempty) {pubkey : EllipticCurvePoint}
    {data : ℕ → AddUserData} {message : ℕ → ℕ → ByteString} {share : ℕ → ℕ → Ed25519Scalar}
    (hsent : Sent P old new key pubkey data message share) {j : ℕ} (hj : j ∈ new)
    (hdecrypt : ∀ i ∈ old, ∀ bytes n, P.decryptMessage j (P.encryptForPlayer i j bytes n) = bytes) :
    ∃ first rest sum, (table old data).toList = first :: rest ∧ first.1 ∈ old ∧
      first.2 = data first.1 ∧ (∀ d ∈ first :: rest, d.1 ∈ old ∧ d.2 = data d.1) ∧
      (first :: rest).foldlM (addSentShare (P.host j) j first.2) (zeroBytes 32) = .ok sum ∧
      beValue sum.val ≡ ∑ i ∈ old, beValue (share i j).val [MOD order] := by
  have hmem : ∀ d ∈ (table old data).toList, d.1 ∈ old ∧ d.2 = data d.1 :=
    fun d hd => mem_toList_table.1 hd
  have hsum := @sum_toList_table AddUserData old data ℕ _ fun d => beValue (share d.1 j).val
  obtain ⟨first, rest, hlist⟩ := List.exists_cons_of_ne_nil (toList_table_ne_nil hold)
  rw [hlist] at hmem hsum
  obtain ⟨hfirst, hfirst₂⟩ := hmem first List.mem_cons_self
  obtain ⟨sum, hfold, hvalue⟩ := @exists_addSentShares A (P.host j) j first.2 (fun i => share i j)
    (first :: rest) (fun d hd => by
      obtain ⟨hi, hd₂⟩ := hmem d hd
      refine ⟨by rw [hfirst₂, hd₂]; exact hsent.agrees hfirst hi, message d.1 j, ?_, ?_⟩
      · rw [hd₂, hsent.encryptedShares _ hi]
        exact getElem?_table_of_mem hj
      · obtain ⟨n, hn⟩ := (hsent.splits d.1 hi).message j ((Finset.mem_sort (· ≤ ·)).2 hj)
        rw [hn]
        exact hdecrypt d.1 hi _ n) (zeroBytes 32)
  rw [hsum, beValue_zeroBytes, zero_add] at hvalue
  exact ⟨first, rest, sum, hlist, hfirst, hfirst₂, hmem, hfold, hvalue⟩

/-- All shares of all players together are a share of each new player and of each old one. -/
theorem sum_shares_modEq {share : ℕ → ℕ → Ed25519Scalar} {message : ℕ → ℕ → ByteString}
    {x : ℕ → Ed25519Scalar}
    (hsplits : ∀ i ∈ old, Splits (P.host i) new.sort (beValue (key i).val) (message i) (share i))
    (hx : ∀ j ∈ new, beValue (x j).val ≡ ∑ i ∈ old, beValue (share i j).val [MOD order]) :
    ∑ j ∈ new, beValue (x j).val ≡ ∑ i ∈ old, beValue (key i).val [MOD order] := by
  have hnew : ∑ j ∈ new, beValue (x j).val ≡
      ∑ j ∈ new, ∑ i ∈ old, beValue (share i j).val [MOD order] := Nat.ModEq.sum hx
  have hold : ∑ i ∈ old, ∑ j ∈ new, beValue (share i j).val ≡
      ∑ i ∈ old, beValue (key i).val [MOD order] := by
    refine Nat.ModEq.sum fun i hi => ?_
    have hsum := (hsplits i hi).sum
    rwa [sum_sort] at hsum
  rw [Finset.sum_comm] at hold
  exact hnew.trans hold

theorem smul_eq_of_modEq {E : Ed25519} {m n : ℕ} (h : m ≡ n [MOD order]) (P : E.Point) :
    m • P = n • P := by
  rw [← mod_order_smul m, ← mod_order_smul n, h]

/-- Sharing a key with new players keeps its public key: the new shares add up to what the old ones
add up to, whatever the numbers of players. -/
theorem add_users_keeps_key (hA : Complete A valid paillier ringPedersen)
    (hshares : SharesWith P old new valid) (hP : Honest P new newKeyId valid)
    (hkeyId : Usable newKeyId) (hzero : EncodesInfinity P.algebra)
    (hold : ∀ i ∈ old, HoldsShare P old keyId key i (w i).store ∧
      (w i).store.keyExist newKeyId = false)
    (hfresh : ∀ j ∈ new, Fresh newKeyId (w j).store) :
    Returns (addUsers P old new keyId newKeyId) w fun out w' =>
      out = table new (fun _ => (P.algebra.encode (sharedPoint P.algebra old key),
        .eddsaEd25519)) ∧
      (∀ i ∈ old, (w' i).store = (w i).store) ∧ ∃ key' : ℕ → Ed25519Scalar,
        ∑ j ∈ new, beValue (key' j).val ≡ ∑ i ∈ old, beValue (key i).val [MOD order] ∧
        ∀ j ∈ new, HoldsShare P new newKeyId key' j (w' j).store := by
  have hlength : new.sort.length = new.card := Finset.length_sort (· ≤ ·)
  have hsort : ∀ {j : ℕ}, j ∈ new.sort ↔ j ∈ new := Finset.mem_sort (· ≤ ·)
  have hsmall : 1 < new.sort.length ∧ new.sort.length ≤ 255 := by
    rw [hlength]
    exact ⟨hshares.two, hP.card⟩
  let pubkey := Ed25519Point.generic (P.algebra.encode (sharedPoint P.algebra old key))
  have hrequest : ∀ i ∈ old, Returns (addUserRequest (P.host i) keyId .eddsaEd25519 newKeyId
      new.sort new.sort.length) (w i) fun d u => u.store = (w i).store ∧ d.publicKey = pubkey ∧
        ∃ message share, d.encryptedShares = table new message ∧
          Splits (P.host i) new.sort (beValue (key i).val) message share := by
    intro i hi
    obtain ⟨hholds, hnew⟩ := hold i hi
    obtain ⟨metadata, hmetadata, hpublicKey, halgorithm, -, -, hinfo⟩ := hholds.loadsMetadata
    have hpubkey : metadata.publicKey = pubkey := hpublicKey
    rw [← hpubkey]
    refine returns_addUserRequest (hshares.draws i hi) (hshares.tenant i hi) hholds.loadsKey
      hmetadata halgorithm hnew (new.sort_nodup (· ≤ ·)) (fun j hj hmem => ?_) hsmall
    have hother : j ∉ old := fun hj' => Finset.disjoint_left.1 hshares.disjoint hj' (hsort.1 hj)
    have hnone := hinfo j
    rw [if_neg hother, Option.map_eq_none_iff] at hnone
    rw [← Std.ExtTreeMap.isSome_getElem?_iff_mem, hnone] at hmem
    cases hmem
  rw [addUsers]
  apply (returns_eachPlayer hshares.nonempty hrequest).bind
  intro _ w₁ hw₁
  obtain ⟨hothers, data, rfl, h₁⟩ := hw₁
  have hmessages : ∀ i, ∃ message share, i ∈ old →
      (data i).encryptedShares = table new message ∧
      Splits (P.host i) new.sort (beValue (key i).val) message share := by
    intro i
    by_cases hi : i ∈ old
    · obtain ⟨-, -, message, share, hencrypted, hsplits⟩ := h₁ i hi
      exact ⟨message, share, fun _ => ⟨hencrypted, hsplits⟩⟩
    · exact ⟨fun _ => [], fun _ => zeroBytes 32, fun hi' => absurd hi' hi⟩
  choose message share hmessages using hmessages
  have hsent : Sent P old new key pubkey data message share :=
    ⟨fun i hi => (h₁ i hi).2.1, fun i hi => (hmessages i hi).1, fun i hi => (hmessages i hi).2⟩
  have hadd : ∀ j ∈ new, Returns (addUser (P.host j) newKeyId new.sort.length (table old data))
      (w₁ j) fun c u => ∃ x : Secret,
        beValue x.key.val ≡ ∑ i ∈ old, beValue (share i j).val [MOD order] ∧
        x.Good (P.host j) newKeyId valid c ∧
        Holds newKeyId x (initialMetadata new.sort new.sort.length pubkey) ∅ none u.store := by
    intro j hj
    have hdecrypt : ∀ i ∈ old, ∀ bytes n,
        P.decryptMessage j (P.encryptForPlayer i j bytes n) = bytes :=
      fun i hi => hshares.decrypts i hi j hj
    obtain ⟨first, rest, sum, hlist, hfirst, hfirst₂, hmem, hfold, hvalue⟩ :=
      exists_sum_sent hshares.nonempty hsent hj hdecrypt
    have hencrypted := hsent.encryptedShares first.1 hfirst
    have hnew : j ∉ old := fun hj' => Finset.disjoint_left.1 hshares.disjoint hj' hj
    have hpubkey : first.2.publicKey = pubkey := by rw [hfirst₂, hsent.publicKey first.1 hfirst]
    have hid : (P.host j).service.getIdFromKeyid newKeyId = j := hP.id j hj
    have hrun := returns_addUser (s := w₁ j) hlist
      (by rw [hfirst₂, hencrypted, keys_table])
      (fun d hd => by
        obtain ⟨hd₁, hd₂⟩ := hmem d hd
        rw [hd₂, hsent.encryptedShares d.1 hd₁, size_table, hlength])
      hsmall hpubkey hid hfold
      (hP.draws j hj) ⟨hkeyId.1, (Nat.le_add_right _ 40).trans_lt hkeyId.2⟩
      (by rw [hothers j hnew]; exact hfresh j hj)
    apply hrun.imp
    intro c u hu
    obtain ⟨x, hx, hgood, hholds⟩ := hu
    exact ⟨x, hx ▸ hvalue, hgood, hholds⟩
  apply (returns_eachPlayer hP.nonempty hadd).bind
  intro _ w₂ hw₂
  obtain ⟨hothers₂, c, rfl, h₂⟩ := hw₂
  have hexists : ∀ j, ∃ x : Secret, j ∈ new →
      beValue x.key.val ≡ ∑ i ∈ old, beValue (share i j).val [MOD order] ∧
      x.Good (P.host j) newKeyId valid (c j) ∧
      Holds newKeyId x (initialMetadata new.sort new.sort.length pubkey) ∅ none
        (w₂ j).store := by
    intro j
    by_cases hj : j ∈ new
    · obtain ⟨x, hx⟩ := h₂ j hj
      exact ⟨x, fun _ => hx⟩
    · obtain ⟨first, hfirst⟩ := hP.nonempty
      obtain ⟨x, -⟩ := h₂ first hfirst
      exact ⟨x, fun hj' => absurd hj' hj⟩
  choose x hx using hexists
  have hsum : ∑ j ∈ new, beValue (x j).key.val ≡ ∑ i ∈ old, beValue (key i).val [MOD order] :=
    sum_shares_modEq hsent.splits fun j hj => (hx j hj).1
  have hpoint : sharedPoint P.algebra new (fun j => (x j).key) = sharedPoint P.algebra old key :=
    smul_eq_of_modEq hsum _
  apply (returns_finishSetup hA hP hkeyId hzero (fun j hj => (hx j hj).2.1)
    (Or.inr (by rw [hpoint])) fun j hj => (hx j hj).2.2).imp
  intro out w' h
  obtain ⟨hout, hothers₃, hholds⟩ := h
  refine ⟨by rw [hout, hpoint], fun i hi => ?_, fun j => (x j).key, hsum, hholds⟩
  have hnew : i ∉ new := Finset.disjoint_left.1 hshares.disjoint hi
  rw [hothers₃ i hnew, hothers₂ i hnew]
  exact (h₁ i hi).1

end Sharing

section Concrete

def heldKey (i : ℕ) : Ed25519Scalar := beBytes 32 i

/-- The key that two players hold. -/
def heldMetadata : KeyMetadata trustingScheme where
  publicKey := Ed25519Point.generic (exponentGroup.encode (sharedPoint exponentGroup {1, 2}
    heldKey))
  algorithm := .eddsaEd25519
  t := 2
  n := 2
  seed := zeroBytes 32
  playersInfo := table {1, 2} fun i =>
    ⟨Ed25519Point.generic (exponentGroup.encode (beValue (heldKey i).val • exponentGroup.base)),
      some (), some ()⟩

def holdingParty (i : ℕ) : Party trustingScheme :=
  ⟨0, SetupPersistency.empty.setEntry (ascii "key")
    ⟨.eddsaEd25519, heldKey i, some heldMetadata, some concreteAux⟩⟩

theorem holdsShare_holdingParty (i : ℕ) :
    HoldsShare concretePlayers {1, 2} (ascii "key") heldKey i (holdingParty i).store where
  loadsKey := loadKey_eq keys_setEntry
  loadsMetadata := by
    refine ⟨heldMetadata, loadKeyMetadata_ok_iff.2 ⟨_, keys_setEntry, rfl⟩, rfl, rfl, rfl, rfl,
      fun j => ?_⟩
    rw [heldMetadata, getElem?_table]
    by_cases hj : j ∈ ({1, 2} : Finset ℕ)
    · rw [if_pos hj, if_pos hj]
      rfl
    · rw [if_neg hj, if_neg hj]
      rfl
  setupData := rfl
  commitments := rfl

theorem add_users_keeps_key_concrete :
    Returns (addUsers concretePlayers {1, 2} {3, 4, 5} (ascii "key") (ascii "new")) holdingParty
      fun out w' =>
        out = table {3, 4, 5} (fun _ => (exponentGroup.encode
          (sharedPoint exponentGroup {1, 2} heldKey), .eddsaEd25519)) ∧
        (∀ i ∈ ({1, 2} : Finset ℕ), (w' i).store = (holdingParty i).store) ∧
        ∃ key' : ℕ → Ed25519Scalar, ∑ j ∈ ({3, 4, 5} : Finset ℕ), beValue (key' j).val ≡
          ∑ i ∈ ({1, 2} : Finset ℕ), beValue (heldKey i).val [MOD order] ∧
        ∀ j ∈ ({3, 4, 5} : Finset ℕ),
          HoldsShare concretePlayers {3, 4, 5} (ascii "new") key' j (w' j).store :=
  add_users_keeps_key complete_trustingScheme
    ⟨⟨1, by decide⟩, by decide, by decide, fun _ _ => rfl, fun i _ => draws_concretePlayers i,
      fun _ _ _ _ _ _ => rfl⟩
    (honest_concretePlayers ⟨3, by decide⟩ (by decide) _) ⟨by decide, by decide⟩ rfl
    (fun i _ => ⟨holdsShare_holdingParty i, rfl⟩) fun _ _ => ⟨rfl, rfl⟩

end Concrete

end MpcDemo.AddedUsers
