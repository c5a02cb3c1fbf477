import MpcDemo.OutcomeRefinement
import MpcDemo.Persistencies

/-!
# The contract of the key store

A keyed store keeps the algorithm of a key, replaces metadata only where that is allowed and
deletes a key on demand. `InMemoryKeyPersistency` reports every key as an EdDSA key, always
replaces and deletes only the setup data.
-/

namespace MpcDemo.KeyStoreContract
open ByteStrings Ed25519Algebra CosignerTypes Persistencies CallHistories OutcomeRefinement

inductive Call
  | keyExist (id : ByteString)
  | loadKey (id : ByteString)
  | getTenantidFromKeyid (id : ByteString)
  | loadKeyMetadata (id : ByteString)
  | loadAuxiliaryKeys (id : ByteString)
  | loadSetupData (id : ByteString)
  | loadSetupCommitments (id : ByteString)
  | storeKey (id : ByteString) (algorithm : CosignerSignAlgorithm) (key : Ed25519Scalar)
  | storeKeyMetadata (id : ByteString) (m : CmpKeyMetadata) (allowOverride : Bool)
  | storeAuxiliaryKeys (id : ByteString) (a : AuxiliaryKeys)
  | storeKeyidTenantId (id tenantId : ByteString)
  | storeSetupData (id : ByteString) (data : SetupData)
  | storeSetupCommitments (id : ByteString) (commitments : PlayerMap Commitment)
  | deleteTemporaryKeyData (id : ByteString) (deleteKey : Bool)

inductive Answer
  | returned
  | exist (found : Bool)
  | key (algorithm : CosignerSignAlgorithm) (key : Ed25519Scalar)
  | tenant (tenantId : ByteString)
  | metadata (m : CmpKeyMetadata)
  | auxiliaryKeys (a : AuxiliaryKeys)
  | setupData (data : SetupData)
  | setupCommitments (commitments : PlayerMap Commitment)

abbrev Outcome := Except Failure Answer

def persistencyStep : Call → InMemoryKeyPersistency → Outcome × InMemoryKeyPersistency
  | .keyExist id, p => (.ok (.exist (p.keyExist id)), p)
  | .loadKey id, p => ((p.loadKey id).map fun k => .key k.1 k.2, p)
  | .getTenantidFromKeyid _, p => (.ok (.tenant InMemoryKeyPersistency.getTenantidFromKeyid), p)
  | .loadKeyMetadata id, p => ((p.loadKeyMetadata id).map .metadata, p)
  | .loadAuxiliaryKeys id, p => ((p.loadAuxiliaryKeys id).map .auxiliaryKeys, p)
  | .loadSetupData id, p => ((p.loadSetupData id).map .setupData, p)
  | .loadSetupCommitments id, p => ((p.loadSetupCommitments id).map .setupCommitments, p)
  | .storeKey id algorithm key, p => (.ok .returned, p.storeKey id algorithm key)
  | .storeKeyMetadata id m allowOverride, p =>
    (.ok .returned, p.storeKeyMetadata id m allowOverride)
  | .storeAuxiliaryKeys id a, p => (.ok .returned, p.storeAuxiliaryKeys id a)
  | .storeKeyidTenantId _ tenantId, p => (.ok .returned, p.storeKeyidTenantId tenantId)
  | .storeSetupData id data, p => (.ok .returned, p.storeSetupData id data)
  | .storeSetupCommitments id commitments, p =>
    (.ok .returned, p.storeSetupCommitments id commitments)
  | .deleteTemporaryKeyData id deleteKey, p =>
    (.ok .returned, p.deleteTemporaryKeyData id deleteKey)

section Reference

/-- A keyed store: a key with its algorithm, and what else belongs to a key id. -/
structure KeyStore where
  keys : ByteString → Option (CosignerSignAlgorithm × Ed25519Scalar)
  metas : ByteString → Option CmpKeyMetadata
  auxs : ByteString → Option AuxiliaryKeys
  setupDatas : ByteString → Option SetupData
  setupComms : ByteString → Option (PlayerMap Commitment)

def KeyStore.empty : KeyStore := ⟨fun _ => none, fun _ => none, fun _ => none, fun _ => none,
  fun _ => none⟩

/-- Store metadata unless there are some that must not be replaced. -/
def KeyStore.storeMetadata (r : KeyStore) (id : ByteString) (m : CmpKeyMetadata)
    (allowOverride : Bool) : KeyStore :=
  if allowOverride = true ∨ r.metas id = none then
    { r with metas := Function.update r.metas id (some m) }
  else r

def KeyStore.delete (r : KeyStore) (id : ByteString) : Bool → KeyStore
  | false => { r with
      setupDatas := Function.update r.setupDatas id none
      setupComms := Function.update r.setupComms id none }
  | true => {
      keys := Function.update r.keys id none
      metas := Function.update r.metas id none
      auxs := Function.update r.auxs id none
      setupDatas := Function.update r.setupDatas id none
      setupComms := Function.update r.setupComms id none }

section Stored
variable (r : KeyStore) (id : ByteString) (m : CmpKeyMetadata) (allowOverride : Bool)

theorem KeyStore.metas_storeMetadata (i : ByteString) :
    (r.storeMetadata id m allowOverride).metas i =
      if id = i ∧ (allowOverride = true ∨ r.metas i = none) then some m else r.metas i := by
  rw [storeMetadata]
  by_cases hi : id = i
  · subst hi
    split
    · rename_i hallowed
      rw [if_pos ⟨rfl, hallowed⟩]
      exact Function.update_self ..
    · rename_i hrefused
      rw [if_neg fun h => hrefused h.2]
  · have hother : ¬ (id = i ∧ (allowOverride = true ∨ r.metas i = none)) := fun h => hi h.1
    rw [if_neg hother]
    split
    · exact Function.update_of_ne (Ne.symm hi) _ _
    · rfl

/-- Storing metadata changes nothing else. -/
theorem KeyStore.others_storeMetadata :
    (r.storeMetadata id m allowOverride).keys = r.keys ∧
      (r.storeMetadata id m allowOverride).auxs = r.auxs ∧
      (r.storeMetadata id m allowOverride).setupDatas = r.setupDatas ∧
      (r.storeMetadata id m allowOverride).setupComms = r.setupComms := by
  rw [storeMetadata]
  split
  · exact ⟨rfl, rfl, rfl, rfl⟩
  · exact ⟨rfl, rfl, rfl, rfl⟩

end Stored

open InMemoryKeyPersistency (found) in
def referenceStep : Call → KeyStore → Outcome × KeyStore
  | .keyExist id, r => (.ok (.exist (r.keys id).isSome), r)
  | .loadKey id, r => ((found (r.keys id)).map fun k => .key k.1 k.2, r)
  | .getTenantidFromKeyid _, r => (.ok (.tenant tenantId), r)
  | .loadKeyMetadata id, r => ((found (r.metas id)).map .metadata, r)
  | .loadAuxiliaryKeys id, r => ((found (r.auxs id)).map .auxiliaryKeys, r)
  | .loadSetupData id, r => ((found (r.setupDatas id)).map .setupData, r)
  | .loadSetupCommitments id, r => ((found (r.setupComms id)).map .setupCommitments, r)
  | .storeKey id algorithm key, r =>
    (.ok .returned, { r with keys := Function.update r.keys id (some (algorithm, key)) })
  | .storeKeyMetadata id m allowOverride, r => (.ok .returned, r.storeMetadata id m allowOverride)
  | .storeAuxiliaryKeys id a, r =>
    (.ok .returned, { r with auxs := Function.update r.auxs id (some a) })
  | .storeKeyidTenantId .., r => (.ok .returned, r)
  | .storeSetupData id data, r =>
    (.ok .returned, { r with setupDatas := Function.update r.setupDatas id (some data) })
  | .storeSetupCommitments id commitments, r =>
    (.ok .returned, { r with setupComms := Function.update r.setupComms id (some commitments) })
  | .deleteTemporaryKeyData id deleteKey, r => (.ok .returned, r.delete id deleteKey)

end Reference

section Histories

def storedKey (id : ByteString) : Call → Option (CosignerSignAlgorithm × Ed25519Scalar)
  | .storeKey id' algorithm key => if id' = id then some (algorithm, key) else none
  | _ => none

def storedMetadata (id : ByteString) : Call → Option CmpKeyMetadata
  | .storeKeyMetadata id' m _ => if id' = id then some m else none
  | _ => none

def storedAuxiliaryKeys (id : ByteString) : Call → Option AuxiliaryKeys
  | .storeAuxiliaryKeys id' a => if id' = id then some a else none
  | _ => none

def deletesKey (id : ByteString) : Call → Bool
  | .deleteTemporaryKeyData id' true => id' = id
  | _ => false

/-- What was stored last among some calls, the latest first. -/
def latest {α : Type} (stored : Call → Option α) : List Call → Option α
  | [] => none
  | c :: earlier => (stored c).or (latest stored earlier)

/-- What was stored last, unless the key has been deleted since. -/
def standing {α : Type} (stored : Call → Option α) (id : ByteString) : List Call → Option α
  | [] => none
  | c :: earlier => (stored c).or (bif deletesKey id c then none else standing stored id earlier)

/-- The metadata of the last store that was allowed, unless the key has been deleted since. -/
def allowedMetadata (id : ByteString) : List Call → Option CmpKeyMetadata
  | [] => none
  | .storeKeyMetadata id' m allowOverride :: earlier =>
    if id' = id ∧ (allowOverride = true ∨ allowedMetadata id earlier = none) then some m
    else allowedMetadata id earlier
  | .deleteTemporaryKeyData id' deleteKey :: earlier =>
    if id' = id ∧ deleteKey = true then none else allowedMetadata id earlier
  | _ :: earlier => allowedMetadata id earlier

/-- A key or auxiliary keys are asked for only when none has been stored or none was deleted
since, a key is loaded only when it was stored as an EdDSA key, and metadata when those stored
last were allowed to be stored. -/
def Fits (earlier : List Call) : Call → Prop
  | .keyExist id => (latest (storedKey id) earlier).isSome = true →
    (standing (storedKey id) id earlier).isSome = true
  | .loadKey id => (latest (storedKey id) earlier).isSome = true →
    ∃ key, standing (storedKey id) id earlier = some (.eddsaEd25519, key)
  | .loadKeyMetadata id => latest (storedMetadata id) earlier = allowedMetadata id earlier
  | .loadAuxiliaryKeys id => (latest (storedAuxiliaryKeys id) earlier).isSome = true →
    (standing (storedAuxiliaryKeys id) id earlier).isSome = true
  | _ => True

theorem latest_of_standing {α : Type} {stored : Call → Option α} {id : ByteString}
    {calls : List Call} {a : α} (h : standing stored id calls = some a) :
    latest stored calls = some a := by
  induction calls with
  | nil => cases h
  | cons c calls ih =>
    rw [standing] at h
    rw [latest]
    cases hc : stored c with
    | some a' =>
      rw [hc] at h
      exact h
    | none =>
      rw [hc, Option.none_or] at h
      cases hd : deletesKey id c with
      | true =>
        rw [hd] at h
        cases h
      | false =>
        rw [hd] at h
        exact ih h

end Histories

section Simulation

/-- What the two stores hold after some calls. -/
structure Related (calls : List Call) (p : InMemoryKeyPersistency) (r : KeyStore) : Prop where
  keys : ∀ id, p.keys id = (latest (storedKey id) calls).map Prod.snd
  metas : ∀ id, p.metas id = latest (storedMetadata id) calls
  auxs : ∀ id, p.auxs id = latest (storedAuxiliaryKeys id) calls
  referenceKeys : ∀ id, r.keys id = standing (storedKey id) id calls
  referenceMetas : ∀ id, r.metas id = allowedMetadata id calls
  referenceAuxs : ∀ id, r.auxs id = standing (storedAuxiliaryKeys id) id calls
  setupDatas : p.setupDatas = r.setupDatas
  setupComms : p.setupComms = r.setupComms

theorem related_start : Related [] .empty .empty where
  keys _ := rfl
  metas _ := rfl
  auxs _ := rfl
  referenceKeys _ := rfl
  referenceMetas _ := rfl
  referenceAuxs _ := rfl
  setupDatas := rfl
  setupComms := rfl

theorem update_some {α : Type} (f : ByteString → Option α) (id' id : ByteString) (a : α) :
    Function.update f id' (some a) id = (if id' = id then some a else none).or (f id) := by
  by_cases h : id' = id
  · rw [h, Function.update_self, if_pos rfl, Option.some_or]
  · rw [Function.update_of_ne (Ne.symm h), if_neg h, Option.none_or]

theorem update_none {α : Type} (f : ByteString → Option α) (id' id : ByteString) :
    Function.update f id' none id = bif decide (id' = id) then none else f id := by
  by_cases h : id' = id
  · rw [h, Function.update_self, decide_eq_true rfl, cond_true]
  · rw [Function.update_of_ne (Ne.symm h), decide_eq_false h, cond_false]

variable {calls : List Call} {p : InMemoryKeyPersistency} {r : KeyStore}

theorem Related.next (h : Related calls p r) (c : Call) :
    Related (c :: calls) (persistencyStep c p).2 (referenceStep c r).2 where
  keys id := by
    cases c with
    | storeKey id' algorithm key =>
      have hupdate := update_some p.keys id' id key
      rw [h.keys] at hupdate
      refine hupdate.trans ?_
      rw [latest, storedKey]
      by_cases hid : id' = id
      · simp [hid]
      · simp [hid]
    | _ => exact h.keys id
  metas id := by
    cases c with
    | storeKeyMetadata id' m allowOverride =>
      have hupdate := update_some p.metas id' id m
      rw [h.metas] at hupdate
      exact hupdate
    | _ => exact h.metas id
  auxs id := by
    cases c with
    | storeAuxiliaryKeys id' a =>
      have hupdate := update_some p.auxs id' id a
      rw [h.auxs] at hupdate
      exact hupdate
    | _ => exact h.auxs id
  referenceKeys id := by
    cases c with
    | storeKey id' algorithm key =>
      have hupdate := update_some r.keys id' id (algorithm, key)
      rw [h.referenceKeys] at hupdate
      exact hupdate
    | deleteTemporaryKeyData id' deleteKey =>
      cases deleteKey with
      | false => exact h.referenceKeys id
      | true =>
        have hupdate := update_none r.keys id' id
        rw [h.referenceKeys] at hupdate
        exact hupdate
    | storeKeyMetadata id' m allowOverride =>
      have hsame := (r.others_storeMetadata id' m allowOverride).1
      exact (congrFun hsame id).trans (h.referenceKeys id)
    | _ => exact h.referenceKeys id
  referenceMetas id := by
    cases c with
    | storeKeyMetadata id' m allowOverride =>
      refine (r.metas_storeMetadata id' m allowOverride id).trans ?_
      rw [h.referenceMetas, allowedMetadata]
    | deleteTemporaryKeyData id' deleteKey =>
      rw [allowedMetadata]
      cases deleteKey with
      | false =>
        rw [if_neg fun hboth => Bool.false_ne_true hboth.2]
        exact h.referenceMetas id
      | true =>
        have hupdate := update_none r.metas id' id
        rw [h.referenceMetas] at hupdate
        refine hupdate.trans ?_
        by_cases hid : id' = id
        · simp [hid]
        · simp [hid]
    | _ => exact h.referenceMetas id
  referenceAuxs id := by
    cases c with
    | storeAuxiliaryKeys id' a =>
      have hupdate := update_some r.auxs id' id a
      rw [h.referenceAuxs] at hupdate
      exact hupdate
    | deleteTemporaryKeyData id' deleteKey =>
      cases deleteKey with
      | false => exact h.referenceAuxs id
      | true =>
        have hupdate := update_none r.auxs id' id
        rw [h.referenceAuxs] at hupdate
        exact hupdate
    | storeKeyMetadata id' m allowOverride =>
      have hsame := (r.others_storeMetadata id' m allowOverride).2.1
      exact (congrFun hsame id).trans (h.referenceAuxs id)
    | _ => exact h.referenceAuxs id
  setupDatas := by
    cases c with
    | storeSetupData id data =>
      exact congrArg (fun f => Function.update f id (some data)) h.setupDatas
    | deleteTemporaryKeyData id deleteKey =>
      have hupdate := congrArg (fun f => Function.update f id none) h.setupDatas
      cases deleteKey with
      | false => exact hupdate
      | true => exact hupdate
    | storeKeyMetadata id m allowOverride =>
      have hsame := (r.others_storeMetadata id m allowOverride).2.2.1
      exact h.setupDatas.trans hsame.symm
    | _ => exact h.setupDatas
  setupComms := by
    cases c with
    | storeSetupCommitments id commitments =>
      exact congrArg (fun f => Function.update f id (some commitments)) h.setupComms
    | deleteTemporaryKeyData id deleteKey =>
      have hupdate := congrArg (fun f => Function.update f id none) h.setupComms
      cases deleteKey with
      | false => exact hupdate
      | true => exact hupdate
    | storeKeyMetadata id m allowOverride =>
      have hsame := (r.others_storeMetadata id m allowOverride).2.2.2
      exact h.setupComms.trans hsame.symm
    | _ => exact h.setupComms

/-- What the two loads of a key answer. -/
theorem map_found_eq_iff {α : Type} {f : α → Answer} (hf : Function.Injective f)
    {entry entry' : Option α} :
    (InMemoryKeyPersistency.found entry).map f = (InMemoryKeyPersistency.found entry').map f ↔
      entry = entry' := by
  cases entry with
  | none =>
    cases entry' with
    | none => exact iff_of_true rfl rfl
    | some a' => exact iff_of_false nofun nofun
  | some a =>
    cases entry' with
    | none => exact iff_of_false nofun nofun
    | some a' =>
      rw [Option.some.injEq]
      constructor
      · intro h
        exact hf (Except.ok.inj h)
      · intro h
        rw [h]

/-- What stands is missing or is what was stored last. -/
theorem latest_eq_standing_iff {α : Type} (stored : Call → Option α) (id : ByteString)
    (calls : List Call) : latest stored calls = standing stored id calls ↔
      ((latest stored calls).isSome = true → (standing stored id calls).isSome = true) := by
  cases hs : standing stored id calls with
  | some a => exact iff_of_true (latest_of_standing hs) fun _ => rfl
  | none =>
    cases latest stored calls with
    | none => exact iff_of_true rfl nofun
    | some a => exact iff_of_false nofun fun h => Bool.false_ne_true (h rfl)

theorem answers_iff (h : Related calls p r) (c : Call) :
    (persistencyStep c p).1 = (referenceStep c r).1 ↔ Fits calls c := by
  cases c with
  | keyExist id =>
    have hstanding := latest_eq_standing_iff (storedKey id) id calls
    simp only [persistencyStep, referenceStep, InMemoryKeyPersistency.keyExist, h.keys,
      h.referenceKeys, Option.isSome_map, Fits, Except.ok.injEq, Answer.exist.injEq]
    constructor
    · intro hsame hlatest
      rwa [hsame] at hlatest
    · intro hfits
      rw [hstanding.2 hfits]
  | loadKey id =>
    simp only [persistencyStep, referenceStep, InMemoryKeyPersistency.loadKey, h.keys,
      h.referenceKeys, Fits]
    cases hs : standing (storedKey id) id calls with
    | some key =>
      obtain ⟨algorithm, key⟩ := key
      rw [latest_of_standing hs]
      simp only [Option.map_some, InMemoryKeyPersistency.found, Except.map, Except.ok.injEq,
        Answer.key.injEq, and_true, Option.isSome_some, true_implies, Option.some.injEq,
        Prod.mk.injEq, exists_and_left, exists_eq', eq_comm]
    | none =>
      cases latest (storedKey id) calls with
      | none => simp [InMemoryKeyPersistency.found, Except.map]
      | some key => simp [InMemoryKeyPersistency.found, Except.map]
  | loadKeyMetadata id =>
    have hinjective : Function.Injective Answer.metadata := fun _ _ heq => Answer.metadata.inj heq
    refine (map_found_eq_iff hinjective).trans ?_
    rw [h.metas, h.referenceMetas]
    exact Iff.rfl
  | loadAuxiliaryKeys id =>
    have hinjective : Function.Injective Answer.auxiliaryKeys :=
      fun _ _ heq => Answer.auxiliaryKeys.inj heq
    refine (map_found_eq_iff hinjective).trans ?_
    rw [h.auxs, h.referenceAuxs]
    exact latest_eq_standing_iff _ _ _
  | loadSetupData id =>
    refine iff_of_true ?_ trivial
    simp only [persistencyStep, referenceStep, InMemoryKeyPersistency.loadSetupData, h.setupDatas]
  | loadSetupCommitments id =>
    refine iff_of_true ?_ trivial
    simp only [persistencyStep, referenceStep, InMemoryKeyPersistency.loadSetupCommitments,
      h.setupComms]
  | _ => exact iff_of_true rfl trivial

end Simulation

/-- On every sequence of calls the persistency answers like a keyed store exactly when every
call fits. -/
theorem keyStore_iff (calls : List Call) :
    outcomes persistencyStep .empty calls = outcomes referenceStep .empty calls ↔
      EveryCall Fits calls :=
  outcomes_eq_iff Related related_start (fun _ _ _ c h => answers_iff h c)
    (fun _ _ _ c h _ => h.next c) calls

/-- A deleted key is still there. -/
theorem keyStore_fails : ¬ ∀ calls : List Call,
    outcomes persistencyStep .empty calls = outcomes referenceStep .empty calls := by
  intro h
  have hexist := (List.cons.inj (h [.keyExist [], .deleteTemporaryKeyData [] true,
    .storeKey [] .eddsaEd25519 (zeroBytes 32)])).1
  cases hexist

end MpcDemo.KeyStoreContract
