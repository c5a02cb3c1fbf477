import MpcDemo.OutcomeRefinement
import MpcDemo.Persistencies

/-!
# The contract of the preprocessing stores

The interfaces describe arrays of a given size whose entries are consumed by loading them. The
mocks are maps without a size whose entries stay, and the server's has zeros where nothing is
stored.
-/

namespace MpcDemo.PreprocessingContract
open ByteStrings Ed25519Algebra CosignerTypes Persistencies CallHistories OutcomeRefinement

/-- An array whose slots are filled by storing and emptied by loading. -/
structure ConsumeOnceArray (α : Type) where
  size : ℕ
  slots : Fin size → Option α

namespace ConsumeOnceArray
variable {α : Type}

def create (size : ℕ) : ConsumeOnceArray α := ⟨size, fun _ => none⟩

def entry (a : ConsumeOnceArray α) (index : ℕ) : Option α :=
  if h : index < a.size then a.slots ⟨index, h⟩ else none

def assign (a : ConsumeOnceArray α) (index : ℕ) (value : Option α) : ConsumeOnceArray α :=
  ⟨a.size, fun i => if i.val = index then value else a.slots i⟩

def store (a : ConsumeOnceArray α) (index : ℕ) (value : α) : Option (ConsumeOnceArray α) :=
  if index < a.size then some (a.assign index (some value)) else none

/-- Load an entry and delete it. -/
def load (a : ConsumeOnceArray α) (index : ℕ) : Option (α × ConsumeOnceArray α) :=
  (a.entry index).map fun value => (value, a.assign index none)

@[simp] theorem size_create (size : ℕ) : (create size : ConsumeOnceArray α).size = size := rfl

@[simp] theorem size_assign (a : ConsumeOnceArray α) (index : ℕ) (value : Option α) :
    (a.assign index value).size = a.size := rfl

@[simp] theorem entry_create (size index : ℕ) :
    (create size : ConsumeOnceArray α).entry index = none := by
  rw [entry]
  split
  · rfl
  · rfl

theorem entry_assign (a : ConsumeOnceArray α) {index : ℕ} {value : Option α}
    (h : index < a.size ∨ value = none) (i : ℕ) :
    (a.assign index value).entry i = if i = index then value else a.entry i := by
  simp only [entry, assign]
  by_cases hi : i = index
  · subst hi
    by_cases hsize : i < a.size
    · simp [hsize]
    · have hvalue : value = none := h.resolve_left hsize
      simp [hsize, hvalue]
  · simp [hi]

theorem assign_none {a : ConsumeOnceArray α} {index : ℕ} (h : a.entry index = none) :
    a.assign index none = a := by
  rw [assign]
  congr 1
  funext i
  by_cases hi : i.val = index
  · rw [if_pos hi, ← h, entry, dif_pos (hi ▸ i.isLt)]
    exact congrArg a.slots (Fin.ext hi.symm)
  · rw [if_neg hi]

end ConsumeOnceArray

inductive Call (α : Type)
  | createPreprocessedData (keyId : ByteString) (size : ℕ)
  | storePreprocessedData (keyId : ByteString) (index : ℕ) (value : α)
  | loadPreprocessedData (keyId : ByteString) (index : ℕ)
  | deletePreprocessedData (keyId : ByteString)

inductive Outcome (α : Type)
  | returned
  | value (a : α)
  | thrown

section Reference
variable {α : Type}

/-- One array for each key id; without an array no slot. -/
abbrev Arrays (α : Type) := ByteString → ConsumeOnceArray α

def noArrays : Arrays α := fun _ => .create 0

def referenceStep : Call α → Arrays α → Outcome α × Arrays α
  | .createPreprocessedData keyId size, arrays =>
    (.returned, Function.update arrays keyId (.create size))
  | .storePreprocessedData keyId index value, arrays =>
    match (arrays keyId).store index value with
    | some array => (.returned, Function.update arrays keyId array)
    | none => (.thrown, arrays)
  | .loadPreprocessedData keyId index, arrays =>
    match (arrays keyId).load index with
    | some (value, array) => (.value value, Function.update arrays keyId array)
    | none => (.thrown, arrays)
  | .deletePreprocessedData keyId, arrays =>
    (.returned, Function.update arrays keyId (.create 0))

end Reference

section Mocks

/-- A value, or the exception of a load. -/
def loaded {α : Type} : Except Failure α → Outcome α
  | .ok a => .value a
  | .error _ => .thrown

def clientStep : Call DrawnScalar → MockClientPersistency →
    Outcome DrawnScalar × MockClientPersistency
  | .createPreprocessedData keyId size, p => (.returned, p.createPreprocessedData keyId size)
  | .storePreprocessedData keyId index k, p => (.returned, p.storePreprocessedData keyId index k)
  | .loadPreprocessedData keyId index, p => (loaded (p.loadPreprocessedData keyId index), p)
  | .deletePreprocessedData keyId, p => (.returned, p.deletePreprocessedData keyId)

def serverStep : Call EddsaCommitment → MockServerPersistency →
    Outcome EddsaCommitment × MockServerPersistency
  | .createPreprocessedData keyId size, p => (.returned, p.createPreprocessedData keyId size)
  | .storePreprocessedData keyId index RCommitment, p =>
    (.returned, p.storePreprocessedData keyId index RCommitment)
  | .loadPreprocessedData keyId index, p => (.value (p.loadPreprocessedData keyId index), p)
  | .deletePreprocessedData keyId, p => (.returned, p.deletePreprocessedData keyId)

end Mocks

section Histories
variable {α : Type}

/-- The size the array of a key id was last created with. -/
def arraySize (keyId : ByteString) : List (Call α) → ℕ
  | [] => 0
  | .createPreprocessedData keyId' size :: earlier =>
    if keyId' = keyId then size else arraySize keyId earlier
  | .deletePreprocessedData keyId' :: earlier =>
    if keyId' = keyId then 0 else arraySize keyId earlier
  | _ :: earlier => arraySize keyId earlier

/-- The value last stored at an index since the array was created or deleted. -/
def lastStored (keyId : ByteString) (index : ℕ) : List (Call α) → Option α
  | [] => none
  | .createPreprocessedData keyId' _ :: earlier =>
    if keyId' = keyId then none else lastStored keyId index earlier
  | .storePreprocessedData keyId' index' value :: earlier =>
    if keyId' = keyId ∧ index' = index then some value else lastStored keyId index earlier
  | .loadPreprocessedData .. :: earlier => lastStored keyId index earlier
  | .deletePreprocessedData keyId' :: earlier =>
    if keyId' = keyId then none else lastStored keyId index earlier

/-- An index has been loaded since a value was last stored there. -/
def Spent (keyId : ByteString) (index : ℕ) : List (Call α) → Prop
  | [] => False
  | .createPreprocessedData keyId' _ :: earlier => keyId' ≠ keyId ∧ Spent keyId index earlier
  | .storePreprocessedData keyId' index' _ :: earlier =>
    ¬ (keyId' = keyId ∧ index' = index) ∧ Spent keyId index earlier
  | .loadPreprocessedData keyId' index' :: earlier =>
    keyId' = keyId ∧ index' = index ∨ Spent keyId index earlier
  | .deletePreprocessedData keyId' :: earlier => keyId' ≠ keyId ∧ Spent keyId index earlier

/-- Stores stay below the size and no index is loaded again before it is stored again. -/
def FitsClient (earlier : List (Call α)) : Call α → Prop
  | .storePreprocessedData keyId index _ => index < arraySize keyId earlier
  | .loadPreprocessedData keyId index =>
    (lastStored keyId index earlier).isSome = true → ¬ Spent keyId index earlier
  | _ => True

/-- Stores stay below the size, and an index is loaded only when it is stored and not loaded
since. -/
def FitsServer (earlier : List (Call α)) : Call α → Prop
  | .storePreprocessedData keyId index _ => index < arraySize keyId earlier
  | .loadPreprocessedData keyId index =>
    (lastStored keyId index earlier).isSome = true ∧ ¬ Spent keyId index earlier
  | _ => True

/-- What the entries of a mock and the reference hold after some calls. -/
structure Related (calls : List (Call α)) (entries : ByteString → ℕ → Option α)
    (arrays : Arrays α) : Prop where
  size : ∀ keyId, (arrays keyId).size = arraySize keyId calls
  stored : ∀ keyId index, entries keyId index = lastStored keyId index calls
  spent : ∀ keyId index, Spent keyId index calls → (arrays keyId).entry index = none
  full : ∀ keyId index, ¬ Spent keyId index calls →
    (arrays keyId).entry index = lastStored keyId index calls

variable {calls : List (Call α)} {entries : ByteString → ℕ → Option α} {arrays : Arrays α}

theorem related_start : Related [] (fun _ _ => (none : Option α)) noArrays where
  size _ := rfl
  stored _ _ := rfl
  spent _ _ h := h.elim
  full _ _ _ := ConsumeOnceArray.entry_create 0 _

/-- A call that gives a key id a new array. -/
theorem Related.renew (h : Related calls entries arrays) {c : Call α} {keyId : ByteString}
    {size : ℕ} (hsize : ∀ i, arraySize i (c :: calls) = if keyId = i then size else
      arraySize i calls)
    (hstored : ∀ i index, lastStored i index (c :: calls) = if keyId = i then none else
      lastStored i index calls)
    (hspent : ∀ i index, Spent i index (c :: calls) ↔ keyId ≠ i ∧ Spent i index calls) :
    Related (c :: calls) (Function.update entries keyId fun _ => none)
      (Function.update arrays keyId (.create size)) := by
  have hself : ∀ i, keyId = i → (Function.update arrays keyId (.create size)) i =
      .create size := fun i hi => by rw [← hi, Function.update_self]
  have hother : ∀ i, keyId ≠ i → (Function.update arrays keyId (.create size)) i = arrays i :=
    fun i hi => Function.update_of_ne hi.symm _ _
  refine ⟨fun i => ?_, fun i index => ?_, fun i index hi => ?_, fun i index hi => ?_⟩
  · rw [hsize]
    by_cases hkey : keyId = i
    · rw [hself i hkey, if_pos hkey]
      rfl
    · rw [hother i hkey, if_neg hkey, h.size]
  · rw [hstored]
    by_cases hkey : keyId = i
    · rw [← hkey, Function.update_self, if_pos rfl]
    · rw [Function.update_of_ne (Ne.symm hkey), if_neg hkey, h.stored]
  · obtain ⟨hkey, hspent⟩ := (hspent i index).1 hi
    rw [hother i hkey, h.spent i index hspent]
  · rw [hspent] at hi
    rw [hstored]
    by_cases hkey : keyId = i
    · rw [hself i hkey, if_pos hkey, ConsumeOnceArray.entry_create]
    · rw [hother i hkey, if_neg hkey, h.full i index fun hs => hi ⟨hkey, hs⟩]

theorem Related.store (h : Related calls entries arrays) {keyId : ByteString} {index : ℕ}
    (value : α) (hindex : index < arraySize keyId calls) :
    Related (.storePreprocessedData keyId index value :: calls)
      (Function.update entries keyId (Function.update (entries keyId) index (some value)))
      (Function.update arrays keyId ((arrays keyId).assign index (some value))) := by
  have hentry : ∀ j, ((arrays keyId).assign index (some value)).entry j =
      if j = index then some value else (arrays keyId).entry j :=
    (arrays keyId).entry_assign (Or.inl (by rwa [h.size keyId]))
  refine ⟨fun i => ?_, fun i j => ?_, fun i j hi => ?_, fun i j hi => ?_⟩
  · by_cases hkey : keyId = i
    · rw [← hkey, Function.update_self, ConsumeOnceArray.size_assign, h.size]
      rfl
    · rw [Function.update_of_ne (Ne.symm hkey), h.size]
      rfl
  · rw [lastStored]
    by_cases hkey : keyId = i
    · rw [← hkey, Function.update_self]
      by_cases hj : index = j
      · rw [← hj, Function.update_self, if_pos ⟨rfl, rfl⟩]
      · rw [Function.update_of_ne (Ne.symm hj), if_neg fun hboth => hj hboth.2, h.stored]
    · rw [Function.update_of_ne (Ne.symm hkey), if_neg fun hboth => hkey hboth.1, h.stored]
  · obtain ⟨hne, hspent⟩ := hi
    by_cases hkey : keyId = i
    · subst hkey
      rw [Function.update_self, hentry, if_neg fun hj => hne ⟨rfl, hj.symm⟩,
        h.spent keyId j hspent]
    · rw [Function.update_of_ne (Ne.symm hkey), h.spent i j hspent]
  · rw [lastStored]
    by_cases hboth : keyId = i ∧ index = j
    · obtain ⟨rfl, rfl⟩ := hboth
      rw [Function.update_self, hentry, if_pos rfl, if_pos ⟨rfl, rfl⟩]
    · have hfull := h.full i j fun hs => hi ⟨hboth, hs⟩
      rw [if_neg hboth]
      by_cases hkey : keyId = i
      · subst hkey
        rw [Function.update_self, hentry, if_neg fun hj => hboth ⟨rfl, hj.symm⟩, hfull]
      · rw [Function.update_of_ne (Ne.symm hkey), hfull]

theorem Related.load (h : Related calls entries arrays) (keyId : ByteString) (index : ℕ) :
    Related (.loadPreprocessedData keyId index :: calls) entries
      (Function.update arrays keyId ((arrays keyId).assign index none)) := by
  have hentry : ∀ j, ((arrays keyId).assign index none).entry j =
      if j = index then none else (arrays keyId).entry j :=
    (arrays keyId).entry_assign (Or.inr rfl)
  refine ⟨fun i => ?_, h.stored, fun i j hi => ?_, fun i j hi => ?_⟩
  · by_cases hkey : keyId = i
    · rw [← hkey, Function.update_self, ConsumeOnceArray.size_assign, h.size]
      rfl
    · rw [Function.update_of_ne (Ne.symm hkey), h.size]
      rfl
  · by_cases hkey : keyId = i
    · subst hkey
      rw [Function.update_self, hentry]
      by_cases hj : j = index
      · rw [if_pos hj]
      · rw [if_neg hj, h.spent keyId j (hi.resolve_left fun hboth => hj hboth.2.symm)]
    · rw [Function.update_of_ne (Ne.symm hkey),
        h.spent i j (hi.resolve_left fun hboth => hkey hboth.1)]
  · have hfull := h.full i j fun hs => hi (Or.inr hs)
    by_cases hkey : keyId = i
    · subst hkey
      rw [Function.update_self, hentry, if_neg fun hj => hi (Or.inl ⟨rfl, hj.symm⟩), hfull]
      rfl
    · rw [Function.update_of_ne (Ne.symm hkey), hfull]
      rfl

/-- What a mock without sizes that keeps its entries does with a call. -/
def nextEntries : Call α → (ByteString → ℕ → Option α) → ByteString → ℕ → Option α
  | .createPreprocessedData keyId _, entries => Function.update entries keyId fun _ => none
  | .storePreprocessedData keyId index value, entries =>
    Function.update entries keyId (Function.update (entries keyId) index (some value))
  | .loadPreprocessedData .., entries => entries
  | .deletePreprocessedData keyId, entries => Function.update entries keyId fun _ => none

/-- Stores stay below the size. -/
def InRange (earlier : List (Call α)) : Call α → Prop
  | .storePreprocessedData keyId index _ => index < arraySize keyId earlier
  | _ => True

theorem Related.next (h : Related calls entries arrays) {c : Call α} (hc : InRange calls c) :
    Related (c :: calls) (nextEntries c entries) (referenceStep c arrays).2 := by
  cases c with
  | createPreprocessedData keyId size =>
    exact h.renew (fun _ => rfl) (fun _ _ => rfl) fun _ _ => Iff.rfl
  | deletePreprocessedData keyId =>
    exact h.renew (fun _ => rfl) (fun _ _ => rfl) fun _ _ => Iff.rfl
  | storePreprocessedData keyId index value =>
    have hindex : index < (arrays keyId).size := by rwa [h.size keyId]
    simp only [referenceStep, ConsumeOnceArray.store, if_pos hindex]
    exact h.store value hc
  | loadPreprocessedData keyId index =>
    have hload := h.load keyId index
    simp only [referenceStep, ConsumeOnceArray.load]
    cases hentry : (arrays keyId).entry index with
    | some value => exact hload
    | none =>
      rw [ConsumeOnceArray.assign_none hentry, Function.update_eq_self] at hload
      exact hload

/-- A store is answered alike exactly when it is in range. -/
theorem Related.store_returned_iff (h : Related calls entries arrays) (keyId : ByteString)
    (index : ℕ) (value : α) :
    .returned = (referenceStep (.storePreprocessedData keyId index value) arrays).1 ↔
      index < arraySize keyId calls := by
  rw [← h.size keyId]
  simp only [referenceStep, ConsumeOnceArray.store]
  by_cases hindex : index < (arrays keyId).size
  · simp [hindex]
  · simp [hindex]

/-- What the reference answers to a load. -/
theorem Related.load_outcome (h : Related calls entries arrays) (keyId : ByteString) (index : ℕ) :
    (∃ value, lastStored keyId index calls = some value ∧ ¬ Spent keyId index calls ∧
        (referenceStep (.loadPreprocessedData keyId index) arrays).1 = .value value) ∨
      ((lastStored keyId index calls = none ∨ Spent keyId index calls) ∧
        (referenceStep (.loadPreprocessedData keyId index) arrays).1 = .thrown) := by
  simp only [referenceStep, ConsumeOnceArray.load]
  by_cases hspent : Spent keyId index calls
  · rw [h.spent keyId index hspent]
    exact Or.inr ⟨Or.inr hspent, rfl⟩
  · rw [h.full keyId index hspent]
    cases hstored : lastStored keyId index calls with
    | none => exact Or.inr ⟨Or.inl rfl, rfl⟩
    | some value => exact Or.inl ⟨value, rfl, hspent, rfl⟩

end Histories

section Client

theorem storedNonces_clientStep (c : Call DrawnScalar) (p : MockClientPersistency) :
    (clientStep c p).2.storedNonces = nextEntries c p.storedNonces := by
  cases c with
  | _ => rfl

variable {calls : List (Call DrawnScalar)} {p : MockClientPersistency}
variable {arrays : Arrays DrawnScalar}

theorem client_answers_iff (h : Related calls p.storedNonces arrays) (c : Call DrawnScalar) :
    (clientStep c p).1 = (referenceStep c arrays).1 ↔ FitsClient calls c := by
  cases c with
  | createPreprocessedData => exact iff_of_true rfl trivial
  | deletePreprocessedData => exact iff_of_true rfl trivial
  | storePreprocessedData keyId index k => exact h.store_returned_iff keyId index k
  | loadPreprocessedData keyId index =>
    simp only [clientStep, MockClientPersistency.loadPreprocessedData, h.stored keyId index,
      FitsClient]
    rcases h.load_outcome keyId index with ⟨k, hk, hspent, href⟩ | ⟨hnone | hspent, href⟩
    · rw [href, hk]
      exact iff_of_true rfl fun _ => hspent
    · rw [href, hnone]
      exact iff_of_true rfl nofun
    · rw [href]
      cases hk : lastStored keyId index calls with
      | none => exact iff_of_true rfl nofun
      | some k => exact iff_of_false nofun fun hfits => hfits rfl hspent

end Client

section Server

theorem preprocessedData_serverStep (c : Call EddsaCommitment) (p : MockServerPersistency) :
    (serverStep c p).2.preprocessedData = nextEntries c p.preprocessedData := by
  cases c with
  | _ => rfl

variable {calls : List (Call EddsaCommitment)} {p : MockServerPersistency}
variable {arrays : Arrays EddsaCommitment}

theorem server_answers_iff (h : Related calls p.preprocessedData arrays)
    (c : Call EddsaCommitment) :
    (serverStep c p).1 = (referenceStep c arrays).1 ↔ FitsServer calls c := by
  cases c with
  | createPreprocessedData => exact iff_of_true rfl trivial
  | deletePreprocessedData => exact iff_of_true rfl trivial
  | storePreprocessedData keyId index RCommitment =>
    exact h.store_returned_iff keyId index RCommitment
  | loadPreprocessedData keyId index =>
    simp only [serverStep, MockServerPersistency.loadPreprocessedData, h.stored keyId index,
      FitsServer]
    rcases h.load_outcome keyId index with ⟨k, hk, hspent, href⟩ | ⟨hmissing, href⟩
    · rw [href, hk]
      exact iff_of_true rfl ⟨rfl, hspent⟩
    · rw [href]
      refine iff_of_false nofun fun hfits => ?_
      rcases hmissing with hnone | hspent
      · rw [hnone] at hfits
        exact Bool.false_ne_true hfits.1
      · exact hfits.2 hspent

end Server

/-- The client's store answers like a consume-once array exactly when stores are in range and
no index is loaded again, the server's when, besides, only stored indices are loaded. -/
theorem preprocessingStores_iff (clientCalls : List (Call DrawnScalar))
    (serverCalls : List (Call EddsaCommitment)) :
    (outcomes clientStep .empty clientCalls = outcomes referenceStep noArrays clientCalls ↔
        EveryCall FitsClient clientCalls) ∧
      (outcomes serverStep .empty serverCalls = outcomes referenceStep noArrays serverCalls ↔
        EveryCall FitsServer serverCalls) := by
  constructor
  · refine outcomes_eq_iff (fun calls p arrays => Related calls p.storedNonces arrays)
      related_start (fun calls p arrays c h => client_answers_iff h c) ?_ clientCalls
    intro calls p arrays c h hfits
    rw [storedNonces_clientStep]
    refine h.next ?_
    cases c with
    | storePreprocessedData => exact hfits
    | _ => trivial
  · refine outcomes_eq_iff (fun calls p arrays => Related calls p.preprocessedData arrays)
      related_start (fun calls p arrays c h => server_answers_iff h c) ?_ serverCalls
    intro calls p arrays c h hfits
    rw [preprocessedData_serverStep]
    refine h.next ?_
    cases c with
    | storePreprocessedData => exact hfits
    | _ => trivial

/-- The client's store gives a nonce out twice, and the server's gives out what it never got. -/
theorem preprocessingStores_fail :
    (¬ ∀ calls : List (Call DrawnScalar),
      outcomes clientStep .empty calls = outcomes referenceStep noArrays calls) ∧
    ¬ ∀ calls : List (Call EddsaCommitment),
      outcomes serverStep .empty calls = outcomes referenceStep noArrays calls := by
  constructor
  · intro h
    have hload := (List.cons.inj (h [.loadPreprocessedData [] 0, .loadPreprocessedData [] 0,
      .storePreprocessedData [] 0 ⟨0, zeroBytes 32⟩, .createPreprocessedData [] 1])).1
    cases hload
  · intro h
    have hload := (List.cons.inj (h [.loadPreprocessedData [] 0])).1
    cases hload

end MpcDemo.PreprocessingContract
