import MpcDemo.ByteStrings

/-!
# The relay

`relay_server.py`: messages are listed by round, and a poll is answered once the list is long
enough. A request whose body or arguments the relay cannot read changes nothing and is left
out.
-/

namespace MpcDemo.Relay
open ByteStrings

structure Message (ι δ : Type) where
  senderId : ι
  data : δ
  deriving DecidableEq

/-- The dictionary of the messages by round, with the empty list as its default. -/
abbrev Messages (ρ ι δ : Type) := ρ → List (Message ι δ)

inductive Request (ρ ι δ : Type)
  | reset
  | broadcast (roundId : ρ) (senderId : ι) (data : δ)
  | poll (roundId : ρ) (expectedCount : ℤ)

variable {ρ ι δ : Type}

def reset : Messages ρ ι δ := fun _ => []

def broadcast [DecidableEq ρ] (messages : Messages ρ ι δ) (roundId : ρ) (senderId : ι) (data : δ) :
    Messages ρ ι δ :=
  Function.update messages roundId (messages roundId ++ [⟨senderId, data⟩])

section Polls
variable [DecidableEq ι]

/-- Assign to a key of a dictionary that keeps the order of the first assignments. -/
def assign (entries : List (ι × δ)) (key : ι) (data : δ) : List (ι × δ) :=
  if key ∈ entries.map Prod.fst then entries.map fun e => if e.1 = key then (key, data) else e
  else entries ++ [(key, data)]

def dataMap (roundMsgs : List (Message ι δ)) : List (ι × δ) :=
  roundMsgs.foldl (fun entries m => assign entries m.senderId m.data) []

def Ready (messages : Messages ρ ι δ) (roundId : ρ) (expectedCount : ℤ) : Prop :=
  expectedCount ≤ (messages roundId).length

instance (messages : Messages ρ ι δ) (roundId : ρ) (expectedCount : ℤ) :
    Decidable (Ready messages roundId expectedCount) := inferInstanceAs (Decidable (_ ≤ _))

/-- The answer to a poll: the map of the round's data, or nothing when it is not ready. -/
def poll (messages : Messages ρ ι δ) (roundId : ρ) (expectedCount : ℤ) : Option (List (ι × δ)) :=
  if Ready messages roundId expectedCount then some (dataMap (messages roundId)) else none

theorem poll_isSome_iff {messages : Messages ρ ι δ} {roundId : ρ} {expectedCount : ℤ} :
    (poll messages roundId expectedCount).isSome = true ↔
      Ready messages roundId expectedCount := by
  rw [poll]
  split
  · exact iff_of_true rfl ‹_›
  · rename_i h
    exact iff_of_false Bool.false_ne_true h

theorem assign_of_not_mem {entries : List (ι × δ)} {key : ι} {data : δ}
    (h : key ∉ entries.map Prod.fst) : assign entries key data = entries ++ [(key, data)] := by
  rw [assign, if_neg h]

theorem dataMap_append (l : List (Message ι δ)) (m : Message ι δ) :
    dataMap (l ++ [m]) = assign (dataMap l) m.senderId m.data := by
  rw [dataMap, List.foldl_append, dataMap]
  rfl

/-- When no sender has posted twice the map lists the messages as they came. -/
theorem dataMap_of_nodup {roundMsgs : List (Message ι δ)}
    (h : (roundMsgs.map Message.senderId).Nodup) :
    dataMap roundMsgs = roundMsgs.map fun m => (m.senderId, m.data) := by
  induction roundMsgs using List.reverseRecOn with
  | nil => rfl
  | append_singleton l m ih =>
    rw [List.map_append, List.map_singleton, List.nodup_append] at h
    obtain ⟨hl, -, hm⟩ := h
    have hnew : m.senderId ∉ (l.map fun m => (m.senderId, m.data)).map Prod.fst := by
      rw [List.map_map]
      exact fun hmem => hm _ hmem _ (List.mem_singleton.2 rfl) rfl
    rw [dataMap_append, ih hl, assign_of_not_mem hnew, List.map_append, List.map_singleton]

/-- The data of a sender's last message. -/
def lastData (roundMsgs : List (Message ι δ)) (senderId : ι) : Option δ :=
  roundMsgs.foldl (fun last m => if m.senderId = senderId then some m.data else last) none

theorem lastData_append (l : List (Message ι δ)) (m : Message ι δ) (i : ι) :
    lastData (l ++ [m]) i = if m.senderId = i then some m.data else lastData l i := by
  rw [lastData, List.foldl_append]
  rfl

theorem mem_assign_iff {entries : List (ι × δ)} {key i : ι} {data d : δ} :
    (i, d) ∈ assign entries key data ↔
      i = key ∧ d = data ∨ i ≠ key ∧ (i, d) ∈ entries := by
  rw [assign]
  split
  · rename_i hkey
    rw [List.mem_map]
    constructor
    · intro h
      obtain ⟨e, he, heq⟩ := h
      by_cases hk : e.1 = key
      · rw [if_pos hk, Prod.mk.injEq] at heq
        exact Or.inl ⟨heq.1.symm, heq.2.symm⟩
      · rw [if_neg hk] at heq
        rw [heq] at he hk
        exact Or.inr ⟨hk, he⟩
    · intro h
      rcases h with ⟨rfl, rfl⟩ | ⟨hne, hmem⟩
      · obtain ⟨e, he, heq⟩ := List.mem_map.1 hkey
        exact ⟨e, he, if_pos heq⟩
      · exact ⟨(i, d), hmem, if_neg hne⟩
  · rename_i hkey
    rw [List.mem_append, List.mem_singleton, Prod.mk.injEq]
    constructor
    · intro h
      rcases h with hmem | hnew
      · exact Or.inr ⟨fun heq => hkey (List.mem_map.2 ⟨_, hmem, heq⟩), hmem⟩
      · exact Or.inl hnew
    · intro h
      rcases h with hnew | ⟨-, hmem⟩
      · exact Or.inr hnew
      · exact Or.inl hmem

/-- The map has the last data of every sender. -/
theorem mem_dataMap_iff {roundMsgs : List (Message ι δ)} {i : ι} {d : δ} :
    (i, d) ∈ dataMap roundMsgs ↔ lastData roundMsgs i = some d := by
  induction roundMsgs using List.reverseRecOn with
  | nil => simp [dataMap, lastData]
  | append_singleton l m ih =>
    rw [dataMap_append, mem_assign_iff, ih, lastData_append]
    by_cases h : m.senderId = i
    · subst h
      simp [eq_comm]
    · simp [h, Ne.symm h]

theorem map_fst_assign {entries : List (ι × δ)} {key : ι} {data : δ}
    (h : key ∈ entries.map Prod.fst) :
    (assign entries key data).map Prod.fst = entries.map Prod.fst := by
  rw [assign, if_pos h, List.map_map]
  apply List.map_congr_left
  intro e _
  by_cases hk : e.1 = key
  · simp [hk]
  · simp [hk]

/-- No sender is listed twice. -/
theorem nodup_dataMap (roundMsgs : List (Message ι δ)) :
    ((dataMap roundMsgs).map Prod.fst).Nodup := by
  induction roundMsgs using List.reverseRecOn with
  | nil => exact List.nodup_nil
  | append_singleton l m ih =>
    rw [dataMap_append]
    by_cases h : m.senderId ∈ (dataMap l).map Prod.fst
    · rwa [map_fst_assign h]
    · rw [assign_of_not_mem h, List.map_append, List.map_singleton, List.nodup_append]
      refine ⟨ih, List.nodup_singleton _, fun i hi j hj heq => h ?_⟩
      have hsender : i = m.senderId := heq.trans (List.mem_singleton.1 hj)
      exact hsender ▸ hi

theorem lastData_isSome_iff {roundMsgs : List (Message ι δ)} {i : ι} :
    (lastData roundMsgs i).isSome = true ↔ ∃ m ∈ roundMsgs, m.senderId = i := by
  induction roundMsgs using List.reverseRecOn with
  | nil => simp [lastData]
  | append_singleton l m ih =>
    rw [lastData_append]
    by_cases h : m.senderId = i
    · simp [h]
    · simp only [h, if_false, ih, List.mem_append, List.mem_singleton]
      constructor
      · intro hex
        obtain ⟨m', hm', heq⟩ := hex
        exact ⟨m', Or.inl hm', heq⟩
      · intro hex
        obtain ⟨m', hm' | hm', heq⟩ := hex
        · exact ⟨m', hm', heq⟩
        · rw [hm'] at heq
          exact absurd heq h

theorem exists_of_lastData {roundMsgs : List (Message ι δ)} {i : ι} {d : δ}
    (h : lastData roundMsgs i = some d) : ∃ m ∈ roundMsgs, m.senderId = i ∧ m.data = d := by
  induction roundMsgs using List.reverseRecOn with
  | nil => cases h
  | append_singleton l m ih =>
    rw [lastData_append] at h
    by_cases hm : m.senderId = i
    · rw [if_pos hm] at h
      exact ⟨m, List.mem_append_right l List.mem_cons_self, hm, Option.some.inj h⟩
    · rw [if_neg hm] at h
      obtain ⟨m', hm', heq⟩ := ih h
      exact ⟨m', List.mem_append_left _ hm', heq⟩

end Polls

section Histories
variable [DecidableEq ρ]

def perform (messages : Messages ρ ι δ) : Request ρ ι δ → Messages ρ ι δ
  | .reset => reset
  | .broadcast roundId senderId data => broadcast messages roundId senderId data
  | .poll .. => messages

/-- The messages after some requests, the latest first. -/
def messagesAfter : List (Request ρ ι δ) → Messages ρ ι δ
  | [] => fun _ => []
  | request :: earlier => perform (messagesAfter earlier) request

/-- Who has posted to a round since the last reset, the latest first. -/
def senders (roundId : ρ) : List (Request ρ ι δ) → List ι
  | [] => []
  | .reset :: _ => []
  | .broadcast roundId' senderId _ :: earlier =>
    if roundId' = roundId then senderId :: senders roundId earlier else senders roundId earlier
  | .poll .. :: earlier => senders roundId earlier

theorem map_senderId_messagesAfter (roundId : ρ) (history : List (Request ρ ι δ)) :
    (messagesAfter history roundId).map Message.senderId = (senders roundId history).reverse := by
  induction history with
  | nil => rfl
  | cons request earlier ih =>
    cases request with
    | reset => rfl
    | poll => exact ih
    | broadcast roundId' senderId data =>
      simp only [messagesAfter, perform, broadcast, senders]
      by_cases h : roundId' = roundId
      · subst h
        rw [Function.update_self, List.map_append, ih, if_pos rfl, List.reverse_cons]
        rfl
      · rw [Function.update_of_ne (Ne.symm h), ih, if_neg h]

theorem length_messagesAfter (roundId : ρ) (history : List (Request ρ ι δ)) :
    (messagesAfter history roundId).length = (senders roundId history).length := by
  have h := congrArg List.length (map_senderId_messagesAfter roundId history)
  rwa [List.length_map, List.length_reverse] at h

end Histories

end MpcDemo.Relay
