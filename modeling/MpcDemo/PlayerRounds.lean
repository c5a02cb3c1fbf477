import MpcDemo.PlayerTables
import MpcDemo.TotalRuns

/-!
# Rounds of operations of some players

Each player works on its own state. In a round every player of a set does one operation, in the
order of the ids, and the results are collected by player.
-/

namespace MpcDemo.PlayerRounds
open CosignerTypes FallibleState TotalRuns PlayerTables

variable {ε σ α : Type}

def onPlayer (i : ℕ) (x : EStateM ε σ α) : EStateM ε (ℕ → σ) α := fun w =>
  match x.run (w i) with
  | .ok a s => .ok a (Function.update w i s)
  | .error e s => .error e (Function.update w i s)

def eachPlayer (players : Finset ℕ) (f : ℕ → EStateM ε σ α) : EStateM ε (ℕ → σ) (PlayerMap α) := do
  let entries ← players.sort.mapM fun i => do
    let a ← onPlayer i (f i)
    pure (i, a)
  pure (NodePrograms.ofEntries entries)

section Order
variable {players : Finset ℕ}

theorem keys_table {V : Type} (players : Finset ℕ) (value : ℕ → V) :
    (table players value).keys = players.sort := by
  have hperm : (table players value).keys.Perm players.sort := by
    rw [List.perm_ext_iff_of_nodup Std.ExtTreeMap.nodup_keys (players.sort_nodup (· ≤ ·))]
    intro i
    rw [Std.ExtTreeMap.mem_keys, mem_table, Finset.mem_sort]
  have hordered : (table players value).keys.Pairwise (· ≤ ·) :=
    Std.ExtTreeMap.ordered_keys.imp fun h => (Nat.compare_eq_lt.1 h).le
  exact hperm.eq_of_pairwise (fun _ _ _ _ => Nat.le_antisymm) hordered
    (players.pairwise_sort (· ≤ ·))

/-- A sum over the sorted players is a sum over the players. -/
theorem sum_sort {M : Type} [AddCommMonoid M] (f : ℕ → M) :
    (players.sort.map f).sum = ∑ i ∈ players, f i := by
  rw [← Finset.sum_map_toList]
  exact ((Finset.sort_perm_toList players (· ≤ ·)).map f).sum_eq

end Order

variable {w : ℕ → σ} {players : Finset ℕ}

theorem returns_onPlayer {i : ℕ} {x : EStateM ε σ α} {post : α → σ → Prop}
    (h : Returns x (w i) post) :
    Returns (onPlayer i x) w fun a w' => post a (w' i) ∧ ∀ j, j ≠ i → w' j = w j := by
  obtain ⟨a, s, hrun, hpost⟩ := h
  refine ⟨a, Function.update w i s, ?_, ?_, fun j hj => Function.update_of_ne hj _ _⟩
  · show onPlayer i x w = _
    rw [onPlayer, hrun]
  · rwa [Function.update_self]

/-- What the players that are done have returned, and that the others have not moved. -/
structure RoundDone (post : ℕ → α → σ → Prop) (w : ℕ → σ) (done : List ℕ)
    (entries : List (ℕ × α)) (w' : ℕ → σ) : Prop where
  others : ∀ i, i ∉ done → w' i = w i
  entries : ∃ value : ℕ → α, entries = done.map (fun i => (i, value i)) ∧
    ∀ i ∈ done, post i (value i) (w' i)

theorem RoundDone.next {post : ℕ → α → σ → Prop} {done : List ℕ} {entries : List (ℕ × α)}
    {w' u : ℕ → σ} {i : ℕ} {a : α} (h : RoundDone post w done entries w') (hi : i ∉ done)
    (hpost : post i a (u i)) (hothers : ∀ j, j ≠ i → u j = w' j) :
    RoundDone post w (done ++ [i]) (entries ++ [(i, a)]) u := by
  obtain ⟨value, rfl, hdone⟩ := h.entries
  have hne : ∀ j ∈ done, j ≠ i := fun j hj heq => hi (heq ▸ hj)
  refine ⟨fun j hj => ?_, Function.update value i a, ?_, fun j hj => ?_⟩
  · rw [List.mem_append, List.mem_singleton, not_or] at hj
    rw [hothers j hj.2, h.others j hj.1]
  · rw [List.map_append, List.map_singleton, Function.update_self]
    refine congrArg (· ++ _) (List.map_congr_left fun j hj => ?_)
    rw [Function.update_of_ne (hne j hj)]
  · rcases List.mem_append.1 hj with hj | hj
    · rw [Function.update_of_ne (hne j hj), hothers j (hne j hj)]
      exact hdone j hj
    · obtain rfl := List.mem_singleton.1 hj
      rwa [Function.update_self]

/-- A round returns when the operation of each player does. -/
theorem returns_eachPlayer (hne : players.Nonempty) {f : ℕ → EStateM ε σ α}
    {post : ℕ → α → σ → Prop} (h : ∀ i ∈ players, Returns (f i) (w i) (post i)) :
    Returns (eachPlayer players f) w fun m w' =>
      (∀ i, i ∉ players → w' i = w i) ∧ ∃ value : ℕ → α, m = table players value ∧
        ∀ i ∈ players, post i (value i) (w' i) := by
  have hmem : ∀ i, i ∈ players.sort ↔ i ∈ players := fun i => Finset.mem_sort (· ≤ ·)
  have hnodup : players.sort.Nodup := players.sort_nodup (· ≤ ·)
  obtain ⟨first, hfirst⟩ := hne
  obtain ⟨some, -⟩ := h first hfirst
  have hloop := returns_mapM (s := w) (l := players.sort)
    (f := fun i => do
      let a ← onPlayer i (f i)
      pure (i, a))
    (RoundDone post w) ⟨fun _ _ => rfl, fun _ => some, rfl, fun i hi => absurd hi List.not_mem_nil⟩
    (by
      intro done i rest entries w' hl hdone
      have hi : i ∈ players := by
        rw [← hmem, hl]
        exact List.mem_append_right _ List.mem_cons_self
      have hnew : i ∉ done := by
        rw [hl] at hnodup
        exact fun hi => (List.nodup_append.1 hnodup).2.2 i hi i List.mem_cons_self rfl
      have hrun := h i hi
      rw [← hdone.others i hnew] at hrun
      apply (returns_onPlayer hrun).bind
      intro a u hu
      exact returns_pure (hdone.next hnew hu.1 hu.2))
  rw [eachPlayer]
  apply hloop.bind
  intro entries w' hdone
  obtain ⟨value, rfl, hpost⟩ := hdone.entries
  apply returns_pure
  exact ⟨fun i hi => hdone.others i fun hi' => hi ((hmem i).1 hi'), value, rfl,
    fun i hi => hpost i ((hmem i).2 hi)⟩

end MpcDemo.PlayerRounds
