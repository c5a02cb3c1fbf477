import MpcDemo.FallibleState

/-!
# Computations that return

Forward rules for `EStateM`: a computation returns from a state with a result and a new state
that satisfy a postcondition. A long operation is followed step by step, and a loop by what holds
after each part of it.
-/

namespace MpcDemo.TotalRuns
open FallibleState

variable {ε σ τ α β : Type}

/-- The computation does not fail, and what it returns satisfies the postcondition. -/
def Returns (x : EStateM ε σ α) (s : σ) (post : α → σ → Prop) : Prop :=
  ∃ a t, x.run s = .ok a t ∧ post a t

variable {x : EStateM ε σ α} {f : α → EStateM ε σ β} {s : σ} {post mid : α → σ → Prop}

theorem Returns.imp {post' : α → σ → Prop} (h : Returns x s post)
    (himp : ∀ a t, post a t → post' a t) : Returns x s post' := by
  obtain ⟨a, t, hrun, hpost⟩ := h
  exact ⟨a, t, hrun, himp a t hpost⟩

theorem Returns.bind {post : β → σ → Prop} (hx : Returns x s mid)
    (hf : ∀ a t, mid a t → Returns (f a) t post) : Returns (x >>= f) s post := by
  obtain ⟨a, t, hrun, hmid⟩ := hx
  obtain ⟨b, u, hrun', hpost⟩ := hf a t hmid
  exact ⟨b, u, run_bind_ok_iff.2 ⟨a, t, hrun, hrun'⟩, hpost⟩

theorem returns_pure {a : α} (h : post a s) : Returns (pure a : EStateM ε σ α) s post :=
  ⟨a, s, rfl, h⟩

/-- A step that leaves the state as it is and returns a known value. -/
theorem Returns.bind_of_run {a : α} {post : β → σ → Prop} (hx : x.run s = .ok a s)
    (hf : Returns (f a) s post) : Returns (x >>= f) s post := by
  obtain ⟨b, t, hrun, hpost⟩ := hf
  exact ⟨b, t, run_bind_ok_iff.2 ⟨a, s, hx, hrun⟩, hpost⟩

theorem returns_require_bind {p : Prop} {_ : Decidable p} {e : ε} {f : Unit → EStateM ε σ β}
    {post : β → σ → Prop} (hp : p) (hf : Returns (f ()) s post) :
    Returns (require p e >>= f) s post :=
  .bind_of_run (run_require_ok_iff.2 ⟨hp, rfl⟩) hf

theorem returns_ofExcept_bind {r : Except ε α} {a : α} {post : β → σ → Prop} (hr : r = .ok a)
    (hf : Returns (f a) s post) : Returns (ofExcept r >>= f) s post :=
  .bind_of_run (run_ofExcept_ok_iff.2 ⟨hr, rfl⟩) hf

theorem returns_inspect_bind {g : σ → Except ε α} {a : α} {post : β → σ → Prop} (hg : g s = .ok a)
    (hf : Returns (f a) s post) : Returns (inspect g >>= f) s post :=
  .bind_of_run (run_inspect_of_ok hg) hf

section Loops

variable {f : α → EStateM ε σ β} {l : List α}

/-- What holds of the part of a list that is done, its results and the state, holds at the end of
a mapped loop. -/
theorem returns_mapM (I : List α → List β → σ → Prop) (hstart : I [] [] s)
    (hstep : ∀ done a rest bs t, l = done ++ a :: rest → I done bs t →
      Returns (f a) t fun b u => I (done ++ [a]) (bs ++ [b]) u) :
    Returns (l.mapM f) s fun bs t => I l bs t := by
  have hrest : ∀ rest done bs t, l = done ++ rest → I done bs t →
      Returns (rest.mapM f) t fun cs u => I l (bs ++ cs) u := by
    intro rest
    induction rest with
    | nil =>
      intro done bs t hl hI
      rw [List.append_nil] at hl
      rw [hl, List.mapM_nil]
      apply returns_pure
      rwa [List.append_nil]
    | cons a rest ih =>
      intro done bs t hl hI
      rw [List.mapM_cons]
      apply (hstep done a rest bs t hl hI).bind
      intro b u hb
      have hl' : l = done ++ [a] ++ rest := by rw [hl, List.append_assoc]; rfl
      apply (ih (done ++ [a]) (bs ++ [b]) u hl' hb).bind
      intro cs v hcs
      apply returns_pure
      rwa [List.append_assoc] at hcs
  exact hrest l [] [] s rfl hstart

/-- A loop for its effects. -/
theorem returns_forM {f : α → EStateM ε σ Unit} (I : List α → σ → Prop) (hstart : I [] s)
    (hstep : ∀ done a rest t, l = done ++ a :: rest → I done t →
      Returns (f a) t fun _ u => I (done ++ [a]) u) :
    Returns (l.forM f) s fun _ t => I l t := by
  have hrest : ∀ rest done t, l = done ++ rest → I done t →
      Returns (rest.forM f) t fun _ u => I l u := by
    intro rest
    induction rest with
    | nil =>
      intro done t hl hI
      rw [List.append_nil] at hl
      rw [hl]
      exact returns_pure hI
    | cons a rest ih =>
      intro done t hl hI
      have hl' : l = done ++ [a] ++ rest := by rw [hl, List.append_assoc]; rfl
      exact (hstep done a rest t hl hI).bind fun _ u hu => ih (done ++ [a]) u hl' hu
  exact hrest l [] s rfl hstart

theorem except_mapM_eq_ok {f : α → Except ε β} {g : α → β} (h : ∀ a ∈ l, f a = .ok (g a)) :
    l.mapM f = .ok (l.map g) := by
  rw [except_mapM_ok_iff_forall₂, List.forall₂_map_right_iff, List.forall₂_same]
  exact h

end Loops

end MpcDemo.TotalRuns
