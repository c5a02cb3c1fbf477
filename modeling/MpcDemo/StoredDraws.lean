import MpcDemo.TotalRuns

/-!
# Operations on random draws and a store

The state of one party: how many random draws it has made, and what it has stored. An operation
makes a draw, reads from the store or writes to it, and reading and writing may fail.
-/

namespace MpcDemo.StoredDraws
open FallibleState TotalRuns

/-- The number of random draws that have been made, and a store. -/
structure Drawing (σ : Type) where
  draws : ℕ
  store : σ

variable {ε σ α β : Type} {s t : Drawing σ}

/-- The number of the next draw. -/
def drawn : EStateM ε (Drawing σ) ℕ := fun s => .ok s.draws { s with draws := s.draws + 1 }

def reading (f : σ → Except ε α) : EStateM ε (Drawing σ) α := inspect fun s => f s.store

def writing (f : σ → Except ε σ) : EStateM ε (Drawing σ) Unit := fun s =>
  match f s.store with
  | .ok p => .ok () { s with store := p }
  | .error e => .error e s

section Inversion

theorem run_drawn_ok_iff {n : ℕ} :
    (drawn : EStateM ε (Drawing σ) ℕ).run s = .ok n t ↔
      n = s.draws ∧ t = ⟨s.draws + 1, s.store⟩ := by
  change EStateM.Result.ok s.draws (⟨s.draws + 1, s.store⟩ : Drawing σ) = _ ↔ _
  rw [EStateM.Result.ok.injEq, eq_comm, @eq_comm _ t]

theorem run_reading_ok_iff {g : σ → Except ε α} {a : α} :
    (reading g).run s = .ok a t ↔ g s.store = .ok a ∧ s = t := run_inspect_ok_iff

theorem run_writing_ok_iff {g : σ → Except ε σ} {u : Unit} :
    (writing g).run s = .ok u t ↔ ∃ p, g s.store = .ok p ∧ t = ⟨s.draws, p⟩ := by
  change writing g s = _ ↔ _
  rw [writing]
  cases g s.store with
  | ok p => simp [eq_comm]
  | error e => simp

theorem run_map_ok_iff {x : EStateM ε (Drawing σ) α} {g : α → β} {b : β} :
    (g <$> x).run s = .ok b t ↔ ∃ a, x.run s = .ok a t ∧ g a = b := by
  rw [EStateM.run_map]
  cases x.run s with
  | ok a u => simp [and_comm]
  | error e u => simp

theorem run_map_error_iff {x : EStateM ε (Drawing σ) α} {g : α → β} {e : ε} :
    (g <$> x).run s = .error e t ↔ x.run s = .error e t := by
  rw [EStateM.run_map]
  cases x.run s with
  | ok a u => simp
  | error e' u => simp

theorem keeps_map {R : Drawing σ → Drawing σ → Prop} {x : EStateM ε (Drawing σ) α}
    (h : Keeps R x) (g : α → β) : Keeps R (g <$> x) := by
  intro s
  refine ⟨fun b t hb => ?_, fun e t he => (h s).2 e t (run_map_error_iff.1 he)⟩
  obtain ⟨a, ha, -⟩ := run_map_ok_iff.1 hb
  exact (h s).1 a t ha

variable {f : α → EStateM ε (Drawing σ) β} {b : β}

theorem run_require_bind_ok_iff {p : Prop} {_ : Decidable p} {e : ε}
    {f : Unit → EStateM ε (Drawing σ) β} :
    (require p e >>= f).run s = .ok b t ↔ p ∧ (f ()).run s = .ok b t := by
  rw [run_bind_ok_iff]
  constructor
  · rintro ⟨_, _, hrun, h⟩
    obtain ⟨hp, rfl⟩ := run_require_ok_iff.1 hrun
    exact ⟨hp, h⟩
  · exact fun ⟨hp, h⟩ => ⟨(), s, run_require_ok_iff.2 ⟨hp, rfl⟩, h⟩

theorem run_reading_bind_ok_iff {g : σ → Except ε α} :
    (reading g >>= f).run s = .ok b t ↔ ∃ a, g s.store = .ok a ∧ (f a).run s = .ok b t := by
  rw [run_bind_ok_iff]
  constructor
  · rintro ⟨a, _, hrun, h⟩
    obtain ⟨ha, rfl⟩ := run_reading_ok_iff.1 hrun
    exact ⟨a, ha, h⟩
  · exact fun ⟨a, ha, h⟩ => ⟨a, s, run_reading_ok_iff.2 ⟨ha, rfl⟩, h⟩

theorem run_ofExcept_bind_ok_iff {x : Except ε α} :
    ((ofExcept x : EStateM ε (Drawing σ) α) >>= f).run s = .ok b t ↔
      ∃ a, x = .ok a ∧ (f a).run s = .ok b t := by
  rw [run_bind_ok_iff]
  constructor
  · rintro ⟨a, _, hrun, h⟩
    obtain ⟨ha, rfl⟩ := run_ofExcept_ok_iff.1 hrun
    exact ⟨a, ha, h⟩
  · exact fun ⟨a, ha, h⟩ => ⟨a, s, run_ofExcept_ok_iff.2 ⟨ha, rfl⟩, h⟩

theorem run_drawn_bind_ok_iff {f : ℕ → EStateM ε (Drawing σ) β} :
    (drawn >>= f).run s = .ok b t ↔ (f s.draws).run ⟨s.draws + 1, s.store⟩ = .ok b t := by
  rw [run_bind_ok_iff]
  constructor
  · rintro ⟨n, u, hrun, h⟩
    obtain ⟨rfl, rfl⟩ := run_drawn_ok_iff.1 hrun
    exact h
  · exact fun h => ⟨s.draws, _, run_drawn_ok_iff.2 ⟨rfl, rfl⟩, h⟩

theorem run_writing_bind_ok_iff {g : σ → Except ε σ} {f : Unit → EStateM ε (Drawing σ) β} :
    (writing g >>= f).run s = .ok b t ↔
      ∃ p, g s.store = .ok p ∧ (f ()).run ⟨s.draws, p⟩ = .ok b t := by
  rw [run_bind_ok_iff]
  constructor
  · rintro ⟨_, _, hrun, h⟩
    obtain ⟨p, hp, rfl⟩ := run_writing_ok_iff.1 hrun
    exact ⟨p, hp, h⟩
  · exact fun ⟨p, hp, h⟩ => ⟨(), _, run_writing_ok_iff.2 ⟨p, hp, rfl⟩, h⟩

/-- A step that reads leaves the state as it is, also when it fails. -/
theorem run_reading_bind_error_iff {g : σ → Except ε α} {e : ε} :
    (reading g >>= f).run s = .error e t ↔
      g s.store = .error e ∧ t = s ∨ ∃ a, g s.store = .ok a ∧ (f a).run s = .error e t := by
  have hrun : (reading g).run s =
      (match g s.store with | .ok a => .ok a s | .error e => .error e s) := rfl
  rw [EStateM.run_bind, hrun]
  cases g s.store with
  | ok a => simp
  | error e' => simp [eq_comm]

theorem run_require_bind_error_iff {p : Prop} {_ : Decidable p} {e e' : ε}
    {f : Unit → EStateM ε (Drawing σ) β} :
    (require p e >>= f).run s = .error e' t ↔
      ¬ p ∧ e = e' ∧ t = s ∨ p ∧ (f ()).run s = .error e' t := by
  rw [EStateM.run_bind, run_require]
  by_cases hp : p
  · simp [hp]
  · simp [hp, eq_comm]

theorem run_ofExcept_bind_error_iff {x : Except ε α} {e : ε} :
    ((ofExcept x : EStateM ε (Drawing σ) α) >>= f).run s = .error e t ↔
      x = .error e ∧ t = s ∨ ∃ a, x = .ok a ∧ (f a).run s = .error e t := by
  rw [EStateM.run_bind]
  cases x with
  | ok a => simp
  | error e' => simp [eq_comm]

theorem except_forM_ok_iff {f : α → Except ε Unit} {l : List α} :
    l.forM f = .ok () ↔ ∀ a ∈ l, f a = .ok () := by
  induction l with
  | nil => exact ⟨fun _ a ha => absurd ha List.not_mem_nil, fun _ => rfl⟩
  | cons a l ih =>
    change (f a >>= fun _ => l.forM f) = .ok () ↔ _
    rw [except_bind_ok_iff, List.forall_mem_cons, ← ih]
    exact ⟨fun ⟨_, ha, hl⟩ => ⟨ha, hl⟩, fun ⟨ha, hl⟩ => ⟨(), ha, hl⟩⟩

end Inversion

section Total
variable {post : β → Drawing σ → Prop}

theorem returns_drawn_bind {f : ℕ → EStateM ε (Drawing σ) β}
    (hf : ∀ k n, Returns (f k) ⟨n, s.store⟩ post) : Returns (drawn >>= f) s post := by
  obtain ⟨b, u, hb, hpost⟩ := hf s.draws (s.draws + 1)
  exact ⟨b, u, run_bind_ok_iff.2 ⟨s.draws, ⟨s.draws + 1, s.store⟩, rfl, hb⟩, hpost⟩

theorem returns_reading_bind {g : σ → Except ε α} {a : α} {f : α → EStateM ε (Drawing σ) β}
    (hg : g s.store = .ok a) (hf : Returns (f a) s post) : Returns (reading g >>= f) s post :=
  returns_inspect_bind hg hf

theorem returns_writing_bind {g : σ → Except ε σ} {p : σ} {f : Unit → EStateM ε (Drawing σ) β}
    (hg : g s.store = .ok p) (hf : Returns (f ()) ⟨s.draws, p⟩ post) :
    Returns (writing g >>= f) s post := by
  obtain ⟨b, u, hb, hpost⟩ := hf
  exact ⟨b, u, run_bind_ok_iff.2 ⟨(), _, run_writing_ok_iff.2 ⟨p, hg, rfl⟩, hb⟩, hpost⟩

end Total

end MpcDemo.StoredDraws
