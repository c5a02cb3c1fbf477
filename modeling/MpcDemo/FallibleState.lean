import Mathlib

/-!
# Stateful computations that may fail

Inversion rules for `EStateM`, where a failed computation keeps the state it had
reached. Each rule states exactly when a composite computation succeeds, so that a
proof about a long operation peels it apart without unfolding the monad.
-/

namespace MpcDemo.FallibleState

variable {ε σ α β : Type}

theorem run_bind_ok_iff {x : EStateM ε σ α} {f : α → EStateM ε σ β} {s t : σ} {b : β} :
    (x >>= f).run s = .ok b t ↔ ∃ a u, x.run s = .ok a u ∧ (f a).run u = .ok b t := by
  rw [EStateM.run_bind]
  cases h : x.run s with
  | ok a u => simp
  | error e u => simp

theorem run_bind_error_iff {x : EStateM ε σ α} {f : α → EStateM ε σ β} {s t : σ} {e : ε} :
    (x >>= f).run s = .error e t ↔
      x.run s = .error e t ∨ ∃ a u, x.run s = .ok a u ∧ (f a).run u = .error e t := by
  rw [EStateM.run_bind]
  cases h : x.run s with
  | ok a u => simp
  | error e' u => simp

theorem run_bind_of_ok {x : EStateM ε σ α} {f : α → EStateM ε σ β} {s u : σ} {a : α}
    (h : x.run s = .ok a u) : (x >>= f).run s = (f a).run u := by
  rw [EStateM.run_bind, h]

@[simp] theorem run_pure_ok_iff {a b : α} {s t : σ} :
    (pure a : EStateM ε σ α).run s = .ok b t ↔ a = b ∧ s = t := by
  rw [EStateM.run_pure, EStateM.Result.ok.injEq]

@[simp] theorem run_throw_apply (e : ε) (s : σ) :
    (throw e : EStateM ε σ α).run s = .error e s := rfl

theorem except_bind_ok_iff {x : Except ε α} {f : α → Except ε β} {b : β} :
    (x >>= f) = .ok b ↔ ∃ a, x = .ok a ∧ f a = .ok b := by
  cases x with
  | ok a => exact ⟨fun h => ⟨a, rfl, h⟩, fun ⟨_, ha, h⟩ => by cases ha; exact h⟩
  | error e => exact ⟨nofun, fun ⟨_, ha, _⟩ => by cases ha⟩

/-- A guard: continue when the condition holds, fail with the given error otherwise. -/
def require (p : Prop) [Decidable p] (e : ε) : EStateM ε σ Unit :=
  if p then pure () else throw e

@[simp] theorem run_require (p : Prop) {_ : Decidable p} (e : ε) (s : σ) :
    (require p e : EStateM ε σ Unit).run s = if p then .ok () s else .error e s := by
  by_cases h : p <;> simp [require, h]

theorem run_require_ok_iff {p : Prop} {_ : Decidable p} {e : ε} {s t : σ} {u : Unit} :
    (require p e).run s = .ok u t ↔ p ∧ s = t := by
  by_cases h : p <;> simp [h]

@[simp] theorem run_ofExcept_ok (a : α) (s : σ) :
    (ofExcept (.ok a : Except ε α) : EStateM ε σ α).run s = .ok a s := rfl

@[simp] theorem run_ofExcept_error (e : ε) (s : σ) :
    (ofExcept (.error e : Except ε α) : EStateM ε σ α).run s = .error e s := rfl

theorem run_ofExcept_ok_iff {x : Except ε α} {s t : σ} {a : α} :
    (ofExcept x : EStateM ε σ α).run s = .ok a t ↔ x = .ok a ∧ s = t := by
  cases x <;> simp

theorem run_ofExcept_error_iff {x : Except ε α} {s t : σ} {e : ε} :
    (ofExcept x : EStateM ε σ α).run s = .error e t ↔ x = .error e ∧ s = t := by
  cases x <;> simp

/-- Read from the state without changing it. -/
def inspect (f : σ → Except ε α) : EStateM ε σ α := fun s =>
  match f s with
  | .ok a => .ok a s
  | .error e => .error e s

theorem run_inspect (f : σ → Except ε α) (s : σ) :
    (inspect f).run s = (match f s with | .ok a => .ok a s | .error e => .error e s) := rfl

theorem run_inspect_ok_iff {f : σ → Except ε α} {s t : σ} {a : α} :
    (inspect f).run s = .ok a t ↔ f s = .ok a ∧ s = t := by
  rw [run_inspect]
  cases f s <;> simp

theorem run_inspect_of_ok {f : σ → Except ε α} {s : σ} {a : α} (h : f s = .ok a) :
    (inspect f).run s = .ok a s := run_inspect_ok_iff.2 ⟨h, rfl⟩

theorem run_mapM_nil (f : α → EStateM ε σ β) (s : σ) : ([].mapM f).run s = .ok [] s := by
  rw [List.mapM_nil, EStateM.run_pure]

theorem run_mapM_cons_ok_iff {f : α → EStateM ε σ β} {a : α} {l : List α} {s t : σ}
    {bs : List β} :
    ((a :: l).mapM f).run s = .ok bs t ↔
      ∃ b u cs, (f a).run s = .ok b u ∧ (l.mapM f).run u = .ok cs t ∧ bs = b :: cs := by
  simp only [List.mapM_cons, run_bind_ok_iff, run_pure_ok_iff]
  constructor
  · rintro ⟨b, u, hb, cs, v, hcs, rfl, rfl⟩
    exact ⟨b, u, cs, hb, hcs, rfl⟩
  · rintro ⟨b, u, cs, hb, hcs, rfl⟩
    exact ⟨b, u, hb, cs, t, hcs, rfl, rfl⟩

/-- A mapped loop whose body never changes the state relates inputs and outputs
one by one. -/
theorem run_mapM_ok_iff_forall₂ {f : α → EStateM ε σ β} {P : α → β → Prop} {s : σ}
    (step : ∀ a b t, (f a).run s = .ok b t ↔ t = s ∧ P a b) {l : List α} {bs : List β} {t : σ} :
    (l.mapM f).run s = .ok bs t ↔ t = s ∧ List.Forall₂ P l bs := by
  induction l generalizing bs with
  | nil =>
    rw [run_mapM_nil, EStateM.Result.ok.injEq, List.forall₂_nil_left_iff]
    exact ⟨fun ⟨hbs, ht⟩ => ⟨ht.symm, hbs.symm⟩, fun ⟨ht, hbs⟩ => ⟨hbs.symm, ht.symm⟩⟩
  | cons a l ih =>
    rw [run_mapM_cons_ok_iff]
    constructor
    · rintro ⟨b, u, cs, hb, hcs, rfl⟩
      obtain ⟨rfl, hab⟩ := (step a b u).1 hb
      obtain ⟨rfl, hl⟩ := ih.1 hcs
      exact ⟨rfl, .cons hab hl⟩
    · rintro ⟨rfl, hl⟩
      obtain ⟨b, cs, hab, hcs, rfl⟩ := List.forall₂_cons_left_iff.1 hl
      exact ⟨b, t, cs, (step a b t).2 ⟨rfl, hab⟩, ih.2 ⟨rfl, hcs⟩, rfl⟩

theorem except_mapM_ok_iff_forall₂ {f : α → Except ε β} {l : List α} {bs : List β} :
    l.mapM f = .ok bs ↔ List.Forall₂ (fun a b => f a = .ok b) l bs := by
  induction l generalizing bs with
  | nil =>
    rw [List.mapM_nil, List.forall₂_nil_left_iff]
    exact ⟨fun h => (Except.ok.inj h).symm, fun h => h ▸ rfl⟩
  | cons a l ih =>
    simp only [List.mapM_cons, except_bind_ok_iff, List.forall₂_cons_left_iff, ih]
    constructor
    · rintro ⟨b, hb, cs, hcs, h⟩
      exact ⟨b, cs, hb, hcs, (Except.ok.inj h).symm⟩
    · rintro ⟨b, cs, hb, hcs, rfl⟩
      exact ⟨b, hb, cs, hcs, rfl⟩

theorem forall₂_zipIdx_iff {P : α → β → Prop} {l : List α} {bs : List β} (n : ℕ) :
    List.Forall₂ (fun a b => P a.1 b) (l.zipIdx n) bs ↔ List.Forall₂ P l bs := by
  conv_rhs => rw [← List.zipIdx_map_fst n l, List.forall₂_map_left_iff]

section Frames
variable (R : σ → σ → Prop)

/-- Whatever the outcome, the new state stands in a relation to the old one. -/
def Keeps (x : EStateM ε σ α) : Prop :=
  ∀ s, (∀ a t, x.run s = .ok a t → R s t) ∧ ∀ e t, x.run s = .error e t → R s t

/-- After a failure the new state stands in a relation to the old one. -/
def FailsKeeping (x : EStateM ε σ α) : Prop := ∀ s e t, x.run s = .error e t → R s t

variable {R}

theorem Keeps.mono {R' : σ → σ → Prop} {x : EStateM ε σ α} (h : Keeps R x)
    (hR : ∀ s t, R s t → R' s t) : Keeps R' x :=
  fun s => ⟨fun a t ht => hR s t ((h s).1 a t ht), fun e t ht => hR s t ((h s).2 e t ht)⟩

theorem Keeps.bind [IsTrans σ R] {x : EStateM ε σ α} {f : α → EStateM ε σ β} (hx : Keeps R x)
    (hf : ∀ a, Keeps R (f a)) : Keeps R (x >>= f) := by
  intro s
  constructor
  · intro b t h
    obtain ⟨a, u, ha, hb⟩ := run_bind_ok_iff.1 h
    exact trans_of R ((hx s).1 a u ha) ((hf a u).1 b t hb)
  · intro e t h
    rcases run_bind_error_iff.1 h with hx' | ⟨a, u, ha, hb⟩
    · exact (hx s).2 e t hx'
    · exact trans_of R ((hx s).1 a u ha) ((hf a u).2 e t hb)

theorem FailsKeeping.bind [IsTrans σ R] {x : EStateM ε σ α} {f : α → EStateM ε σ β}
    (hx : Keeps R x) (hf : ∀ a, FailsKeeping R (f a)) : FailsKeeping R (x >>= f) := by
  intro s e t h
  rcases run_bind_error_iff.1 h with hx' | ⟨a, u, ha, hb⟩
  · exact (hx s).2 e t hx'
  · exact trans_of R ((hx s).1 a u ha) (hf a u e t hb)

theorem FailsKeeping.map {x : EStateM ε σ α} (h : FailsKeeping R x) (f : α → β) :
    FailsKeeping R (f <$> x) := by
  intro s e t ht
  rw [EStateM.run_map] at ht
  cases hx : x.run s with
  | ok a u =>
    rw [hx] at ht
    cases ht
  | error e' u =>
    rw [hx] at ht
    cases ht
    exact h s _ _ hx

/-- A computation that never fails can be followed only by failures of what comes next. -/
theorem failsKeeping_of_total {x : EStateM ε σ α} (h : ∀ s, ∃ a t, x.run s = .ok a t) :
    FailsKeeping R x := by
  intro s e t hs
  obtain ⟨a, u, ha⟩ := h s
  rw [ha] at hs
  cases hs

theorem keeps_of_run_eq [Std.Refl R] {x : EStateM ε σ α}
    (h : ∀ s, (∀ a t, x.run s = .ok a t → t = s) ∧ ∀ e t, x.run s = .error e t → t = s) :
    Keeps R x :=
  fun s => ⟨fun a t ha => by rw [(h s).1 a t ha]; exact refl_of R s,
    fun e t he => by rw [(h s).2 e t he]; exact refl_of R s⟩

theorem keeps_pure [Std.Refl R] (a : α) : Keeps R (pure a : EStateM ε σ α) :=
  keeps_of_run_eq fun s => ⟨fun b t h => by cases h; rfl, fun e t h => by cases h⟩

theorem keeps_require [Std.Refl R] (p : Prop) [Decidable p] (e : ε) :
    Keeps R (require p e : EStateM ε σ Unit) := by
  refine keeps_of_run_eq fun s => ?_
  rw [run_require]
  by_cases h : p <;> simp [h, eq_comm]

theorem keeps_ofExcept [Std.Refl R] (x : Except ε α) :
    Keeps R (ofExcept x : EStateM ε σ α) := by
  refine keeps_of_run_eq fun s => ?_
  cases x <;> simp [eq_comm]

theorem keeps_inspect [Std.Refl R] (f : σ → Except ε α) : Keeps R (inspect f) := by
  refine keeps_of_run_eq fun s => ?_
  rw [run_inspect]
  cases f s <;> simp [eq_comm]

theorem keeps_mapM [Std.Refl R] [IsTrans σ R] {f : α → EStateM ε σ β} (h : ∀ a, Keeps R (f a))
    (l : List α) : Keeps R (l.mapM f) := by
  induction l with
  | nil => exact keeps_pure []
  | cons a l ih =>
    rw [List.mapM_cons]
    exact (h a).bind fun b => ih.bind fun bs => keeps_pure (b :: bs)

end Frames

end MpcDemo.FallibleState
