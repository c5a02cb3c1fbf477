import MpcDemo.CallHistories

/-!
# Objects that answer alike

Two objects with the same calls give the same results on a sequence of calls exactly when every
call meets a condition on the calls before it, provided that the condition decides about one
result in related states and keeps the states related.
-/

namespace MpcDemo.OutcomeRefinement
open CallHistories

variable {σ₁ σ₂ κ ω : Type}

/-- The results of some calls, the latest first. -/
def outcomes {σ : Type} (exec : κ → σ → ω × σ) (s : σ) (calls : List κ) : List ω :=
  (follow exec s calls).1.map Step.result

/-- Every call of a sequence, the latest first, meets a condition on the calls before it. -/
def EveryCall (P : List κ → κ → Prop) : List κ → Prop
  | [] => True
  | c :: earlier => P earlier c ∧ EveryCall P earlier

variable {exec₁ : κ → σ₁ → ω × σ₁} {exec₂ : κ → σ₂ → ω × σ₂} {s₁ : σ₁} {s₂ : σ₂}
variable {P : List κ → κ → Prop} (related : List κ → σ₁ → σ₂ → Prop)

/-- Calls that meet the condition keep the states related. -/
theorem related_follow (hstart : related [] s₁ s₂)
    (hnext : ∀ calls t₁ t₂ c, related calls t₁ t₂ → P calls c →
      related (c :: calls) (exec₁ c t₁).2 (exec₂ c t₂).2) {calls : List κ}
    (h : EveryCall P calls) :
    related calls (follow exec₁ s₁ calls).2 (follow exec₂ s₂ calls).2 := by
  induction calls with
  | nil => exact hstart
  | cons c calls ih => exact hnext calls _ _ c (ih h.2) h.1

theorem outcomes_eq_iff (hstart : related [] s₁ s₂)
    (hresult : ∀ calls t₁ t₂ c, related calls t₁ t₂ →
      ((exec₁ c t₁).1 = (exec₂ c t₂).1 ↔ P calls c))
    (hnext : ∀ calls t₁ t₂ c, related calls t₁ t₂ → P calls c →
      related (c :: calls) (exec₁ c t₁).2 (exec₂ c t₂).2) (calls : List κ) :
    outcomes exec₁ s₁ calls = outcomes exec₂ s₂ calls ↔ EveryCall P calls := by
  induction calls with
  | nil => exact iff_of_true rfl trivial
  | cons c calls ih =>
    have hlatest : EveryCall P calls → ((exec₁ c (follow exec₁ s₁ calls).2).1 =
        (exec₂ c (follow exec₂ s₂ calls).2).1 ↔ P calls c) :=
      fun h => hresult calls _ _ c (related_follow related hstart hnext h)
    constructor
    · intro h
      obtain ⟨hhead, htail⟩ := List.cons.inj h
      have hcalls := ih.1 htail
      exact ⟨(hlatest hcalls).1 hhead, hcalls⟩
    · intro h
      have hhead := (hlatest h.2).2 h.1
      have htail := ih.2 h.2
      exact congrArg₂ List.cons hhead htail

end MpcDemo.OutcomeRefinement
