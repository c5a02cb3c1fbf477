import Mathlib

/-!
# Histories of calls on a stateful object

A run makes calls in any order with any arguments; between two calls the rest of the world may
change the state as a given relation allows. The history lists the calls made so far, the
latest first, each with its result and the states around it.
-/

namespace MpcDemo.CallHistories

variable {σ κ ω : Type}

structure Step (σ κ ω : Type) where
  before : σ
  call : κ
  result : ω
  after : σ

/-- Run one call on a state. -/
def perform (exec : κ → σ → ω × σ) (c : κ) (s : σ) : Step σ κ ω :=
  ⟨s, c, (exec c s).1, (exec c s).2⟩

inductive Run (exec : κ → σ → ω × σ) (start : σ → Prop) (other : σ → σ → Prop) :
    List (Step σ κ ω) → σ → Prop
  | start {s : σ} : start s → Run exec start other [] s
  | other {history : List (Step σ κ ω)} {s t : σ} :
      Run exec start other history s → other s t → Run exec start other history t
  | call {history : List (Step σ κ ω)} {s : σ} (c : κ) :
      Run exec start other history s →
        Run exec start other (perform exec c s :: history) (exec c s).2

/-- The history of some given calls, the latest first, and the state they lead to. -/
def follow (exec : κ → σ → ω × σ) (s : σ) : List κ → List (Step σ κ ω) × σ
  | [] => ([], s)
  | c :: calls =>
    let earlier := follow exec s calls
    (perform exec c earlier.2 :: earlier.1, (exec c earlier.2).2)

/-- Every step of a history satisfies a property that may refer to the steps before it. -/
def EveryStep (P : List (Step σ κ ω) → Step σ κ ω → Prop) : List (Step σ κ ω) → Prop
  | [] => True
  | step :: earlier => P earlier step ∧ EveryStep P earlier

variable {exec : κ → σ → ω × σ} {start : σ → Prop} {other : σ → σ → Prop}
variable {C : List (Step σ κ ω) → Step σ κ ω → Prop}
variable {I : List (Step σ κ ω) → σ → Prop} {history : List (Step σ κ ω)} {s : σ}

theorem run_follow (hs : start s) (calls : List κ) :
    Run exec start other (follow exec s calls).1 (follow exec s calls).2 := by
  induction calls with
  | nil => exact .start hs
  | cons c calls ih => exact .call c ih

/-- An invariant that is preserved by the steps that meet a condition holds after every run all
of whose steps meet it. -/
theorem Run.invariant_of_everyStep (hstart : ∀ s, start s → I [] s)
    (hother : ∀ history s t, I history s → other s t → I history t)
    (hcall : ∀ history s c, I history s → C history (perform exec c s) →
      I (perform exec c s :: history) (exec c s).2)
    (h : Run exec start other history s) (hC : EveryStep C history) : I history s := by
  induction h with
  | start hs => exact hstart _ hs
  | other _ hst ih => exact hother _ _ _ (ih hC) hst
  | call c _ ih => exact hcall _ _ c (ih hC.2) hC.1

theorem EveryStep.mono {P Q : List (Step σ κ ω) → Step σ κ ω → Prop}
    (h : ∀ earlier step, P earlier step → Q earlier step) :
    EveryStep P history → EveryStep Q history := by
  induction history with
  | nil => exact id
  | cons step earlier ih => exact fun hP => ⟨h _ _ hP.1, ih hP.2⟩

theorem everyStep_true (history : List (Step σ κ ω)) :
    EveryStep (fun _ _ => True) history := by
  induction history with
  | nil => trivial
  | cons step earlier ih => exact ⟨trivial, ih⟩

/-- The invariant rule without a condition on the steps. -/
theorem Run.invariant (hstart : ∀ s, start s → I [] s)
    (hother : ∀ history s t, I history s → other s t → I history t)
    (hcall : ∀ history s c, I history s → I (perform exec c s :: history) (exec c s).2)
    (h : Run exec start other history s) : I history s :=
  h.invariant_of_everyStep (C := fun _ _ => True) hstart hother
    (fun history s c hI _ => hcall history s c hI) (everyStep_true history)

end MpcDemo.CallHistories
