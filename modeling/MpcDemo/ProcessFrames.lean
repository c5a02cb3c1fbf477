import MpcDemo.Processes

/-!
# What a process leaves alone and what it knows while it waits

A process that keeps to some rounds and moves its state along a relation keeps whatever others
never change about the rest. A process that waits may know more than its assertion says: what it
has found out up to this point of its program.
-/

namespace MpcDemo.Processes
open FallibleState

variable {ε σ ρ δ ι α β ω : Type}

section Confinement

/-- Every state has a property, posts go to some rounds and answers are awaited of some. -/
def Proc.Stays (P R : ρ → Prop) (I : σ → Prop) : Proc ε σ ρ δ ι α → Prop
  | .done _ s => I s
  | .post s round _ next => I s ∧ P round ∧ next.Stays P R I
  | .await s round _ next => I s ∧ R round ∧ ∀ a, (next a).Stays P R I

/-- A program that keeps to some rounds and moves its state along a relation. -/
def Prog.Stays (P R : ρ → Prop) (K : σ → σ → Prop) (p : Prog ε σ ρ δ ι α) : Prop :=
  ∀ s, (p s).Stays P R (K s)

variable {P P' R R' : ρ → Prop} {I J : σ → Prop} {K K' : σ → σ → Prop}

theorem Proc.Stays.mono {p : Proc ε σ ρ δ ι α} (h : p.Stays P R I) (hP : ∀ r, P r → P' r)
    (hR : ∀ r, R r → R' r) (hI : ∀ s, I s → J s) : p.Stays P' R' J := by
  induction p with
  | done r s => exact hI s h
  | post s round data next ih => exact ⟨hI s h.1, hP _ h.2.1, ih h.2.2⟩
  | await s round count next ih => exact ⟨hI s h.1, hR _ h.2.1, fun a => ih a (h.2.2 a)⟩

theorem Proc.Stays.andThen {p : Proc ε σ ρ δ ι α} {f : Except ε α → σ → Proc ε σ ρ δ ι β}
    (hp : p.Stays P R I) (hf : ∀ r s, I s → (f r s).Stays P R I) : (p.andThen f).Stays P R I := by
  induction p with
  | done r s => exact hf r s hp
  | post s round data next ih => exact ⟨hp.1, hp.2.1, ih hp.2.2⟩
  | await s round count next ih => exact ⟨hp.1, hp.2.1, fun a => ih a (hp.2.2 a)⟩

theorem Prog.Stays.mono {p : Prog ε σ ρ δ ι α} (h : p.Stays P R K)
    (hK : ∀ s t, K s t → K' s t) : p.Stays P R K' :=
  fun s => (h s).mono (fun _ h => h) (fun _ h => h) (hK s)

section Rules
variable [IsTrans σ K] {p : Prog ε σ ρ δ ι α} {f : α → Prog ε σ ρ δ ι β}

private theorem Prog.Stays.after (h : p.Stays P R K) {s t : σ} (hst : K s t) :
    (p t).Stays P R (K s) := (h t).mono (fun _ h => h) (fun _ h => h) fun _ htu => trans_of K hst htu

theorem Prog.Stays.bind (hp : p.Stays P R K) (hf : ∀ a, (f a).Stays P R K) :
    (p >>= f).Stays P R K := by
  intro s
  refine (hp s).andThen fun r t hst => ?_
  cases r with
  | ok a => exact (hf a).after hst
  | error e => exact hst

theorem Prog.Stays.catching {handler : ε → Option (Prog ε σ ρ δ ι α)} (hp : p.Stays P R K)
    (hhandler : ∀ e q, handler e = some q → q.Stays P R K) : (p.catching handler).Stays P R K := by
  intro s
  refine (hp s).andThen fun r t hst => ?_
  cases r with
  | ok a => exact hst
  | error e =>
    cases hq : handler e with
    | none =>
      simp only [hq]
      exact hst
    | some q =>
      simp only [hq]
      exact (hhandler e q hq).after hst

end Rules

section Primitives
variable [Std.Refl K]

end Primitives

variable {E : Environment ω ρ δ ι} {A : ω → σ → Prop} {W : ω → Prop} {p : Proc ε σ ρ δ ι α}
variable {w : ω}

/-- A property of the world that others keep and that posts to the rounds of the process keep. -/
theorem Proc.Stays.safe (h : p.Stays P R I) (hrely : ∀ v v', E.rely v v' → W v → W v')
    (hpost : ∀ v round data, W v → P round →
      E.allowed v round data ∧ W (E.posted v round data))
    (hA : ∀ v s, W v → I s → A v s) (hw : W w) :
    Safe E A (fun v _ s => W v ∧ I s) p w := by
  induction p generalizing w with
  | done r s =>
    intro v hv
    have hW := hrely w v hv hw
    exact ⟨hA v s hW h, hW, h⟩
  | post s round data next ih =>
    intro v hv
    have hW := hrely w v hv hw
    obtain ⟨hallowed, hW'⟩ := hpost v round data hW h.2.1
    exact ⟨hA v s hW h.1, hallowed, ih h.2.2 hW'⟩
  | await s round count next ih =>
    intro v hv
    have hW := hrely w v hv hw
    exact ⟨hA v s hW h.1, fun a _ => ih a (h.2.2 a) hW⟩

end Confinement

section Ends
variable {E : Environment ω ρ δ ι} {A : ω → σ → Prop} {Q : ω → Except ε α → σ → Prop}
variable {w : ω} {s : σ}

theorem Safe.weaken {A' : ω → σ → Prop} {p : Proc ε σ ρ δ ι α} (h : Safe E A Q p w)
    (hA : ∀ v s, A v s → A' v s) : Safe E A' Q p w := by
  induction p generalizing w with
  | done r s => exact fun v hv => ⟨hA v s (h v hv).1, (h v hv).2⟩
  | post s round data next ih =>
    exact fun v hv => ⟨hA v s (h v hv).1, (h v hv).2.1, ih (h v hv).2.2⟩
  | await s round count next ih =>
    exact fun v hv => ⟨hA v s (h v hv).1, fun a ha => ih a ((h v hv).2 a ha)⟩

end Ends

section Waiting
variable (E : Environment ω ρ δ ι) (B : ω → ρ → ℕ → σ → Prop)

/-- Whatever the environment does, `B` holds whenever the process waits for an answer. -/
def Waits : Proc ε σ ρ δ ι α → ω → Prop
  | .done _ _, _ => True
  | .post _ round data next, w => ∀ w', E.rely w w' → Waits next (E.posted w' round data)
  | .await s round count next, w => ∀ w', E.rely w w' →
    B w' round count s ∧ ∀ a, E.answers w' round count a → Waits (next a) w'

variable {E B} {A : ω → σ → Prop} {Q : ω → Except ε α → σ → Prop}
variable {p : Proc ε σ ρ δ ι α} {w w' : ω}

theorem Waits.rely (h : Waits E B p w) (hw : E.rely w w') : Waits E B p w' := by
  cases p with
  | done r s => trivial
  | post s round data next => exact fun v hv => h v (E.rely_trans w w' v hw hv)
  | await s round count next => exact fun v hv => h v (E.rely_trans w w' v hw hv)

theorem Waits.andThen {f : Except ε α → σ → Proc ε σ ρ δ ι β} (hsafe : Safe E A Q p w)
    (hp : Waits E B p w) (hf : ∀ r s v, A v s → Q v r s → Waits E B (f r s) v) :
    Waits E B (p.andThen f) w := by
  induction p generalizing w with
  | done r s =>
    have h := hsafe w (E.rely_refl w)
    exact hf r s w h.1 h.2
  | post s round data next ih =>
    intro v hv
    exact ih (hsafe v hv).2.2 (hp v hv)
  | await s round count next ih =>
    intro v hv
    obtain ⟨hB, hnext⟩ := hp v hv
    exact ⟨hB, fun a ha => ih a ((hsafe v hv).2 a ha) (hnext a ha)⟩

theorem Waits.weaken {B' : ω → ρ → ℕ → σ → Prop} (h : Waits E B p w)
    (hB : ∀ v round count s, B v round count s → B' v round count s) : Waits E B' p w := by
  induction p generalizing w with
  | done r s => trivial
  | post s round data next ih => exact fun v hv => ih (h v hv)
  | await s round count next ih =>
    exact fun v hv => ⟨hB v round count s (h v hv).1, fun a ha => ih a ((h v hv).2 a ha)⟩

/-- A process that is safe and knows what it should whenever it waits. -/
structure Steady (E : Environment ω ρ δ ι) (A : ω → σ → Prop) (B : ω → ρ → ℕ → σ → Prop)
    (Q : ω → Except ε α → σ → Prop) (p : Proc ε σ ρ δ ι α) (w : ω) : Prop where
  safe : Safe E A Q p w
  waits : Waits E B p w

variable {S : ω → Except ε β → σ → Prop}

theorem Steady.andThen {f : Except ε α → σ → Proc ε σ ρ δ ι β} (hp : Steady E A B Q p w)
    (hf : ∀ r s v, A v s → Q v r s → Steady E A B S (f r s) v) :
    Steady E A B S (p.andThen f) w :=
  ⟨hp.safe.andThen fun r s v hA hQ => (hf r s v hA hQ).safe,
    hp.waits.andThen hp.safe fun r s v hA hQ => (hf r s v hA hQ).waits⟩

theorem Steady.mono {Q' : ω → Except ε α → σ → Prop} (h : Steady E A B Q p w)
    (hQ : ∀ v r s, Q v r s → Q' v r s) : Steady E A B Q' p w := ⟨h.safe.mono hQ, h.waits⟩

end Waiting

section Systems
variable {κ : Type} [DecidableEq κ] {envs envs' : κ → Environment ω ρ δ ι}
variable {start c d : Config ω κ ε σ ρ δ ι α}

/-- What the other parties are assumed to do plays no role in the steps of a system. -/
theorem Reachable.of_steps (hposted : ∀ i, (envs i).posted = (envs' i).posted)
    (hanswers : ∀ i, (envs i).answers = (envs' i).answers) (h : Reachable envs start c) :
    Reachable envs' start c := by
  induction h with
  | start => exact .start
  | step _ hstep ih =>
    refine ih.step ?_
    cases hstep with
    | @post i s round data next hi =>
      rw [hposted i]
      exact .post hi
    | @answer i s round count next a hi ha =>
      rw [hanswers i] at ha
      exact .answer hi ha

variable {A : κ → ω → σ → Prop} {B : κ → ω → ρ → ℕ → σ → Prop}
variable {Q : κ → ω → Except ε α → σ → Prop} {I : ω → Prop}

end Systems

section Equations

theorem Proc.andThen_assoc {γ : Type} (p : Proc ε σ ρ δ ι α)
    (f : Except ε α → σ → Proc ε σ ρ δ ι β) (g : Except ε β → σ → Proc ε σ ρ δ ι γ) :
    (p.andThen f).andThen g = p.andThen fun r s => (f r s).andThen g := by
  induction p with
  | done r s => rfl
  | post s round data next ih => exact congrArg (Proc.post s round data) ih
  | await s round count next ih => exact congrArg (Proc.await s round count) (funext ih)

theorem Prog.bind_assoc {γ : Type} (p : Prog ε σ ρ δ ι α) (f : α → Prog ε σ ρ δ ι β)
    (g : β → Prog ε σ ρ δ ι γ) : (p >>= f) >>= g = p >>= fun a => f a >>= g := by
  funext s
  refine (Proc.andThen_assoc (p s) _ _).trans (congrArg (p s).andThen ?_)
  funext r t
  cases r with
  | ok a => rfl
  | error e => rfl

theorem Prog.bind_pure (p : Prog ε σ ρ δ ι α) : (p >>= fun a => pure a) = p := by
  funext s
  change (p s).andThen _ = p s
  induction p s with
  | done r t => cases r <;> rfl
  | post t round data next ih => exact congrArg (Proc.post t round data) ih
  | await t round count next ih => exact congrArg (Proc.await t round count) (funext ih)

theorem Prog.lift_bind {x : EStateM ε σ α} {f : α → Prog ε σ ρ δ ι β} {s t : σ} {a : α}
    (h : x.run s = .ok a t) : (Prog.lift x >>= f) s = f a t := by
  change (Prog.lift x s).andThen _ = _
  rw [Prog.lift, h]
  rfl

end Equations

end MpcDemo.Processes
