import MpcDemo.FallibleState

/-!
# Processes that post and await messages

A process alternates local steps, which are not visible to others, with posts to rounds and
waits for the answer of a round. Its environment says what the other parties may do meanwhile,
which posts are allowed and which answers are possible. A process is safe when, whatever the
environment does, its posts are allowed and its states satisfy an assertion; safety follows the
structure of a program, and safe processes stay safe side by side.
-/

namespace MpcDemo.Processes
open FallibleState

/-- A process with its local state at every visible step. -/
inductive Proc (ε σ ρ δ ι α : Type) : Type
  | done (result : Except ε α) (state : σ)
  | post (state : σ) (round : ρ) (data : δ) (next : Proc ε σ ρ δ ι α)
  | await (state : σ) (round : ρ) (count : ℕ) (next : ι → Proc ε σ ρ δ ι α)

variable {ε σ ρ δ ι α β : Type}

namespace Proc

def state : Proc ε σ ρ δ ι α → σ
  | done _ s => s
  | post s .. => s
  | await s .. => s

/-- Go on after a result, normal or not. -/
def andThen (p : Proc ε σ ρ δ ι α) (f : Except ε α → σ → Proc ε σ ρ δ ι β) :
    Proc ε σ ρ δ ι β :=
  match p with
  | done r s => f r s
  | post s round data next => post s round data (next.andThen f)
  | await s round count next => await s round count fun a => (next a).andThen f

end Proc

/-- A program: what is done from a given local state. -/
def Prog (ε σ ρ δ ι α : Type) := σ → Proc ε σ ρ δ ι α

namespace Prog

instance : Monad (Prog ε σ ρ δ ι) where
  pure a := fun s => .done (.ok a) s
  bind p f := fun s => (p s).andThen fun r t =>
    match r with
    | .ok a => f a t
    | .error e => .done (.error e) t

def lift (x : EStateM ε σ α) : Prog ε σ ρ δ ι α := fun s =>
  match x.run s with
  | .ok a t => .done (.ok a) t
  | .error e t => .done (.error e) t

def post (round : ρ) (data : δ) : Prog ε σ ρ δ ι Unit := fun s =>
  .post s round data (.done (.ok ()) s)

def await (round : ρ) (count : ℕ) : Prog ε σ ρ δ ι ι := fun s =>
  .await s round count fun a => .done (.ok a) s

/-- Run a handler after the failures it handles. -/
def catching (p : Prog ε σ ρ δ ι α) (handler : ε → Option (Prog ε σ ρ δ ι α)) :
    Prog ε σ ρ δ ι α := fun s =>
  (p s).andThen fun r t =>
    match r with
    | .ok a => .done (.ok a) t
    | .error e =>
      match handler e with
      | some q => q t
      | none => .done (.error e) t

end Prog

/-- The environment of a process, over the states `ω` of the shared world. -/
structure Environment (ω ρ δ ι : Type) where
  /-- How the world may change between two steps of the process. -/
  rely : ω → ω → Prop
  rely_refl : ∀ w, rely w w
  rely_trans : ∀ u v w, rely u v → rely v w → rely u w
  posted : ω → ρ → δ → ω
  allowed : ω → ρ → δ → Prop
  answers : ω → ρ → ℕ → ι → Prop

section Safety
variable {ω : Type} (env : Environment ω ρ δ ι) (A : ω → σ → Prop)

/-- Whatever the environment does, the posts are allowed, the assertion `A` holds at every
visible step and `Q` at the end. -/
def Safe (Q : ω → Except ε α → σ → Prop) : Proc ε σ ρ δ ι α → ω → Prop
  | .done r s, w => ∀ w', env.rely w w' → A w' s ∧ Q w' r s
  | .post s round data next, w => ∀ w', env.rely w w' →
    A w' s ∧ env.allowed w' round data ∧ Safe Q next (env.posted w' round data)
  | .await s round count next, w => ∀ w', env.rely w w' →
    A w' s ∧ ∀ a, env.answers w' round count a → Safe Q (next a) w'

variable {env A} {Q Q' : ω → Except ε α → σ → Prop} {R : ω → Except ε β → σ → Prop}
variable {p : Proc ε σ ρ δ ι α} {w w' : ω}

theorem Safe.rely (h : Safe env A Q p w) (hw : env.rely w w') : Safe env A Q p w' := by
  cases p with
  | done r s => exact fun v hv => h v (env.rely_trans w w' v hw hv)
  | post s round data next => exact fun v hv => h v (env.rely_trans w w' v hw hv)
  | await s round count next => exact fun v hv => h v (env.rely_trans w w' v hw hv)

theorem Safe.assertion (h : Safe env A Q p w) : A w p.state := by
  cases p with
  | done r s => exact (h w (env.rely_refl w)).1
  | post s round data next => exact (h w (env.rely_refl w)).1
  | await s round count next => exact (h w (env.rely_refl w)).1

theorem Safe.andThen {f : Except ε α → σ → Proc ε σ ρ δ ι β} (hp : Safe env A Q p w)
    (hf : ∀ r s v, A v s → Q v r s → Safe env A R (f r s) v) : Safe env A R (p.andThen f) w := by
  induction p generalizing w with
  | done r s =>
    have h := hp w (env.rely_refl w)
    exact hf r s w h.1 h.2
  | post s round data next ih =>
    intro v hv
    obtain ⟨hA, hallowed, hnext⟩ := hp v hv
    exact ⟨hA, hallowed, ih hnext⟩
  | await s round count next ih =>
    intro v hv
    obtain ⟨hA, hnext⟩ := hp v hv
    exact ⟨hA, fun a ha => ih a (hnext a ha)⟩

theorem Safe.mono (hp : Safe env A Q p w) (hQ : ∀ v r s, Q v r s → Q' v r s) :
    Safe env A Q' p w := by
  induction p generalizing w with
  | done r s => exact fun v hv => ⟨(hp v hv).1, hQ v r s (hp v hv).2⟩
  | post s round data next ih =>
    intro v hv
    obtain ⟨hA, hallowed, hnext⟩ := hp v hv
    exact ⟨hA, hallowed, ih hnext⟩
  | await s round count next ih =>
    intro v hv
    obtain ⟨hA, hnext⟩ := hp v hv
    exact ⟨hA, fun a ha => ih a (hnext a ha)⟩

theorem safe_bind {q : Prog ε σ ρ δ ι α} {f : α → Prog ε σ ρ δ ι β} {s : σ}
    (hq : Safe env A Q (q s) w)
    (hok : ∀ a t v, A v t → Q v (.ok a) t → Safe env A R (f a t) v)
    (herror : ∀ e t v, A v t → Q v (.error e) t → Safe env A R (.done (.error e) t) v) :
    Safe env A R ((q >>= f) s) w := by
  refine hq.andThen fun r t v hA hQ => ?_
  cases r with
  | ok a => exact hok a t v hA hQ
  | error e => exact herror e t v hA hQ

theorem safe_lift_bind {x : EStateM ε σ α} {f : α → Prog ε σ ρ δ ι β} {s : σ}
    (hok : ∀ a t, x.run s = .ok a t → Safe env A R (f a t) w)
    (herror : ∀ e t, x.run s = .error e t → Safe env A R (.done (.error e) t) w) :
    Safe env A R ((Prog.lift x >>= f) s) w := by
  change Safe env A R ((Prog.lift x s).andThen _) w
  rw [Prog.lift]
  cases h : x.run s with
  | ok a t => exact hok a t h
  | error e t => exact herror e t h

theorem safe_post_bind {round : ρ} {data : δ} {f : Unit → Prog ε σ ρ δ ι β} {s : σ}
    (h : ∀ v, env.rely w v → A v s ∧ env.allowed v round data ∧
      Safe env A R (f () s) (env.posted v round data)) :
    Safe env A R ((Prog.post round data >>= f) s) w := h

theorem safe_await_bind {round : ρ} {count : ℕ} {f : ι → Prog ε σ ρ δ ι β} {s : σ}
    (h : ∀ v, env.rely w v → A v s ∧ ∀ a, env.answers v round count a → Safe env A R (f a s) v) :
    Safe env A R ((Prog.await round count >>= f) s) w := h

end Safety

section Replay
variable {β β' : Type} (parse : β → Option ι)

/-- The first response that is an answer, and the responses after it. -/
def firstAnswer : List β → Option (ι × List β)
  | [] => none
  | b :: rest =>
    match parse b with
    | some a => some (a, rest)
    | none => firstAnswer rest

/-- Where a process stands after some responses to its polls, whatever they are. -/
def Proc.replay : Proc ε σ ρ δ ι α → List β → Proc ε σ ρ δ ι α
  | done r s, _ => done r s
  | post _ _ _ next, responses => next.replay responses
  | await s round count next, responses =>
    match firstAnswer parse responses with
    | none => await s round count next
    | some (a, rest) => (next a).replay rest

variable {parse}

theorem exists_of_firstAnswer {responses rest : List β} {a : ι}
    (h : firstAnswer parse responses = some (a, rest)) : ∃ b, parse b = some a := by
  induction responses with
  | nil => cases h
  | cons b responses ih =>
    rw [firstAnswer] at h
    cases hb : parse b with
    | none =>
      rw [hb] at h
      exact ih h
    | some a' =>
      rw [hb] at h
      cases h
      exact ⟨b, hb⟩

theorem replay_lift_bind_ok {x : EStateM ε σ α} {f : α → Prog ε σ ρ δ ι β'} {s t : σ} {a : α}
    {responses : List β} (h : x.run s = .ok a t) :
    ((Prog.lift x >>= f) s).replay parse responses = (f a t).replay parse responses := by
  change ((Prog.lift x s).andThen _).replay parse responses = _
  rw [Prog.lift, h]
  rfl

theorem replay_lift_bind_error {x : EStateM ε σ α} {f : α → Prog ε σ ρ δ ι β'} {s t : σ} {e : ε}
    {responses : List β} (h : x.run s = .error e t) :
    ((Prog.lift x >>= f) s).replay parse responses = .done (.error e) t := by
  change ((Prog.lift x s).andThen _).replay parse responses = _
  rw [Prog.lift, h]
  rfl

theorem replay_post_bind {round : ρ} {data : δ} {f : Unit → Prog ε σ ρ δ ι α} {s : σ}
    {responses : List β} : ((Prog.post round data >>= f) s).replay parse responses =
      (f () s).replay parse responses := rfl

theorem replay_await_bind {round : ρ} {count : ℕ} {f : ι → Prog ε σ ρ δ ι α} {s : σ} {a : ι}
    {responses rest : List β} (h : firstAnswer parse responses = some (a, rest)) :
    ((Prog.await round count >>= f) s).replay parse responses = (f a s).replay parse rest := by
  change (Proc.await s round count _).replay parse responses = _
  rw [Proc.replay, h]
  rfl

theorem state_replay_await_bind {round : ρ} {count : ℕ} {f : ι → Prog ε σ ρ δ ι α} {s : σ}
    {responses : List β} (h : firstAnswer parse responses = none) :
    (∀ r t, ((Prog.await round count >>= f) s).replay parse responses ≠ .done r t) ∧
      (((Prog.await round count >>= f) s).replay parse responses).state = s := by
  change (∀ r t, (Proc.await s round count _).replay parse responses ≠ _) ∧
    ((Proc.await s round count _).replay parse responses).state = s
  rw [Proc.replay, h]
  exact ⟨fun r t => nofun, rfl⟩

/-- A continuation that ends at once is reached when the process before it ends. -/
theorem replay_andThen_eq_done_iff {p : Proc ε σ ρ δ ι α}
    {f : Except ε α → σ → Proc ε σ ρ δ ι β'} (hf : ∀ r s, ∃ r' s', f r s = .done r' s')
    {responses : List β} {r : Except ε β'} {t : σ} :
    (p.andThen f).replay parse responses = .done r t ↔
      ∃ r' t', p.replay parse responses = .done r' t' ∧ f r' t' = .done r t := by
  induction p generalizing responses with
  | done r' t' =>
    obtain ⟨r'', s'', hend⟩ := hf r' t'
    simp only [Proc.andThen, hend, Proc.replay]
    constructor
    · intro h
      exact ⟨r', t', rfl, hend.trans h⟩
    · intro h
      obtain ⟨_, _, heq, h⟩ := h
      cases heq
      exact hend.symm.trans h
  | post s round data next ih => exact ih
  | await s round count next ih =>
    simp only [Proc.andThen, Proc.replay]
    cases firstAnswer parse responses with
    | none =>
      constructor
      · intro h
        cases h
      · intro h
        obtain ⟨_, _, heq, -⟩ := h
        cases heq
    | some answer => exact ih answer.1

/-- A program under handlers that end at once ends as the program does, or as a handler. -/
theorem replay_catching_eq_done_iff {p : Prog ε σ ρ δ ι α}
    {handler : ε → Option (Prog ε σ ρ δ ι α)}
    (hhandler : ∀ e q, handler e = some q → ∀ t, ∃ r' t', q t = .done r' t') {s t : σ}
    {responses : List β} {r : Except ε α} :
    (p.catching handler s).replay parse responses = .done r t ↔
      ∃ r' u, (p s).replay parse responses = .done r' u ∧
        ((∃ a, r' = .ok a ∧ r = .ok a ∧ t = u) ∨
          (∃ e q, r' = .error e ∧ handler e = some q ∧ q u = .done r t) ∨
          ∃ e, r' = .error e ∧ handler e = none ∧ r = .error e ∧ t = u) := by
  rw [Prog.catching, replay_andThen_eq_done_iff]
  · refine exists_congr fun r' => exists_congr fun u => and_congr_right fun _ => ?_
    cases r' with
    | ok a => simp [eq_comm]
    | error e =>
      cases hq : handler e with
      | some q => simp [hq]
      | none => simp [hq, eq_comm]
  · intro r u
    cases r with
    | ok a => exact ⟨_, _, rfl⟩
    | error e =>
      cases hq : handler e with
      | some q =>
        simp only [hq]
        exact hhandler e q hq u
      | none =>
        simp only [hq]
        exact ⟨_, _, rfl⟩

/-- A process that is safe under every answer is safe under every response. -/
theorem Safe.replay {ω : Type} {env : Environment ω ρ δ ι} {A : ω → σ → Prop}
    {Q : ω → Except ε α → σ → Prop} {p : Proc ε σ ρ δ ι α} {w : ω} {responses : List β}
    (hanswers : ∀ w round count b a, parse b = some a → env.answers w round count a)
    (h : Safe env A Q p w) :
    ∃ w', A w' (p.replay parse responses).state ∧
      ∀ r t, p.replay parse responses = .done r t → Q w' r t := by
  induction p generalizing w responses with
  | done r s =>
    refine ⟨w, (h w (env.rely_refl w)).1, fun r' t heq => ?_⟩
    cases heq
    exact (h w (env.rely_refl w)).2
  | post s round data next ih =>
    exact ih (h w (env.rely_refl w)).2.2
  | await s round count next ih =>
    rw [Proc.replay]
    cases hfirst : firstAnswer parse responses with
    | none => exact ⟨w, (h w (env.rely_refl w)).1, fun r t heq => by cases heq⟩
    | some answer =>
      obtain ⟨a, rest⟩ := answer
      obtain ⟨b, hb⟩ := exists_of_firstAnswer hfirst
      exact ih a ((h w (env.rely_refl w)).2 a (hanswers w round count b a hb))

end Replay

section Triples

/-- A world of one process, in which anything may be posted and some answers are possible. -/
def Environment.answering (possible : ρ → ℕ → ι → Prop) : Environment Unit ρ δ ι where
  rely _ _ := True
  rely_refl _ := trivial
  rely_trans _ _ _ _ _ := trivial
  posted _ _ _ := ()
  allowed _ _ _ := True
  answers _ := possible

variable {possible : ρ → ℕ → ι → Prop}

/-- From a state with `P`, whatever is answered, the invariant `I` holds at every visible step,
and `Q` holds of the result when there is one. -/
def Triple (possible : ρ → ℕ → ι → Prop) (I P : σ → Prop) (p : Prog ε σ ρ δ ι α)
    (Q : α → σ → Prop) : Prop :=
  ∀ s, P s → Safe (Environment.answering possible) (fun _ => I)
    (fun _ r t => ∀ a, r = .ok a → Q a t) (p s) ()

variable {I P P' : σ → Prop} {p : Prog ε σ ρ δ ι α} {Q Q' : α → σ → Prop}

theorem Triple.bind {f : α → Prog ε σ ρ δ ι β} {R : β → σ → Prop} (hp : Triple possible I P p Q)
    (hf : ∀ a, Triple possible I (Q a) (f a) R) : Triple possible I P (p >>= f) R := by
  intro s hs
  refine safe_bind (hp s hs) ?_ ?_
  · intro a t _ _ hQ
    exact hf a t (hQ a rfl)
  · intro e t _ hI _
    exact fun _ _ => ⟨hI, fun a h => by cases h⟩

theorem Triple.lift {x : EStateM ε σ α}
    (hok : ∀ s, P s → ∀ a t, x.run s = .ok a t → I t ∧ Q a t)
    (herror : ∀ s, P s → ∀ e t, x.run s = .error e t → I t) :
    Triple possible I P (Prog.lift x : Prog ε σ ρ δ ι α) Q := by
  intro s hs
  rw [Prog.lift]
  cases h : x.run s with
  | ok a t =>
    obtain ⟨hI, hQ⟩ := hok s hs a t h
    exact fun _ _ => ⟨hI, fun a' h' => by cases h'; exact hQ⟩
  | error e t => exact fun _ _ => ⟨herror s hs e t h, fun a' h' => by cases h'⟩

theorem Triple.post (hI : ∀ s, P s → I s) (round : ρ) (data : δ) :
    Triple possible I P (Prog.post round data : Prog ε σ ρ δ ι Unit) fun _ => P :=
  fun s hs _ _ => ⟨hI s hs, trivial, fun _ _ => ⟨hI s hs, fun _ _ => hs⟩⟩

theorem Triple.await (hI : ∀ s, P s → I s) (round : ρ) (count : ℕ) :
    Triple possible I P (Prog.await round count : Prog ε σ ρ δ ι ι) fun a s =>
      P s ∧ possible round count a :=
  fun s hs _ _ => ⟨hI s hs, fun a ha _ _ => ⟨hI s hs, fun a' h => by cases h; exact ⟨hs, ha⟩⟩⟩

theorem Triple.pure {a : α} (hI : ∀ s, P s → I s) (hQ : ∀ s, P s → Q a s) :
    Triple possible I P (Pure.pure a : Prog ε σ ρ δ ι α) Q :=
  fun s hs _ _ => ⟨hI s hs, fun a' h => by cases h; exact hQ s hs⟩

theorem Triple.mono (h : Triple possible I P p Q) (hP : ∀ s, P' s → P s)
    (hQ : ∀ a s, Q a s → Q' a s) : Triple possible I P' p Q' :=
  fun s hs => (h s (hP s hs)).mono fun _ _ _ h a ha => hQ a _ (h a ha)

/-- An await whose answer is of no concern. -/
theorem Triple.skip (hI : ∀ s, P s → I s) (round : ρ) (count : ℕ) :
    Triple possible I P (Prog.await round count : Prog ε σ ρ δ ι ι) fun _ => P :=
  (Triple.await hI round count).mono (fun _ h => h) fun _ _ h => h.1

theorem Triple.catching {handler : ε → Option (Prog ε σ ρ δ ι α)}
    (hp : Triple possible I P p Q)
    (hhandler : ∀ e q, handler e = some q → Triple possible I I q Q) :
    Triple possible I P (p.catching handler) Q := by
  intro s hs
  refine (hp s hs).andThen fun r t _ hI hQ => ?_
  cases r with
  | ok a => exact fun _ _ => ⟨hI, hQ⟩
  | error e =>
    cases hq : handler e with
    | none =>
      simp only [hq]
      exact fun _ _ => ⟨hI, fun a h => by cases h⟩
    | some q =>
      simp only [hq]
      exact hhandler e q hq t hI

/-- A triple under all answers speaks of every list of responses. -/
theorem Triple.replay {β : Type} {parse : β → Option ι}
    (h : Triple (fun _ _ _ => True) I P p Q) {s : σ} (hs : P s) (responses : List β) :
    I ((p s).replay parse responses).state ∧
      ∀ a t, (p s).replay parse responses = .done (.ok a) t → Q a t := by
  have hanswers : ∀ w round count b a, parse b = some a →
      (Environment.answering fun _ _ _ => True : Environment Unit ρ δ ι).answers w round count a :=
    fun _ _ _ _ _ _ => trivial
  obtain ⟨_, hI, hQ⟩ := Safe.replay hanswers (h s hs)
  exact ⟨hI, fun a t hdone => hQ _ t hdone a rfl⟩

end Triples

section Outcomes
variable {P P' F F' : σ → Prop} {p : Prog ε σ ρ δ ι α} {Q Q' : α → σ → Prop}

/-- From a state with `P`, whatever is answered, a normal result satisfies `Q` and a failure
ends in a state with `F`. -/
def Ends (P : σ → Prop) (p : Prog ε σ ρ δ ι α) (Q : α → σ → Prop) (F : σ → Prop) : Prop :=
  ∀ s, P s → Safe (Environment.answering fun _ _ _ => True) (fun _ _ => True)
    (fun _ r t => (∀ a, r = .ok a → Q a t) ∧ ∀ e, r = .error e → F t) (p s) ()

theorem Ends.bind {f : α → Prog ε σ ρ δ ι β} {R : β → σ → Prop} (hp : Ends P p Q F)
    (hf : ∀ a, Ends (Q a) (f a) R F) : Ends P (p >>= f) R F := by
  intro s hs
  refine safe_bind (hp s hs) ?_ ?_
  · intro a t _ _ hQ
    exact hf a t (hQ.1 a rfl)
  · intro e t _ _ hQ
    refine fun _ _ => ⟨trivial, fun a h => ?_, fun e' h => ?_⟩
    · cases h
    · cases h
      exact hQ.2 e rfl

theorem Ends.lift {x : EStateM ε σ α} (hok : ∀ s, P s → ∀ a t, x.run s = .ok a t → Q a t)
    (herror : ∀ s, P s → ∀ e t, x.run s = .error e t → F t) :
    Ends P (Prog.lift x : Prog ε σ ρ δ ι α) Q F := by
  intro s hs
  rw [Prog.lift]
  cases h : x.run s with
  | ok a t =>
    refine fun _ _ => ⟨trivial, fun a' h' => ?_, fun e h' => ?_⟩
    · cases h'
      exact hok s hs a t h
    · cases h'
  | error e t =>
    refine fun _ _ => ⟨trivial, fun a h' => ?_, fun e' h' => ?_⟩
    · cases h'
    · cases h'
      exact herror s hs e t h

theorem Ends.post (round : ρ) (data : δ) :
    Ends P (Prog.post round data : Prog ε σ ρ δ ι Unit) (fun _ => P) F :=
  fun _ hs _ _ => ⟨trivial, trivial, fun _ _ => ⟨trivial, fun _ _ => hs, fun _ h => by cases h⟩⟩

theorem Ends.await (round : ρ) (count : ℕ) :
    Ends P (Prog.await round count : Prog ε σ ρ δ ι ι) (fun _ => P) F :=
  fun _ hs _ _ => ⟨trivial, fun _ _ _ _ => ⟨trivial, fun _ _ => hs, fun _ h => by cases h⟩⟩

theorem Ends.pure {a : α} (h : ∀ s, P s → Q a s) :
    Ends P (Pure.pure a : Prog ε σ ρ δ ι α) Q F :=
  fun s hs _ _ => ⟨trivial, fun a' heq => Except.ok.inj heq ▸ h s hs, fun _ heq => by cases heq⟩

theorem Ends.mono (h : Ends P p Q F) (hP : ∀ s, P' s → P s) (hQ : ∀ a s, Q a s → Q' a s)
    (hF : ∀ s, F s → F' s) : Ends P' p Q' F' :=
  fun s hs => (h s (hP s hs)).mono fun _ _ t h =>
    ⟨fun a ha => hQ a t (h.1 a ha), fun e he => hF t (h.2 e he)⟩

theorem Ends.replay {β : Type} {parse : β → Option ι} (h : Ends P p Q F) {s t : σ} (hs : P s)
    {responses : List β} {r : Except ε α} (hrun : (p s).replay parse responses = .done r t) :
    (∀ a, r = .ok a → Q a t) ∧ ∀ e, r = .error e → F t := by
  have hanswers : ∀ w round count b a, parse b = some a →
      (Environment.answering fun _ _ _ => True : Environment Unit ρ δ ι).answers w round count a :=
    fun _ _ _ _ _ _ => trivial
  obtain ⟨_, -, hQ⟩ := Safe.replay hanswers (h s hs)
  exact hQ r t hrun

end Outcomes

section Systems
variable {ω κ : Type} [DecidableEq κ]

/-- Several processes over one world. -/
structure Config (ω κ ε σ ρ δ ι α : Type) where
  world : ω
  procs : κ → Proc ε σ ρ δ ι α

variable (envs : κ → Environment ω ρ δ ι)

/-- One visible step of one of the processes. -/
inductive SystemStep : Config ω κ ε σ ρ δ ι α → Config ω κ ε σ ρ δ ι α → Prop
  | post {c : Config ω κ ε σ ρ δ ι α} {i : κ} {s : σ} {round : ρ} {data : δ}
      {next : Proc ε σ ρ δ ι α} : c.procs i = .post s round data next →
      SystemStep c ⟨(envs i).posted c.world round data, Function.update c.procs i next⟩
  | answer {c : Config ω κ ε σ ρ δ ι α} {i : κ} {s : σ} {round : ρ} {count : ℕ}
      {next : ι → Proc ε σ ρ δ ι α} {a : ι} : c.procs i = .await s round count next →
      (envs i).answers c.world round count a →
      SystemStep c ⟨c.world, Function.update c.procs i (next a)⟩

/-- The configurations of all interleavings from a given one. -/
inductive Reachable (start : Config ω κ ε σ ρ δ ι α) : Config ω κ ε σ ρ δ ι α → Prop
  | start : Reachable start start
  | step {c d : Config ω κ ε σ ρ δ ι α} : Reachable start c → SystemStep envs c d → Reachable start d

variable {envs} {A : κ → ω → σ → Prop} {Q : κ → ω → Except ε α → σ → Prop} {I : ω → Prop}

/-- Every process is safe in the present world, which satisfies an invariant. -/
def AllSafe (envs : κ → Environment ω ρ δ ι) (A : κ → ω → σ → Prop)
    (Q : κ → ω → Except ε α → σ → Prop) (I : ω → Prop) (c : Config ω κ ε σ ρ δ ι α) : Prop :=
  I c.world ∧ ∀ i, Safe (envs i) (A i) (Q i) (c.procs i) c.world

variable {c d start : Config ω κ ε σ ρ δ ι α}

/-- An allowed post keeps the invariant and is something the others rely on. -/
theorem AllSafe.step
    (hposted : ∀ i w round data, I w → (envs i).allowed w round data →
      I ((envs i).posted w round data) ∧
        ∀ j, j ≠ i → (envs j).rely w ((envs i).posted w round data))
    (h : AllSafe envs A Q I c) (hstep : SystemStep envs c d) : AllSafe envs A Q I d := by
  obtain ⟨hI, hsafe⟩ := h
  cases hstep with
  | @post i s round data next hi =>
    have hpost := hsafe i
    rw [hi] at hpost
    obtain ⟨-, hallowed, hnext⟩ := hpost c.world ((envs i).rely_refl _)
    obtain ⟨hI', hothers⟩ := hposted i _ _ _ hI hallowed
    refine ⟨hI', fun j => ?_⟩
    by_cases hj : j = i
    · subst hj
      simpa only [Function.update_self] using hnext
    · simpa only [Function.update_of_ne hj] using (hsafe j).rely (hothers j hj)
  | @answer i s round count next a hi ha =>
    have hawait := hsafe i
    rw [hi] at hawait
    obtain ⟨-, hnext⟩ := hawait c.world ((envs i).rely_refl _)
    refine ⟨hI, fun j => ?_⟩
    by_cases hj : j = i
    · subst hj
      simpa only [Function.update_self] using hnext a ha
    · simpa only [Function.update_of_ne hj] using hsafe j

theorem AllSafe.reachable
    (hposted : ∀ i w round data, I w → (envs i).allowed w round data →
      I ((envs i).posted w round data) ∧
        ∀ j, j ≠ i → (envs j).rely w ((envs i).posted w round data))
    (hstart : AllSafe envs A Q I start) (h : Reachable envs start c) : AllSafe envs A Q I c := by
  induction h with
  | start => exact hstart
  | step _ hstep ih => exact ih.step hposted hstep

/-- A triple speaks of every state that one process reaches under the possible answers. -/
theorem Triple.reachable {possible : ρ → ℕ → ι → Prop} {I P : σ → Prop} {p : Prog ε σ ρ δ ι α}
    {Q : α → σ → Prop} (h : Triple possible I P p Q) {s : σ} (hs : P s)
    {c : Config Unit Unit ε σ ρ δ ι α}
    (hc : Reachable (fun _ => Environment.answering possible) ⟨(), fun _ => p s⟩ c) :
    I (c.procs ()).state := by
  have hsafe := AllSafe.reachable (A := fun _ _ => I) (I := fun _ => True)
    (Q := fun _ _ r t => ∀ a, r = .ok a → Q a t) (fun i w round data _ _ =>
      ⟨trivial, fun j hj => absurd (Subsingleton.elim j i) hj⟩) ⟨trivial, fun _ => h s hs⟩ hc
  exact (hsafe.2 ()).assertion

end Systems

end MpcDemo.Processes
