import MpcDemo.ProcessFrames

/-!
# Processes that work off a schedule

The rounds of a schedule are passed in one order, and in each of them some parties post and some
wait for the messages of all who post. A process follows its script when it makes just these
requests, whatever it is answered. Processes that follow the scripts of one schedule are never
stuck, and every run of them has an end, at which all of them have completed.
-/

namespace MpcDemo.Processes
open FallibleState

variable {ε σ ρ δ ι α β ω κ : Type}

inductive Action (ρ : Type)
  | post (round : ρ)
  | await (round : ρ) (count : ℕ)
  deriving DecidableEq

section Scripts

/-- A process that makes the requests of a script in their order. It may leave the script where it
fails or where its state has the property `B`. -/
def Proc.Follows (B : σ → Prop) (Q : α → σ → Prop) :
    Proc ε σ ρ δ ι α → List (Action ρ) → Prop
  | .done r s, script => ∀ a, r = .ok a → B s ∨ script = [] ∧ Q a s
  | .post s round _ next, script =>
    B s ∨ ∃ rest, script = .post round :: rest ∧ next.Follows B Q rest
  | .await s round count next, script =>
    B s ∨ ∃ rest, script = .await round count :: rest ∧ ∀ a, (next a).Follows B Q rest

/-- From a state with `P` a program follows a script, at the end of which `Q` holds. -/
def Prog.Follows (B P : σ → Prop) (p : Prog ε σ ρ δ ι α) (script : List (Action ρ))
    (Q : α → σ → Prop) : Prop :=
  ∀ s, P s → (p s).Follows B Q script

/-- A program that never gets out of the states with the property `B`. -/
def Prog.Remains (B : σ → Prop) (p : Prog ε σ ρ δ ι α) : Prop :=
  ∀ s, B s → (p s).Stays (fun _ => True) (fun _ => True) B

variable {B B' P P' : σ → Prop} {Q Q' : α → σ → Prop} {R : β → σ → Prop}
variable {script rest : List (Action ρ)}

/-- In a state with the property `B` any script is followed. -/
theorem Proc.Stays.follows {p : Proc ε σ ρ δ ι α}
    (h : p.Stays (fun _ => True) (fun _ => True) B) : p.Follows B Q script := by
  cases p with
  | done r s => exact fun _ _ => Or.inl h
  | post s round data next => exact Or.inl h.1
  | await s round count next => exact Or.inl h.1

theorem Proc.Follows.andThen {p : Proc ε σ ρ δ ι α} {f : Except ε α → σ → Proc ε σ ρ δ ι β}
    (hp : p.Follows B' Q script) (hB : ∀ s, B' s → B s)
    (hok : ∀ a s, Q a s → (f (.ok a) s).Follows B R rest)
    (hleft : ∀ a s script, B' s → (f (.ok a) s).Follows B R script)
    (herror : ∀ e s script, (f (.error e) s).Follows B R script) :
    (p.andThen f).Follows B R (script ++ rest) := by
  induction p generalizing script with
  | done r s =>
    cases r with
    | error e => exact herror e s _
    | ok a =>
      rcases hp a rfl with hs | ⟨rfl, hQ⟩
      · exact hleft a s _ hs
      · exact hok a s hQ
  | post s round data next ih =>
    refine hp.imp (hB s) fun h => ?_
    obtain ⟨script', rfl, hnext⟩ := h
    exact ⟨script' ++ rest, rfl, ih hnext⟩
  | await s round count next ih =>
    refine hp.imp (hB s) fun h => ?_
    obtain ⟨script', rfl, hnext⟩ := h
    exact ⟨script' ++ rest, rfl, fun a => ih a (hnext a)⟩

theorem Proc.Follows.mono {p : Proc ε σ ρ δ ι α} (h : p.Follows B' Q script)
    (hB : ∀ s, B' s → B s) (hQ : ∀ a s, Q a s → Q' a s) : p.Follows B Q' script := by
  induction p generalizing script with
  | done r s => exact fun a ha => (h a ha).imp (hB s) fun h => ⟨h.1, hQ a s h.2⟩
  | post s round data next ih =>
    refine h.imp (hB s) fun h => ?_
    obtain ⟨script', hscript, hnext⟩ := h
    exact ⟨script', hscript, ih hnext⟩
  | await s round count next ih =>
    refine h.imp (hB s) fun h => ?_
    obtain ⟨script', hscript, hnext⟩ := h
    exact ⟨script', hscript, fun a => ih a (hnext a)⟩

section Rules
variable {p : Prog ε σ ρ δ ι α} {f : α → Prog ε σ ρ δ ι β}

theorem Prog.Follows.bind (hp : p.Follows B P script Q) (hremains : ∀ a, (f a).Remains B)
    (hf : ∀ a, (f a).Follows B (Q a) rest R) : (p >>= f).Follows B P (script ++ rest) R := by
  intro s hs
  refine (hp s hs).andThen (fun _ => id) hf (fun a t _ hB => (hremains a t hB).follows)
    fun e t _ a ha => ?_
  cases ha

theorem Prog.Follows.mono (h : p.Follows B' P script Q) (hB : ∀ s, B' s → B s)
    (hP : ∀ s, P' s → P s) (hQ : ∀ a s, Q a s → Q' a s) : p.Follows B P' script Q' :=
  fun s hs => (h s (hP s hs)).mono hB hQ

/-- Handlers that end in states with the property `B` are no part of a script. -/
theorem Prog.Follows.catching {handler : ε → Option (Prog ε σ ρ δ ι α)}
    (hp : p.Follows B P script Q) (hhandler : ∀ e q, handler e = some q →
      ∀ s, ∃ r t, q s = .done r t ∧ B t) : (p.catching handler).Follows B P script Q := by
  intro s hs
  rw [← List.append_nil script]
  refine (hp s hs).andThen (fun _ => id) (fun a t hQ a' ha => ?_) (fun a t _ hB a' _ => ?_)
    fun e t _ => ?_
  · cases ha
    exact Or.inr ⟨rfl, hQ⟩
  · exact Or.inl hB
  · cases hq : handler e with
    | none =>
      simp only [hq]
      intro a ha
      cases ha
    | some q =>
      obtain ⟨r, u, hdone, hB⟩ := hhandler e q hq t
      simp only [hq, hdone]
      exact fun _ _ => Or.inl hB

end Rules

end Scripts

/-- The rounds of some parties in one order: who posts to a round, and for how many messages of it
a party then waits, if it does. -/
structure Schedule (κ τ ρ : Type) where
  rounds : List τ
  name : τ → ρ
  nodup : (rounds.map name).Nodup
  sends : τ → κ → Bool
  count : τ → κ → Option ℕ

namespace Schedule
variable {τ : Type} (S : Schedule κ τ ρ) (i : κ)

/-- What a party does in a round. -/
def part (r : τ) : List (Action ρ) :=
  (if S.sends r i then [.post (S.name r)] else []) ++
    ((S.count r i).map (Action.await (S.name r))).toList

def script : List (Action ρ) := S.rounds.flatMap (S.part i)

variable {S i} {j : κ} {r r' : τ} {name : ρ} {n : ℕ}
variable {behind ahead behind' ahead' : List (Action ρ)}

section Order
variable [DecidableEq ρ]

def position (S : Schedule κ τ ρ) (name : ρ) : ℕ := (S.rounds.map S.name).idxOf name

/-- Requests in the order of their rounds, and in a round the post first. -/
def rank (S : Schedule κ τ ρ) : Action ρ → ℕ
  | .post name => 2 * S.position name
  | .await name _ => 2 * S.position name + 1

end Order

end Schedule

section Systems
variable [DecidableEq κ] {envs : κ → Environment ω ρ δ ι} {start c d : Config ω κ ε σ ρ δ ι α}

/-- The configurations after so many steps. -/
inductive Run (envs : κ → Environment ω ρ δ ι) (start : Config ω κ ε σ ρ δ ι α) :
    ℕ → Config ω κ ε σ ρ δ ι α → Prop
  | start : Run envs start 0 start
  | step {n : ℕ} {c d : Config ω κ ε σ ρ δ ι α} : Run envs start n c → SystemStep envs c d →
    Run envs start (n + 1) d

theorem Run.reachable {n : ℕ} (h : Run envs start n c) : Reachable envs start c := by
  induction h with
  | start => exact .start
  | step _ hstep ih => exact ih.step hstep

variable {τ : Type} (envs start) {S : Schedule κ τ ρ}

/-- What it takes for a system to work off a schedule: that the parties follow its scripts, that no
message is lost, that nobody leaves the script, and that a party gets an answer as soon as everybody
has posted to the round. -/
structure WorksOff (S : Schedule κ τ ρ) (has : κ → ω → ρ → Prop) (B : κ → σ → Prop)
    (Q : κ → α → σ → Prop) : Prop where
  follows : ∀ i, (start.procs i).Follows (B i) (Q i) (S.script i)
  posted : ∀ i w round data, has i ((envs i).posted w round data) round
  keeps : ∀ i j w round data r, has j w r → has j ((envs i).posted w round data) r
  stays : ∀ c, Reachable envs start c → ∀ i, ¬ B i (c.procs i).state
  succeeds : ∀ c, Reachable envs start c → ∀ i e s, c.procs i ≠ .done (.error e) s
  answered : ∀ c, Reachable envs start c → ∀ i, ∀ r ∈ S.rounds, ∀ n, S.count r i = some n →
    (∀ j, S.sends r j = true → has j c.world (S.name r)) →
    ∃ a, (envs i).answers c.world (S.name r) n a

variable {envs start} {has : κ → ω → ρ → Prop} {B : κ → σ → Prop} {Q : κ → α → σ → Prop}

/-- How far the parties have come in their scripts. -/
structure Stands (S : Schedule κ τ ρ) (has : κ → ω → ρ → Prop) (B : κ → σ → Prop)
    (Q : κ → α → σ → Prop) (behind ahead : κ → List (Action ρ)) (c : Config ω κ ε σ ρ δ ι α) :
    Prop where
  script : ∀ i, S.script i = behind i ++ ahead i
  follows : ∀ i, (c.procs i).Follows (B i) (Q i) (ahead i)
  posted : ∀ i r, .post r ∈ behind i → has i c.world r

variable {behind ahead : κ → List (Action ρ)} {n : ℕ}

/-- A party that makes the next request of its script goes one request ahead. -/
theorem Stands.advance (h : Stands S has B Q behind ahead c) {i : κ} {x : Action ρ}
    {rest : List (Action ρ)} (hahead : ahead i = x :: rest) {w : ω} {p : Proc ε σ ρ δ ι α}
    (hp : p.Follows (B i) (Q i) rest) (hkeeps : ∀ j r, has j c.world r → has j w r)
    (hposted : ∀ r, x = .post r → has i w r) :
    Stands S has B Q (Function.update behind i (behind i ++ [x])) (Function.update ahead i rest)
      ⟨w, Function.update c.procs i p⟩ := by
  refine ⟨fun j => ?_, fun j => ?_, fun j r hr => ?_⟩
  · by_cases hj : j = i
    · subst hj
      rw [Function.update_self, Function.update_self, List.append_assoc, h.script, hahead]
      rfl
    · rw [Function.update_of_ne hj, Function.update_of_ne hj, h.script]
  · by_cases hj : j = i
    · subst hj
      simpa only [Function.update_self] using hp
    · simpa only [Function.update_of_ne hj] using h.follows j
  · by_cases hj : j = i
    · subst hj
      rw [Function.update_self, List.mem_append, List.mem_singleton] at hr
      rcases hr with hr | hr
      · exact hkeeps j r (h.posted j r hr)
      · exact hposted r hr.symm
    · rw [Function.update_of_ne hj] at hr
      exact hkeeps j r (h.posted j r hr)

theorem Stands.step (hW : WorksOff envs start S has B Q) (hc : Reachable envs start c)
    (h : Stands S has B Q behind ahead c) (hstep : SystemStep envs c d) :
    ∃ i x rest, ahead i = x :: rest ∧ Stands S has B Q
      (Function.update behind i (behind i ++ [x])) (Function.update ahead i rest) d := by
  cases hstep with
  | @post i s round data next hi =>
    have hfollows := h.follows i
    have hstays := hW.stays c hc i
    rw [hi] at hfollows hstays
    obtain ⟨rest, hahead, hnext⟩ := hfollows.resolve_left hstays
    refine ⟨i, _, rest, hahead, h.advance hahead hnext (fun j r => hW.keeps i j _ _ _ r) ?_⟩
    intro r hr
    cases hr
    exact hW.posted i _ _ _
  | @answer i s round count next a hi ha =>
    have hfollows := h.follows i
    have hstays := hW.stays c hc i
    rw [hi] at hfollows hstays
    obtain ⟨rest, hahead, hnext⟩ := hfollows.resolve_left hstays
    refine ⟨i, _, rest, hahead, h.advance hahead (hnext a) (fun _ _ => id) ?_⟩
    intro r hr
    cases hr

/-- A party whose next request is a post, or that has failed, is not one of these. -/
theorem Stands.cases (hW : WorksOff envs start S has B Q) (hc : Reachable envs start c)
    (h : Stands S has B Q behind ahead c) (hstuck : ∀ d, ¬ SystemStep envs c d) (i : κ) :
    (ahead i = [] ∧ ∃ a s, c.procs i = .done (.ok a) s ∧ Q i a s) ∨
      ∃ s r count next rest, c.procs i = .await s r count next ∧
        ahead i = .await r count :: rest := by
  have hfollows := h.follows i
  have hstays := hW.stays c hc i
  cases hi : c.procs i with
  | done r s =>
    rw [hi] at hfollows hstays
    cases r with
    | error e => exact absurd hi (hW.succeeds c hc i e s)
    | ok a =>
      obtain ⟨hahead, hQ⟩ := (hfollows a rfl).resolve_left hstays
      exact Or.inl ⟨hahead, a, s, rfl, hQ⟩
  | post s round data next => exact absurd (.post hi) (hstuck _)
  | await s round count next =>
    rw [hi] at hfollows hstays
    obtain ⟨rest, hahead, -⟩ := hfollows.resolve_left hstays
    exact Or.inr ⟨s, round, count, next, rest, rfl, hahead⟩

section Completion
variable [Fintype κ]

end Completion

end Systems

end MpcDemo.Processes
