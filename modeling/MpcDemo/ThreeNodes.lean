import MpcDemo.NodeMain
import MpcDemo.ProcessFrames
import MpcDemo.RelayProtocols

/-!
# The three nodes of the demo

The nodes run side by side over one relay, which is empty at first. Whatever the session ids, no
two rounds have the same name.
-/

namespace MpcDemo.ThreeNodes
open ByteStrings Ed25519Algebra CosignerTypes Persistencies NodeState Processes RelayProtocols
open NetworkManager NodePrograms

/-- The steps of a signing session, by the ends of the names of their rounds. -/
inductive SigningStep
  | ready | serverCommit | serverDecommitR | serverR | r2 | r2Sigs | r3
  deriving DecidableEq

namespace SigningStep

def suffix : SigningStep → String
  | ready => "_ready"
  | serverCommit => "_server_commit"
  | serverDecommitR => "_server_decommit_r"
  | serverR => "_server_r"
  | r2 => "_r2"
  | r2Sigs => "_r2_sigs"
  | r3 => "_r3"

def senders : SigningStep → Finset ℕ
  | ready => {1, 2, 3}
  | r2 => {1}
  | _ => {2, 3}

theorem senders_subset (step : SigningStep) : step.senders ⊆ playersIds := by
  cases step <;> decide

theorem suffix_apart {step step' : SigningStep} (h : ascii step.suffix <:+ ascii step'.suffix) :
    step = step' := by
  revert h
  cases step <;> cases step' <;> decide

end SigningStep

inductive Round
  | keygenCommit
  | keygenReveal
  | preprocess (requestId : ByteString)
  | sign (step : SigningStep) (txid : ByteString)
  deriving DecidableEq

namespace Round

def name : Round → ByteString
  | keygenCommit => KeygenOrchestrator.commitPhase
  | keygenReveal => KeygenOrchestrator.revealPhase
  | preprocess requestId => PreprocessingOrchestrator.preprocessRound requestId
  | sign step txid => SigningOrchestrator.signRound step.suffix txid

def senders : Round → Finset ℕ
  | keygenCommit => {1, 2, 3}
  | keygenReveal => {1, 2, 3}
  | preprocess _ => {1}
  | sign step _ => step.senders

theorem senders_subset (r : Round) : r.senders ⊆ playersIds := by
  cases r with
  | keygenCommit => decide
  | keygenReveal => decide
  | preprocess requestId => exact Finset.singleton_subset_iff.2 (by decide)
  | sign step txid => exact step.senders_subset

theorem name_injective : Function.Injective name := by
  intro r r' h
  cases r with
  | keygenCommit =>
    cases r' with
    | keygenCommit => rfl
    | keygenReveal => exact absurd h (by decide)
    | preprocess t => cases h
    | sign step t => cases h
  | keygenReveal =>
    cases r' with
    | keygenCommit => exact absurd h (by decide)
    | keygenReveal => rfl
    | preprocess t => cases h
    | sign step t => cases h
  | preprocess t =>
    cases r' with
    | keygenCommit => cases h
    | keygenReveal => cases h
    | preprocess t' => rw [List.append_cancel_left h]
    | sign step t' => cases h
  | sign step t =>
    cases r' with
    | keygenCommit => cases h
    | keygenReveal => cases h
    | preprocess t' => cases h
    | sign step' t' =>
      have heq : t ++ ascii step.suffix = t' ++ ascii step'.suffix := by
        simpa only [name, SigningOrchestrator.signRound, List.append_assoc,
          List.append_cancel_left_eq] using h
      have hstep : step = step' := by
        have hsuffix := List.suffix_append t (ascii step.suffix)
        have hsuffix' := List.suffix_append t' (ascii step'.suffix)
        rw [← heq] at hsuffix'
        rcases List.suffix_or_suffix_of_suffix hsuffix hsuffix' with h | h
        · exact SigningStep.suffix_apart h
        · exact (SigningStep.suffix_apart h).symm
      subst hstep
      rw [List.append_cancel_right heq]

theorem name_ne {r r' : Round} (h : r ≠ r') : r.name ≠ r'.name := fun heq => h (name_injective heq)

end Round

theorem preprocess_ne_ready {txid : ByteString} :
    PreprocessingOrchestrator.preprocessRound txid ≠ SigningOrchestrator.readyRound txid :=
  @Round.name_ne (.preprocess txid) (.sign .ready txid) (by simp)

/-- What the nodes share, and what each of them draws. -/
structure Deployment where
  algebra : Ed25519
  hash : HashFunctions
  tape : ℕ → Tape

def Deployment.host (D : Deployment) (i : ℕ) : Host :=
  ⟨D.algebra, D.hash, simplePlatform i, D.tape i⟩

abbrev Player := {i // i ∈ playersIds}

def client : Player := ⟨1, by decide⟩

/-- The relay and the three nodes. -/
abbrev Configuration :=
  Config World Player Failure Node ByteString ByteString (PlayerMap ByteString) Unit

/-- The relay answers a poll, and the node reads this map in the answer. -/
def Answered (w : World) (round : ByteString) (count : ℕ) (a : PlayerMap ByteString) : Prop :=
  awaitResponse totalPlayers (jsonify (Relay.poll w round count)) = some a

/-- The relay as a node meets it, with nothing known about the others. -/
def relay (i : ℕ) : Environment World ByteString ByteString (PlayerMap ByteString) where
  rely _ _ := True
  rely_refl _ := trivial
  rely_trans _ _ _ _ _ := trivial
  posted w round data := Relay.broadcast w round i data
  allowed _ _ _ := True
  answers := Answered

variable {w : World} {round : ByteString} {count : ℕ} {a : PlayerMap ByteString}

/-- Every node at the start of its program, and nothing posted. -/
def start (program : ℕ → NodeProg Unit) : Configuration :=
  ⟨fun _ => [], fun i => program i Node.initial⟩

/-- The configurations of all interleavings of the relay requests of the three nodes. -/
def Reached (program : ℕ → NodeProg Unit) : Configuration → Prop :=
  Reachable (fun i : Player => relay i) (start program)

/-- What is known about the others changes nothing about the steps. -/
theorem Reached.reachable {program : ℕ → NodeProg Unit} {c : Configuration}
    {envs : Player → Environment World ByteString ByteString (PlayerMap ByteString)}
    (hposted : ∀ i, (envs i).posted = (relay i).posted) (hanswers : ∀ i, (envs i).answers = Answered)
    (h : Reached program c) : Reachable envs (start program) c :=
  Reachable.of_steps (fun i => (hposted i).symm) (fun i => (hanswers i).symm) h

end MpcDemo.ThreeNodes
