import MpcDemo.NodeTriples
import MpcDemo.ServerCalls
import MpcDemo.ThreeNodes

/-!
# What the parts of a node's program leave alone

Each part of the main program uses only rounds of its own, nothing takes a journal entry back, and
a signing flow leaves the keys and both preprocessing stores as they are.
-/

namespace MpcDemo.NodeFrames
open ByteStrings Ed25519Algebra CosignerTypes FallibleState Persistencies NodeState Processes
open ServerOperationLaws ServerCalls SetupService SetupServiceLaws SigningOrchestrator NodeTriples
open NodePrograms ThreeNodes NodeMain

/-- The journal only grows. -/
def JournalGrows (s t : Node) : Prop := s.journal ⊆ t.journal

/-- What the steps of a signing flow keep. -/
structure FlowKeeps (s t : Node) : Prop where
  keys : t.keys = s.keys
  client : t.client = s.client
  preprocessedData : t.server.preprocessedData = s.server.preprocessedData
  journal : JournalGrows s t

instance : Std.Refl JournalGrows := ⟨fun _ => List.Subset.refl _⟩

instance : IsTrans Node JournalGrows := ⟨fun _ _ _ => List.Subset.trans⟩

instance : Std.Refl FlowKeeps := ⟨fun s => ⟨rfl, rfl, rfl, refl_of JournalGrows s⟩⟩

instance : IsTrans Node FlowKeeps where
  trans _ _ _ h h' := ⟨h'.keys.trans h.keys, h'.client.trans h.client,
    h'.preprocessedData.trans h.preprocessedData, trans_of JournalGrows h.journal h'.journal⟩

variable {host : Host} {α : Type}

section Operations
variable {K : Node → Node → Prop} {x : EStateM Failure Node α}

theorem journalGrows_of_silent {s t : Node} (h : Silent s t) : JournalGrows s t := by
  rw [JournalGrows, h.1]
  exact List.Subset.refl _

/-- A node once it has written to its journal. -/
def noted (e : Event) (s : Node) : Node := { s with journal := e :: s.journal }

theorem keeps_startSignaturePreprocessing {tenant keyId requestId : ByteString}
    {startIndex count total : ℕ} {playersIds : Finset ℕ} : Keeps JournalGrows
      (AsymmetricEddsaCosignerClient.startSignaturePreprocessing host.client tenant keyId requestId
        startIndex count total playersIds) :=
  Keeps.mono (ClientOperationLaws.keeps_startSignaturePreprocessing _ _ _ _ _ _)
    fun _ _ h => journalGrows_of_silent (silent_of_onlyClient h)

end Operations

section Flows
variable {P R : ByteString → Prop} {myId : ℕ} {txid message : ByteString}

section Server
variable (hP : ∀ step : SigningStep, step ≠ .ready → step ≠ .r2 → P (Round.name (.sign step txid)))
variable (hR : ∀ step : SigningStep, step ≠ .ready → R (Round.name (.sign step txid)))
include hP

include hR

omit hP

include hP

end Server

end Flows

section Sessions
variable {P R : ByteString → Prop} {myId : ℕ}

/-- A round belongs to a session. -/
def OfSession (txid : ByteString) (r : Round) : Prop :=
  r = .preprocess txid ∨ ∃ step, r = .sign step txid

/-- The rounds of key generation. -/
def OfKeygen (r : Round) : Prop := r = .keygenCommit ∨ r = .keygenReveal

end Sessions

end MpcDemo.NodeFrames
