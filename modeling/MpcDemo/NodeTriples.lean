import MpcDemo.ClientOperationLaws
import MpcDemo.NodeMain
import MpcDemo.SetupServiceLaws

/-!
# Triples for the programs of a node

Most of what a node does writes nothing to its journal. An invariant that only depends on the
journal and on the draws made survives all of that.
-/

namespace MpcDemo.NodeTriples
open ByteStrings CosignerTypes AsymmetricEddsaCosigner FallibleState Persistencies NodeState
open Processes NodePrograms SigningOrchestrator ClientOperationLaws SetupService SetupServiceLaws

/-- The journal is the same, and no draw is taken back. -/
def Silent (s t : Node) : Prop := t.journal = s.journal ∧ s.draws ≤ t.draws

theorem silent_of_onlyClient {s t : Node} (h : OnlyClient s t) : Silent s t := by
  obtain ⟨hdraws, ht⟩ := h
  exact ⟨by rw [ht], hdraws⟩

theorem silent_of_onlyDraws {s t : Node} (h : OnlyDraws s t) : Silent s t := by
  obtain ⟨hdraws, ht⟩ := h
  exact ⟨by rw [ht], hdraws⟩

variable {possible : ByteString → ℕ → PlayerMap ByteString → Prop} {I P : Node → Prop} {α : Type}

theorem triple_ofExcept (hP : ∀ s, P s → I s) (x : Except Failure α) :
    Triple possible I P (Prog.lift (ofExcept x) : NodeProg α) fun a s => P s ∧ x = .ok a := by
  refine .lift (fun s hs a t ht => ?_) fun s hs e t ht => ?_
  · obtain ⟨hx, rfl⟩ := run_ofExcept_ok_iff.1 ht
    exact ⟨hP s hs, hs, hx⟩
  · obtain ⟨-, rfl⟩ := run_ofExcept_error_iff.1 ht
    exact hP s hs

/-- Decoding keeps everything. -/
theorem triple_decode (hP : ∀ s, P s → I s) (x : Except Failure α) :
    Triple possible I P (Prog.lift (ofExcept x) : NodeProg α) fun _ => P :=
  (triple_ofExcept hP x).mono (fun _ h => h) fun _ _ h => h.1

theorem triple_note {e : Event} {Q : Node → Prop}
    (h : ∀ s, P s → I { s with journal := e :: s.journal } ∧
      Q { s with journal := e :: s.journal }) :
    Triple possible I P (Prog.lift (note e) : NodeProg Unit) fun _ => Q := by
  refine .lift (fun s hs a t ht => ?_) fun s hs e t ht => ?_
  · cases ht
    exact h s hs
  · cases ht

section Silence
variable (hI : ∀ s t, Silent s t → I s → I t) {host : Host}
include hI

/-- A silent computation keeps the invariant. -/
theorem triple_of_silent {x : EStateM Failure Node α}
    (h : ∀ s, (∀ a t, x.run s = .ok a t → Silent s t) ∧ ∀ e t, x.run s = .error e t → Silent s t) :
    Triple possible I I (Prog.lift x : NodeProg α) fun _ => I :=
  .lift (fun s hs a t ht => ⟨hI s t ((h s).1 a t ht) hs, hI s t ((h s).1 a t ht) hs⟩)
    fun s hs e t ht => hI s t ((h s).2 e t ht) hs

private theorem triple_generateSetupCommitments : Triple possible I I
    (Prog.lift (generateSetupCommitments host configKeyId [1, 2, 3] 3) : NodeProg Commitment)
    fun _ => I := by
  refine triple_of_silent hI fun s => ⟨fun c t ht => ?_, fun e t ht =>
    silent_of_onlyDraws (generateSetupCommitments_failsKeeping s e t ht)⟩
  obtain ⟨key, data, aux, -, hdraws, heq⟩ := generateSetupCommitments_ok ht
  exact ⟨by rw [heq], hdraws⟩

private theorem triple_storeSetupCommitments {commitments : PlayerMap Commitment} :
    Triple possible I I (Prog.lift (storeSetupCommitments host configKeyId commitments) :
      NodeProg SetupDecommitment) fun _ => I := by
  refine triple_of_silent hI fun s => ⟨fun d t ht => ?_, fun e t ht =>
    silent_of_onlyDraws (storeSetupCommitments_keepsStores s e t ht)⟩
  obtain ⟨_, _, _, _, -, -, rfl⟩ := storeSetupCommitments_ok_iff.1 ht
  exact ⟨rfl, le_rfl⟩

theorem triple_keygen : Triple possible I I (KeygenOrchestrator.run host) fun _ => I := by
  refine (triple_generateSetupCommitments hI).bind fun myComm =>
    (Triple.post (fun _ h => h) _ _).bind fun _ => (Triple.skip (fun _ h => h) _ _).bind fun r1 =>
    (triple_decode (fun _ h => h) _).bind fun allComm => (triple_storeSetupCommitments hI).bind
    fun myDecomm => (Triple.post (fun _ h => h) _ _).bind fun _ =>
    (Triple.skip (fun _ h => h) _ _).bind fun r2 => (triple_decode (fun _ h => h) _).bind
    fun allDecomm => (triple_decode (fun _ h => h) _).bind fun metadata => ?_
  refine triple_of_silent hI fun s => ⟨fun a t ht => ?_, fun e t ht => ?_⟩
  · cases ht
    exact ⟨rfl, le_rfl⟩
  · cases ht

end Silence

/-- The client's wait for the servers' points. -/
theorem triple_awaitServerRs (hP : ∀ s, P s → I s) (txid : ByteString) :
    Triple possible I P (awaitServerRs 1 txid) fun _ => P :=
  (Triple.skip hP _ _).bind fun _ => (triple_decode hP _).bind fun _ =>
    (Triple.skip hP _ _).bind fun _ => triple_decode hP _

/-- The handlers around a signing flow only write that it failed. -/
theorem triple_catching {host : Host} {myId : ℕ} {txid message : ByteString} {Q : Node → Prop}
    (hflow : Triple possible I P (flow host myId txid message) fun _ => Q)
    (hfailed : ∀ s failure, I s → I { s with journal := .signingFailed txid failure :: s.journal } ∧
      Q { s with journal := .signingFailed txid failure :: s.journal }) :
    Triple possible I P ((flow host myId txid message).catching (signingFailed txid))
      fun _ => Q := by
  refine hflow.catching fun e q hq => ?_
  cases e with
  | undefinedBehaviour => cases hq
  | cosignerException code =>
    cases hq
    exact triple_note fun s hs => hfailed s _ hs
  | runtimeError what =>
    cases hq
    exact triple_note fun s hs => hfailed s _ hs

end MpcDemo.NodeTriples
