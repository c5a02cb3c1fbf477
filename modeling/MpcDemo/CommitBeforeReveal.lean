import MpcDemo.KeygenAgreement

/-!
# Commitments come before what they commit to

Nobody reveals its share before everybody has committed to one, and no server shows its points of
a session before both servers have committed to theirs. A server shows them only after it has
passed these commitments to `decommit_r`.
-/

namespace MpcDemo.CommitBeforeReveal
open ByteStrings Ed25519Algebra CosignerTypes FallibleState Persistencies NodeState Processes
open RelayProtocols HexText Serialization NodePrograms SigningOrchestrator ServerOperationLaws
open ThreeNodes NodeFrames NodeMain HonestRounds KeygenAgreement

/-- Both servers have committed to their points. -/
def Committed (w : World) (txid : ByteString) : Prop :=
  ∀ j ∈ SigningStep.serverCommit.senders, ∃ data,
    Posted w (Round.name (.sign .serverCommit txid)) j data

def revealRules : SessionRules where
  Permits w r _ data := Plain data ∧ ∀ txid, r = .sign .serverDecommitR txid → Committed w txid
  permits_grows _ _ _ _ _ hw h := ⟨h.1, fun txid hr j hj =>
    (h.2 txid hr j hj).imp fun _ => hw _ _ _⟩
  plain _ _ _ _ h := h.1

/-- The map that a server has passed to `decommit_r` has what both servers have committed to. -/
def Decommitted (w : World) (s : Node) (txid : ByteString) : Prop :=
  ∃ commitments, .decommittedR txid commitments ∈ s.journal ∧
    ∀ j ∈ SigningStep.serverCommit.senders, ∃ data cs,
      Posted w (Round.name (.sign .serverCommit txid)) j data ∧
        deserializeCommitments data = .ok cs ∧ commitments[j]? = some cs

/-- A player has only shown points that it has decommitted. -/
def Opened (i : ℕ) (w : World) (s : Node) : Prop :=
  ∀ txid data, Posted w (Round.name (.sign .serverDecommitR txid)) i data → Decommitted w s txid

variable {E : Ed25519} {i : ℕ} {w v : World} {s t : Node} {txid : ByteString}

theorem Decommitted.grows (h : Decommitted w s txid) (hw : Grows w v) : Decommitted v s txid := by
  obtain ⟨commitments, hmem, hentries⟩ := h
  refine ⟨commitments, hmem, fun j hj => ?_⟩
  obtain ⟨data, cs, hdata, hcs⟩ := hentries j hj
  exact ⟨data, cs, hw _ _ _ hdata, hcs⟩

theorem Opened.others (h : Opened i w s) (hv : (nodes E revealRules).Others i w v) :
    Opened i v s :=
  fun txid data hdata => (h txid data (hv.own _ _ hdata)).grows hv.grows

theorem Opened.journal (h : Opened i w s) (hst : JournalGrows s t) : Opened i w t := by
  intro txid data hdata
  obtain ⟨commitments, hmem, hentries⟩ := h txid data hdata
  exact ⟨commitments, hst hmem, hentries⟩

variable {r : Round} {data : ByteString}

theorem Opened.posts (h : Opened i w s) (hv : @Protocol.Posts (nodes E revealRules) i r data w v)
    (hr : ∀ txid, r = .sign .serverDecommitR txid → Decommitted v s txid) : Opened i v s := by
  intro txid data' hdata'
  rcases hv.own (.sign .serverDecommitR txid) data' hdata' with hold | ⟨rfl, -⟩
  · exact (h txid data' hold).grows hv.grows
  · exact hr txid rfl

section Advances

/-- A player in a session that has not posted to the rounds from a rank on, nor to later ones. -/
structure At (E : Ed25519) (i : ℕ) (txid : ByteString) (later : Round → Prop) (k : ℕ) (w : World)
    (s : Node) : Prop where
  ahead : Ahead E revealRules i (OfSession txid) later k w
  opened : Opened i w s

/-- A program that starts and ends, if at all, with rounds from certain ranks on. -/
def Advances (E : Ed25519) (i : ℕ) (txid : ByteString) (later : Round → Prop) {α : Type} (k : ℕ)
    (p : NodeProg α) (l : ℕ) : Prop :=
  ∀ w s, At E i txid later k w s → Safe ((nodes E revealRules).environment i) (Opened i)
    (fun v r t => At E i txid later 8 v t ∧ ∀ a, r = .ok a → At E i txid later l v t) (p s) w

variable {later : Round → Prop} {k l m : ℕ} {α β : Type}

theorem At.others (h : At E i txid later k w s) (hv : (nodes E revealRules).Others i w v) :
    At E i txid later k v s := ⟨h.ahead.others hv, h.opened.others hv⟩

theorem At.mono (h : At E i txid later k w s) (hkl : k ≤ l) : At E i txid later l w s :=
  ⟨h.ahead.mono hkl, h.opened⟩

theorem At.journal (h : At E i txid later k w s) (hst : JournalGrows s t) :
    At E i txid later k w t := ⟨h.ahead, h.opened.journal hst⟩

theorem At.safe_done (h : At E i txid later k w s) (hk : k ≤ 8) {e : Failure} :
    Safe ((nodes E revealRules).environment i) (Opened i)
      (fun v r t => At E i txid later 8 v t ∧ ∀ a, r = .ok a → At E i txid later l v t)
      (.done (.error e) s : Proc Failure Node ByteString ByteString (PlayerMap ByteString) α) w := by
  intro v hv
  have hat := h.others hv
  exact ⟨hat.opened, hat.mono hk, fun a ha => by cases ha⟩

theorem Advances.bind {p : NodeProg α} {f : α → NodeProg β} (hp : Advances E i txid later k p l)
    (hf : ∀ a, Advances E i txid later l (f a) m) : Advances E i txid later k (p >>= f) m := by
  intro w s hat
  refine safe_bind (hp w s hat) (fun a t v _ hQ => hf a v t (hQ.2 a rfl)) fun e t v _ hQ => ?_
  exact hQ.1.safe_done le_rfl

theorem Advances.mono {p : NodeProg α} (h : Advances E i txid later k p l) (hl : l ≤ m) :
    Advances E i txid later k p m :=
  fun w s hat => (h w s hat).mono fun _ _ _ hQ => ⟨hQ.1, fun a ha => (hQ.2 a ha).mono hl⟩

theorem Advances.weaken {p : NodeProg α} (h : Advances E i txid later l p m) (hk : k ≤ l) :
    Advances E i txid later k p m := fun w s hat => h w s (hat.mono hk)

theorem Advances.catching {p : NodeProg α} {handler : Failure → Option (NodeProg α)}
    (hp : Advances E i txid later k p 8)
    (hhandler : ∀ e q, handler e = some q → Advances E i txid later 8 q 8) :
    Advances E i txid later k (p.catching handler) 8 := by
  intro w s hat
  refine (hp w s hat).andThen fun r t v _ hQ => ?_
  cases r with
  | ok a =>
    intro u hu
    have hat' := hQ.1.others hu
    exact ⟨hat'.opened, hat', fun _ _ => hat'⟩
  | error e =>
    cases hq : handler e with
    | none =>
      simp only [hq]
      exact hQ.1.safe_done le_rfl
    | some q =>
      simp only [hq]
      exact hhandler e q hq v t hQ.1

end Advances

section Sessions
variable {D : Deployment} {later : Round → Prop} {message : ByteString} {k : ℕ}

variable (hlater : ∀ r, OfSession txid r → ¬ later r)

section Server
variable (hi : i ∈ SigningStep.serverCommit.senders)
include hlater hi

omit hlater hi in
/-- A server has passed to `decommit_r` what it has posted and what it has read. -/
private theorem decommitted {RCommitments : List EddsaCommitment} {a : PlayerMap ByteString}
    {others : PlayerMap (List EddsaCommitment)} (hlength : RCommitments.length < 2 ^ 32)
    (hown : Posted w (Round.name (.sign .serverCommit txid)) i (serializeCommitments RCommitments))
    (ha : @Protocol.Answers (nodes E revealRules) (.sign .serverCommit txid) w a)
    (hothers : decodeEntries deserializeCommitments (otherServer i) a = .ok others)
    (hmem : .decommittedR txid (others.insert i RCommitments) ∈ s.journal) :
    Decommitted w s txid := by
  refine ⟨_, hmem, fun j hj => ?_⟩
  by_cases hji : j = i
  · rw [hji]
    exact ⟨_, RCommitments, hown, deserialize_serializeCommitments hlength,
      Std.ExtTreeMap.getElem?_insert_self⟩
  · have hkeep : otherServer i j = true := by
      refine decide_eq_true ⟨hji, ?_⟩
      rintro rfl
      revert hj
      decide
    obtain ⟨data, hdata⟩ := ha.sent j hj
    have hentry := (ha.entries j data).2 hdata
    obtain ⟨cs, hcs⟩ := exists_of_decodeEntries hothers hkeep hentry
    refine ⟨data, cs, hdata, hcs, ?_⟩
    rw [Std.ExtTreeMap.getElem?_insert, if_neg fun h => hji (Nat.compare_eq_eq.1 h).symm]
    exact (getElem?_decodeEntries hothers j cs).2 ⟨hkeep, data, hentry, hcs⟩

end Server

include hlater

omit hlater in
theorem OfSession.unique {txid txid' : ByteString} {r : Round} (h : OfSession txid r)
    (h' : OfSession txid' r) : txid = txid' := by
  rcases h with rfl | ⟨step, rfl⟩
  · rcases h' with heq | ⟨_, heq⟩
    · cases heq
      rfl
    · cases heq
  · rcases h' with heq | ⟨_, heq⟩
    · cases heq
    · cases heq
      rfl

end Sessions

end MpcDemo.CommitBeforeReveal
