import MpcDemo.TransactionHistories

/-!
# Which commitments `broadcast_r` checks

The first `decommit_r` that returns for a nonce reveals this server's points, so the
commitments passed to it should be final. `MockServerPersistency` overwrites stored
commitments, hence a later `decommit_r` replaces them: `broadcast_r` checks the ones passed to
the latest `decommit_r`.
-/

namespace MpcDemo.CommitmentFixing
open ByteStrings Ed25519Algebra CosignerTypes AsymmetricEddsaCosigner FallibleState Persistencies
open NodeState AsymmetricEddsaCosignerServer ServerOperationLaws ServerBlockLaws CallHistories
open ServerCalls TransactionHistories

/-- The commitments passed to a `decommit_r`. -/
def decommitment (step : CallStep) : Option (PlayerMap (List EddsaCommitment)) :=
  match step.call with
  | .decommitR _ commitments => some commitments
  | _ => none

/-- The commitments passed to the calls of `decommit_r` that returned for the current nonce, the
latest first. -/
def decommitments (txid : ByteString) (history : List CallStep) :
    List (PlayerMap (List EddsaCommitment)) :=
  (phase txid history).filterMap decommitment

def firstDecommitment (txid : ByteString) (history : List CallStep) :
    Option (PlayerMap (List EddsaCommitment)) := (decommitments txid history).getLast?

def latestDecommitment (txid : ByteString) (history : List CallStep) :
    Option (PlayerMap (List EddsaCommitment)) := (decommitments txid history).head?

/-- A `broadcast_r` that returns after a `decommit_r` has checked the points it got against
the commitments of the first `decommit_r` for this nonce. -/
def ChecksFirst (H : HashFunctions) (earlier : List CallStep) (step : CallStep) : Prop :=
  match step.call with
  | .broadcastR txid playersR => step.result.isOk = true →
    ∀ commitments, firstDecommitment txid earlier = some commitments →
      step.before.server.commitments txid = some commitments ∧
        ∃ data, step.before.server.signingData txid = some data ∧
          Opens H txid data commitments playersR
  | _ => True

/-- When `broadcast_r` returns, the latest `decommit_r` had the commitments of the first. -/
def KeepsCommitments (earlier : List CallStep) (step : CallStep) : Prop :=
  match step.call with
  | .broadcastR txid _ => step.result.isOk = true →
    latestDecommitment txid earlier = firstDecommitment txid earlier
  | _ => True

section Runs
variable {host : Host} {history : List CallStep} {s t : Node} {c : Call} {txid : ByteString}

/-- What is stored is what the latest `decommit_r` was given. -/
def LatestStored (history : List CallStep) (s : Node) : Prop :=
  ∀ txid commitments stored, latestDecommitment txid history = some commitments →
    s.server.commitments txid = some stored → stored = commitments

theorem latestStored_start (s : Node) : LatestStored [] s := nofun

theorem latestStored_other (h : LatestStored history s) (hother : Elsewhere s t) :
    LatestStored history t := by
  intro txid commitments stored hlatest hstored
  rw [hother.1] at hstored
  exact h txid commitments stored hlatest hstored

theorem latestDecommitment_cons (hc : Concerns txid (perform (exec host) c s))
    (hcall : Call.isSignOffline c = false) :
    latestDecommitment txid (perform (exec host) c s :: history) =
      (decommitment (perform (exec host) c s)).or (latestDecommitment txid history) := by
  rw [latestDecommitment, decommitments, phase_cons_of_concerns hc hcall, List.filterMap_cons]
  cases decommitment (perform (exec host) c s) <;> rfl

theorem latestStored_step (h : LatestStored history s) (c : Call) :
    LatestStored (perform (exec host) c s :: history) (exec host c s).2 := by
  intro txid commitments stored hlatest hstored
  by_cases hc : Concerns txid (perform (exec host) c s)
  · cases hcall : Call.isSignOffline c with
    | true =>
      rw [latestDecommitment, decommitments, phase_cons_of_signOffline hc hcall] at hlatest
      cases hlatest
    | false =>
      rw [latestDecommitment_cons hc hcall] at hlatest
      have hchange := recordChange_of_concerns hc
      generalize exec host c s = result at hchange hstored
      obtain ⟨outcome, u⟩ := result
      cases hchange with
      | drawn => cases hcall
      | decommitted =>
        simp only [MockServerPersistency.commitments_storeCommitments] at hstored
        exact Option.some.inj (hstored.symm.trans hlatest)
      | aggregated => simp [afterBroadcastR] at hstored
      | @signed data =>
        have hkept : s.server.commitments txid = some stored := by
          rw [← hstored, afterBroadcastSi]
          split <;> rfl
        exact h txid commitments stored hlatest hkept
      | completed => exact h txid commitments stored hlatest hstored
      | cancelled => simp [afterCancel] at hstored
  · have hphase : latestDecommitment txid (perform (exec host) c s :: history) =
        latestDecommitment txid history := by
      rw [latestDecommitment, decommitments, phase_cons_of_not_concerns hc]
      rfl
    rw [hphase] at hlatest
    rw [commitments_of_not_concerns hc] at hstored
    exact h txid commitments stored hlatest hstored

theorem latestStored_of_run (h : ServerRun host history s) : LatestStored history s :=
  h.invariant (fun s _ => latestStored_start s) (fun _ _ _ => latestStored_other)
    fun _ _ c hI => latestStored_step hI c

/-- Both ends of a list of commitments are there or neither is. -/
private theorem exists_latest {commitments : PlayerMap (List EddsaCommitment)}
    (h : firstDecommitment txid history = some commitments) :
    ∃ latest, latestDecommitment txid history = some latest := by
  rw [firstDecommitment] at h
  rw [latestDecommitment]
  cases hl : decommitments txid history with
  | nil =>
    rw [hl] at h
    cases h
  | cons latest rest => exact ⟨latest, rfl⟩

/-- One `broadcast_r` meets the claim exactly when the commitments were not replaced. -/
theorem checksFirst_iff (h : LatestStored history s) (c : Call) :
    ChecksFirst host.hash history (perform (exec host) c s) ↔
      KeepsCommitments history (perform (exec host) c s) := by
  cases c with
  | broadcastR txid playersR =>
    simp only [ChecksFirst, KeepsCommitments, perform]
    refine forall_congr' fun hok => ?_
    have hchange := recordChange_of_concerns (s := s) (c := .broadcastR txid playersR) ⟨hok, rfl⟩
    generalize exec host (.broadcastR txid playersR) s = result at hchange
    obtain ⟨outcome, t⟩ := result
    cases hchange with
    | @aggregated data commitments _ sigData out hdata hchecks hcomm hagg =>
      cases hfirst : firstDecommitment txid history with
      | none =>
        have hnone : decommitments txid history = [] := List.getLast?_eq_none_iff.1 hfirst
        simp [latestDecommitment, hnone]
      | some first =>
        obtain ⟨latest, hlatest⟩ := exists_latest hfirst
        obtain rfl := h txid latest commitments hlatest hcomm
        rw [hlatest, hcomm]
        constructor
        · intro hchecked
          exact (hchecked first rfl).1
        · intro heq other hother
          refine ⟨heq.trans hother, data, hdata, ?_⟩
          obtain rfl : commitments = other := Option.some.inj (heq.trans hother)
          exact opens_of_aggregatePlayers hagg
  | _ => exact Iff.rfl

/-- Over every run, every `broadcast_r` checks the commitments of the first `decommit_r` for
its nonce exactly when no `broadcast_r` follows a `decommit_r` that replaced them. -/
theorem checksFirst_everyStep_iff (h : ServerRun host history s) :
    EveryStep (ChecksFirst host.hash) history ↔ EveryStep KeepsCommitments history := by
  induction h with
  | start hs => exact Iff.rfl
  | other _ _ ih => exact ih
  | call c hrun ih => exact and_congr (checksFirst_iff (latestStored_of_run hrun) c) ih

end Runs

theorem checksFirst_everyStep_iff_concreteRun :
    EveryStep (ChecksFirst prefixHash) (concreteRun [concreteSignOffline [0]]).1 ↔
      EveryStep KeepsCommitments (concreteRun [concreteSignOffline [0]]).1 :=
  checksFirst_everyStep_iff (serverRun_concreteRun _)

/-- Commitments of servers 2 and 3 to given multiples of the base point. -/
def concreteCommitments (k₂ k₃ : ℕ) : PlayerMap (List EddsaCommitment) :=
  ((∅ : PlayerMap (List EddsaCommitment)).insert
    2 [commitToR prefixHash [0] 0 2 (concretePoint k₂)]).insert
    3 [commitToR prefixHash [0] 0 3 (concretePoint k₃)]

def concretePlayersR (k₂ k₃ : ℕ) : PlayerMap (List EllipticCurvePoint) :=
  ((∅ : PlayerMap (List EllipticCurvePoint)).insert
    2 [Ed25519Point.generic (concretePoint k₂)]).insert
    3 [Ed25519Point.generic (concretePoint k₃)]

/-- Server 3 commits to 7 times the base point, sees the point of server 2 and replaces its
commitment by one to 8 times the base point. -/
def replacedCommitment : List Call :=
  [.broadcastR [0] (concretePlayersR 5 8), .decommitR [0] (concreteCommitments 5 8),
    .decommitR [0] (concreteCommitments 5 7), concreteSignOffline [0]]

theorem checksFirst_fails :
    ∃ history s, ServerRun (concreteHost 2) history s ∧
      ¬ EveryStep (ChecksFirst prefixHash) history := by
  refine ⟨(concreteRun replacedCommitment).1, (concreteRun replacedCommitment).2,
    serverRun_concreteRun _, ?_⟩
  intro h
  have hok : (exec (concreteHost 2) (.broadcastR [0] (concretePlayersR 5 8))
      (concreteRun replacedCommitment.tail).2).1.isOk = true := by decide +kernel
  have hfirst : (firstDecommitment [0] (concreteRun replacedCommitment.tail).1).isSome := by
    decide +kernel
  obtain ⟨first, hfirst⟩ := Option.isSome_iff_exists.1 hfirst
  have hstored : (concreteRun replacedCommitment.tail).2.server.commitments [0] = some first :=
    (h.1 hok first hfirst).1
  have hdiffer : ((concreteRun replacedCommitment.tail).2.server.commitments [0]).map (·[3]?) ≠
      (firstDecommitment [0] (concreteRun replacedCommitment.tail).1).map (·[3]?) := by
    decide +kernel
  exact hdiffer (by rw [hstored, hfirst])

end MpcDemo.CommitmentFixing
