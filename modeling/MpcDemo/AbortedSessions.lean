import MpcDemo.NodeTriples
import MpcDemo.ProcessFrames
import MpcDemo.ServerCalls

/-!
# What a server keeps of a session

The signing flow of a server that runs to its end deletes its signing data and the commitments
of the session. The handlers in `run` that catch an exception delete nothing, so whatever the
flow had stored by then stays in the store.
-/

namespace MpcDemo.AbortedSessions
open ByteStrings Ed25519Algebra CosignerTypes AsymmetricEddsaCosigner FallibleState Persistencies
open NodeState
open Serialization Processes NodePrograms SigningOrchestrator ServerOperationLaws ServerCalls
open NetworkManager

variable {host : Host} {myId : ℕ} {txid message : ByteString} {s t : Node}

/-- The store has neither signing data nor commitments for the session. -/
def Clean (txid : ByteString) (s : Node) : Prop :=
  s.server.signingData txid = none ∧ s.server.commitments txid = none

/-- The store has signing data for the session. -/
def Live (txid : ByteString) (s : Node) : Prop := s.server.signingData txid ≠ none

/-- The first step of the flow, `eddsa_sign_offline`, does not throw. -/
def SignsOffline (host : Host) (txid message : ByteString) (s : Node) : Prop :=
  ∃ out t, (AsymmetricEddsaCosignerServer.eddsaSignOffline host.server configKeyId txid
    (signData message) metadataJson playersStr playersIds 0).run s = .ok out t

section Steps
variable {α : Type} {P F : Node → Prop} {Q : α → Node → Prop}

theorem live_of_onlyDraws (h : OnlyDraws s t) (hs : Live txid s) : Live txid t := by
  obtain ⟨-, ht⟩ := h
  rw [ht]
  exact hs

/-- An operation that throws before it touches the store. -/
theorem ends_operation {x : EStateM Failure Node α} (hfails : FailsKeeping OnlyDraws x)
    (hP : ∀ s, P s → Live txid s) (hok : ∀ s, P s → ∀ a t, x.run s = .ok a t → Q a t) :
    Ends P (Prog.lift x : NodeProg α) Q (Live txid) :=
  .lift hok fun s hs e t h => live_of_onlyDraws (hfails s e t h) (hP s hs)

theorem ends_decode (hP : ∀ s, P s → F s) (x : Except Failure α) :
    Ends P (Prog.lift (ofExcept x) : NodeProg α) (fun _ => P) F := by
  refine .lift (fun s hs a t h => ?_) fun s hs e t h => ?_
  · obtain ⟨-, rfl⟩ := run_ofExcept_ok_iff.1 h
    exact hs
  · obtain ⟨-, rfl⟩ := run_ofExcept_error_iff.1 h
    exact hP s hs

theorem ends_note {e : Event} (hP : ∀ s, P s → P { s with journal := e :: s.journal }) :
    Ends P (Prog.lift (note e) : NodeProg Unit) (fun _ => P) F := by
  refine .lift (fun s hs a t h => ?_) fun s hs e t h => ?_
  · cases h
    exact hP s hs
  · cases h

theorem ends_sendRCommitments (hs : SignsOffline host txid message s) :
    Ends (· = s) (sendRCommitments host txid message) (fun _ => Live txid) (Live txid) := by
  have hoffline : Ends (· = s) (Prog.lift (AsymmetricEddsaCosignerServer.eddsaSignOffline
      host.server configKeyId txid (signData message) metadataJson playersStr playersIds 0) :
        NodeProg _) (fun _ => Live txid) (Live txid) := by
    refine .lift (fun u hu out t h => ?_) fun u hu e t h => ?_
    · obtain ⟨metadata, sigData, n, -, -, -, rfl⟩ := eddsaSignOffline_ok_iff.1 h
      simp [Live, MockServerPersistency.storeSigningData]
    · subst hu
      obtain ⟨out, t', hok⟩ := hs
      rw [hok] at h
      cases h
  exact hoffline.bind fun out => (Ends.post _ _).bind fun _ => .pure fun _ h => h

theorem ends_decommitRs (RCommitments : List EddsaCommitment) :
    Ends (Live txid) (decommitRs host myId txid RCommitments) (fun _ => Live txid) (Live txid) := by
  have hdecommit : ∀ commitments, Ends (Live txid) (Prog.lift
      (AsymmetricEddsaCosignerServer.decommitR host.server txid commitments) : NodeProg _)
        (fun _ => Live txid) (Live txid) := by
    refine fun commitments => ends_operation (decommitR_failsKeeping _ _) (fun _ h => h)
      fun u hu Rs t h => ?_
    obtain ⟨data, -, -, -, rfl⟩ := decommitR_ok_iff.1 h
    exact hu
  exact (Ends.await _ _).bind fun data => (ends_decode (fun _ h => h) _).bind fun others =>
    (hdecommit _).bind fun Rs => (ends_note fun _ h => h).bind fun _ => .pure fun _ h => h

/-- Once the points are exchanged the commitments are deleted. -/
theorem ends_exchangeRs (decommittedRs : List EllipticCurvePoint) :
    Ends (Live txid) (exchangeRs host myId txid decommittedRs)
      (fun _ u => Live txid u ∧ u.server.commitments txid = none) (Live txid) := by
  have hbroadcast : ∀ playersR, Ends (Live txid) (Prog.lift
      (AsymmetricEddsaCosignerServer.broadcastR host.server txid playersR) : NodeProg _)
        (fun _ u => Live txid u ∧ u.server.commitments txid = none) (Live txid) := by
    refine fun playersR => ends_operation (broadcastR_failsKeeping _ _) (fun _ h => h)
      fun u hu out t h => ?_
    obtain ⟨data, commitments, sigData, -, -, -, -, -, rfl⟩ := broadcastR_ok_iff.1 h
    simp [Live, afterBroadcastR, MockServerPersistency.storeSigningData,
      MockServerPersistency.deleteCommitments]
  exact (Ends.post _ _).bind fun _ => (Ends.await _ _).bind fun data =>
    (ends_decode (fun _ h => h) _).bind fun others => (hbroadcast _).bind fun out => .post _ _

/-- A final signature is returned after the signing data has been deleted. -/
theorem ends_processPartialSigs :
    Ends (fun u => Live txid u ∧ u.server.commitments txid = none) (processPartialSigs host txid)
      (fun out u => if out.finalSignature then Clean txid u
        else Live txid u ∧ u.server.commitments txid = none) (Live txid) := by
  refine (Ends.await _ _).bind fun r2Data => (ends_decode (fun _ h => h.1) _).bind fun sigs =>
    ends_operation (broadcastSi_failsKeeping _ _ _ _) (fun _ h => h.1) fun u hu out t h => ?_
  obtain ⟨data, metadata, key, blocks, -, -, -, rfl, rfl⟩ := broadcastSi_ok_iff.1 h
  by_cases hcard : data.signersIds.card = 2
  · simp [hcard, Clean, afterBroadcastSi, MockServerPersistency.deleteTemporarySigningData, hu.2]
  · simp [hcard, Live, afterBroadcastSi, MockServerPersistency.storeSigningData, hu.2]

theorem ends_exchangeSigs (sigs : List EddsaSignature) :
    Ends (fun u => Live txid u ∧ u.server.commitments txid = none) (exchangeSigs host txid sigs)
      (fun _ => Clean txid) (Live txid) := by
  refine (Ends.post _ _).bind fun _ => (Ends.await _ _).bind fun data =>
    (ends_decode (fun _ h => h.1) _).bind fun allSigs =>
    ends_operation (getEddsaSignature_failsKeeping _ _) (fun _ h => h.1) fun u hu sigs t h => ?_
  obtain ⟨data, metadata, -, -, -, rfl⟩ := getEddsaSignature_ok_iff.1 h
  simp [Clean, MockServerPersistency.deleteTemporarySigningData, hu.2]

theorem ends_sendFinalSigs (sigs : List EddsaSignature) :
    Ends (Clean txid) (sendFinalSigs txid sigs) (fun _ => Clean txid) F :=
  (ends_note fun _ h => h).bind fun _ => .post _ _

/-- After the first step a flow that returns leaves nothing, and one that throws leaves its
signing data. -/
theorem ends_runServerSigning (hs : SignsOffline host txid message s) :
    Ends (· = s) (runServerSigning host myId txid message) (fun _ => Clean txid) (Live txid) := by
  refine (ends_sendRCommitments hs).bind fun RCommitments =>
    (ends_decommitRs RCommitments).bind fun Rs => (ends_exchangeRs Rs).bind fun _ =>
    ends_processPartialSigs.bind fun out => ?_
  cases hfinal : out.finalSignature with
  | true =>
    simp only [if_true]
    exact (Ends.pure fun _ h => h).bind fun sigs => ends_sendFinalSigs sigs
  | false =>
    simp only [Bool.false_eq_true, if_false]
    exact (ends_exchangeSigs _).bind fun sigs => ends_sendFinalSigs sigs

/-- A flow whose first step throws leaves the store as it was. -/
theorem ends_runServerSigning_of_not (hs : ¬ SignsOffline host txid message s) :
    Ends (· = s) (runServerSigning host myId txid message) (fun _ _ => False)
      (fun u => u.server = s.server) := by
  have hoffline : Ends (· = s) (Prog.lift (AsymmetricEddsaCosignerServer.eddsaSignOffline
      host.server configKeyId txid (signData message) metadataJson playersStr playersIds 0) :
        NodeProg _) (fun _ _ => False) (fun u => u.server = s.server) := by
    refine .lift (fun u hu out t h => ?_) fun u hu e t h => ?_
    · subst hu
      exact absurd ⟨out, t, h⟩ hs
    · subst hu
      exact failsKeeping_sameStore (eddsaSignOffline_failsKeeping _ _ _ _ _ _ _) u e t h
  have hnever : ∀ {β : Type} (p : NodeProg β) (R : β → Node → Prop),
      Ends (fun _ => False) p R (fun u => u.server = s.server) := fun _ _ _ h => h.elim
  exact (hoffline.bind fun _ => hnever _ fun _ _ => False).bind fun _ => hnever _ _

end Steps

section Runs
variable {responses : List ByteString}

/-- Where a node's run of a session stands after some responses to its polls. -/
def signingOn (host : Host) (myId : ℕ) (txid : ByteString) (s : Node)
    (responses : List ByteString) :
    Proc Failure Node ByteString ByteString (PlayerMap ByteString) Unit :=
  (SigningOrchestrator.run host myId txid true s).replay (awaitResponse totalPlayers) responses

/-- Given the responses after those that open the barrier, no step of the flow throws. -/
def FlowReturns (host : Host) (myId : ℕ) (txid : ByteString) (s : Node)
    (responses : List ByteString) : Prop :=
  ∃ a rest t, firstAnswer (awaitResponse totalPlayers) responses = some (a, rest) ∧
    (runServerSigning host myId txid demoMessage s).replay (awaitResponse totalPlayers) rest =
      .done (.ok ()) t

theorem state_verifyPreprocessedData {u : Unit} (h : verifyPreprocessedData.run s = .ok u t) :
    t = s := by
  simp only [verifyPreprocessedData, run_bind_ok_iff, run_inspect_ok_iff, run_require_ok_iff] at h
  obtain ⟨_, _, ⟨-, rfl⟩, -, rfl⟩ := h
  rfl

theorem signingFailed_ends {e : Failure} {q : NodeProg Unit} (h : signingFailed txid e = some q)
    (u : Node) : ∃ u', q u = .done (.ok ()) u' ∧ u'.server = u.server := by
  cases e with
  | undefinedBehaviour => cases h
  | cosignerException code =>
    cases h
    exact ⟨_, rfl, rfl⟩
  | runtimeError what =>
    cases h
    exact ⟨_, rfl, rfl⟩

theorem signingFailed_done (txid : ByteString) (e : Failure) (q : NodeProg Unit)
    (h : signingFailed txid e = some q) (u : Node) : ∃ r u', q u = .done r u' := by
  obtain ⟨u', hu, -⟩ := signingFailed_ends h u
  exact ⟨_, u', hu⟩

/-- A run that has returned has passed the barrier, and its flow has returned or thrown an
exception that the handlers catch. -/
theorem flow_of_signingOn (hserver : myId ≠ 1)
    (h : signingOn host myId txid s responses = .done (.ok ()) t) :
    ∃ a rest, firstAnswer (awaitResponse totalPlayers) responses = some (a, rest) ∧
      ∃ r u, (runServerSigning host myId txid demoMessage s).replay (awaitResponse totalPlayers)
        rest = .done r u ∧ u.server = t.server ∧ (r = .ok () → u = t) := by
  rw [signingOn, SigningOrchestrator.run, if_pos rfl] at h
  change ((Prog.await _ _ >>= _) s).replay _ responses = _ at h
  cases hfirst : firstAnswer (awaitResponse totalPlayers) responses with
  | none => exact absurd h ((state_replay_await_bind hfirst).1 _ _)
  | some answer =>
    obtain ⟨a, rest⟩ := answer
    rw [replay_await_bind hfirst, if_pos hserver] at h
    refine ⟨a, rest, rfl, ?_⟩
    cases hverify : verifyPreprocessedData.run s with
    | error e u =>
      rw [replay_lift_bind_error hverify] at h
      cases h
    | ok v u =>
      rw [replay_lift_bind_ok hverify, state_verifyPreprocessedData hverify, flow,
        if_neg hserver] at h
      obtain ⟨r, u, hflow, hend⟩ := (replay_catching_eq_done_iff (signingFailed_done txid)).1 h
      refine ⟨r, u, hflow, ?_⟩
      rcases hend with ⟨a, rfl, -, rfl⟩ | ⟨e, q, rfl, hq, hend⟩ | ⟨e, -, -, heq, -⟩
      · exact ⟨rfl, fun _ => rfl⟩
      · obtain ⟨u', hu, hsame⟩ := signingFailed_ends hq u
        rw [hu] at hend
        cases hend
        exact ⟨hsame.symm, fun heq => by cases heq⟩
      · cases heq

theorem clean_of_server_eq (h : s.server = t.server) : Clean txid s ↔ Clean txid t := by
  rw [Clean, Clean, h]

/-- A run of a server that returns leaves neither signing data nor commitments exactly when no
step of the flow throws, or when the first one throws in a store that has none. -/
theorem signingOn_clean_iff (hserver : myId ≠ 1)
    (h : signingOn host myId txid s responses = .done (.ok ()) t) :
    Clean txid t ↔ FlowReturns host myId txid s responses ∨
      (¬ SignsOffline host txid demoMessage s ∧ Clean txid s) := by
  obtain ⟨a, rest, hfirst, r, u, hflow, hsame, hreturn⟩ := flow_of_signingOn hserver h
  have hreturns : FlowReturns host myId txid s responses ↔ r = .ok () := by
    constructor
    · intro hreturns
      obtain ⟨a', rest', u', hfirst', hflow'⟩ := hreturns
      cases hfirst.symm.trans hfirst'
      cases hflow.symm.trans hflow'
      rfl
    · intro heq
      exact ⟨a, rest, u, hfirst, heq ▸ hflow⟩
  rw [hreturns]
  by_cases hoffline : SignsOffline host txid demoMessage s
  · obtain ⟨hok, herror⟩ := (ends_runServerSigning hoffline).replay rfl hflow
    cases r with
    | ok _ => exact iff_of_true (hreturn rfl ▸ hok () rfl) (Or.inl rfl)
    | error e =>
      refine iff_of_false (fun hclean => ?_) fun hor => ?_
      · exact herror e rfl ((clean_of_server_eq hsame).2 hclean).1
      · rcases hor with heq | hnot
        · cases heq
        · exact hnot.1 hoffline
  · obtain ⟨hok, herror⟩ := (ends_runServerSigning_of_not hoffline).replay rfl hflow
    cases r with
    | ok _ => exact (hok () rfl).elim
    | error e =>
      have hstart : Clean txid t ↔ Clean txid s :=
        (clean_of_server_eq hsame).symm.trans (clean_of_server_eq (herror e rfl))
      rw [hstart]
      simp [hoffline]

end Runs

section Concrete

/-- Server 2 with a key and a stored commitment. -/
def readyNode : Node :=
  { concreteNode with
    server := concreteNode.server.storePreprocessedData configKeyId 0 (leBytes 32 1) }

/-- The relay answers the barrier and the first round of the servers with no entries. -/
def emptyAnswers : List ByteString := [jsonify (some []), jsonify (some [])]

theorem signsOffline_readyNode : SignsOffline (concreteHost 2) [0] demoMessage readyNode := by
  obtain ⟨sigData, n, hdrawn⟩ : ∃ sigData n, drawnRecords (concreteHost 2)
      (signData demoMessage).blocks readyNode.draws = some (sigData, n) := by
    rw [drawnRecords, if_neg (by decide)]
    exact ⟨_, _, rfl⟩
  refine ⟨_, _, eddsaSignOffline_ok_iff.2 ⟨concreteMetadata, sigData, n, ?_, hdrawn, rfl, rfl⟩⟩
  exact ⟨rfl, InMemoryKeyPersistency.metas_storeKeyMetadata _ _ _ true, rfl, rfl, by decide,
    by decide +kernel, rfl, by decide⟩

/-- Commitments of too few players are refused. -/
theorem run_decommitR_of_size {data : AsymmetricEddsaSigningMetadata}
    {commitments : PlayerMap (List EddsaCommitment)}
    (hdata : s.server.signingData txid = some data) (htenant : TenantMatches host)
    (hsize : data.signersIds.card ≠ commitments.size + 1) :
    (AsymmetricEddsaCosignerServer.decommitR host.server txid commitments).run s =
      .error AsymmetricEddsaCosignerServer.invalidParameters s := by
  have hcheck : (verifyTenantId host.service keyPersistency data.keyId).run s = .ok () s :=
    (run_tenantCheck_ok_iff host).2 ⟨htenant, rfl⟩
  refine (run_bind_of_ok (run_loadSigningData_ok_iff.2 ⟨hdata, rfl⟩)).trans
    ((run_bind_of_ok hcheck).trans ?_)
  exact run_bind_error_iff.2 (Or.inl (by rw [run_require, if_neg hsize]))

/-- Without the other server's commitments the flow is aborted after its first step. -/
theorem exists_abortedRun : ∃ t,
    signingOn (concreteHost 2) 2 [0] readyNode emptyAnswers = .done (.ok ()) t ∧ Live [0] t := by
  obtain ⟨a, ha, hentries⟩ := @awaitResponse_jsonify [] totalPlayers (by decide)
    List.nodup_nil (fun e he => absurd he List.not_mem_nil) fun e he => absurd he List.not_mem_nil
  obtain rfl : a = ∅ := Std.ExtTreeMap.ext_getElem? fun i => by
    cases hi : a[i]? with
    | none => simp
    | some v => exact absurd ((hentries i v).1 hi) List.not_mem_nil
  have hfirst : ∀ rest, firstAnswer (awaitResponse totalPlayers) (jsonify (some []) :: rest) =
      some (∅, rest) := fun rest => by rw [firstAnswer, ha]
  obtain ⟨out, u, hout⟩ := signsOffline_readyNode
  obtain ⟨metadata, sigData, n, -, -, -, hu⟩ := eddsaSignOffline_ok_iff.1 hout
  have hdata : u.server.signingData [0] = some (signingRecord (concreteHost 2) configKeyId
      (signData demoMessage) metadataJson playersIds 0 sigData) := by
    rw [hu]
    simp [MockServerPersistency.storeSigningData]
  have hdecommit : (AsymmetricEddsaCosignerServer.decommitR (concreteHost 2).server [0]
      ((∅ : PlayerMap (List EddsaCommitment)).insert 2 out.RCommitments)).run u =
        .error AsymmetricEddsaCosignerServer.invalidParameters u := by
    refine run_decommitR_of_size hdata rfl ?_
    have hsize : ((∅ : PlayerMap (List EddsaCommitment)).insert 2 out.RCommitments).size = 1 := by
      simp [Std.ExtTreeMap.size_insert]
    rw [hsize]
    change playersIds.card ≠ 1 + 1
    decide
  have hflow : (runServerSigning (concreteHost 2) 2 [0] demoMessage readyNode).replay
      (awaitResponse totalPlayers) [jsonify (some [])] =
        .done (.error AsymmetricEddsaCosignerServer.invalidParameters) u := by
    have hdecode : (ofExcept (decodeEntries deserializeCommitments (otherServer 2) ∅) :
        EStateM Failure Node _).run u = .ok ∅ u := rfl
    rw [runServerSigning, sendRCommitments, Prog.bind_assoc, replay_lift_bind_ok hout]
    change ((decommitRs (concreteHost 2) 2 [0] out.RCommitments >>= _) u).replay _ _ = _
    rw [decommitRs, Prog.bind_assoc]
    refine (replay_await_bind (hfirst [])).trans ?_
    rw [Prog.bind_assoc, replay_lift_bind_ok hdecode, Prog.bind_assoc,
      replay_lift_bind_error hdecommit]
  have hverify : verifyPreprocessedData.run readyNode = .ok () readyNode := by
    have hstored : readyNode.server.loadPreprocessedData configKeyId 0 = leBytes 32 1 := by
      simp [readyNode, MockServerPersistency.loadPreprocessedData,
        MockServerPersistency.storePreprocessedData]
    simp only [verifyPreprocessedData, run_bind_ok_iff, run_inspect_ok_iff, run_require_ok_iff]
    refine ⟨_, readyNode, ⟨rfl, rfl⟩, ?_, rfl⟩
    rw [hstored]
    decide
  rw [signingOn, SigningOrchestrator.run, if_pos rfl]
  change ∃ t, ((Prog.await _ _ >>= _) readyNode).replay _ _ = .done (.ok ()) t ∧ Live [0] t
  rw [emptyAnswers, replay_await_bind (hfirst _), if_pos (by decide), replay_lift_bind_ok hverify,
    flow, if_neg (by decide)]
  refine ⟨_, (replay_catching_eq_done_iff (signingFailed_done [0])).2
    ⟨_, u, hflow, Or.inr (Or.inl ⟨_, _, rfl, rfl, rfl⟩)⟩, ?_⟩
  change u.server.signingData [0] ≠ none
  rw [hdata]
  exact Option.some_ne_none _

/-- The signing data of the aborted session, with its nonce, is still there. -/
theorem abortedRun_not_clean : ∃ t,
    signingOn (concreteHost 2) 2 [0] readyNode emptyAnswers = .done (.ok ()) t ∧
      ¬ Clean [0] t := by
  obtain ⟨t, h, hlive⟩ := exists_abortedRun
  exact ⟨t, h, fun hclean => hlive hclean.1⟩

theorem signingOn_clean_iff_aborted : ∃ t, Clean [0] t ↔
    FlowReturns (concreteHost 2) 2 [0] readyNode emptyAnswers ∨
      (¬ SignsOffline (concreteHost 2) [0] demoMessage readyNode ∧ Clean [0] readyNode) := by
  obtain ⟨t, h, -⟩ := exists_abortedRun
  exact ⟨t, signingOn_clean_iff (by decide) h⟩

end Concrete

end MpcDemo.AbortedSessions
