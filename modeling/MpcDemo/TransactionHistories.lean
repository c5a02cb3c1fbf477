import MpcDemo.ServerCalls
import MpcDemo.ServerBlockLaws

/-!
# What the history of a server says about one transaction

The calls that matter to a transaction are the successful ones that name it. The phase of a
transaction is the list of those made after its latest nonce was drawn. Calls that do not
concern a transaction leave its records alone.
-/

namespace MpcDemo.TransactionHistories
open ByteStrings Ed25519Algebra CosignerTypes FallibleState Persistencies NodeState
open AsymmetricEddsaCosignerServer ServerOperationLaws ServerBlockLaws CallHistories ServerCalls

def Call.txid? : Call → Option ByteString
  | .storePresigningData .. => none
  | .eddsaSignOffline _ txid .. => some txid
  | .decommitR txid _ => some txid
  | .broadcastR txid _ => some txid
  | .broadcastSi txid .. => some txid
  | .getEddsaSignature txid _ => some txid
  | .cancelSigning txid => some txid

def Call.isSignOffline : Call → Bool
  | .eddsaSignOffline .. => true
  | _ => false

def Call.isBroadcastSi : Call → Bool
  | .broadcastSi .. => true
  | _ => false

/-- A call on the transaction that returned. -/
def Concerns (txid : ByteString) (step : CallStep) : Prop :=
  step.result.isOk = true ∧ Call.txid? step.call = some txid

instance (txid : ByteString) (step : CallStep) : Decidable (Concerns txid step) :=
  inferInstanceAs (Decidable (_ ∧ _))

/-- The calls that returned for a transaction since its latest `eddsa_sign_offline`, the
latest first. -/
def phase (txid : ByteString) : List CallStep → List CallStep
  | [] => []
  | step :: earlier =>
    if Concerns txid step then
      if Call.isSignOffline step.call then [] else step :: phase txid earlier
    else phase txid earlier

section Phases
variable {txid : ByteString} {step : CallStep} {earlier : List CallStep}

theorem phase_cons_of_not_concerns (h : ¬ Concerns txid step) :
    phase txid (step :: earlier) = phase txid earlier := by
  rw [phase, if_neg h]

theorem phase_cons_of_signOffline (h : Concerns txid step)
    (hcall : Call.isSignOffline step.call = true) : phase txid (step :: earlier) = [] := by
  rw [phase, if_pos h, if_pos hcall]

theorem phase_cons_of_concerns (h : Concerns txid step)
    (hcall : Call.isSignOffline step.call = false) :
    phase txid (step :: earlier) = step :: phase txid earlier := by
  rw [phase, if_pos h, hcall]
  rfl

/-- Has a `broadcast_si` returned since the nonce of the transaction was drawn? -/
def Spent (txid : ByteString) (history : List CallStep) : Prop :=
  ∃ step ∈ phase txid history, Call.isBroadcastSi step.call = true

theorem spent_cons_iff (hcall : Call.isSignOffline step.call = false) :
    Spent txid (step :: earlier) ↔
      (Concerns txid step ∧ Call.isBroadcastSi step.call = true) ∨ Spent txid earlier := by
  by_cases h : Concerns txid step
  · simp only [Spent, phase_cons_of_concerns h hcall, List.exists_mem_cons_iff, h, true_and]
  · simp only [Spent, phase_cons_of_not_concerns h, h, false_and, false_or]

end Phases

variable {host : Host} {s : Node} {c : Call} {txid : ByteString}

theorem exists_result (h : Concerns txid (perform (exec host) c s)) :
    ∃ out, (exec host c s).1 = .ok out ∧ (operation host c).run s = .ok out (exec host c s).2 := by
  have hok : (exec host c s).1.isOk = true := h.1
  cases hr : (exec host c s).1 with
  | error e =>
    rw [hr] at hok
    cases hok
  | ok out => exact ⟨out, rfl, exec_eq_ok hr⟩

theorem run_map_ok_iff {α β : Type} {x : EStateM Failure Node α} {f : α → β} {s t : Node} {b : β} :
    (f <$> x).run s = .ok b t ↔ ∃ a, x.run s = .ok a t ∧ f a = b := by
  rw [EStateM.run_map]
  cases x.run s with
  | ok a u => simp [and_comm]
  | error e u => simp

/-- The records of a transaction: its signing data and the commitments of its servers. -/
def records (s : Node) (txid : ByteString) :
    Option AsymmetricEddsaSigningMetadata × Option (PlayerMap (List EddsaCommitment)) :=
  (s.server.signingData txid, s.server.commitments txid)

theorem records_afterPresigning (p : MockServerPersistency) (keyId : ByteString)
    (startIndex totalCount : ℕ) (RCommitments : List EddsaCommitment) :
    (afterPresigning p keyId startIndex totalCount RCommitments).signingData = p.signingData ∧
      (afterPresigning p keyId startIndex totalCount RCommitments).commitments =
        p.commitments := by
  have hloop : ∀ (l : List (EddsaCommitment × ℕ)) (q : MockServerPersistency),
      (l.foldl (fun p c => p.storePreprocessedData keyId (startIndex + c.2) c.1) q).signingData =
          q.signingData ∧
        (l.foldl (fun p c => p.storePreprocessedData keyId (startIndex + c.2) c.1) q).commitments =
          q.commitments := by
    intro l
    induction l with
    | nil => exact fun q => ⟨rfl, rfl⟩
    | cons c l ih => exact fun q => ih (q.storePreprocessedData keyId (startIndex + c.2) c.1)
  exact hloop _ (p.createPreprocessedData keyId totalCount)

/-- A call that does not concern a transaction leaves its records alone. -/
theorem records_of_not_concerns (h : ¬ Concerns txid (perform (exec host) c s)) :
    records (exec host c s).2 txid = records s txid := by
  cases hr : (exec host c s).1 with
  | error e => rw [(exec_eq_error hr).2, records, records]
  | ok out =>
    have hrun := exec_eq_ok hr
    have hother : Call.txid? c ≠ some txid := by
      intro hc
      apply h
      refine ⟨?_, hc⟩
      change (exec host c s).1.isOk = true
      rw [hr]
      rfl
    cases c with
    | storePresigningData =>
      obtain ⟨_, hrun, -⟩ := run_map_ok_iff.1 hrun
      rw [(storePresigningData_ok_iff.1 hrun).2]
      simp only [records, records_afterPresigning]
    | eddsaSignOffline keyId txid' =>
      obtain ⟨_, hrun, -⟩ := run_map_ok_iff.1 hrun
      obtain ⟨_, _, _, -, -, -, ht⟩ := eddsaSignOffline_ok_iff.1 hrun
      have hne : txid ≠ txid' := fun heq => hother (congrArg some heq.symm)
      rw [ht]
      simp only [records, MockServerPersistency.storeSigningData, Function.update_of_ne hne]
    | decommitR txid' =>
      obtain ⟨_, hrun, -⟩ := run_map_ok_iff.1 hrun
      obtain ⟨_, -, -, -, ht⟩ := decommitR_ok_iff.1 hrun
      have hne : txid ≠ txid' := fun heq => hother (congrArg some heq.symm)
      rw [ht]
      simp only [records, MockServerPersistency.storeCommitments, Function.update_of_ne hne]
    | broadcastR txid' =>
      obtain ⟨_, hrun, -⟩ := run_map_ok_iff.1 hrun
      obtain ⟨_, _, _, -, -, -, -, -, ht⟩ := broadcastR_ok_iff.1 hrun
      have hne : txid ≠ txid' := fun heq => hother (congrArg some heq.symm)
      rw [ht]
      simp only [records, afterBroadcastR, MockServerPersistency.storeSigningData,
        MockServerPersistency.deleteCommitments, Function.update_of_ne hne]
    | broadcastSi txid' =>
      obtain ⟨_, hrun, -⟩ := run_map_ok_iff.1 hrun
      obtain ⟨data, _, _, _, -, -, -, -, ht⟩ := broadcastSi_ok_iff.1 hrun
      have hne : txid ≠ txid' := fun heq => hother (congrArg some heq.symm)
      rw [ht]
      by_cases hcard : data.signersIds.card = 2
      · simp only [records, afterBroadcastSi, hcard, if_true,
          MockServerPersistency.deleteTemporarySigningData, Function.update_of_ne hne]
      · simp only [records, afterBroadcastSi, hcard, if_false,
          MockServerPersistency.storeSigningData, Function.update_of_ne hne]
    | getEddsaSignature txid' =>
      obtain ⟨_, hrun, -⟩ := run_map_ok_iff.1 hrun
      obtain ⟨_, _, -, -, -, ht⟩ := getEddsaSignature_ok_iff.1 hrun
      have hne : txid ≠ txid' := fun heq => hother (congrArg some heq.symm)
      rw [ht]
      simp only [records, MockServerPersistency.deleteTemporarySigningData,
        Function.update_of_ne hne]
    | cancelSigning txid' =>
      obtain ⟨_, hrun, -⟩ := run_map_ok_iff.1 hrun
      rw [run_cancelSigning] at hrun
      have hne : txid ≠ txid' := fun heq => hother (congrArg some heq.symm)
      rw [← (EStateM.Result.ok.inj hrun).2]
      simp only [records, afterCancel, MockServerPersistency.deleteTemporarySigningData,
        MockServerPersistency.deleteCommitments, Function.update_of_ne hne]

theorem signingData_of_not_concerns (h : ¬ Concerns txid (perform (exec host) c s)) :
    (exec host c s).2.server.signingData txid = s.server.signingData txid :=
  congrArg Prod.fst (records_of_not_concerns h)

theorem commitments_of_not_concerns (h : ¬ Concerns txid (perform (exec host) c s)) :
    (exec host c s).2.server.commitments txid = s.server.commitments txid :=
  congrArg Prod.snd (records_of_not_concerns h)

/-- What one returning call does to the records of its transaction. -/
inductive RecordChange (host : Host) (txid : ByteString) (s : Node) : Call → Outcome → Node → Prop
  | drawn {keyId : ByteString} {data : SigningData} {metadataJson : ByteString}
      {players : Finset ByteString} {playersIds : Finset ℕ} {index : ℕ}
      {sigData : List AsymmetricEddsaSignatureData} {n : ℕ} {out : SignOfflineOutput} {t : Node} :
      2 ≤ playersIds.card → drawnRecords host data.blocks s.draws = some (sigData, n) →
      t.draws = n →
      t.server = s.server.storeSigningData txid
        (signingRecord host keyId data metadataJson playersIds index sigData) false →
      RecordChange host txid s
        (.eddsaSignOffline keyId txid data metadataJson players playersIds index)
        (.ok (.offline out)) t
  | decommitted {data : AsymmetricEddsaSigningMetadata}
      {commitments : PlayerMap (List EddsaCommitment)} :
      s.server.signingData txid = some data → DecommitChecks host txid data commitments →
      RecordChange host txid s (.decommitR txid commitments)
        (.ok (.decommitted (data.sigData.map (·.R))))
        { s with server := s.server.storeCommitments txid commitments }
  | aggregated {data : AsymmetricEddsaSigningMetadata}
      {commitments : PlayerMap (List EddsaCommitment)}
      {playersR : PlayerMap (List EllipticCurvePoint)}
      {sigData : List AsymmetricEddsaSignatureData} {out : BroadcastROutput} :
      s.server.signingData txid = some data → BroadcastRChecks host data playersR →
      s.server.commitments txid = some commitments →
      aggregatePlayers host.algebra host.hash txid data.startIndex (myId host data) playersR
        commitments.toList data.sigData = .ok sigData →
      RecordChange host txid s (.broadcastR txid playersR) (.ok (.aggregated out))
        { s with server := afterBroadcastR s.server txid data sigData }
  | signed {data : AsymmetricEddsaSigningMetadata} {metadata : CmpKeyMetadata}
      {key : Ed25519Scalar} {blocks : List (EddsaSignature × AsymmetricEddsaSignatureData)}
      {sender version : ℕ} {partialSigs : List EddsaSignature} :
      s.server.signingData txid = some data →
      BroadcastSiChecks host s data sender partialSigs metadata key →
      List.Forall₂ (fun b r => signBlock host.algebra host.hash metadata key data.chaincode
          data.signersIds.card (data.signersIds.card = 2)
          ((data.signersIds.erase sender).min = myId host data) b.1 b.2 = .ok r)
          (partialSigs.zip data.sigData) blocks →
      RecordChange host txid s (.broadcastSi txid sender version partialSigs)
        (.ok (.shares ⟨blocks.map (·.1), data.signersIds.erase sender,
          data.signersIds.card = 2⟩))
        { s with server := afterBroadcastSi s.server txid data (blocks.map (·.2)) }
  | completed {data : AsymmetricEddsaSigningMetadata} {metadata : CmpKeyMetadata}
      {partialSigs : PlayerMap (List EddsaSignature)} {sigs : List EddsaSignature} :
      s.server.signingData txid = some data →
      GetSignatureChecks host s data partialSigs metadata →
      List.Forall₂ (fun b sig => finalizeBlock host.algebra host.hash metadata data.chaincode
          partialSigs b.1 b.2 = .ok sig) data.sigData.zipIdx sigs →
      RecordChange host txid s (.getEddsaSignature txid partialSigs) (.ok (.signatures sigs))
        { s with server := s.server.deleteTemporarySigningData txid }
  | cancelled : RecordChange host txid s (.cancelSigning txid) (.ok .done)
      { s with server := afterCancel s.server txid }

theorem recordChange_of_concerns (h : Concerns txid (perform (exec host) c s)) :
    RecordChange host txid s c (exec host c s).1 (exec host c s).2 := by
  obtain ⟨out, hout, hrun⟩ := exists_result h
  have hc : Call.txid? c = some txid := h.2
  rw [hout]
  cases c with
  | storePresigningData => cases hc
  | eddsaSignOffline keyId txid' =>
    cases hc
    obtain ⟨_, hop, rfl⟩ := run_map_ok_iff.1 hrun
    obtain ⟨_, _, _, hchecks, hdrawn, -, ht⟩ := eddsaSignOffline_ok_iff.1 hop
    exact .drawn hchecks.two_le hdrawn (by rw [ht]) (by rw [ht])
  | decommitR txid' =>
    cases hc
    obtain ⟨_, hop, rfl⟩ := run_map_ok_iff.1 hrun
    obtain ⟨_, hdata, hchecks, rfl, ht⟩ := decommitR_ok_iff.1 hop
    rw [ht]
    exact .decommitted hdata hchecks
  | broadcastR txid' =>
    cases hc
    obtain ⟨_, hop, rfl⟩ := run_map_ok_iff.1 hrun
    obtain ⟨_, _, _, hdata, hchecks, hcomm, hagg, -, ht⟩ := broadcastR_ok_iff.1 hop
    rw [ht]
    exact .aggregated hdata hchecks hcomm hagg
  | broadcastSi txid' =>
    cases hc
    obtain ⟨_, hop, rfl⟩ := run_map_ok_iff.1 hrun
    obtain ⟨_, _, _, _, hdata, hchecks, hsign, rfl, ht⟩ := broadcastSi_ok_iff.1 hop
    rw [ht]
    exact .signed hdata hchecks hsign
  | getEddsaSignature txid' =>
    cases hc
    obtain ⟨_, hop, rfl⟩ := run_map_ok_iff.1 hrun
    obtain ⟨_, _, hdata, hchecks, hsigs, ht⟩ := getEddsaSignature_ok_iff.1 hop
    rw [ht]
    exact .completed hdata hchecks hsigs
  | cancelSigning txid' =>
    cases hc
    obtain ⟨_, hop, rfl⟩ := run_map_ok_iff.1 hrun
    rw [run_cancelSigning] at hop
    rw [← (EStateM.Result.ok.inj hop).2]
    exact .cancelled

theorem drawnRecords_le {blocks : List SigningBlockData} {n : ℕ}
    {sigData : List AsymmetricEddsaSignatureData} {m : ℕ}
    (h : drawnRecords host blocks n = some (sigData, m)) : n ≤ m := by
  rw [drawnRecords] at h
  split at h
  · cases h
    exact le_rfl
  · cases hk : firstSuccess host.tape 1024 n with
    | none =>
      rw [hk] at h
      cases h
    | some k =>
      rw [hk] at h
      cases h
      exact (firstSuccess_eq_some hk).1.trans (Nat.le_succ _)

theorem draws_le_exec (c : Call) (s : Node) : s.draws ≤ (exec host c s).2.draws := by
  cases hr : (exec host c s).1 with
  | error e => exact (exec_eq_error hr).1
  | ok out =>
    by_cases hpre : Call.txid? c = none
    · cases c with
      | storePresigningData =>
        obtain ⟨_, hrun, -⟩ := run_map_ok_iff.1 (exec_eq_ok hr)
        rw [(storePresigningData_ok_iff.1 hrun).2]
      | _ => cases hpre
    · obtain ⟨txid, hc⟩ := Option.ne_none_iff_exists'.1 hpre
      have hok : (exec host c s).1.isOk = true := by rw [hr]; rfl
      have hchange := recordChange_of_concerns (s := s) (c := c) ⟨hok, hc⟩
      generalize exec host c s = result at hchange
      obtain ⟨outcome, t⟩ := result
      cases hchange with
      | drawn _ hdrawn ht _ => exact (drawnRecords_le hdrawn).trans ht.ge
      | _ => exact le_rfl

end MpcDemo.TransactionHistories
