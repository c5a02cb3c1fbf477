import MpcDemo.TransactionHistories

/-!
# What the challenge point of a signature is made of

The point of a record starts as this server's own nonce point. Every `broadcast_r` that
returns adds one point of each other recorded player, and `broadcast_si` adds the client's.
Nothing makes `broadcast_si` wait for a `broadcast_r`: it signs with the point as it stands.
-/

namespace MpcDemo.AggregationOrder
open ByteStrings Ed25519Algebra CosignerTypes AsymmetricEddsaCosigner FallibleState Persistencies
open NodeState AsymmetricEddsaCosignerServer ServerOperationLaws ServerBlockLaws CallHistories
open ServerCalls TransactionHistories

variable (host : Host)

/-- The points that a `broadcast_r` adds to a block. -/
def serverPoints (txid : ByteString) (j : ℕ) (step : CallStep) : List Ed25519Point :=
  match step.call, records step.before txid with
  | .broadcastR _ playersR, (some data, some commitments) =>
    addedPoints (myId host data) playersR commitments.toList j
  | _, _ => []

/-- The points of other servers that were added to a block since its nonce was drawn. -/
def aggregatedPoints (txid : ByteString) (history : List CallStep) (j : ℕ) : List Ed25519Point :=
  (phase txid history).reverse.flatMap (serverPoints host txid j)

/-- A `broadcast_r` that returned got points that open the commitments recorded for it. -/
def ServersOpen (txid : ByteString) (step : CallStep) : Prop :=
  match step.call with
  | .broadcastR _ playersR => ∃ data commitments,
    records step.before txid = (some data, some commitments) ∧
      Opens host.hash txid data commitments playersR
  | _ => True

/-- An `eddsa_sign_offline` has returned for the transaction. -/
def Drawn (txid : ByteString) (history : List CallStep) : Prop :=
  ∃ step ∈ history, Concerns txid step ∧ Call.isSignOffline step.call = true

/-- A block's signature under a challenge on its point `R`, which is this server's own point,
the points that `broadcast_r` added and the client's point under its commitment. -/
structure SignsAggregate (txid : ByteString) (earlier : List CallStep) (s : Node)
    (data : AsymmetricEddsaSigningMetadata) (metadata : CmpKeyMetadata) (key : Ed25519Scalar)
    (sender j : ℕ) (d : AsymmetricEddsaSignatureData) (partialSig sig : EddsaSignature) :
    Prop where
  challenge : ∃ delta publicKey hram d', BlockChallenge host.algebra host.hash metadata
      data.chaincode data.signersIds.card partialSig d sig.R delta publicKey hram ∧
    BlockResult key (data.signersIds.card = 2)
      ((data.signersIds.erase sender).min = myId host data) partialSig d sig.R delta hram (sig, d')
  opens : commitToR host.hash data.keyId (j + data.startIndex) sender partialSig.R =
    s.server.loadPreprocessedData data.keyId (data.startIndex + j)
  sum : IsSum host.algebra (leValue d.k.value.val)
    (aggregatedPoints host txid earlier j ++ [partialSig.R]) sig.R

/-- A `broadcast_si` returns only after an `eddsa_sign_offline` for the transaction. The first
one to return for a nonce signs the aggregate, block by block. -/
def SignsAggregates (earlier : List CallStep) (step : CallStep) : Prop :=
  match step.call, step.result with
  | .broadcastSi txid sender _ partialSigs, .ok (.shares out) =>
    Drawn txid earlier ∧ (∀ e ∈ phase txid earlier, ServersOpen host txid e) ∧
      (¬ Spent txid earlier → ∃ data metadata key,
        step.before.server.signingData txid = some data ∧
        partialSigs.length = data.sigData.length ∧ out.sigs.length = data.sigData.length ∧
        ∀ j d partialSig sig, data.sigData[j]? = some d → partialSigs[j]? = some partialSig →
          out.sigs[j]? = some sig → SignsAggregate host txid earlier step.before data metadata key
            sender j d partialSig sig)
  | _, _ => True

/-- What the record of a transaction holds at any time. -/
structure RecordInvariant (txid : ByteString) (history : List CallStep)
    (data : AsymmetricEddsaSigningMetadata) : Prop where
  drawn : Drawn txid history
  opens : ∀ step ∈ phase txid history, ServersOpen host txid step
  sum : ¬ Spent txid history → ∀ j d, data.sigData[j]? = some d →
    IsSum host.algebra (leValue d.k.value.val) (aggregatedPoints host txid history j) d.R.ed25519

def PointInvariant (history : List CallStep) (s : Node) : Prop :=
  ∀ txid data, s.server.signingData txid = some data → RecordInvariant host txid history data

variable {host} {txid : ByteString} {history : List CallStep} {s t : Node} {c : Call}
variable {step : CallStep} {data : AsymmetricEddsaSigningMetadata}

theorem Drawn.cons (h : Drawn txid history) : Drawn txid (step :: history) := by
  obtain ⟨e, he, hdrawn⟩ := h
  exact ⟨e, List.mem_cons_of_mem step he, hdrawn⟩

theorem recordInvariant_of_not_concerns (h : RecordInvariant host txid history data)
    (hc : ¬ Concerns txid step) : RecordInvariant host txid (step :: history) data := by
  refine ⟨h.drawn.cons, ?_, ?_⟩
  · rw [phase_cons_of_not_concerns hc]
    exact h.opens
  · rw [Spent, phase_cons_of_not_concerns hc]
    intro hunspent
    simp only [aggregatedPoints, phase_cons_of_not_concerns hc]
    exact h.sum hunspent

theorem aggregatedPoints_cons (hc : Concerns txid step)
    (hcall : Call.isSignOffline step.call = false) (j : ℕ) :
    aggregatedPoints host txid (step :: history) j =
      aggregatedPoints host txid history j ++ serverPoints host txid j step := by
  simp only [aggregatedPoints, phase_cons_of_concerns hc hcall, List.reverse_cons,
    List.flatMap_append, List.flatMap_cons, List.flatMap_nil, List.append_nil]

/-- A returning call that adds no points keeps the invariant of an unchanged record. -/
theorem recordInvariant_of_concerns (h : RecordInvariant host txid history data)
    (hc : Concerns txid step) (hcall : Call.isSignOffline step.call = false)
    (hopens : ServersOpen host txid step) {data' : AsymmetricEddsaSigningMetadata}
    (hsum : Call.isBroadcastSi step.call = false → ¬ Spent txid history → ∀ j d,
      data'.sigData[j]? = some d → IsSum host.algebra (leValue d.k.value.val)
        (aggregatedPoints host txid history j ++ serverPoints host txid j step) d.R.ed25519) :
    RecordInvariant host txid (step :: history) data' := by
  refine ⟨h.drawn.cons, ?_, ?_⟩
  · rw [phase_cons_of_concerns hc hcall]
    intro e he
    rcases List.mem_cons.1 he with heq | hearlier
    · rwa [heq]
    · exact h.opens e hearlier
  · rw [spent_cons_iff hcall]
    intro hunspent
    obtain ⟨hnow, hearlier⟩ := not_or.1 hunspent
    simp only [aggregatedPoints_cons hc hcall]
    exact hsum (Bool.eq_false_iff.2 fun hb => hnow ⟨hc, hb⟩) hearlier

private theorem recordInvariant_drawn {keyId : ByteString} {request : SigningData}
    {metadataJson : ByteString} {playersIds : Finset ℕ}
    {index n m : ℕ} {sigData : List AsymmetricEddsaSignatureData}
    (hdrawn : drawnRecords host request.blocks n = some (sigData, m))
    (hc : Concerns txid step) (hcall : Call.isSignOffline step.call = true) :
    RecordInvariant host txid (step :: history)
      (signingRecord host keyId request metadataJson playersIds index sigData) := by
  have hnone : phase txid (step :: history) = [] := phase_cons_of_signOffline hc hcall
  refine ⟨⟨step, List.mem_cons_self, hc, hcall⟩, ?_, ?_⟩
  · rw [hnone]
    exact fun e he => absurd he List.not_mem_nil
  · intro _ j d hd
    rw [aggregatedPoints, hnone, List.reverse_nil, List.flatMap_nil]
    rw [signingRecord, List.getElem?_mapIdx] at hd
    rw [drawnRecords] at hdrawn
    split at hdrawn
    · cases hdrawn
      cases hd
    · cases hk : firstSuccess host.tape 1024 n with
      | none =>
        rw [hk] at hdrawn
        cases hdrawn
      | some k =>
        rw [hk] at hdrawn
        cases hdrawn
        rw [List.getElem?_map] at hd
        cases hb : request.blocks[j]? with
        | none =>
          rw [hb] at hd
          cases hd
        | some block =>
          rw [hb] at hd
          obtain rfl := Option.some.inj hd
          simp only [blockRecord, ed25519_generic, leValue_swapBytes]
          exact isSum_nil _

theorem pointInvariant_step (h : PointInvariant host history s) (c : Call) :
    PointInvariant host (perform (exec host) c s :: history) (exec host c s).2 := by
  intro txid data hdata
  by_cases hc : Concerns txid (perform (exec host) c s)
  · have hchange := recordChange_of_concerns hc
    have hresult : perform (exec host) c s = ⟨s, c, (exec host c s).1, (exec host c s).2⟩ := rfl
    generalize hstep : perform (exec host) c s = step at hc hresult
    generalize exec host c s = result at hchange hdata hresult
    obtain ⟨outcome, u⟩ := result
    cases hchange with
    | drawn _ hdrawn _ hserver =>
      rw [hserver, MockServerPersistency.signingData_storeSigningData] at hdata
      obtain rfl := Option.some.inj hdata
      exact recordInvariant_drawn hdrawn hc (by rw [hresult]; rfl)
    | @decommitted before commitments hbefore hchecks =>
      obtain rfl := Option.some.inj (hbefore.symm.trans hdata)
      refine recordInvariant_of_concerns (h txid before hbefore) hc (by rw [hresult]; rfl)
        (by rw [hresult]; trivial) fun _ hunspent j d hd => ?_
      have hnone : serverPoints host txid j step = [] := by rw [hresult]; rfl
      rw [hnone, List.append_nil]
      exact (h txid before hbefore).sum hunspent j d hd
    | @aggregated before commitments playersR sigData out hbefore hchecks hcomm hagg =>
      rw [afterBroadcastR, MockServerPersistency.signingData_storeSigningData] at hdata
      obtain rfl := Option.some.inj hdata
      have hrecords : records s txid = (some before, some commitments) := by
        rw [records, hbefore, hcomm]
      refine recordInvariant_of_concerns (h txid before hbefore) hc (by rw [hresult]; rfl) ?_ ?_
      · rw [hresult]
        exact ⟨before, commitments, hrecords, opens_of_aggregatePlayers hagg⟩
      · intro _ hunspent j d hd
        have hpoints : serverPoints host txid j step =
            addedPoints (myId host before) playersR commitments.toList j := by
          rw [hresult]
          simp only [serverPoints, hrecords]
        have hj : j < before.sigData.length := by
          rw [← aggregatePlayers_length hagg]
          exact (List.getElem?_eq_some_iff.1 hd).1
        have hold := List.getElem?_eq_getElem hj
        have hk : d.k = before.sigData[j].k := by
          have hsame := congrArg (·[j]?) (aggregatePlayers_withoutPoint hagg)
          simp only [List.getElem?_map, hd, hold, Option.map_some, Option.some.injEq] at hsame
          exact congrArg Prod.fst hsame
        rw [hpoints, hk]
        exact aggregatePlayers_isSum hagg hold hd
          ((h txid before hbefore).sum hunspent j _ hold)
    | @signed before _ _ _ _ _ _ hbefore =>
      exact recordInvariant_of_concerns (h txid before hbefore) hc (by rw [hresult]; rfl)
        (by rw [hresult]; trivial) fun hcall => by rw [hresult] at hcall; cases hcall
    | completed =>
      rw [MockServerPersistency.signingData_deleteTemporarySigningData] at hdata
      cases hdata
    | cancelled =>
      rw [afterCancel, MockServerPersistency.signingData_deleteTemporarySigningData] at hdata
      cases hdata
  · rw [signingData_of_not_concerns hc] at hdata
    exact recordInvariant_of_not_concerns (h txid data hdata) hc

theorem pointInvariant_of_run (h : ServerRun host history s) : PointInvariant host history s := by
  refine h.invariant ?_ ?_ fun _ _ c hI => pointInvariant_step hI c
  · intro s hs txid data hdata
    rw [hs] at hdata
    cases hdata
  · intro history s t hI hother txid data hdata
    rw [hother.1] at hdata
    exact hI txid data hdata

theorem signsAggregates_step (h : PointInvariant host history s) (c : Call) :
    SignsAggregates host history (perform (exec host) c s) := by
  cases c with
  | broadcastSi txid sender version partialSigs =>
    simp only [SignsAggregates, perform]
    cases hr : (exec host (.broadcastSi txid sender version partialSigs) s).1 with
    | error e => trivial
    | ok out =>
      have hok : (exec host (.broadcastSi txid sender version partialSigs) s).1.isOk = true := by
        rw [hr]
        rfl
      have hchange := recordChange_of_concerns (s := s) ⟨hok, rfl⟩
      rw [hr] at hchange
      generalize (exec host (.broadcastSi txid sender version partialSigs) s).2 = u at hchange
      cases hchange with
      | @signed data metadata key blocks _ _ _ hdata hchecks hsign =>
        have hinv := h txid data hdata
        have hlength : blocks.length = data.sigData.length := by
          rw [← hsign.length_eq, List.length_zip, hchecks.blocks, min_self]
        refine ⟨hinv.drawn, hinv.opens, fun hunspent => ⟨data, metadata, key, hdata,
          hchecks.blocks, by rw [List.length_map, hlength], ?_⟩⟩
        intro j d partialSig sig hd hpartial hsig
        obtain ⟨hj, hd'⟩ := List.getElem?_eq_some_iff.1 hd
        obtain ⟨hj₁, hpartial'⟩ := List.getElem?_eq_some_iff.1 hpartial
        rw [List.getElem?_map] at hsig
        obtain ⟨r, hr, rfl⟩ := Option.map_eq_some_iff.1 hsig
        obtain ⟨hj₂, hr'⟩ := List.getElem?_eq_some_iff.1 hr
        have hzip : j < (partialSigs.zip data.sigData).length := by
          rw [List.length_zip, hchecks.blocks, min_self]
          exact hj
        have hblock := (List.forall₂_iff_get.1 hsign).2 j hzip hj₂
        simp only [List.get_eq_getElem, List.getElem_zip, hpartial', hd', hr'] at hblock
        have hadd := (signBlock_record hblock).2.2
        obtain ⟨R, delta, publicKey, hram, hchallenge, hresult⟩ := signBlock_ok_iff.1 hblock
        obtain rfl : R = r.1.R := Except.ok.inj (hchallenge.sum.symm.trans hadd)
        refine ⟨⟨delta, publicKey, hram, r.2, hchallenge, hresult⟩, ?_, ?_⟩
        · have hmem : ((partialSig, d), j) ∈ (partialSigs.zip data.sigData).zipIdx := by
            rw [List.mem_zipIdx_iff_getElem?, List.getElem?_eq_getElem hzip, List.getElem_zip,
              hpartial', hd']
          exact (verifyCommitToR_iff host.hash).1 (hchecks.opens _ hmem)
        · exact (hinv.sum hunspent j d hd).ed25519AlgebraAddPoints hadd
  | _ => trivial

/-- Over every run, the first `broadcast_si` to return for a nonce signs a challenge on the
aggregate of this server's own point, the points added by `broadcast_r` and the client's. -/
theorem signsAggregates_everyStep (h : ServerRun host history s) :
    EveryStep (SignsAggregates host) history := by
  induction h with
  | start hs => trivial
  | other _ _ ih => exact ih
  | call c hrun ih => exact ⟨signsAggregates_step (pointInvariant_of_run hrun) c, ih⟩

/-- The client's `broadcast_si` straight after `eddsa_sign_offline`. -/
def earlyBroadcastSi : List Call :=
  [.broadcastSi [0] 1 0 concretePartialSigs, concreteSignOffline [0], concretePresigning]

theorem signsAggregates_everyStep_concreteRun :
    EveryStep (SignsAggregates (concreteHost 2)) (concreteRun earlyBroadcastSi).1 :=
  signsAggregates_everyStep (serverRun_concreteRun earlyBroadcastSi)

def Call.isBroadcastR : Call → Bool
  | .broadcastR .. => true
  | _ => false

/-- A `broadcast_si` returns for three or more signers only after a `broadcast_r` has returned
for the same nonce. -/
def WaitsForBroadcastR (earlier : List CallStep) (step : CallStep) : Prop :=
  ∀ txid data, Concerns txid step → Call.isBroadcastSi step.call = true →
    step.before.server.signingData txid = some data → 3 ≤ data.signersIds.card →
    ∃ e ∈ phase txid earlier, Call.isBroadcastR e.call = true

theorem waitsForBroadcastR_fails :
    ∃ history s, ServerRun (concreteHost 2) history s ∧ ¬ EveryStep WaitsForBroadcastR history := by
  refine ⟨(concreteRun earlyBroadcastSi).1, (concreteRun earlyBroadcastSi).2,
    serverRun_concreteRun _, ?_⟩
  intro h
  have hconcerns : Concerns [0] (perform (exec (concreteHost 2))
      (.broadcastSi [0] 1 0 concretePartialSigs) (concreteRun earlyBroadcastSi.tail).2) := by
    decide +kernel
  have hsome : ((concreteRun earlyBroadcastSi.tail).2.server.signingData [0]).any
      (fun data => decide (3 ≤ data.signersIds.card)) = true := by decide +kernel
  obtain ⟨data, hdata, hcard⟩ := (Option.any_eq_true ..).1 hsome
  have hphase : phase [0] (concreteRun earlyBroadcastSi.tail).1 = [] := by
    have hnil : (phase [0] (concreteRun earlyBroadcastSi.tail).1).isEmpty := by decide +kernel
    exact List.isEmpty_iff.1 hnil
  obtain ⟨e, he, -⟩ := h.1 [0] data hconcerns rfl hdata (of_decide_eq_true hcard)
  have hnone : e ∉ phase [0] (concreteRun earlyBroadcastSi.tail).1 := by
    rw [hphase]
    exact List.not_mem_nil
  exact hnone he

end MpcDemo.AggregationOrder
