import MpcDemo.TransactionHistories

/-!
# How often a server uses a nonce

Every partial signature released by `broadcast_si` is listed with the draw of the nonce in it.
No draw is listed twice exactly when the caller signs one block at a time and lets at most one
`broadcast_si` return for each nonce; neither is enforced by the server or its store.
-/

namespace MpcDemo.ServerNonceUse
open ByteStrings Ed25519Algebra CosignerTypes FallibleState Persistencies NodeState
open AsymmetricEddsaCosignerServer ServerOperationLaws ServerBlockLaws CallHistories ServerCalls
open TransactionHistories

/-- The draws of the nonces in the record of a transaction. -/
def recordDraws (s : Node) (txid : ByteString) : List ℕ :=
  (s.server.signingData txid).elim [] fun data => data.sigData.map (·.k.draw)

/-- The partial signatures that a call released, each with the draw of its nonce. -/
def released (step : CallStep) : List (ℕ × EddsaSignature) :=
  match step.call, step.result with
  | .broadcastSi txid .., .ok (.shares out) => (recordDraws step.before txid).zip out.sigs
  | _, _ => []

def releasedDraws (history : List CallStep) : List ℕ := (history.flatMap released).map Prod.fst

def NoncesUsedOnce (history : List CallStep) : Prop := (releasedDraws history).Nodup

instance (history : List CallStep) : Decidable (NoncesUsedOnce history) :=
  inferInstanceAs (Decidable (List.Nodup _))

/-- A `broadcast_si` that returns is the first for its nonce and signs at most one block. -/
def ReleasesOnce (earlier : List CallStep) (step : CallStep) : Prop :=
  match step.call with
  | .broadcastSi txid .. => step.result.isOk = true →
    recordDraws step.before txid = [] ∨
      (recordDraws step.before txid).length = 1 ∧ ¬ Spent txid earlier
  | _ => True

theorem releasedDraws_cons (step : CallStep) (earlier : List CallStep) :
    releasedDraws (step :: earlier) = (released step).map Prod.fst ++ releasedDraws earlier := by
  rw [releasedDraws, List.flatMap_cons, List.map_append, releasedDraws]

section OneCall
variable {host : Host} {s : Node} {c : Call} {txid : ByteString} {earlier : List CallStep}

theorem recordDraws_of_not_concerns (h : ¬ Concerns txid (perform (exec host) c s)) :
    recordDraws (exec host c s).2 txid = recordDraws s txid := by
  rw [recordDraws, signingData_of_not_concerns h, recordDraws]

private theorem recordDraws_storeSigningData (s : Node)
    (server : MockServerPersistency) (data : AsymmetricEddsaSigningMetadata) (update : Bool)
    (hserver : s.server = server.storeSigningData txid data update) :
    recordDraws s txid = data.sigData.map (·.k.draw) := by
  rw [recordDraws, hserver, MockServerPersistency.signingData_storeSigningData, Option.elim_some]

private theorem recordDraws_delete (s : Node) (server : MockServerPersistency)
    (hserver : s.server = server.deleteTemporarySigningData txid) : recordDraws s txid = [] := by
  rw [recordDraws, hserver, MockServerPersistency.signingData_deleteTemporarySigningData,
    Option.elim_none]

private theorem map_draw_eq {l m : List AsymmetricEddsaSignatureData}
    (h : l.map withoutPoint = m.map withoutPoint) : l.map (·.k.draw) = m.map (·.k.draw) := by
  have hdraws := congrArg (List.map fun r => r.1.draw) h
  rw [List.map_map, List.map_map] at hdraws
  exact hdraws

/-- A returning call on a transaction other than `eddsa_sign_offline` keeps the nonces of its
record or drops the record. -/
theorem recordDraws_of_concerns (h : Concerns txid (perform (exec host) c s))
    (hc : Call.isSignOffline c = false) :
    recordDraws (exec host c s).2 txid = recordDraws s txid ∨
      recordDraws (exec host c s).2 txid = [] := by
  have hchange := recordChange_of_concerns h
  generalize exec host c s = result at hchange
  obtain ⟨outcome, t⟩ := result
  cases hchange with
  | drawn => cases hc
  | decommitted => exact Or.inl rfl
  | aggregated hdata _ _ hagg =>
    left
    rw [recordDraws_storeSigningData _ _ _ true rfl, recordDraws, hdata]
    exact map_draw_eq (aggregatePlayers_withoutPoint hagg)
  | @signed data _ _ blocks _ _ _ hdata hchecks hsign =>
    by_cases hcard : data.signersIds.card = 2
    · exact Or.inr (recordDraws_delete _ s.server (by simp [afterBroadcastSi, hcard]))
    · left
      have hdraws : (blocks.map (·.2)).map (·.k.draw) = data.sigData.map (·.k.draw) := by
        have hblocks := map_eq_of_forall₂ (f := fun b : EddsaSignature × _ => b.2.k.draw)
          (g := fun r => r.2.k.draw) hsign fun b r hr => by rw [(signBlock_record hr).1]
        have hzip := congrArg (List.map fun d : AsymmetricEddsaSignatureData => d.k.draw)
          (List.map_snd_zip hchecks.blocks.ge)
        rw [List.map_map] at hzip ⊢
        exact hblocks.trans hzip
      have hstore : afterBroadcastSi s.server txid data (blocks.map (·.2)) =
          s.server.storeSigningData txid { data with sigData := blocks.map (·.2) } true := by
        simp only [afterBroadcastSi, hcard, if_false]
      rw [recordDraws_storeSigningData _ s.server _ true hstore, recordDraws, hdata]
      exact hdraws
  | completed => exact Or.inr (recordDraws_delete _ _ rfl)
  | cancelled => exact Or.inr (recordDraws_delete _ _ rfl)

/-- `eddsa_sign_offline` draws one fresh nonce for all blocks. -/
theorem recordDraws_of_signOffline (h : Concerns txid (perform (exec host) c s))
    (hc : Call.isSignOffline c = true) :
    ∃ n, s.draws ≤ n ∧ ∀ d ∈ recordDraws (exec host c s).2 txid,
      d = n ∧ n < (exec host c s).2.draws := by
  have hchange := recordChange_of_concerns h
  generalize exec host c s = result at hchange
  obtain ⟨outcome, t⟩ := result
  cases hchange with
  | @drawn keyId data metadataJson _ playersIds index sigData n _ _ _ hdrawn ht hserver =>
    rw [recordDraws_storeSigningData t _ _ false hserver]
    rw [drawnRecords] at hdrawn
    split at hdrawn
    · cases hdrawn
      exact ⟨s.draws, le_rfl, by simp [signingRecord]⟩
    · cases hk : firstSuccess host.tape 1024 s.draws with
      | none =>
        rw [hk] at hdrawn
        cases hdrawn
      | some k =>
        rw [hk] at hdrawn
        cases hdrawn
        refine ⟨k.draw, (firstSuccess_eq_some hk).1, ?_⟩
        intro d hd
        obtain ⟨r, hr, rfl⟩ := List.mem_map.1 hd
        obtain ⟨i, hi, rfl⟩ := List.mem_mapIdx.1 hr
        have hdraw : ((data.blocks.map (blockRecord host.algebra k))[i]).k.draw = k.draw := by
          rw [List.getElem_map, blockRecord]
        exact ⟨hdraw, (Nat.lt_succ_self k.draw).trans_eq ht.symm⟩
  | _ => cases hc

/-- The draws in what a returning `broadcast_si` releases are those of the record. -/
theorem released_perform (c : Call) (s : Node) :
    (released (perform (exec host) c s)).map Prod.fst =
      if Call.isBroadcastSi c ∧ (exec host c s).1.isOk then
        recordDraws s ((Call.txid? c).getD [])
      else [] := by
  cases hr : (exec host c s).1 with
  | error e =>
    simp only [released, perform, hr, Except.isOk, Except.toBool, Bool.false_eq_true, and_false,
      if_false]
    cases c <;> rfl
  | ok out =>
    by_cases hbroadcast : Call.isBroadcastSi c = true
    · cases c with
      | broadcastSi txid sender version partialSigs =>
        have hok : (exec host (.broadcastSi txid sender version partialSigs) s).1.isOk = true := by
          rw [hr]
          rfl
        have hchange := recordChange_of_concerns (s := s) ⟨hok, rfl⟩
        simp only [released, perform]
        generalize exec host (.broadcastSi txid sender version partialSigs) s = result at hchange
        obtain ⟨outcome, t⟩ := result
        cases hchange with
        | @signed data _ _ blocks _ _ _ hdata hchecks hsign =>
          have hlen := hsign.length_eq
          rw [List.length_zip, hchecks.blocks, min_self] at hlen
          simp only [Call.isBroadcastSi, Except.isOk, Except.toBool, Call.txid?, Option.getD_some,
            and_self, if_true]
          apply List.map_fst_zip
          simp only [recordDraws, hdata, Option.elim_some, List.length_map, hlen, le_refl]
      | _ => cases hbroadcast
    · rw [if_neg fun h => hbroadcast h.1]
      cases c with
      | broadcastSi => exact absurd rfl hbroadcast
      | _ => rfl

end OneCall

/-- The nonces in the records are unspent as long as no `broadcast_si` has returned for them. -/
structure NonceInvariant (history : List CallStep) (s : Node) : Prop where
  drawn : ∀ txid, ∀ d ∈ recordDraws s txid, d < s.draws
  single : ∀ txid, ∀ d ∈ recordDraws s txid, ∀ e ∈ recordDraws s txid, d = e
  apart : ∀ txid txid' d, d ∈ recordDraws s txid → d ∈ recordDraws s txid' → txid = txid'
  releasedDrawn : ∀ d ∈ releasedDraws history, d < s.draws
  spent_iff : ∀ txid, ∀ d ∈ recordDraws s txid, d ∈ releasedDraws history ↔ Spent txid history

section Runs
variable {host : Host} {history : List CallStep} {s t : Node}

theorem nonceInvariant_start (h : Fresh s) : NonceInvariant [] s := by
  have hempty : ∀ txid, recordDraws s txid = [] := by
    intro txid
    rw [recordDraws, h]
    rfl
  have hnone : ∀ txid d, d ∉ recordDraws s txid := by
    intro txid d
    rw [hempty]
    exact List.not_mem_nil
  exact ⟨fun txid d hd => absurd hd (hnone txid d), fun txid d hd => absurd hd (hnone txid d),
    fun txid _ d hd => absurd hd (hnone txid d), fun d hd => absurd hd List.not_mem_nil,
    fun txid d hd => absurd hd (hnone txid d)⟩

theorem nonceInvariant_other (h : NonceInvariant history s) (hother : Elsewhere s t) :
    NonceInvariant history t := by
  have hrecord : ∀ txid, recordDraws t txid = recordDraws s txid := by
    intro txid
    rw [recordDraws, hother.1, recordDraws]
  refine ⟨?_, ?_, ?_, ?_, ?_⟩
  · intro txid d hd
    rw [hrecord] at hd
    exact (h.drawn txid d hd).trans_le hother.2
  · intro txid
    rw [hrecord]
    exact h.single txid
  · intro txid txid' d hd hd'
    rw [hrecord] at hd hd'
    exact h.apart txid txid' d hd hd'
  · exact fun d hd => (h.releasedDrawn d hd).trans_le hother.2
  · intro txid
    rw [hrecord]
    exact h.spent_iff txid

/-- A successful `eddsa_sign_offline` replaces the nonce of one transaction by a fresh one. -/
private theorem nonceInvariant_signOffline (h : NonceInvariant history s) {c : Call}
    {txid : ByteString} (hc : Concerns txid (perform (exec host) c s))
    (hcall : Call.isSignOffline c = true) :
    NonceInvariant (perform (exec host) c s :: history) (exec host c s).2 := by
  have hnone : releasedDraws (perform (exec host) c s :: history) = releasedDraws history := by
    rw [releasedDraws_cons, released_perform]
    cases c with
    | eddsaSignOffline => rfl
    | _ => cases hcall
  have hdraws : s.draws ≤ (exec host c s).2.draws := draws_le_exec c s
  have hkept : ∀ txid', txid' ≠ txid →
      ¬ Concerns txid' (perform (exec host) c s) := fun txid' hne hc' =>
    hne (Option.some.inj (hc'.2.symm.trans hc.2))
  obtain ⟨n, hn, hnew⟩ := recordDraws_of_signOffline hc hcall
  have hold : ∀ txid', txid' ≠ txid → ∀ d ∈ recordDraws (exec host c s).2 txid',
      d ∈ recordDraws s txid' := by
    intro txid' hne d hd
    rwa [recordDraws_of_not_concerns (hkept txid' hne)] at hd
  refine ⟨?_, ?_, ?_, ?_, ?_⟩
  · intro txid' d hd
    by_cases hne : txid' = txid
    · obtain ⟨rfl, hlt⟩ := hnew d (hne ▸ hd)
      exact hlt
    · exact (h.drawn txid' d (hold txid' hne d hd)).trans_le hdraws
  · intro txid' d hd e he
    by_cases hne : txid' = txid
    · subst hne
      rw [(hnew d hd).1, (hnew e he).1]
    · exact h.single txid' d (hold txid' hne d hd) e (hold txid' hne e he)
  · intro txid₁ txid₂ d hd₁ hd₂
    by_cases h₁ : txid₁ = txid
    · by_cases h₂ : txid₂ = txid
      · rw [h₁, h₂]
      · have hlt := h.drawn txid₂ d (hold txid₂ h₂ d hd₂)
        obtain ⟨rfl, -⟩ := hnew d (h₁ ▸ hd₁)
        omega
    · by_cases h₂ : txid₂ = txid
      · have hlt := h.drawn txid₁ d (hold txid₁ h₁ d hd₁)
        obtain ⟨rfl, -⟩ := hnew d (h₂ ▸ hd₂)
        omega
      · exact h.apart txid₁ txid₂ d (hold txid₁ h₁ d hd₁) (hold txid₂ h₂ d hd₂)
  · intro d hd
    rw [hnone] at hd
    exact (h.releasedDrawn d hd).trans_le hdraws
  · intro txid' d hd
    rw [hnone]
    by_cases hne : txid' = txid
    · subst hne
      obtain ⟨rfl, -⟩ := hnew d hd
      have hunspent : ¬ Spent txid' (perform (exec host) c s :: history) := by
        rw [Spent, phase_cons_of_signOffline hc hcall]
        simp
      have hfresh : d ∉ releasedDraws history := fun hmem => by
        have := h.releasedDrawn d hmem
        omega
      exact iff_of_false hfresh hunspent
    · rw [h.spent_iff txid' d (hold txid' hne d hd), Spent, Spent,
        phase_cons_of_not_concerns (hkept txid' hne)]

/-- Every other call spends at most the nonce of its own transaction. -/
private theorem nonceInvariant_call (h : NonceInvariant history s) {c : Call}
    (hcall : ∀ txid, Concerns txid (perform (exec host) c s) → Call.isSignOffline c = false) :
    NonceInvariant (perform (exec host) c s :: history) (exec host c s).2 := by
  have hdraws : s.draws ≤ (exec host c s).2.draws := draws_le_exec c s
  have hold : ∀ txid, ∀ d ∈ recordDraws (exec host c s).2 txid, d ∈ recordDraws s txid := by
    intro txid d hd
    by_cases hc : Concerns txid (perform (exec host) c s)
    · rcases recordDraws_of_concerns hc (hcall txid hc) with heq | heq
      · rwa [heq] at hd
      · rw [heq] at hd
        cases hd
    · rwa [recordDraws_of_not_concerns hc] at hd
  refine ⟨?_, ?_, ?_, ?_, ?_⟩
  · exact fun txid d hd => (h.drawn txid d (hold txid d hd)).trans_le hdraws
  · exact fun txid d hd e he => h.single txid d (hold txid d hd) e (hold txid e he)
  · exact fun txid txid' d hd hd' => h.apart txid txid' d (hold txid d hd) (hold txid' d hd')
  · intro d hd
    rw [releasedDraws_cons, List.mem_append, released_perform] at hd
    rcases hd with hnew | hearlier
    · split at hnew
      · exact (h.drawn _ d hnew).trans_le hdraws
      · cases hnew
    · exact (h.releasedDrawn d hearlier).trans_le hdraws
  · intro txid d hd
    have hmem := hold txid d hd
    rw [releasedDraws_cons, List.mem_append, released_perform, h.spent_iff txid d hmem]
    by_cases hc : Concerns txid (perform (exec host) c s)
    · rw [spent_cons_iff (hcall txid hc)]
      refine or_congr_left ?_
      have hid : Call.txid? c = some txid := hc.2
      have hok : (exec host c s).1.isOk = true := hc.1
      rw [hid, Option.getD_some, hok]
      split
      · rename_i hbroadcast
        exact iff_of_true hmem ⟨hc, hbroadcast.1⟩
      · rename_i hbroadcast
        exact iff_of_false List.not_mem_nil fun hs => hbroadcast ⟨hs.2, rfl⟩
    · have hphase : Spent txid (perform (exec host) c s :: history) ↔ Spent txid history := by
        rw [Spent, Spent, phase_cons_of_not_concerns hc]
      rw [hphase]
      refine or_iff_right fun hnew => ?_
      split at hnew
      · rename_i hbroadcast
        have hid : Call.txid? c ≠ none := by
          intro hnone
          cases c with
          | broadcastSi => cases hnone
          | _ => cases hbroadcast.1
        obtain ⟨txid', hid⟩ := Option.ne_none_iff_exists'.1 hid
        rw [hid, Option.getD_some] at hnew
        obtain rfl := h.apart txid txid' d hmem hnew
        exact hc ⟨hbroadcast.2, hid⟩
      · cases hnew

theorem nonceInvariant_step (h : NonceInvariant history s) (c : Call) :
    NonceInvariant (perform (exec host) c s :: history) (exec host c s).2 := by
  by_cases hcall : ∃ txid, Concerns txid (perform (exec host) c s) ∧ Call.isSignOffline c = true
  · obtain ⟨txid, hc, hcall⟩ := hcall
    exact nonceInvariant_signOffline h hc hcall
  · refine nonceInvariant_call h fun txid hc => ?_
    exact Bool.eq_false_iff.2 fun hoffline => hcall ⟨txid, hc, hoffline⟩

theorem nonceInvariant_of_run (h : ServerRun host history s) : NonceInvariant history s :=
  h.invariant (fun _ => nonceInvariant_start) (fun _ _ _ => nonceInvariant_other)
    fun _ _ c hI => nonceInvariant_step hI c

/-- One more call releases no nonce again exactly when it is a disciplined one. -/
theorem releasedDraws_nodup_cons_iff (h : NonceInvariant history s) (c : Call) :
    NoncesUsedOnce (perform (exec host) c s :: history) ↔
      ReleasesOnce history (perform (exec host) c s) ∧ NoncesUsedOnce history := by
  rw [NoncesUsedOnce, releasedDraws_cons, released_perform]
  cases c with
  | broadcastSi txid sender version partialSigs =>
    simp only [Call.isBroadcastSi, true_and, Call.txid?, Option.getD_some, ReleasesOnce, perform]
    by_cases hok : (exec host (.broadcastSi txid sender version partialSigs) s).1.isOk = true
    · rw [if_pos hok]
      cases hrecord : recordDraws s txid with
      | nil => simp [hok, NoncesUsedOnce]
      | cons d rest =>
        have hmem : d ∈ recordDraws s txid := by rw [hrecord]; exact List.mem_cons_self
        have hspent := h.spent_iff txid d hmem
        have hsame : ∀ e ∈ rest, e = d := fun e he =>
          h.single txid e (by rw [hrecord]; exact List.mem_cons_of_mem d he) d hmem
        cases rest with
        | nil =>
          simp only [hok, List.cons_append, List.nil_append, List.nodup_cons, hspent,
            reduceCtorEq, List.length_singleton, true_and, false_or, forall_const,
            NoncesUsedOnce]
        | cons e rest =>
          obtain rfl := hsame e List.mem_cons_self
          simp [hok]
    · rw [if_neg hok]
      simp only [hok, Bool.false_eq_true, false_implies, true_and, List.nil_append,
        NoncesUsedOnce]
  | _ => simp [Call.isBroadcastSi, ReleasesOnce, perform, NoncesUsedOnce]

/-- Over every run no server nonce enters two released signatures exactly when every returning
`broadcast_si` signs one block and is the first for its nonce. -/
theorem noncesUsedOnce_iff (h : ServerRun host history s) :
    NoncesUsedOnce history ↔ EveryStep ReleasesOnce history := by
  induction h with
  | start hs => exact iff_of_true List.nodup_nil trivial
  | other _ _ ih => exact ih
  | call c hrun ih =>
    rw [releasedDraws_nodup_cons_iff (nonceInvariant_of_run hrun) c, ih]
    rfl

end Runs

theorem noncesUsedOnce_iff_concreteRun :
    NoncesUsedOnce (concreteRun [concreteSignOffline [0], concretePresigning]).1 ↔
      EveryStep ReleasesOnce (concreteRun [concreteSignOffline [0], concretePresigning]).1 :=
  noncesUsedOnce_iff (serverRun_concreteRun _)

/-- The same `broadcast_si` call made twice: nonce 0 enters two signatures with different
challenges. -/
def repeatedBroadcastSi : List Call :=
  [.broadcastSi [0] 1 0 concretePartialSigs, .broadcastSi [0] 1 0 concretePartialSigs,
    concreteSignOffline [0], concretePresigning]

theorem noncesUsedOnce_fails :
    ∃ history s, ServerRun (concreteHost 2) history s ∧ ¬ NoncesUsedOnce history ∧
      ∃ draw sig sig', history.flatMap released = [(draw, sig'), (draw, sig)] ∧ sig.s ≠ sig'.s ∧
        ed25519CalcHram prefixHash sig.R (concretePoint 6) [1] false ≠
          ed25519CalcHram prefixHash sig'.R (concretePoint 6) [1] false := by
  refine ⟨(concreteRun repeatedBroadcastSi).1, (concreteRun repeatedBroadcastSi).2,
    serverRun_concreteRun _, by decide +kernel, 0, ⟨concretePoint 14, beBytes 32
      7237005577332262213973186563042994234642837177248500413971116873127516988596⟩,
    ⟨concretePoint 23, beBytes 32
      7237005577332262213973186563042994234642837177248500413971116873127516988614⟩,
    by decide +kernel, by decide +kernel, by decide +kernel⟩

end MpcDemo.ServerNonceUse
