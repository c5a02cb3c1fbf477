import MpcDemo.NodeTriples

/-!
# The client's nonces

The client node's main program against a relay that answers anything. The store never gives up
a nonce by itself, but every session draws new nonces before it signs, and signs once. So no
draw is behind two shares that the client broadcasts.
-/

namespace MpcDemo.ClientNonceUse
open ByteStrings Ed25519Algebra CosignerTypes AsymmetricEddsaCosigner FallibleState Persistencies
open NodeState Processes NodePrograms SigningOrchestrator NodeMain NetworkManager ClientOperationLaws
open NodeTriples AsymmetricEddsaCosignerClient

/-- The draws behind the shares that were broadcast, the latest first. -/
def broadcastDraws : List Event → List ℕ
  | [] => []
  | .broadcastShares _ draws :: journal => draws ++ broadcastDraws journal
  | _ :: journal => broadcastDraws journal

/-- No draw was used twice, and no used draw is still to come. -/
structure NonceInvariant (s : Node) : Prop where
  nodup : (broadcastDraws s.journal).Nodup
  drawn : ∀ d ∈ broadcastDraws s.journal, d < s.draws

/-- The nonce to sign with comes from a draw that was not used. -/
structure FreshNonce (s : Node) : Prop extends NonceInvariant s where
  fresh : ∀ k, s.client.storedNonces configKeyId 0 = some k →
    k.draw < s.draws ∧ k.draw ∉ broadcastDraws s.journal

theorem NonceInvariant.silent (s t : Node) (hst : Silent s t) (h : NonceInvariant s) :
    NonceInvariant t := by
  refine ⟨by rw [hst.1]; exact h.nodup, fun d hd => ?_⟩
  rw [hst.1] at hd
  exact (h.drawn d hd).trans_le hst.2

variable {possible : ByteString → ℕ → PlayerMap ByteString → Prop} {host : Host}

/-- The preprocessing replaces the nonces, and a draw that was used is never drawn again. -/
theorem triple_fresh_preprocessing (requestId : ByteString) :
    Triple possible NonceInvariant NonceInvariant
      (PreprocessingOrchestrator.run host 1 requestId) fun _ => FreshNonce := by
  rw [PreprocessingOrchestrator.run, if_pos rfl]
  refine Triple.bind (Q := fun _ => FreshNonce) (.lift (fun s hs RCommitments t ht => ?_)
    fun s hs e t ht => ?_) fun RCommitments => .post (fun _ h => h.toNonceInvariant) _ _
  · have hsilent := silent_of_onlyClient
      ((keeps_startSignaturePreprocessing _ _ _ _ _ _ s).1 RCommitments t ht)
    obtain ⟨-, hdraws, hstored⟩ := startSignaturePreprocessing_ok ht
    obtain ⟨v, -, hnonce, -⟩ := hstored 0 (by decide)
    have hI := hs.silent s t hsilent
    refine ⟨hI, hI, fun k hk => ?_⟩
    obtain rfl : drawnNonce (s.draws + 0) v = k := Option.some.inj (hnonce.symm.trans hk)
    have hcount : 0 < preprocessingCount := by decide
    refine ⟨?_, fun hmem => ?_⟩
    · rw [hdraws]
      exact Nat.add_lt_add_left hcount s.draws
    · rw [hsilent.1] at hmem
      exact lt_irrefl _ (hs.drawn _ hmem)
  · exact hs.silent s t (silent_of_onlyClient
      ((keeps_startSignaturePreprocessing _ _ _ _ _ _ s).2 e t ht))

section Signing

private theorem draw_of_signBlock {E : Ed25519} {H : HashFunctions} {metadata : CmpKeyMetadata}
    {key : Ed25519Scalar} {chaincode : HDChaincode} {signers flags : ℕ} {block : SigningBlockData}
    {k : DrawnScalar} {serversR : EllipticCurvePoint} {sig : PartialSignature}
    (h : signBlock E H metadata key chaincode signers flags block k serversR = .ok sig) :
    sig.draw = k.draw := by
  simp only [signBlock, except_bind_ok_iff] at h
  obtain ⟨sigR, -, R, -, d, -, hram, -, x, -, s, -, hsig⟩ := h
  cases hsig
  rfl

/-- The shares of a one-block message: at most one, under the nonce at the index. -/
private theorem draws_of_signOffline {txid message : ByteString} {Rs : PlayerMap RsAndCommitments}
    {s t : Node} {sigs : List PartialSignature}
    (h : (eddsaSignOffline host.client configKeyId txid (signData message) metadataJson playersStr
      playersIds 0 Rs).run s = .ok sigs t) :
    t = s ∧ (sigs = [] ∨ ∃ k, s.client.storedNonces configKeyId 0 = some k ∧
      sigs.map (·.draw) = [k.draw]) := by
  obtain ⟨metadata, key, first, -, rfl, hsigs⟩ := eddsaSignOffline_ok_iff.1 h
  refine ⟨rfl, ?_⟩
  cases first with
  | nil =>
    left
    exact List.forall₂_nil_left_iff.1 hsigs
  | cons R first =>
    right
    obtain ⟨sig, rest, ⟨k, hk, hsig⟩, hrest, rfl⟩ := List.forall₂_cons_left_iff.1 hsigs
    rw [List.zipWith_nil_right] at hrest
    obtain rfl := List.forall₂_nil_left_iff.1 hrest
    exact ⟨k, hk, by rw [List.map_cons, draw_of_signBlock hsig]; rfl⟩

/-- The shares about to be sent are under at most one nonce, which was not used before. -/
def Unsent (sigs : List PartialSignature) (s : Node) : Prop :=
  NonceInvariant s ∧ (sigs = [] ∨ ∃ d, sigs.map (·.draw) = [d] ∧ d < s.draws ∧
    d ∉ broadcastDraws s.journal)

/-- The one place where shares leave the client. -/
theorem triple_sendPartialSigs (txid message : ByteString) (serverRs : PlayerMap RsAndCommitments) :
    Triple possible NonceInvariant FreshNonce (sendPartialSigs host txid message serverRs)
      fun _ => NonceInvariant := by
  refine Triple.bind (Q := Unsent) (.lift (fun s hs sigs t ht => ?_) fun s hs e t ht => ?_)
    fun sigs => Triple.bind (Q := fun _ => NonceInvariant) (triple_note fun s hs => ?_) fun _ =>
      .post (fun _ h => h) _ _
  · obtain ⟨rfl, hsigs⟩ := draws_of_signOffline ht
    refine ⟨hs.toNonceInvariant, hs.toNonceInvariant, hsigs.imp_right fun h => ?_⟩
    obtain ⟨k, hk, hdraws⟩ := h
    exact ⟨k.draw, hdraws, hs.fresh k hk⟩
  · have hkeeps := (keeps_eddsaSignOffline s).2 e t ht
    rw [hkeeps]
    exact hs.toNonceInvariant
  · have hI : NonceInvariant { s with
        journal := .broadcastShares txid (sigs.map (·.draw)) :: s.journal } := by
      obtain ⟨hI, rfl | ⟨d, hdraws, hlt, hnew⟩⟩ := hs
      · exact ⟨hI.nodup, hI.drawn⟩
      · rw [hdraws]
        refine ⟨List.nodup_cons.2 ⟨hnew, hI.nodup⟩, fun d' hd' => ?_⟩
        rcases List.mem_cons.1 hd' with rfl | hd'
        · exact hlt
        · exact hI.drawn d' hd'
    exact ⟨hI, hI⟩

theorem triple_flow (txid message : ByteString) :
    Triple possible NonceInvariant FreshNonce (flow host 1 txid message)
      fun _ => NonceInvariant := by
  rw [flow, if_pos rfl]
  refine (triple_awaitServerRs (fun _ h => h.toNonceInvariant) txid).bind fun serverRs =>
    (triple_sendPartialSigs txid message serverRs).bind fun _ => ?_
  exact (Triple.skip (fun _ h => h) _ _).bind fun _ => (triple_decode (fun _ h => h) _).bind
    fun _ => triple_note fun s hs => ⟨⟨hs.nodup, hs.drawn⟩, hs.nodup, hs.drawn⟩

theorem triple_signing (session : Session) :
    Triple possible NonceInvariant FreshNonce (signing host 1 session) fun _ => NonceInvariant := by
  have hI : ∀ s, FreshNonce s → NonceInvariant s := fun _ h => h.toNonceInvariant
  cases session with
  | direct txid message => exact triple_flow txid message
  | menu txid started =>
    cases started with
    | false => exact .pure hI hI
    | true =>
      exact (Triple.post hI _ _).bind fun _ => (Triple.skip hI _ _).bind fun _ =>
        triple_catching (triple_flow txid demoMessage) fun s failure hs =>
          ⟨⟨hs.nodup, hs.drawn⟩, hs.nodup, hs.drawn⟩

end Signing

theorem triple_runSessions (sessions : List Session) :
    Triple possible NonceInvariant NonceInvariant (runSessions host 1 sessions)
      fun _ => NonceInvariant := by
  induction sessions with
  | nil => exact .pure (fun _ h => h) fun _ h => h
  | cons session sessions ih =>
    exact ((triple_fresh_preprocessing session.txid).bind fun _ => triple_signing session).bind
      fun _ => ih

/-- Whatever sessions the client runs and whatever the relay answers, no draw is behind two of
the shares that it broadcasts. -/
theorem clientNonces_usedOnce (host : Host) (sessions : List Session)
    (responses : List ByteString) : (broadcastDraws ((main host 1 sessions Node.initial).replay
      (awaitResponse totalPlayers) responses).state.journal).Nodup := by
  have hmain : Triple (fun _ _ _ => True) NonceInvariant NonceInvariant (main host 1 sessions)
      fun _ => NonceInvariant :=
    (triple_keygen NonceInvariant.silent).bind fun _ => triple_runSessions sessions
  have hinitial : NonceInvariant Node.initial := ⟨List.nodup_nil, fun d hd => by cases hd⟩
  exact (hmain.replay hinitial responses).1.nodup

end MpcDemo.ClientNonceUse
