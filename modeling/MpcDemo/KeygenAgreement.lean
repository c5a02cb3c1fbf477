import MpcDemo.HonestRounds
import MpcDemo.NodeRuns

/-!
# The key that the nodes generate

A node that completes key generation has read the shares of all three players from the relay, and
the public key that it stores is the sum of them. Everybody reads the same shares.
-/

namespace MpcDemo.KeygenAgreement
open ByteStrings Ed25519Algebra CosignerTypes Persistencies NodeState Processes RelayProtocols
open Serialization NodePrograms SetupService SetupServiceLaws ServerOperationLaws ThreeNodes
open NodeFrames NodeRuns HonestRounds

variable {D : Deployment} {S : SessionRules}

/-- What a player has revealed shows the key that it stores. -/
def KeyShown (E : Ed25519) (i : ℕ) (w : World) (s : Node) : Prop :=
  ∀ data, Posted w (Round.name .keygenReveal) i data → ∃ key d,
    s.keys.keys configKeyId = some key ∧ data = serializeDecommitment d ∧
      Shows E d (beValue key.val • E.base)

/-- A player in its key generation, with nothing posted for a session. -/
structure Generating (E : Ed25519) (S : SessionRules) (i : ℕ) (w : World) (s : Node) : Prop where
  ahead : Ahead E S i OfKeygen (fun r => ¬ OfKeygen r) 2 w
  shown : KeyShown E i w s
  journal : s.journal = []

/-- A player stores its share and the key that all players share. -/
structure HoldsKey (E : Ed25519) (i : ℕ) (key : Ed25519Scalar) (X : ℕ → E.Point) (w : World)
    (s : Node) : Prop where
  loadsKey : s.keys.keys configKeyId = some key
  own : X i = beValue key.val • E.base
  shares : ∀ j ∈ playersIds, Share E w j (X j)
  loadsMetadata : s.keys.metas configKeyId = some (sharedKey E X)

theorem HoldsKey.grows {E : Ed25519} {i : ℕ} {key : Ed25519Scalar} {X : ℕ → E.Point}
    {w v : World} {s : Node} (h : HoldsKey E i key X w s) (hv : Grows w v) :
    HoldsKey E i key X v s :=
  ⟨h.loadsKey, h.own, fun j hj => (h.shares j hj).grows hv, h.loadsMetadata⟩

theorem generating_undisturbed (E : Ed25519) (S : SessionRules) (i : ℕ) :
    Undisturbed E S i (Generating E S i) :=
  fun _ _ _ hv h => ⟨h.ahead.others hv, fun data hdata => h.shown data (hv.own _ _ hdata), h.journal⟩

private theorem shown_of_fresh {E : Ed25519} {i : ℕ} {w : World}
    (h : ¬ (nodes E S).Sent w .keygenReveal i) (s : Node) : KeyShown E i w s :=
  fun data hdata => absurd ⟨data, hdata⟩ h

/-- Key generation ends with the key of all players, and fails only for want of randomness. -/
theorem safe_keygen (i : Player) {A : World → Node → Prop}
    (hA : ∀ w s, Generating D.algebra S i w s → A w s) {w : World}
    (hw : Ahead D.algebra S i OfKeygen (fun r => ¬ OfKeygen r) 0 w) :
    Safe ((nodes D.algebra S).environment i) A
      (fun v r s => Generating D.algebra S i v s ∧
        (∀ u, r = .ok u → ∃ key X, HoldsKey D.algebra i key X v s) ∧
        ∀ e, r = .error e → ¬ (D.tape i).Works)
      (KeygenOrchestrator.run (D.host i) Node.initial) w := by
  have hundisturbed := generating_undisturbed D.algebra S i
  have hunsent : ¬ (nodes D.algebra S).Sent w .keygenReveal i :=
    hw.fresh _ (Or.inr ⟨Or.inr rfl, Nat.zero_le _⟩)
  have hmine : i.val ∈ ({1, 2, 3} : Finset ℕ) := i.2
  refine Safe.weaken (A := Generating D.algebra S i) ?_ hA
  rw [keygen_eq]
  refine safe_lift_bind (fun c t hrun => ?_) fun e t hrun => ?_
  · obtain ⟨key, data, aux, hown, -, ht⟩ := generateSetupCommitments_ok hrun
    have hjournal : t.journal = [] := by
      rw [ht]
      rfl
    have hstart : Generating D.algebra S i w t :=
      ⟨hw.mono (by decide), shown_of_fresh hunsent t, hjournal⟩
    refine @safe_post_next _ _ i 0 OfKeygen (fun r => ¬ OfKeygen r) w t Unit _ _ .keygenCommit
      hundisturbed hstart hw le_rfl (Or.inl rfl) (fun h => h (Or.inl rfl)) hmine _ ⟨c, rfl⟩ _
      fun v₁ hv₁ hahead₁ => ?_
    have hunsent₁ : ¬ (nodes D.algebra S).Sent v₁ .keygenReveal i :=
      hahead₁.fresh _ (Or.inr ⟨Or.inr rfl, le_rfl⟩)
    refine @safe_await_next _ _ i 1 OfKeygen (fun r => ¬ OfKeygen r) v₁ t Unit _ _ .keygenCommit
      hundisturbed ⟨hahead₁.mono (by decide), shown_of_fresh hunsent₁ t, hjournal⟩ hahead₁ _ rfl _
      fun v₂ a hv₂ hahead₂ hgenerating₂ ha => ?_
    obtain ⟨comm, hposted, hentries⟩ := exists_messages (r := .keygenCommit)
      (fun _ => serializeCommitment)
      (fun _ _ => True) hahead₂.legal ha fun j data h => by
        obtain ⟨c, rfl⟩ := h
        exact ⟨c, rfl, trivial⟩
    have hc : comm i = c := by
      have heq := @Protocol.Legal.posted_unique v₂ i _ _ (nodes D.algebra S) .keygenCommit
        hahead₂.legal (hposted i i.2).1 (hv₂.grows _ _ _ hv₁.posted)
      have hdecode := deserialize_serializeCommitment (comm i)
      rw [heq, deserialize_serializeCommitment] at hdecode
      exact (Except.ok.inj hdecode).symm
    obtain ⟨ack, hreveal⟩ := run_reveal i.2 hown hc hentries
    rw [hreveal]
    have hshows : Shows D.algebra (decommitmentOf D.algebra aux data ack)
        (beValue key.val • D.algebra.base) :=
      ⟨⟨aux.paillier_lt, aux.ringPedersen_lt⟩, hown.publicKey⟩
    refine @safe_post_next _ _ i 1 OfKeygen (fun r => ¬ OfKeygen r) v₂ (withCommitments comm t)
      Unit _ _ .keygenReveal
      hundisturbed ⟨hgenerating₂.ahead, hgenerating₂.shown, hjournal⟩ hahead₂ le_rfl (Or.inr rfl)
      (fun h => h (Or.inr rfl)) hmine _
      ⟨fun j hj => ⟨_, (hposted j hj).1⟩, _, _, rfl, hshows⟩ _ fun v₃ hv₃ hahead₃ => ?_
    have hshown₃ : ∀ u, (nodes D.algebra S).Others i v₃ u →
        ∀ t' : Node, t'.keys.keys configKeyId = some key → KeyShown D.algebra i u t' := by
      intro u hu t' ht' data' hdata'
      refine ⟨key, _, ht', ?_, hshows⟩
      rcases hv₃.own .keygenReveal data' (hu.own _ _ hdata') with hold | ⟨-, hnew⟩
      · exact absurd ⟨data', hold⟩ (hahead₂.fresh _ (Or.inr ⟨Or.inr rfl, le_rfl⟩))
      · exact hnew
    have hrefl := ((nodes D.algebra S).environment i).rely_refl v₃
    refine @safe_await_next _ _ i 2 OfKeygen (fun r => ¬ OfKeygen r) v₃ (withCommitments comm t)
      Unit _ _ .keygenReveal
      hundisturbed ⟨hahead₃, hshown₃ v₃ hrefl _ hown.loadsKey, hjournal⟩ hahead₃ _ rfl _
      fun v₄ b hv₄ hahead₄ _ hb => ?_
    obtain ⟨d, hposted', hentries'⟩ := exists_messages (r := .keygenReveal)
      (fun _ => serializeDecommitment)
      (fun _ d => ∃ X, Shows D.algebra d X) hahead₄.legal hb fun j data h => by
        obtain ⟨-, d, x, rfl, hX⟩ := h
        exact ⟨d, rfl, _, hX⟩
    have hpoint : ∀ j, ∃ X, j ∈ playersIds → Shows D.algebra (d j) X := by
      intro j
      by_cases hj : j ∈ playersIds
      · obtain ⟨X, hX⟩ := (hposted' j hj).2
        exact ⟨X, fun _ => hX⟩
      · exact ⟨0, fun h => absurd h hj⟩
    choose X hX using hpoint
    have hshares : ∀ j ∈ playersIds, Share D.algebra v₄ j (X j) :=
      fun j hj => ⟨d j, (hposted' j hj).1, hX j hj⟩
    rw [run_combine (fun j hj => (hX j hj).share)
      (fun j hj => ⟨(hX j hj).sized.paillier, (hX j hj).sized.ringPedersen⟩) hentries']
    intro u hu
    have hgenerating : Generating D.algebra S i u (withKey D.algebra X (withCommitments comm t)) :=
      ⟨hahead₄.others hu, hshown₃ u (((nodes D.algebra S).environment i).rely_trans _ _ _ hv₄ hu)
        _ hown.loadsKey, hjournal⟩
    refine ⟨hgenerating, hgenerating, fun _ _ => ⟨key, X, hown.loadsKey, ?_, fun j hj =>
      (hshares j hj).grows hu.grows, withKey_metas _ _ _⟩,
      fun e he => by cases he⟩
    have hmine₄ : Share D.algebra v₄ i (beValue key.val • D.algebra.base) :=
      ⟨_, hv₄.grows _ _ _ hv₃.posted, hshows⟩
    exact (hshares i i.2).unique hahead₄.legal hmine₄
  · have ht := generateSetupCommitments_failsKeeping Node.initial e t hrun
    intro v hv
    have hgenerating : Generating D.algebra S i v t := by
      refine hundisturbed w v t hv ⟨hw.mono (by decide), shown_of_fresh hunsent t, ?_⟩
      rw [ht.2]
      rfl
    refine ⟨hgenerating, hgenerating, fun u hu => (by cases hu), fun e' _ hworks => ?_⟩
    obtain ⟨c, t', hok⟩ := @exists_generateSetupCommitments (D.host i) Node.initial hworks
      (by change i.val ∈ [1, 2, 3]; simpa using hmine) rfl
    rw [hrun] at hok
    cases hok

theorem sharedKey_congr {E : Ed25519} {X Y : ℕ → E.Point} (h : ∀ j ∈ playersIds, X j = Y j) :
    sharedKey E X = sharedKey E Y := by
  have htable : (PlayerTables.table playersIds fun j =>
      (⟨Ed25519Point.generic (E.encode (X j))⟩ : CmpPlayerInfo)) =
      PlayerTables.table playersIds fun j => ⟨Ed25519Point.generic (E.encode (Y j))⟩ :=
    PlayerTables.table_congr fun j hj => by rw [h j hj]
  rw [sharedKey, sharedKey, Finset.sum_congr rfl h, htable]

/-- What a player has revealed is the public share of the key that it stores. -/
theorem KeyShown.eq_smul {E : Ed25519} {w : World} {i : ℕ} {s : Node} {X : E.Point}
    (h : KeyShown E i w s) (hX : Share E w i X) :
    ∃ key, s.keys.keys configKeyId = some key ∧ X = beValue key.val • E.base := by
  obtain ⟨d, hd, hshows⟩ := hX
  obtain ⟨key, d', hkey, hdata, hshows'⟩ := h _ hd
  have hdecode := hshows.decode
  rw [hdata, hshows'.decode] at hdecode
  rw [Except.ok.inj hdecode] at hshows'
  exact ⟨key, hkey, hshows.unique hshows'⟩

/-- Every node in key generation, in any interleaving. -/
theorem allSafe_keygen {c : Configuration}
    (hc : Reached (fun i => KeygenOrchestrator.run (D.host i)) c) :
    AllSafe (fun i : Player => (nodes D.algebra plainRules).environment i)
      (fun i => Generating D.algebra plainRules i)
      (fun i v r s => Generating D.algebra plainRules i v s ∧
        (∀ u, r = .ok u → ∃ key X, HoldsKey D.algebra i key X v s) ∧
        ∀ e, r = .error e → ¬ (D.tape i).Works)
      (nodes D.algebra plainRules).Legal c := by
  refine Protocol.allSafe_reachable Subtype.val_injective
    ⟨Protocol.legal_start, fun i => ?_⟩ (hc.reachable (fun _ => rfl) fun _ => rfl)
  refine safe_keygen i (fun _ _ h => h) ⟨Protocol.legal_start, fun r _ hsent => ?_⟩
  obtain ⟨data, hdata⟩ := hsent
  exact absurd hdata List.not_mem_nil

theorem keygen_agrees {c : Configuration}
    (hc : Reached (fun i => KeygenOrchestrator.run (D.host i)) c) :
    (∀ i j s t, c.procs i = .done (.ok ()) s → c.procs j = .done (.ok ()) t →
      s.keys.metas configKeyId = t.keys.metas configKeyId) ∧
    ∀ i s, c.procs i = .done (.ok ()) s → ∃ (x : ℕ → Ed25519Scalar) (m : CmpKeyMetadata),
      (∀ k : Player, (c.procs k).state.keys.keys configKeyId = some (x k)) ∧
      s.keys.metas configKeyId = some m ∧ (∀ k, k ∈ m.playersInfo ↔ k ∈ playersIds) ∧
      (∀ k ∈ playersIds, m.playersInfo[k]? =
        some ⟨Ed25519Point.generic (D.algebra.encode (beValue (x k).val • D.algebra.base))⟩) ∧
      m.publicKey = Ed25519Point.generic
        (D.algebra.encode ((∑ k ∈ playersIds, beValue (x k).val) • D.algebra.base)) := by
  obtain ⟨hlegal, hsafe⟩ := allSafe_keygen hc
  have hholds : ∀ i s, c.procs i = .done (.ok ()) s →
      ∃ key X, HoldsKey D.algebra i key X c.world s := by
    intro i s hi
    have h := hsafe i
    rw [hi] at h
    exact (h c.world (((nodes D.algebra plainRules).environment i).rely_refl _)).2.2.1 () rfl
  refine ⟨fun i j s t hi hj => ?_, fun i s hi => ?_⟩
  · obtain ⟨_, X, hX⟩ := hholds i s hi
    obtain ⟨_, Y, hY⟩ := hholds j t hj
    rw [hX.loadsMetadata, hY.loadsMetadata, sharedKey_congr fun k hk =>
      (hX.shares k hk).unique hlegal (hY.shares k hk)]
  · obtain ⟨_, X, hX⟩ := hholds i s hi
    have hkey : ∀ k, ∃ key : Ed25519Scalar, ∀ hk : k ∈ playersIds,
        (c.procs ⟨k, hk⟩).state.keys.keys configKeyId = some key ∧
          X k = beValue key.val • D.algebra.base := by
      intro k
      by_cases hk : k ∈ playersIds
      · obtain ⟨key, hkey⟩ := (hsafe ⟨k, hk⟩).assertion.shown.eq_smul (hX.shares k hk)
        exact ⟨key, fun _ => hkey⟩
      · exact ⟨zeroBytes 32, fun h => absurd h hk⟩
    choose x hx using hkey
    refine ⟨x, sharedKey D.algebra X, fun k => (hx k k.2).1, hX.loadsMetadata,
      fun k => PlayerTables.mem_table, fun k hk => ?_, ?_⟩
    · rw [← (hx k hk).2]
      exact PlayerTables.getElem?_table_of_mem hk
    · rw [Finset.sum_smul, ← Finset.sum_congr rfl fun k hk => (hx k hk).2]
      rfl

section Concrete
open Ed25519Algebra

theorem countingTape_works : countingTape.Works where
  genRandom n := ⟨0, by decide, beBytes 32 ((n + 1) % order), by
    have hlt : (n + 1) % order < order := Nat.mod_lt _ (by decide)
    have hvalue : beValue (countingTape.genRandom (n + 0)).val = (n + 1) % order :=
      beValue_beBytes_mod (n + 1)
    have hmod : (n + 1) % order % 2 ^ 253 = (n + 1) % order :=
      Nat.mod_eq_of_lt (hlt.trans (by decide))
    rw [reduce, hvalue, hmod, if_pos hlt]⟩
  rand _ := ⟨_, rfl⟩
  randBytes _ := ⟨_, rfl⟩
  auxiliaryKeys _ := ⟨_, rfl⟩

def countingDeployment : Deployment := ⟨exponentGroup, prefixHash, fun _ => countingTape⟩

/-- All nodes complete key generation. -/
theorem exists_completed : ∃ (c : Configuration) (s : Player → Node),
    Reached (fun i => KeygenOrchestrator.run (countingDeployment.host i)) c ∧
      ∀ i, c.procs i = .done (.ok ()) (s i) := by
  obtain ⟨c, s, _, hc, -, hprocs, -⟩ := @exists_keygen countingDeployment
    (fun _ => countingTape_works) fun _ => pure ()
  have hprogram : ∀ i, (KeygenOrchestrator.run (countingDeployment.host i) >>= fun _ => pure ()) =
      KeygenOrchestrator.run (countingDeployment.host i) := fun i => Prog.bind_pure _
  rw [funext hprogram] at hc
  exact ⟨c, s, hc, hprocs⟩

theorem keygen_agrees_concrete : ∃ c s t,
    Reached (fun i => KeygenOrchestrator.run (countingDeployment.host i)) c ∧
      c.procs ⟨2, by decide⟩ = .done (.ok ()) s ∧ c.procs ⟨3, by decide⟩ = .done (.ok ()) t ∧
      s.keys.metas configKeyId = t.keys.metas configKeyId ∧
      ∃ (x : ℕ → Ed25519Scalar) (m : CmpKeyMetadata),
        (∀ k : Player, (c.procs k).state.keys.keys configKeyId = some (x k)) ∧
        s.keys.metas configKeyId = some m ∧ m.publicKey = Ed25519Point.generic
          (exponentGroup.encode ((∑ k ∈ playersIds, beValue (x k).val) • exponentGroup.base)) := by
  obtain ⟨c, s, hc, hprocs⟩ := exists_completed
  obtain ⟨hsame, hshared⟩ := keygen_agrees hc
  obtain ⟨x, m, hkeys, hm, -, -, hpublic⟩ := hshared _ _ (hprocs _)
  exact ⟨c, _, _, hc, hprocs _, hprocs _, hsame _ _ _ _ (hprocs _) (hprocs _), x, m, hkeys, hm,
    hpublic⟩

end Concrete

end MpcDemo.KeygenAgreement
