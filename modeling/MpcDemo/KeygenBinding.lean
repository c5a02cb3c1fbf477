import MpcDemo.KeygenOrchestrator
import MpcDemo.SetupServiceLaws

/-!
# What binds the public shares of a key

One node runs key generation against a relay that answers its polls with any text at all. A
run that completes has a commitment of every player and its own decommitment opens its own
commitment; the public shares are those of the reveal round as it was answered. Nothing checks
the other players' openings, and nothing asks for the reveals of all players.
-/

namespace MpcDemo.KeygenBinding
open ByteStrings Ed25519Algebra CosignerTypes FallibleState Persistencies NodeState Processes
open SetupService SetupServiceLaws Serialization NetworkManager NodePrograms KeygenOrchestrator

/-- Where the key generation of a node stands after some responses to its polls. -/
def keygenOn (host : Host) (s : Node) (responses : List ByteString) :
    Proc Failure Node ByteString ByteString (PlayerMap ByteString) Unit :=
  (run host s).replay (awaitResponse totalPlayers) responses

/-- The key metadata is what it was or what the first round stores. -/
def NoFinalMetadata (s t : Node) : Prop :=
  t.keys.metas configKeyId = s.keys.metas configKeyId ∨
    t.keys.metas configKeyId = some (initialMetadata [1, 2, 3] 3)

/-- What a completed run went through. -/
structure Passage (host : Host) (s : Node) (responses : List ByteString) where
  myComm : Commitment
  committed : Node
  r1 : PlayerMap ByteString
  rest : List ByteString
  allComm : PlayerMap Commitment
  myDecomm : SetupDecommitment
  revealed : Node
  r2 : PlayerMap ByteString
  rest' : List ByteString
  allDecomm : PlayerMap SetupDecommitment
  metadata : CmpKeyMetadata
  generates : (generateSetupCommitments host configKeyId [1, 2, 3] 3).run s =
    .ok myComm committed
  commits : firstAnswer (awaitResponse totalPlayers) responses = some (r1, rest)
  decodes : decodeEntries deserializeCommitment (fun _ => true) r1 = .ok allComm
  stores : (storeSetupCommitments host configKeyId allComm).run committed = .ok myDecomm revealed
  reveals : firstAnswer (awaitResponse totalPlayers) rest = some (r2, rest')
  decodes' : decodeEntries deserializeDecommitment (fun _ => true) r2 = .ok allDecomm
  combines : finalMetadata host.algebra allDecomm = .ok metadata

/-- The state a completed run ends in. -/
def Passage.final {host : Host} {s : Node} {responses : List ByteString}
    (p : Passage host s responses) : Node :=
  { p.revealed with keys := p.revealed.keys.storeKeyMetadata configKeyId p.metadata true }

variable {host : Host} {s : Node} {responses : List ByteString}

theorem keygenOn_of_passage (p : Passage host s responses) :
    keygenOn host s responses = .done (.ok ()) p.final := by
  rw [keygenOn, run, replay_lift_bind_ok p.generates]
  simp only [broadcast, awaitData, awaitDataCustomCount]
  rw [replay_post_bind, replay_await_bind p.commits,
    replay_lift_bind_ok (run_ofExcept_ok_iff.2 ⟨p.decodes, rfl⟩), replay_lift_bind_ok p.stores,
    replay_post_bind, replay_await_bind p.reveals,
    replay_lift_bind_ok (run_ofExcept_ok_iff.2 ⟨p.decodes', rfl⟩),
    replay_lift_bind_ok (run_ofExcept_ok_iff.2 ⟨p.combines, rfl⟩)]
  rfl

private theorem run_ofExcept_error {α : Type} {x : Except Failure α} {e : Failure}
    (h : x = .error e) (s : Node) : (ofExcept x : EStateM Failure Node α).run s = .error e s :=
  run_ofExcept_error_iff.2 ⟨h, rfl⟩

private theorem metas_of_onlyDraws {s t : Node} (h : OnlyDraws s t) : t.keys = s.keys := by
  rw [h.2]

/-- A run completes through all its rounds or leaves no final metadata. -/
theorem passage_or_noFinalMetadata (host : Host) (s : Node) (responses : List ByteString) :
    Nonempty (Passage host s responses) ∨
      (∀ t, keygenOn host s responses ≠ .done (.ok ()) t) ∧
        NoFinalMetadata s (keygenOn host s responses).state := by
  rw [keygenOn, run]
  cases hgenerate : (generateSetupCommitments host configKeyId [1, 2, 3] 3).run s with
  | error e t =>
    right
    rw [replay_lift_bind_error hgenerate]
    refine ⟨fun t => nofun, Or.inl ?_⟩
    rw [Proc.state, metas_of_onlyDraws (generateSetupCommitments_failsKeeping s e t hgenerate)]
  | ok myComm u =>
    obtain ⟨key, data, aux, hown, -, -⟩ := generateSetupCommitments_ok hgenerate
    have hinitial : ∀ t : Node, t.keys.metas = u.keys.metas → NoFinalMetadata s t := by
      intro t ht
      right
      rw [ht]
      exact hown.loadsMetadata
    rw [replay_lift_bind_ok hgenerate]
    simp only [broadcast, awaitData, awaitDataCustomCount]
    rw [replay_post_bind]
    cases hcommits : firstAnswer (awaitResponse totalPlayers) responses with
    | none =>
      right
      obtain ⟨hdone, hstate⟩ := state_replay_await_bind hcommits
      exact ⟨hdone _, by rw [hstate]; exact hinitial u rfl⟩
    | some answer =>
      obtain ⟨r1, rest⟩ := answer
      rw [replay_await_bind hcommits]
      cases hdecodes : decodeEntries deserializeCommitment (fun _ => true) r1 with
      | error e =>
        right
        rw [replay_lift_bind_error (run_ofExcept_error rfl u)]
        exact ⟨fun t => nofun, hinitial u rfl⟩
      | ok allComm =>
        rw [replay_lift_bind_ok (run_ofExcept_ok allComm u)]
        cases hstores : (storeSetupCommitments host configKeyId allComm).run u with
        | error e t =>
          right
          rw [replay_lift_bind_error hstores]
          have hkeys := metas_of_onlyDraws (storeSetupCommitments_keepsStores u e t hstores)
          exact ⟨fun t => nofun, hinitial t (by rw [hkeys])⟩
        | ok myDecomm v =>
          have hv : v.keys.metas = u.keys.metas := by
            obtain ⟨_, _, _, _, -, -, rfl⟩ := storeSetupCommitments_ok_iff.1 hstores
            rfl
          rw [replay_lift_bind_ok hstores, replay_post_bind]
          cases hreveals : firstAnswer (awaitResponse totalPlayers) rest with
          | none =>
            right
            obtain ⟨hdone, hstate⟩ := state_replay_await_bind hreveals
            exact ⟨hdone _, by rw [hstate]; exact hinitial v hv⟩
          | some answer =>
            obtain ⟨r2, rest'⟩ := answer
            rw [replay_await_bind hreveals]
            cases hdecodes' : decodeEntries deserializeDecommitment (fun _ => true) r2 with
            | error e =>
              right
              rw [replay_lift_bind_error (run_ofExcept_error rfl v)]
              exact ⟨fun t => nofun, hinitial v hv⟩
            | ok allDecomm =>
              rw [replay_lift_bind_ok (run_ofExcept_ok allDecomm v)]
              cases hcombines : finalMetadata host.algebra allDecomm with
              | error e =>
                right
                rw [replay_lift_bind_error (run_ofExcept_error rfl v)]
                exact ⟨fun t => nofun, hinitial v hv⟩
              | ok metadata =>
                left
                exact ⟨⟨myComm, u, r1, rest, allComm, myDecomm, v, r2, rest', allDecomm, metadata,
                  hgenerate, hcommits, hdecodes, hstores, hreveals, hdecodes', hcombines⟩⟩

/-- Every public share of the stored key opens the commitment recorded for its player and
carries the ack of this node, and the key has exactly the three players. -/
def BindsReveals (host : Host) (t : Node) : Prop :=
  ∃ metadata allComm, t.keys.metas configKeyId = some metadata ∧
    t.keys.setupComms configKeyId = some allComm ∧
    (∀ i, i ∈ metadata.playersInfo ↔ i ∈ playersIds) ∧
    ∀ (i : ℕ) (info : CmpPlayerInfo), metadata.playersInfo[i]? = some info → ∃ c d,
      allComm[i]? = some c ∧ verifySetupCommitment host.hash configKeyId i d c = .ok () ∧
      d.ack = ackMessage host.hash allComm ∧ info.publicShare = d.share.X

/-- The commitments are those of the three players, the decommitment of the node's own setup
data opens its own commitment, and the public shares are those that the answer to the reveal
round has, for players of the demo only. -/
def BindsOwnReveal (host : Host) (responses : List ByteString) (t : Node) : Prop :=
  ∃ r1 rest r2 rest' allComm metadata data aux,
    firstAnswer (awaitResponse totalPlayers) responses = some (r1, rest) ∧
    firstAnswer (awaitResponse totalPlayers) rest = some (r2, rest') ∧
    decodeEntries deserializeCommitment (fun _ => true) r1 = .ok allComm ∧
    t.keys.setupComms configKeyId = some allComm ∧ (∀ i, i ∈ allComm ↔ i ∈ playersIds) ∧
    t.keys.setupDatas configKeyId = some data ∧ t.keys.auxs configKeyId = some aux ∧
    (∃ c, allComm[host.service.getIdFromKeyid configKeyId]? = some c ∧
      verifySetupCommitment host.hash configKeyId (host.service.getIdFromKeyid configKeyId)
        (decommitmentOf host.algebra aux data (ackMessage host.hash allComm)) c = .ok ()) ∧
    t.keys.metas configKeyId = some metadata ∧
    (∀ i ∈ metadata.playersInfo, i ∈ playersIds) ∧
    ∀ (i : ℕ) (info : CmpPlayerInfo), metadata.playersInfo[i]? = some info ↔ ∃ hex d,
      r2[i]? = some hex ∧ deserializeDecommitment hex = .ok d ∧ info.publicShare = d.share.X

theorem mem_playersIds {i : ℕ} : i ∈ playersIds ↔ i = 1 ∨ i = 2 ∨ i = 3 := by
  simp [playersIds]

theorem Passage.keys_final (p : Passage host s responses) :
    p.final.keys = (p.committed.keys.storeSetupCommitments configKeyId
      p.allComm).storeKeyMetadata configKeyId p.metadata true := by
  obtain ⟨_, _, _, _, -, -, hrevealed⟩ := storeSetupCommitments_ok_iff.1 p.stores
  rw [Passage.final, hrevealed]

theorem Passage.metas_final (p : Passage host s responses) :
    p.final.keys.metas configKeyId = some p.metadata := by
  rw [p.keys_final, InMemoryKeyPersistency.metas_storeKeyMetadata]

theorem Passage.setupComms_final (p : Passage host s responses) :
    p.final.keys.setupComms configKeyId = some p.allComm := by
  rw [p.keys_final, InMemoryKeyPersistency.setupComms_storeKeyMetadata,
    InMemoryKeyPersistency.setupComms_storeSetupCommitments]

theorem Passage.playersInfo_eq (p : Passage host s responses) :
    p.metadata.playersInfo = publicShares p.allDecomm := by
  obtain ⟨publicKey, -, hmetadata⟩ := finalMetadata_ok_iff.1 p.combines
  rw [hmetadata]

theorem Passage.bindsOwnReveal (p : Passage host s responses) :
    BindsOwnReveal host responses p.final := by
  obtain ⟨key, _, _, hown, -, -⟩ := generateSetupCommitments_ok p.generates
  obtain ⟨data, aux, metadata, commit, hchecks, -, -⟩ := storeSetupCommitments_ok_iff.1 p.stores
  obtain rfl := Option.some.inj (hown.loadsMetadata.symm.trans hchecks.loadsMetadata)
  have hshares : ∀ (i : ℕ) (info : CmpPlayerInfo), p.metadata.playersInfo[i]? = some info ↔
      ∃ hex d, p.r2[i]? = some hex ∧ deserializeDecommitment hex = .ok d ∧
        info.publicShare = d.share.X := by
    intro i info
    rw [p.playersInfo_eq, getElem?_publicShares]
    simp only [getElem?_decodeEntries p.decodes', true_and]
    constructor
    · intro h
      obtain ⟨d, ⟨hex, hhex, hd⟩, hinfo⟩ := h
      exact ⟨hex, d, hhex, hd, hinfo⟩
    · intro h
      obtain ⟨hex, d, hhex, hd, hinfo⟩ := h
      exact ⟨d, ⟨hex, hhex, hd⟩, hinfo⟩
  refine ⟨p.r1, p.rest, p.r2, p.rest', p.allComm, p.metadata, data, aux, p.commits, p.reveals,
    p.decodes, p.setupComms_final, ?_, ?_, ?_,
    ⟨commit, hchecks.own, verifySetupCommitment_ok_iff.2 hchecks.opens⟩, p.metas_final, ?_,
    hshares⟩
  · intro i
    rw [mem_iff_of_size hchecks.size hchecks.members, mem_initialMetadata, mem_playersIds]
  · rw [p.keys_final]
    exact hchecks.loadsData
  · rw [p.keys_final]
    exact hchecks.loadsAux
  · intro i hi
    obtain ⟨info, hinfo⟩ := Std.ExtTreeMap.mem_iff_isSome_getElem?.1 hi |> Option.isSome_iff_exists.1
    obtain ⟨hex, d, hhex, -, -⟩ := (hshares i info).1 hinfo
    obtain ⟨resp, hresp⟩ := exists_of_firstAnswer p.reveals
    have hmem : i ∈ p.r2 := Std.ExtTreeMap.mem_iff_isSome_getElem?.2 (by rw [hhex]; rfl)
    have hrange := mem_awaitResponse hresp hmem
    rw [mem_playersIds]
    simp only [totalPlayers] at hrange
    omega

/-- Key generation against an arbitrary relay: a completed run has bound its own reveal, and
every other run leaves no final metadata. -/
theorem bindsOwnReveal_or_noFinalMetadata (host : Host) (s : Node) (responses : List ByteString) :
    (∃ t, keygenOn host s responses = .done (.ok ()) t ∧ BindsOwnReveal host responses t) ∨
      (∀ t, keygenOn host s responses ≠ .done (.ok ()) t) ∧
        NoFinalMetadata s (keygenOn host s responses).state := by
  rcases passage_or_noFinalMetadata host s responses with ⟨⟨p⟩⟩ | hnone
  · exact Or.inl ⟨p.final, keygenOn_of_passage p, p.bindsOwnReveal⟩
  · exact Or.inr hnone

section Concrete

/-- The commitment that player 1 makes on the concrete host. -/
def concreteOwnComm : Commitment := ⟨leBytes 32 5, leBytes 32 5⟩

/-- A commitment that nothing opens: hashes keep the salt, and this one differs from it. -/
def concreteComm : Commitment := ⟨leBytes 32 7, leBytes 32 8⟩

def concreteComms : List (ℕ × Commitment) :=
  [(1, concreteOwnComm), (2, concreteComm), (3, concreteComm)]

def concreteSetupData : SetupData :=
  ⟨beBytes 32 6, beBytes 32 3, Ed25519Point.generic (concretePoint 1)⟩

def concreteOwnDecomm : SetupDecommitment :=
  decommitmentOf exponentGroup concreteAux concreteSetupData
    (ackMessage prefixHash (ofEntries concreteComms))

/-- A share of somebody's choice, with nothing to open a commitment. -/
def concreteDecomm (n : ℕ) : SetupDecommitment :=
  ⟨zeroBytes 32, zeroBytes 32, ⟨Ed25519Point.generic (concretePoint n), zeroBytes 33⟩, [], []⟩

/-- The relay's answers to the two rounds, with given reveals. -/
def concreteResponses (decomms : List (ℕ × SetupDecommitment)) : List ByteString :=
  [jsonify (some (concreteComms.map fun e => (e.1, serializeCommitment e.2))),
    jsonify (some (decomms.map fun e => (e.1, serializeDecommitment e.2)))]

private theorem generates_concrete : ∃ u,
    (generateSetupCommitments (concreteHost 1) configKeyId [1, 2, 3] 3).run Node.initial =
      .ok concreteOwnComm u := by
  have h : (match (generateSetupCommitments (concreteHost 1) configKeyId [1, 2, 3] 3).run
      Node.initial with
    | .ok c _ => decide (c = concreteOwnComm)
    | .error _ _ => false) = true := by decide +kernel
  split at h
  · rename_i c u hrun
    rw [of_decide_eq_true h] at hrun
    exact ⟨u, hrun⟩
  · cases h

private theorem mem_ofEntries_concreteComms {i : ℕ} {c : Commitment} :
    (ofEntries concreteComms)[i]? = some c ↔ (i, c) ∈ concreteComms :=
  getElem?_ofEntries (by decide) i c

/-- The run on the concrete host with given reveals of well-formed shares. -/
private theorem exists_passage_concrete (decomms : List (ℕ × SetupDecommitment))
    (hkeys : (decomms.map Prod.fst).Nodup)
    (hrange : ∀ e ∈ decomms, 1 ≤ e.1 ∧ e.1 ≤ totalPlayers)
    (hlengths : ∀ e ∈ decomms, e.2.paillierPublicKey.length < 2 ^ 32 ∧
      e.2.ringPedersenPublicKey.length < 2 ^ 32)
    (hpoints : ∀ e ∈ decomms, ∃ P : exponentGroup.Point,
      e.2.share.X = Ed25519Point.generic (exponentGroup.encode P)) :
    ∃ p : Passage (concreteHost 1) Node.initial (concreteResponses decomms),
      p.allComm = ofEntries concreteComms ∧ p.allDecomm = ofEntries decomms := by
  obtain ⟨u, hu⟩ := generates_concrete
  obtain ⟨key, data, aux, hown, -, -⟩ := generateSetupCommitments_ok hu
  obtain ⟨r1, hr1, hdecodes⟩ : ∃ r, awaitResponse totalPlayers (jsonify (some
      (concreteComms.map fun e => (e.1, serializeCommitment e.2)))) = some r ∧
        decodeEntries deserializeCommitment (fun _ => true) r = .ok (ofEntries concreteComms) :=
    decodeEntries_jsonify (by decide) (by decide) (fun e _ => HexText.plain_toHex _) fun e _ =>
      deserialize_serializeCommitment e.2
  have hchecks : SetupChecks (concreteHost 1) configKeyId u.keys (ofEntries concreteComms) data aux
      (initialMetadata [1, 2, 3] 3) concreteOwnComm := by
    refine ⟨rfl, hown.loadsData, hown.loadsAux, hown.loadsMetadata, rfl, ?_,
      mem_ofEntries_concreteComms.2 (by decide), hown.opens _⟩
    intro i hi
    have hentry : ∀ c, (i, c) ∈ concreteComms → i ∈ ofEntries concreteComms := by
      intro c hc
      rw [Std.ExtTreeMap.mem_iff_isSome_getElem?, mem_ofEntries_concreteComms.2 hc]
      rfl
    rcases (mem_initialMetadata i).1 (Std.ExtTreeMap.mem_keys.1 hi) with rfl | rfl | rfl
    · exact hentry concreteOwnComm (by decide)
    · exact hentry concreteComm (by decide)
    · exact hentry concreteComm (by decide)
  have hstores := storeSetupCommitments_ok_iff.2 ⟨data, aux, _, concreteOwnComm, hchecks, rfl, rfl⟩
  obtain ⟨r2, hr2, hdecodes'⟩ : ∃ r, awaitResponse totalPlayers (jsonify (some
      (decomms.map fun e => (e.1, serializeDecommitment e.2)))) = some r ∧
        decodeEntries deserializeDecommitment (fun _ => true) r = .ok (ofEntries decomms) :=
    decodeEntries_jsonify hkeys hrange (fun e _ => HexText.plain_toHex _) fun e he =>
      deserialize_serializeDecommitment (hlengths e he).1 (hlengths e he).2
  obtain ⟨metadata, hcombines⟩ : ∃ metadata,
      finalMetadata (concreteHost 1).algebra (ofEntries decomms) = .ok metadata :=
    exists_finalMetadata fun i d hd => hpoints (i, d) ((getElem?_ofEntries hkeys i d).1 hd)
  have hfirst : firstAnswer (awaitResponse totalPlayers) (concreteResponses decomms) =
      some (r1, [jsonify (some (decomms.map fun e => (e.1, serializeDecommitment e.2)))]) := by
    rw [concreteResponses, firstAnswer, hr1]
  have hsecond : firstAnswer (awaitResponse totalPlayers)
      [jsonify (some (decomms.map fun e => (e.1, serializeDecommitment e.2)))] =
        some (r2, []) := by
    rw [firstAnswer, hr2]
  exact ⟨⟨_, u, r1, _, _, _, _, r2, _, _, metadata, hu, hfirst, hdecodes, hstores, hsecond,
    hdecodes', hcombines⟩, rfl, rfl⟩

private theorem prefix_of_update {input data out : ByteString} (h : update input data = .ok out) :
    input <+: out := by
  simp only [update] at h
  split at h
  · cases h
  · cases h
    exact List.prefix_append _ _

private theorem commitmentHash_prefixHash {salt hash : Bytes 32} {keyId : ByteString} {id : ℕ}
    {d : SetupDecommitment} (h : commitmentHash prefixHash salt keyId id d = .ok hash) :
    hash = salt := by
  simp only [commitmentHash, except_bind_ok_iff] at h
  obtain ⟨l₁, h₁, l₂, h₂, l₃, h₃, l₄, h₄, l₅, h₅, l₆, h₆, l₇, h₇, h⟩ := h
  have hprefix := (((((prefix_of_update h₁).trans (prefix_of_update h₂)).trans
    (prefix_of_update h₃)).trans (prefix_of_update h₄)).trans (prefix_of_update h₅)).trans
    ((prefix_of_update h₆).trans (prefix_of_update h₇))
  obtain ⟨rest, hrest⟩ := hprefix
  cases h
  apply Subtype.ext
  have htake := leList_leValue_append salt.val rest
  rw [salt.2, hrest] at htake
  exact htake

/-- All three players reveal, players 2 and 3 without opening what they committed to. -/
def rogueDecomms : List (ℕ × SetupDecommitment) :=
  [(1, concreteOwnDecomm), (2, concreteDecomm 5), (3, concreteDecomm 6)]

/-- The answer to the reveal round lacks player 3. -/
def missingDecomms : List (ℕ × SetupDecommitment) :=
  [(1, concreteOwnDecomm), (2, concreteDecomm 5)]

private theorem concreteDecomm_point (n : ℕ) : ∃ P : exponentGroup.Point,
    (concreteDecomm n).share.X = Ed25519Point.generic (exponentGroup.encode P) := ⟨_, rfl⟩

private theorem concreteOwnDecomm_point : ∃ P : exponentGroup.Point,
    concreteOwnDecomm.share.X = Ed25519Point.generic (exponentGroup.encode P) := ⟨_, rfl⟩

/-- Two runs of player 1 that complete with public shares that nothing binds: in the first one
player 2's share opens no commitment, in the second one player 3 has no share at all. -/
theorem bindsReveals_fails :
    (∃ t, keygenOn (concreteHost 1) Node.initial (concreteResponses rogueDecomms) =
        .done (.ok ()) t ∧ ¬ BindsReveals (concreteHost 1) t) ∧
      ∃ t, keygenOn (concreteHost 1) Node.initial (concreteResponses missingDecomms) =
        .done (.ok ()) t ∧ ¬ BindsReveals (concreteHost 1) t := by
  constructor
  · obtain ⟨p, hcomm, hdecomm⟩ := exists_passage_concrete rogueDecomms (by decide)
      (by decide) (by decide) (by
        simp only [rogueDecomms, List.forall_mem_cons]
        exact ⟨concreteOwnDecomm_point, concreteDecomm_point 5, concreteDecomm_point 6,
          List.forall_mem_nil _⟩)
    refine ⟨p.final, keygenOn_of_passage p, fun h => ?_⟩
    obtain ⟨metadata, allComm, hmetadata, hstored, -, hbinds⟩ := h
    obtain rfl := Option.some.inj (p.metas_final.symm.trans hmetadata)
    obtain rfl := Option.some.inj (p.setupComms_final.symm.trans hstored)
    have hshare : p.metadata.playersInfo[2]? = some ⟨(concreteDecomm 5).share.X⟩ := by
      rw [p.playersInfo_eq, hdecomm]
      exact (getElem?_publicShares _ _ _).2
        ⟨concreteDecomm 5, (getElem?_ofEntries (by decide) _ _).2 (by simp [rogueDecomms]), rfl⟩
    obtain ⟨c, d, hc, hopens, -, -⟩ := hbinds 2 _ hshare
    rw [hcomm] at hc
    obtain rfl : c = concreteComm := Option.some.inj
      (hc.symm.trans (mem_ofEntries_concreteComms.2 (by decide)))
    have hhash := commitmentHash_prefixHash (verifySetupCommitment_ok_iff.1 hopens)
    exact absurd hhash (by decide)
  · obtain ⟨p, hcomm, hdecomm⟩ := exists_passage_concrete missingDecomms (by decide)
      (by decide) (by decide) (by
        simp only [missingDecomms, List.forall_mem_cons]
        exact ⟨concreteOwnDecomm_point, concreteDecomm_point 5, List.forall_mem_nil _⟩)
    refine ⟨p.final, keygenOn_of_passage p, fun h => ?_⟩
    obtain ⟨metadata, allComm, hmetadata, -, hplayers, -⟩ := h
    obtain rfl := Option.some.inj (p.metas_final.symm.trans hmetadata)
    have hmem : (3 : ℕ) ∈ p.metadata.playersInfo := (hplayers 3).2 (by decide)
    rw [Std.ExtTreeMap.mem_iff_isSome_getElem?, Option.isSome_iff_exists] at hmem
    obtain ⟨info, hinfo⟩ := hmem
    rw [p.playersInfo_eq, hdecomm] at hinfo
    obtain ⟨d, hd, -⟩ := (getElem?_publicShares _ _ _).1 hinfo
    have hentry := (getElem?_ofEntries (by decide) _ _).1 hd
    simp [missingDecomms] at hentry

end Concrete

end MpcDemo.KeygenBinding
