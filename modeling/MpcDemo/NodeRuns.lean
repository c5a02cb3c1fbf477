import MpcDemo.NodeFrames
import MpcDemo.PlayerTables

/-!
# Runs of the three nodes that get somewhere

With working sources of randomness the nodes can be taken through key generation and the
preprocessing of a session, request by request.
-/

namespace MpcDemo.NodeRuns
open ByteStrings Ed25519Algebra CosignerTypes FallibleState Persistencies NodeState Processes
open NetworkManager HexText Serialization RelayProtocols NodePrograms SetupService SetupServiceLaws
open ServerOperationLaws ThreeNodes NodeMain

section Steps
variable {program : ℕ → NodeProg Unit} {c : Configuration} {round : ByteString}

theorem reached_post (h : Reached program c) {i : Player} {s : Node} {data : ByteString}
    {f : Unit → NodeProg Unit} (hi : c.procs i = (Prog.post round data >>= f) s) :
    Reached program ⟨Relay.broadcast c.world round i data,
      Function.update c.procs i (f () s)⟩ :=
  Reachable.step h (.post (i := i) hi)

theorem reached_answer (h : Reached program c) {i : Player} {s : Node} {count : ℕ}
    {f : PlayerMap ByteString → NodeProg Unit} {a : PlayerMap ByteString}
    (hi : c.procs i = (Prog.await round count >>= f) s) (ha : Answered c.world round count a) :
    Reached program ⟨c.world, Function.update c.procs i (f a s)⟩ :=
  Reachable.step h (.answer (i := i) hi ha)

/-- Some nodes post to a round, one after the other. -/
theorem exists_posts (h : Reached program c) {l : List Player} (hl : l.Nodup)
    {s : Player → Node} (data : ℕ → ByteString) {f : Player → Unit → NodeProg Unit}
    (hat : ∀ i ∈ l, c.procs i = (Prog.post round (data i) >>= f i) (s i)) :
    ∃ c', Reached program c' ∧
      c'.world = Function.update c.world round (c.world round ++ l.map fun i => ⟨i, data i⟩) ∧
      (∀ i ∈ l, c'.procs i = f i () (s i)) ∧ ∀ i ∉ l, c'.procs i = c.procs i := by
  induction l generalizing c with
  | nil =>
    refine ⟨c, h, ?_, fun i hi => absurd hi List.not_mem_nil, fun _ _ => rfl⟩
    rw [List.map_nil, List.append_nil, Function.update_eq_self]
  | cons i l ih =>
    obtain ⟨hi, hl⟩ := List.nodup_cons.1 hl
    obtain ⟨c', hreach, hworld, hprocs, hothers⟩ := ih (reached_post h (hat i List.mem_cons_self))
      hl fun j hj => by
        have hne : j ≠ i := fun heq => hi (heq ▸ hj)
        simp only [Function.update_of_ne hne]
        exact hat j (List.mem_cons_of_mem i hj)
    refine ⟨c', hreach, ?_, fun j hj => ?_, fun j hj => ?_⟩
    · rw [hworld]
      simp only [Relay.broadcast, Function.update_self, Function.update_idem, List.map_cons,
        List.append_assoc, List.singleton_append]
    · rcases List.mem_cons.1 hj with rfl | hj
      · rw [hothers j hi]
        simp only [Function.update_self]
      · exact hprocs j hj
    · obtain ⟨hne, hj⟩ := not_or.1 (fun h => hj (List.mem_cons.2 h))
      rw [hothers j hj]
      simp only [Function.update_of_ne hne]

/-- Some nodes read the answer of a round. -/
theorem exists_answers (h : Reached program c) {l : List Player} (hl : l.Nodup)
    {s : Player → Node} {count : ℕ} {f : Player → PlayerMap ByteString → NodeProg Unit}
    {a : PlayerMap ByteString} (ha : Answered c.world round count a)
    (hat : ∀ i ∈ l, c.procs i = (Prog.await round count >>= f i) (s i)) :
    ∃ c', Reached program c' ∧ c'.world = c.world ∧
      (∀ i ∈ l, c'.procs i = f i a (s i)) ∧ ∀ i ∉ l, c'.procs i = c.procs i := by
  induction l generalizing c with
  | nil => exact ⟨c, h, rfl, fun i hi => absurd hi List.not_mem_nil, fun _ _ => rfl⟩
  | cons i l ih =>
    obtain ⟨hi, hl⟩ := List.nodup_cons.1 hl
    obtain ⟨c', hreach, hworld, hprocs, hothers⟩ := ih
      (reached_answer h (hat i List.mem_cons_self) ha) hl ha fun j hj => by
        have hne : j ≠ i := fun heq => hi (heq ▸ hj)
        simp only [Function.update_of_ne hne]
        exact hat j (List.mem_cons_of_mem i hj)
    refine ⟨c', hreach, hworld, fun j hj => ?_, fun j hj => ?_⟩
    · rcases List.mem_cons.1 hj with rfl | hj
      · rw [hothers j hi]
        simp only [Function.update_self]
      · exact hprocs j hj
    · obtain ⟨hne, hj⟩ := not_or.1 (fun h => hj (List.mem_cons.2 h))
      rw [hothers j hj]
      simp only [Function.update_of_ne hne]

/-- A round with one plain message of each of some players is answered with these. -/
theorem exists_answered {w : World} {l : List Player} (hl : l.Nodup) (data : ℕ → ByteString)
    (hplain : ∀ i ∈ l, Plain (data i)) (hw : w round = l.map fun i => ⟨i, data i⟩) :
    ∃ a : PlayerMap ByteString, Answered w round l.length a ∧
      ∀ (j : ℕ) v, a[j]? = some v ↔ (∃ i ∈ l, (i : ℕ) = j) ∧ v = data j := by
  have hready : Relay.Ready w round l.length := by
    rw [Relay.Ready, hw, List.length_map]
  have hsenders : ((w round).map Relay.Message.senderId).Nodup := by
    rw [hw, List.map_map]
    exact hl.map Subtype.val_injective
  have hmap : Relay.dataMap (w round) = l.map fun i : Player => ((i : ℕ), data i) := by
    rw [Relay.dataMap_of_nodup hsenders, hw, List.map_map]
    rfl
  obtain ⟨a, ha, hentries⟩ := @awaitResponse_jsonify (l.map fun i : Player => ((i : ℕ), data i))
    totalPlayers (by decide)
    (by rw [List.map_map]; exact hl.map Subtype.val_injective)
    (fun e he => by
      obtain ⟨i, -, rfl⟩ := List.mem_map.1 he
      have hi := i.2
      simp only [playersIds, Finset.mem_insert, Finset.mem_singleton] at hi
      simp only [totalPlayers]
      omega)
    fun e he => by
      obtain ⟨i, hi, rfl⟩ := List.mem_map.1 he
      exact hplain i hi
  refine ⟨a, ?_, fun j v => ?_⟩
  · rw [Answered, Relay.poll, if_pos hready, hmap]
    exact ha
  · rw [hentries, List.mem_map]
    constructor
    · intro h
      obtain ⟨i, hi, heq⟩ := h
      obtain ⟨rfl, rfl⟩ := Prod.mk.inj heq
      exact ⟨⟨i, hi, rfl⟩, rfl⟩
    · intro h
      obtain ⟨⟨i, hi, rfl⟩, rfl⟩ := h
      exact ⟨i, hi, rfl⟩

/-- Some nodes post to an empty round, which can be read from then on. -/
theorem exists_filled (h : Reached program c) (hempty : c.world round = []) {l : List Player}
    (hl : l.Nodup) (s : Player → Node) (data : ℕ → ByteString) {f : Player → Unit → NodeProg Unit}
    (hplain : ∀ i ∈ l, Plain (data i))
    (hat : ∀ i ∈ l, c.procs i = (Prog.post round (data i) >>= f i) (s i)) :
    ∃ c' a, Reached program c' ∧
      c'.world = Function.update c.world round (l.map fun i : Player => ⟨i, data i⟩) ∧
      Answered c'.world round l.length a ∧ (∀ i ∈ l, c'.procs i = f i () (s i)) ∧
      (∀ i ∉ l, c'.procs i = c.procs i) ∧
      ∀ (j : ℕ) v, a[j]? = some v ↔ (∃ i ∈ l, (i : ℕ) = j) ∧ v = data j := by
  obtain ⟨d, hd, hworld, hprocs, hothers⟩ := exists_posts h hl data hat
  rw [hempty, List.nil_append] at hworld
  have hround : d.world round = l.map fun i : Player => ⟨i, data i⟩ := by
    rw [hworld, Function.update_self]
  obtain ⟨a, ha, hentries⟩ := exists_answered hl data hplain hround
  exact ⟨d, a, hd, hworld, ha, hprocs, hothers, hentries⟩

/-- Some nodes post to a round and read what was posted. -/
theorem exists_exchange (h : Reached program c) (hempty : c.world round = []) {l : List Player}
    (hl : l.Nodup) (s : Player → Node) (data : ℕ → ByteString)
    {f : Player → PlayerMap ByteString → NodeProg Unit} (hplain : ∀ i ∈ l, Plain (data i))
    (hat : ∀ i ∈ l, c.procs i = (Prog.post round (data i) >>= fun _ =>
      Prog.await round l.length >>= f i) (s i)) :
    ∃ c' a, Reached program c' ∧
      c'.world = Function.update c.world round (l.map fun i : Player => ⟨i, data i⟩) ∧
      Answered c'.world round l.length a ∧ (∀ i ∈ l, c'.procs i = f i a (s i)) ∧
      (∀ i ∉ l, c'.procs i = c.procs i) ∧
      ∀ (j : ℕ) v, a[j]? = some v ↔ (∃ i ∈ l, (i : ℕ) = j) ∧ v = data j := by
  obtain ⟨d, a, hd, hworld, ha, hprocs, hothers, hentries⟩ :=
    exists_filled h hempty hl s data hplain hat
  obtain ⟨e, he, hworld', hprocs', hothers'⟩ := exists_answers hd hl ha hprocs
  refine ⟨e, a, he, hworld'.trans hworld, ?_, hprocs', fun i hi => ?_, hentries⟩
  · rwa [hworld']
  · rw [hothers' i hi, hothers i hi]

def allPlayers : List Player := [client, ⟨2, by decide⟩, ⟨3, by decide⟩]

theorem nodup_allPlayers : allPlayers.Nodup := by decide

theorem mem_allPlayers (i : Player) : i ∈ allPlayers := by
  revert i
  decide

theorem exists_mem_allPlayers (j : ℕ) : (∃ i ∈ allPlayers, (i : ℕ) = j) ↔ j ∈ playersIds := by
  constructor
  · rintro ⟨i, -, rfl⟩
    exact i.2
  · intro hj
    exact ⟨⟨j, hj⟩, mem_allPlayers _, rfl⟩

end Steps

section Keygen
variable {D : Deployment}

/-- Key generation from the commitments on. -/
def reveal (host : Host) (r1 : PlayerMap ByteString) : NodeProg SetupDecommitment := do
  let allComm ← Prog.lift (ofExcept (decodeEntries deserializeCommitment (fun _ => true) r1))
  Prog.lift (storeSetupCommitments host configKeyId allComm)

/-- Key generation from the reveals on. -/
def combine (host : Host) (r2 : PlayerMap ByteString) : NodeProg Unit := do
  let allDecomm ← Prog.lift (ofExcept (decodeEntries deserializeDecommitment (fun _ => true) r2))
  let metadata ← Prog.lift (ofExcept (KeygenOrchestrator.finalMetadata host.algebra allDecomm))
  Prog.lift (modifyKeys (·.storeKeyMetadata configKeyId metadata true))

theorem keygen_eq (host : Host) : KeygenOrchestrator.run host = (do
    let myComm ← Prog.lift (generateSetupCommitments host configKeyId [1, 2, 3] 3)
    Prog.post KeygenOrchestrator.commitPhase (serializeCommitment myComm)
    let r1 ← Prog.await KeygenOrchestrator.commitPhase totalPlayers
    let myDecomm ← reveal host r1
    Prog.post KeygenOrchestrator.revealPhase (serializeDecommitment myDecomm)
    let r2 ← Prog.await KeygenOrchestrator.revealPhase totalPlayers
    combine host r2) := by
  rw [KeygenOrchestrator.run]
  refine congrArg (_ >>= ·) (funext fun myComm => congrArg (_ >>= ·) (funext fun _ =>
    congrArg (_ >>= ·) (funext fun r1 => ?_)))
  rw [reveal, Prog.bind_assoc]
  rfl

variable {s : Node} {i : ℕ} {a : PlayerMap ByteString}

theorem setupChecks_table {c : Commitment} {key : Ed25519Scalar} {data : SetupData}
    {aux : AuxiliaryKeys} {comm : ℕ → Commitment} (hi : i ∈ playersIds)
    (h : OwnSetup (D.host i) configKeyId [1, 2, 3] 3 s.keys c key data aux) (hc : comm i = c) :
    SetupChecks (D.host i) configKeyId s.keys (PlayerTables.table playersIds comm) data aux
      (initialMetadata [1, 2, 3] 3) c where
  tenant := rfl
  loadsData := h.loadsData
  loadsAux := h.loadsAux
  loadsMetadata := h.loadsMetadata
  size := by
    rw [PlayerTables.size_table, size_initialMetadata]
    rfl
  members := by
    intro j hj
    rw [PlayerTables.mem_table]
    have hmem := (mem_initialMetadata j).1 (Std.ExtTreeMap.mem_keys.1 hj)
    simp only [playersIds, Finset.mem_insert, Finset.mem_singleton]
    exact hmem
  own := by
    change (PlayerTables.table playersIds comm)[i]? = some c
    rw [PlayerTables.getElem?_table_of_mem hi, hc]
  opens := h.opens _

/-- A node once it has stored the commitments. -/
def withCommitments (comm : ℕ → Commitment) (s : Node) : Node :=
  { s with
    keys := s.keys.storeSetupCommitments configKeyId (PlayerTables.table playersIds comm) }

/-- A node that has the commitments of all players opens its own. -/
theorem run_reveal {c : Commitment} {key : Ed25519Scalar} {data : SetupData}
    {aux : AuxiliaryKeys} {comm : ℕ → Commitment} (hi : i ∈ playersIds)
    (h : OwnSetup (D.host i) configKeyId [1, 2, 3] 3 s.keys c key data aux) (hc : comm i = c)
    (ha : ∀ (j : ℕ) v, a[j]? = some v ↔ j ∈ playersIds ∧ v = serializeCommitment (comm j)) :
    ∃ ack, ∀ f : SetupDecommitment → NodeProg Unit, (reveal (D.host i) a >>= f) s =
      f (decommitmentOf D.algebra aux data ack) (withCommitments comm s) := by
  have hdecode := PlayerTables.decodeEntries_eq_table (fun _ => true) ha
    fun j _ _ => deserialize_serializeCommitment (comm j)
  have hstore := storeSetupCommitments_ok_iff.2
    ⟨data, aux, _, c, setupChecks_table hi h hc, rfl, rfl⟩
  refine ⟨ackMessage D.hash (PlayerTables.table playersIds comm), fun f => ?_⟩
  rw [reveal, Prog.bind_assoc, Prog.lift_bind (run_ofExcept_ok_iff.2 ⟨hdecode, rfl⟩)]
  simp only [Finset.filter_true]
  exact Prog.lift_bind hstore

/-- The metadata of the key that is shared by the players. -/
def sharedKey (E : Ed25519) (X : ℕ → E.Point) : CmpKeyMetadata where
  publicKey := Ed25519Point.generic (E.encode (∑ j ∈ playersIds, X j))
  algorithm := .eddsaEd25519
  t := 3
  n := 3
  playersInfo := PlayerTables.table playersIds fun j => ⟨Ed25519Point.generic (E.encode (X j))⟩

/-- A node stores its share and the key that the players share, and nothing has happened yet. -/
structure Keyed (E : Ed25519) (key : ℕ → Ed25519Scalar) (i : ℕ) (s : Node) : Prop where
  loadsKey : s.keys.keys configKeyId = some (key i)
  loadsMetadata : s.keys.metas configKeyId =
    some (sharedKey E fun j => beValue (key j).val • E.base)
  journal : s.journal = []

theorem Keyed.metadata {E : Ed25519} {key : ℕ → Ed25519Scalar} (h : Keyed E key i s) :
    ∃ publicKey info, s.keys.metas configKeyId =
      some ⟨publicKey, .eddsaEd25519, 3, 3, PlayerTables.table playersIds info⟩ :=
  ⟨_, _, h.loadsMetadata⟩

/-- A node once it has stored the shared key. -/
def withKey (E : Ed25519) (X : ℕ → E.Point) (s : Node) : Node :=
  { s with keys := s.keys.storeKeyMetadata configKeyId (sharedKey E X) true }

theorem withKey_metas (E : Ed25519) (X : ℕ → E.Point) (s : Node) :
    (withKey E X s).keys.metas configKeyId = some (sharedKey E X) :=
  InMemoryKeyPersistency.metas_storeKeyMetadata _ _ _ true

theorem finalMetadata_table {E : Ed25519} {X : ℕ → E.Point} {d : ℕ → SetupDecommitment}
    (hd : ∀ j ∈ playersIds, (d j).share.X = Ed25519Point.generic (E.encode (X j))) :
    KeygenOrchestrator.finalMetadata E (PlayerTables.table playersIds d) =
      .ok (sharedKey E X) := by
  have hinfo : KeygenOrchestrator.publicShares (PlayerTables.table playersIds d) =
      PlayerTables.table playersIds fun j => ⟨Ed25519Point.generic (E.encode (X j))⟩ := by
    refine PlayerTables.eq_table fun j info => ?_
    rw [KeygenOrchestrator.getElem?_publicShares, PlayerTables.getElem?_table]
    by_cases hj : j ∈ playersIds
    · simp only [hj, if_true, Option.some.injEq, exists_eq_left', true_and, hd j hj]
      constructor
      · intro h
        rw [← h]
      · intro h
        rw [h]
    · simp [hj]
  have hshares : (PlayerTables.table playersIds fun j =>
        (⟨Ed25519Point.generic (E.encode (X j))⟩ : CmpPlayerInfo)).toList.map
          (fun info => info.2.publicShare) =
      ((PlayerTables.table playersIds fun j =>
        (⟨Ed25519Point.generic (E.encode (X j))⟩ : CmpPlayerInfo)).toList.map
          fun info => X info.1).map fun P => Ed25519Point.generic (E.encode P) := by
    rw [List.map_map]
    refine List.map_congr_left fun info hmem => ?_
    rw [(PlayerTables.mem_toList_table.1 hmem).2]
    rfl
  have hsum := @PlayerTables.sum_toList_table CmpPlayerInfo playersIds
    (fun j => ⟨Ed25519Point.generic (E.encode (X j))⟩) E.Point _ fun info => X info.1
  refine KeygenOrchestrator.finalMetadata_ok_iff.2 ⟨_, ?_, by rw [hinfo]; rfl⟩
  rw [hinfo, hshares]
  cases hlist : (PlayerTables.table playersIds fun j =>
      (⟨Ed25519Point.generic (E.encode (X j))⟩ : CmpPlayerInfo)).toList.map
        fun info => X info.1 with
  | nil =>
    rw [List.map_eq_nil_iff] at hlist
    exact absurd hlist (PlayerTables.toList_table_ne_nil ⟨1, by decide⟩)
  | cons Y Ys =>
    rw [KeygenOrchestrator.combineShares_encode, ← hlist, hsum]

/-- A node that has the shares of all players stores the key that they share. -/
theorem run_combine {d : ℕ → SetupDecommitment} {X : ℕ → D.algebra.Point}
    (hpoints : ∀ j ∈ playersIds,
      (d j).share.X = Ed25519Point.generic (D.algebra.encode (X j)))
    (hlengths : ∀ j ∈ playersIds, (d j).paillierPublicKey.length < 2 ^ 32 ∧
      (d j).ringPedersenPublicKey.length < 2 ^ 32)
    (ha : ∀ (j : ℕ) v, a[j]? = some v ↔ j ∈ playersIds ∧ v = serializeDecommitment (d j)) :
    combine (D.host i) a s = .done (.ok ()) (withKey D.algebra X s) := by
  have hdecode := PlayerTables.decodeEntries_eq_table (fun _ => true) ha
    fun j hj _ => deserialize_serializeDecommitment (hlengths j hj).1 (hlengths j hj).2
  simp only [Finset.filter_true] at hdecode
  have hmetadata : KeygenOrchestrator.finalMetadata (D.host i).algebra
      (PlayerTables.table playersIds d) = .ok (sharedKey D.algebra X) := finalMetadata_table hpoints
  rw [combine, Prog.lift_bind (run_ofExcept_ok_iff.2 ⟨hdecode, rfl⟩),
    Prog.lift_bind (run_ofExcept_ok_iff.2 ⟨hmetadata, rfl⟩)]
  rfl

/-- With working sources all nodes complete key generation. -/
theorem exists_keygen (htape : ∀ i, (D.tape i).Works) (next : ℕ → NodeProg Unit) :
    ∃ (c : Configuration) (s : Player → Node) (key : ℕ → Ed25519Scalar),
      Reached (fun i => KeygenOrchestrator.run (D.host i) >>= fun _ => next i) c ∧
      (∀ i : Player, Keyed D.algebra key i (s i)) ∧ (∀ i : Player, c.procs i = next i (s i)) ∧
      ∀ r, r ≠ KeygenOrchestrator.commitPhase → r ≠ KeygenOrchestrator.revealPhase →
        c.world r = [] := by
  have hgenerate : ∀ i, ∃ comm t key data aux, i ∈ playersIds →
      (generateSetupCommitments (D.host i) configKeyId [1, 2, 3] 3).run Node.initial =
        .ok comm t ∧ OwnSetup (D.host i) configKeyId [1, 2, 3] 3 t.keys comm key data aux ∧
      t.journal = [] := by
    intro i
    by_cases hi : i ∈ playersIds
    · obtain ⟨comm, t, hrun⟩ := @exists_generateSetupCommitments (D.host i)
        Node.initial (htape i) (by
          change i ∈ [1, 2, 3]
          simpa [playersIds] using hi) rfl
      obtain ⟨key, data, aux, hown, -, ht⟩ := generateSetupCommitments_ok hrun
      exact ⟨comm, t, key, data, aux, fun _ => ⟨hrun, hown, by rw [ht]; rfl⟩⟩
    · exact ⟨⟨zeroBytes 32, zeroBytes 32⟩, Node.initial, zeroBytes 32,
        ⟨zeroBytes 32, zeroBytes 32, zeroBytes 33⟩, concreteAux, fun h => absurd h hi⟩
  choose comm t key data aux hgenerate using hgenerate
  have hstart : ∀ i : Player,
      (start fun i => KeygenOrchestrator.run (D.host i) >>= fun _ => next i).procs i =
      (Prog.post KeygenOrchestrator.commitPhase (serializeCommitment (comm i)) >>= fun _ =>
        Prog.await KeygenOrchestrator.commitPhase totalPlayers >>= fun r1 =>
        (reveal (D.host i) r1 >>= fun myDecomm =>
          Prog.post KeygenOrchestrator.revealPhase (serializeDecommitment myDecomm) >>= fun _ =>
          Prog.await KeygenOrchestrator.revealPhase totalPlayers >>= fun r2 =>
          combine (D.host i) r2) >>= fun _ => next i) (t i) := by
    intro i
    change (KeygenOrchestrator.run (D.host i) >>= fun _ => _) Node.initial = _
    rw [keygen_eq, Prog.bind_assoc, Prog.lift_bind (hgenerate i i.2).1]
    rfl
  obtain ⟨c, a, hc, hworld, -, hprocs, -, ha⟩ := exists_exchange Reachable.start rfl
    nodup_allPlayers (fun i => t i) (fun j => serializeCommitment (comm j))
    (fun i _ => plain_toHex _) fun i _ => hstart i
  simp only [exists_mem_allPlayers] at ha
  have hreveal : ∀ i : Player, ∃ ack u, (u.keys.keys configKeyId = some (key i) ∧ u.journal = []) ∧
      ∀ f : SetupDecommitment → NodeProg Unit,
      (reveal (D.host i) a >>= f) (t i) = f (decommitmentOf D.algebra (aux i) (data i) ack) u := by
    intro i
    obtain ⟨-, hown, hjournal⟩ := hgenerate i i.2
    obtain ⟨ack, hf⟩ := run_reveal i.2 hown rfl ha
    refine ⟨ack, _, ⟨?_, ?_⟩, hf⟩
    · exact hown.loadsKey
    · exact hjournal
  choose ack u hkept hreveal using hreveal
  let d : ℕ → SetupDecommitment := fun j =>
    if hj : j ∈ playersIds then decommitmentOf D.algebra (aux j) (data j) (ack ⟨j, hj⟩)
    else ⟨zeroBytes 32, zeroBytes 32, ⟨zeroBytes 33, zeroBytes 33⟩, [], []⟩
  have hd : ∀ i : Player, d i = decommitmentOf D.algebra (aux i) (data i) (ack i) :=
    fun i => dif_pos i.2
  have hmiddle : ∀ i : Player, c.procs i =
      (Prog.post KeygenOrchestrator.revealPhase (serializeDecommitment (d i)) >>= fun _ =>
        Prog.await KeygenOrchestrator.revealPhase totalPlayers >>= fun r2 =>
        combine (D.host i) r2 >>= fun _ => next i) (u i) := by
    intro i
    rw [hprocs i (mem_allPlayers i), hd, Prog.bind_assoc, hreveal]
    rfl
  have hunrevealed : c.world KeygenOrchestrator.revealPhase = [] := by
    rw [hworld, Function.update_of_ne (by decide)]
    rfl
  obtain ⟨c', b, hc', hworld', -, hprocs', -, hb⟩ := exists_exchange hc hunrevealed
    nodup_allPlayers u (fun j => serializeDecommitment (d j)) (fun i _ => plain_toHex _)
    fun i _ => hmiddle i
  simp only [exists_mem_allPlayers] at hb
  have hcombine : ∀ i : Player, ∃ x, Keyed D.algebra key i x ∧ ∀ f : Unit → NodeProg Unit,
      (combine (D.host i) b >>= f) (u i) = f () x := by
    intro i
    have hrun := @run_combine D (u i) i b d (fun j => beValue (key j).val • D.algebra.base)
      (fun j hj => by rw [hd ⟨j, hj⟩]; exact (hgenerate j hj).2.1.publicKey)
      (fun j hj => by rw [hd ⟨j, hj⟩]; exact ⟨(aux j).paillier_lt, (aux j).ringPedersen_lt⟩) hb
    refine ⟨withKey D.algebra (fun j => beValue (key j).val • D.algebra.base) (u i),
      ⟨(hkept i).1, withKey_metas _ _ _, (hkept i).2⟩, fun f => ?_⟩
    change (combine (D.host i) b (u i)).andThen _ = _
    rw [hrun]
    rfl
  choose x hkeyed hcombine using hcombine
  refine ⟨c', x, key, hc', hkeyed, fun i => ?_, fun r hcommit hreveal => ?_⟩
  · rw [hprocs' i (mem_allPlayers i), hcombine]
  · rw [hworld', Function.update_of_ne hreveal, hworld, Function.update_of_ne hcommit]
    rfl

end Keygen

section Batches
open PreprocessingOrchestrator SigningOrchestrator
variable {D : Deployment} {txid : ByteString} {s t : Node} {i : ℕ}

/-- A server after the batch of the client. -/
def stored (RCommitments : List EddsaCommitment) (s : Node) : Node :=
  { s with server := afterPresigning s.server configKeyId 0 preprocessingCount RCommitments }

variable {program : ℕ → NodeProg Unit} {c : Configuration}

end Batches

end MpcDemo.NodeRuns
