import MpcDemo.NodeRuns

/-!
# The batches of nonces at the ready barrier

The client and the servers replace their preprocessing stores on their own, from mailboxes that
are never emptied. As long as the client has entered a session id only once and no server has
given up the signing flow of the session, the servers hold commitments to the client's nonces when
the client passes the barrier, whatever else the nodes do.
-/

namespace MpcDemo.BarrierBatches
open ByteStrings CosignerTypes AsymmetricEddsaCosigner FallibleState Persistencies NodeState
open HexText Serialization Processes RelayProtocols NodePrograms ServerOperationLaws
open PreprocessingOrchestrator SigningOrchestrator NodeMain ThreeNodes NodeFrames

section Mailboxes
variable (txid : ByteString)

/-- The mailboxes of a session that matter: the client has posted its commitments at most once,
nobody is ready twice before all are, and the partial signatures are the client's. -/
structure Orderly (w : World) : Prop where
  preprocess : w (preprocessRound txid) = [] ∨
    ∃ data, Plain data ∧ w (preprocessRound txid) = [⟨1, data⟩]
  readySenders : ∀ i data, Posted w (readyRound txid) i data → i ∈ playersIds
  ready : ((w (readyRound txid)).map Relay.Message.senderId).Nodup ∨
    ∀ i ∈ playersIds, ∃ data, Posted w (readyRound txid) i data
  r2 : ∀ i data, Posted w (r2Round txid) i data → i = 1

/-- What keeps the mailboxes orderly. -/
structure Allowed (w : World) (i : ℕ) (round data : ByteString) : Prop where
  preprocess : round = preprocessRound txid →
    i = 1 ∧ w (preprocessRound txid) = [] ∧ Plain data
  ready : round = readyRound txid → i ∈ playersIds ∧
    ((∀ d, ¬ Posted w (readyRound txid) i d) ∨
      ∀ j ∈ playersIds, ∃ d, Posted w (readyRound txid) j d)
  r2 : round = r2Round txid → i = 1

/-- What the players other than `i` may do. -/
structure Others (i : ℕ) (w w' : World) : Prop where
  orderly : Orderly txid w → Orderly txid w'
  grows : Grows w w'
  own : ∀ round data, Posted w' round i data → Posted w round i data

def environment (i : ℕ) : Environment World ByteString ByteString (PlayerMap ByteString) :=
  { relay i with
    rely := Others txid i
    rely_refl := fun w => ⟨id, grows_refl w, fun _ _ => id⟩
    rely_trans := fun _ _ _ h h' => ⟨h'.orderly ∘ h.orderly, h.grows.trans h'.grows,
      fun round data => h.own round data ∘ h'.own round data⟩
    allowed := fun w round data => Allowed txid w i round data }

variable {txid} {w : World} {i j : ℕ} {round data : ByteString}

theorem preprocess_ne_r2 : preprocessRound txid ≠ r2Round txid :=
  @Round.name_ne (.preprocess txid) (.sign .r2 txid) (by simp)

theorem Orderly.broadcast (h : Orderly txid w) (hallowed : Allowed txid w i round data) :
    Orderly txid (Relay.broadcast w round i data) := by
  have hgrows := grows_broadcast w round i data
  have hother : ∀ {r}, round ≠ r → Relay.broadcast w round i data r = w r := fun hne => by
    rw [Relay.broadcast, Function.update_of_ne hne.symm]
  have hsame : Relay.broadcast w round i data round = w round ++ [⟨i, data⟩] := by
    rw [Relay.broadcast, Function.update_self]
  refine ⟨?_, fun j d hposted => ?_, ?_, fun j d hposted => ?_⟩
  · by_cases hround : round = preprocessRound txid
    · obtain ⟨rfl, hempty, hplain⟩ := hallowed.preprocess hround
      rw [hround] at hsame
      exact Or.inr ⟨data, hplain, by rw [hround, hsame, hempty, List.nil_append]⟩
    · rw [hother hround]
      exact h.preprocess
  · rcases posted_broadcast_iff.1 hposted with hold | ⟨hround, rfl, -⟩
    · exact h.readySenders j d hold
    · exact (hallowed.ready hround.symm).1
  · by_cases hround : round = readyRound txid
    · obtain ⟨-, hfresh | hall⟩ := hallowed.ready hround
      · rcases h.ready with hnodup | hall
        · left
          rw [hround] at hsame
          rw [hround, hsame, List.map_append, List.map_singleton, List.nodup_append]
          refine ⟨hnodup, List.nodup_singleton _, fun j hj k hk => ?_⟩
          rw [List.mem_singleton.1 hk]
          obtain ⟨m, hm, rfl⟩ := List.mem_map.1 hj
          intro heq
          have hmessage : m = ⟨i, m.data⟩ := by rw [← show m.senderId = i from heq]
          exact hfresh m.data (by rw [Posted, ← hmessage]; exact hm)
        · exact Or.inr fun j hj => (hall j hj).imp fun d hd => hgrows _ _ _ hd
      · exact Or.inr fun j hj => (hall j hj).imp fun d hd => hgrows _ _ _ hd
    · rw [hother hround]
      exact h.ready.imp id fun hall j hj => (hall j hj).imp fun d hd => hgrows _ _ _ hd
  · rcases posted_broadcast_iff.1 hposted with hold | ⟨hround, rfl, -⟩
    · exact h.r2 j d hold
    · exact hallowed.r2 hround.symm

theorem others_broadcast (hallowed : Allowed txid w i round data) (hne : j ≠ i) :
    Others txid j w (Relay.broadcast w round i data) := by
  refine ⟨fun h => h.broadcast hallowed, grows_broadcast _ _ _ _, fun round' data' hposted => ?_⟩
  rcases posted_broadcast_iff.1 hposted with hold | ⟨-, heq, -⟩
  · exact hold
  · exact absurd heq hne

/-- Neither of the rounds that matter. -/
structure Outside (txid round : ByteString) : Prop where
  preprocess : round ≠ preprocessRound txid
  ready : round ≠ readyRound txid
  r2 : round ≠ r2Round txid

theorem Outside.allowed (h : Outside txid round) : Allowed txid w i round data :=
  ⟨fun heq => absurd heq h.preprocess, fun heq => absurd heq h.ready,
    fun heq => absurd heq h.r2⟩

theorem posted_of_outside (h : Outside txid round) {r : ByteString} {d : ByteString}
    (hr : r = preprocessRound txid ∨ r = readyRound txid ∨ r = r2Round txid)
    (hposted : Posted (Relay.broadcast w round i data) r j d) : Posted w r j d := by
  rcases posted_broadcast_iff.1 hposted with hold | ⟨heq, -, -⟩
  · exact hold
  · rw [← heq] at h
    rcases hr with rfl | rfl | rfl
    · exact absurd rfl h.preprocess
    · exact absurd rfl h.ready
    · exact absurd rfl h.r2

end Mailboxes

section Client
variable {D : Deployment} {txid : ByteString} {w v : World} {s t : Node} {data : ByteString}
variable {RCommitments : List EddsaCommitment}

/-- Commitments to the nonces in the client's store. -/
def ClientBatch (D : Deployment) (RCommitments : List EddsaCommitment) (s : Node) : Prop :=
  ∀ i < preprocessingCount, ∃ k, s.client.storedNonces configKeyId i = some k ∧
    RCommitments[i]? = some (commitToR D.hash configKeyId i 1
      (D.algebra.encode (beValue k.value.val • D.algebra.base)))

/-- The client's batch is the one that it has posted, and it has not signed. -/
structure ClientKnows (D : Deployment) (txid : ByteString) (w : World) (s : Node) : Prop where
  unsigned : w (r2Round txid) = []
  batch : ∃ data RCommitments, w (preprocessRound txid) = [⟨1, data⟩] ∧
    deserializeCommitments data = .ok RCommitments ∧ ClientBatch D RCommitments s

/-- The client has not entered the session. -/
structure ClientFresh (txid : ByteString) (w : World) : Prop where
  orderly : Orderly txid w
  outside : ∀ round data, Posted w round 1 data → Outside txid round

/-- The client has posted its commitments and no partial signatures. -/
structure ClientSent (txid data : ByteString) (w : World) : Prop where
  orderly : Orderly txid w
  batch : w (preprocessRound txid) = [⟨1, data⟩]
  unsigned : ∀ d, ¬ Posted w (r2Round txid) 1 d

theorem Orderly.batch_eq (h : Orderly txid v) (hposted : Posted v (preprocessRound txid) 1 data) :
    v (preprocessRound txid) = [⟨1, data⟩] := by
  rcases h.preprocess with hempty | ⟨data', -, hsingle⟩
  · rw [Posted, hempty] at hposted
    exact absurd hposted List.not_mem_nil
  · rw [Posted, hsingle, List.mem_singleton, Relay.Message.mk.injEq] at hposted
    rw [hsingle, hposted.2]

theorem Orderly.r2_eq_nil (h : Orderly txid w) (hunsigned : ∀ d, ¬ Posted w (r2Round txid) 1 d) :
    w (r2Round txid) = [] := by
  rw [List.eq_nil_iff_forall_not_mem]
  intro m hm
  have hsender : m.senderId = 1 := h.r2 m.senderId m.data hm
  apply hunsigned m.data
  rw [← hsender]
  exact hm

theorem Others.batch_eq {i : ℕ} (h : Others txid i w v) (hw : Orderly txid w)
    (hbatch : w (preprocessRound txid) = [⟨1, data⟩]) :
    v (preprocessRound txid) = [⟨1, data⟩] := by
  apply (h.orderly hw).batch_eq
  apply h.grows
  rw [Posted, hbatch]
  exact List.mem_singleton.2 rfl

theorem ClientFresh.others (h : ClientFresh txid w) (hv : Others txid 1 w v) :
    ClientFresh txid v :=
  ⟨hv.orderly h.orderly, fun round data hposted => h.outside round data (hv.own _ _ hposted)⟩

theorem ClientFresh.broadcast (h : ClientFresh txid w) {round : ByteString}
    (hround : Outside txid round) : ClientFresh txid (Relay.broadcast w round 1 data) := by
  refine ⟨h.orderly.broadcast hround.allowed, fun round' data' hposted => ?_⟩
  rcases posted_broadcast_iff.1 hposted with hold | ⟨rfl, -, -⟩
  · exact h.outside round' data' hold
  · exact hround

theorem ClientFresh.allowed (h : ClientFresh txid w) (hplain : Plain data) :
    Allowed txid w 1 (preprocessRound txid) data := by
  refine ⟨fun _ => ⟨rfl, ?_, hplain⟩, fun heq => absurd heq preprocess_ne_ready,
    fun heq => absurd heq preprocess_ne_r2⟩
  rcases h.orderly.preprocess with hempty | ⟨data', -, hsingle⟩
  · exact hempty
  · have hposted : Posted w (preprocessRound txid) 1 data' := by
      rw [Posted, hsingle]
      exact List.mem_singleton.2 rfl
    exact absurd rfl (h.outside _ _ hposted).preprocess

theorem ClientFresh.sent (h : ClientFresh txid w) (hplain : Plain data) :
    ClientSent txid data (Relay.broadcast w (preprocessRound txid) 1 data) := by
  have horderly := h.orderly.broadcast (h.allowed hplain)
  refine ⟨horderly, horderly.batch_eq (posted_broadcast_iff.2 (Or.inr ⟨rfl, rfl, rfl⟩)),
    fun d hposted => ?_⟩
  rcases posted_broadcast_iff.1 hposted with hold | ⟨heq, -, -⟩
  · exact absurd rfl (h.outside _ _ hold).r2
  · exact preprocess_ne_r2 heq.symm

theorem ClientSent.broadcast (h : ClientSent txid data w) {round d : ByteString}
    (hallowed : Allowed txid w 1 round d) (hne : round ≠ r2Round txid) :
    ClientSent txid data (Relay.broadcast w round 1 d) := by
  have horderly := h.orderly.broadcast hallowed
  refine ⟨horderly, ?_, fun d' hposted => ?_⟩
  · apply horderly.batch_eq
    apply grows_broadcast
    rw [Posted, h.batch]
    exact List.mem_singleton.2 rfl
  · rcases posted_broadcast_iff.1 hposted with hold | ⟨heq, -, -⟩
    · exact h.unsigned d' hold
    · exact hne heq.symm

theorem ClientSent.others (h : ClientSent txid data w) (hv : Others txid 1 w v) :
    ClientSent txid data v :=
  ⟨hv.orderly h.orderly, hv.batch_eq h.orderly h.batch,
    fun d hposted => h.unsigned d (hv.own _ _ hposted)⟩

theorem ClientSent.knows (h : ClientSent txid data w)
    (hdecode : deserializeCommitments data = .ok RCommitments)
    (hbatch : ClientBatch D RCommitments s) : ClientKnows D txid w s :=
  ⟨h.orderly.r2_eq_nil h.unsigned, data, RCommitments, h.batch, hdecode, hbatch⟩

end Client

section Server
variable {D : Deployment} {txid : ByteString} {w v : World} {s t : Node} {i : ℕ} {data : ByteString}
variable {RCommitments : List EddsaCommitment}

/-- The server has given up the signing flow of the session. -/
def GaveUp (txid : ByteString) (s : Node) : Prop := ∃ e, Event.signingFailed txid e ∈ s.journal

/-- The batch that the client has posted is the one in a server's store. -/
def ServerKnows (txid : ByteString) (w : World) (s : Node) : Prop :=
  ∃ data RCommitments, w (preprocessRound txid) = [⟨1, data⟩] ∧
    deserializeCommitments data = .ok RCommitments ∧
    ∀ i < preprocessingCount, s.server.preprocessedData configKeyId i = RCommitments[i]?

/-- From when a server is ready until the client signs, the server holds the client's batch. -/
structure HoldsBatch (txid : ByteString) (i : ℕ) (w : World) (s : Node) : Prop where
  orderly : Orderly txid w
  knows : (∃ data, Posted w (readyRound txid) i data) → w (r2Round txid) = [] →
    ¬ GaveUp txid s → ServerKnows txid w s

/-- A server that was ready once has seen that all were, and has signed or given up since. -/
structure Settled (txid : ByteString) (i : ℕ) (gaveUp : Prop) (w : World) : Prop where
  orderly : Orderly txid w
  ready : (∃ data, Posted w (readyRound txid) i data) →
    (gaveUp ∨ w (r2Round txid) ≠ []) ∧
      ∀ j ∈ playersIds, ∃ data, Posted w (readyRound txid) j data

theorem ne_nil_of_grows {round : ByteString} (h : Grows w v) (hne : w round ≠ []) :
    v round ≠ [] := by
  obtain ⟨m, hm⟩ := List.exists_mem_of_ne_nil _ hne
  exact List.ne_nil_of_mem (h round m.senderId m.data hm)

theorem Settled.others {gaveUp : Prop} (h : Settled txid i gaveUp w) (hv : Others txid i w v) :
    Settled txid i gaveUp v := by
  refine ⟨hv.orderly h.orderly, fun ⟨data, hposted⟩ => ?_⟩
  obtain ⟨hdone, hall⟩ := h.ready ⟨data, hv.own _ _ hposted⟩
  exact ⟨hdone.imp id (ne_nil_of_grows hv.grows),
    fun j hj => (hall j hj).imp fun d hd => hv.grows _ _ _ hd⟩

theorem Settled.broadcast {gaveUp : Prop} (h : Settled txid i gaveUp w) {round : ByteString}
    (hround : Outside txid round) :
    Settled txid i gaveUp (Relay.broadcast w round i data) := by
  have hgrows := grows_broadcast w round i data
  refine ⟨h.orderly.broadcast hround.allowed, fun ⟨data, hposted⟩ => ?_⟩
  obtain ⟨hdone, hall⟩ := h.ready
    ⟨data, posted_of_outside hround (Or.inr (Or.inl rfl)) hposted⟩
  exact ⟨hdone.imp id (ne_nil_of_grows hgrows),
    fun j hj => (hall j hj).imp fun d hd => hgrows _ _ _ hd⟩

theorem GaveUp.mono (h : GaveUp txid s) (hst : JournalGrows s t) : GaveUp txid t := by
  obtain ⟨e, he⟩ := h
  exact ⟨e, hst he⟩

theorem Settled.mono (h : Settled txid i (GaveUp txid s) w) (hst : JournalGrows s t) :
    Settled txid i (GaveUp txid t) w :=
  ⟨h.orderly, fun hready => ⟨(h.ready hready).1.imp (fun hup => hup.mono hst) id,
    (h.ready hready).2⟩⟩

theorem Settled.holds (h : Settled txid i (GaveUp txid s) w) : HoldsBatch txid i w s := by
  refine ⟨h.orderly, fun hready hunsigned hstanding => ?_⟩
  rcases (h.ready hready).1 with hup | hsigned
  · exact absurd hup hstanding
  · exact absurd hunsigned hsigned

section Storing

end Storing

/-- A server in the signing flow of the session. -/
structure During (txid : ByteString) (signed : Prop) (s : Node) (w : World) : Prop where
  orderly : Orderly txid w
  knows : ServerKnows txid w s
  ready : ∀ j ∈ playersIds, ∃ data, Posted w (readyRound txid) j data
  signed : signed → w (r2Round txid) ≠ []

variable {signed : Prop}

theorem ServerKnows.keeps (h : ServerKnows txid w s) (hst : FlowKeeps s t) :
    ServerKnows txid w t := by
  obtain ⟨data, RCommitments, hbatch, hdecode, hstored⟩ := h
  exact ⟨data, RCommitments, hbatch, hdecode, fun j hj => by
    rw [hst.preprocessedData]
    exact hstored j hj⟩

theorem ServerKnows.others (h : ServerKnows txid w s) (horderly : Orderly txid w)
    (hv : Others txid i w v) : ServerKnows txid v s := by
  obtain ⟨data, RCommitments, hbatch, hknown⟩ := h
  exact ⟨data, RCommitments, hv.batch_eq horderly hbatch, hknown⟩

theorem ServerKnows.broadcast (h : ServerKnows txid w s) {round : ByteString}
    (hround : round ≠ preprocessRound txid) :
    ServerKnows txid (Relay.broadcast w round i data) s := by
  obtain ⟨data', RCommitments, hbatch, hknown⟩ := h
  refine ⟨data', RCommitments, ?_, hknown⟩
  rw [Relay.broadcast, Function.update_of_ne hround.symm]
  exact hbatch

theorem During.keeps (h : During txid signed s w) (hst : FlowKeeps s t) :
    During txid signed t w := ⟨h.orderly, h.knows.keeps hst, h.ready, h.signed⟩

theorem During.others (h : During txid signed s w) (hv : Others txid i w v) :
    During txid signed s v :=
  ⟨hv.orderly h.orderly, h.knows.others h.orderly hv,
    fun j hj => (h.ready j hj).imp fun _ hd => hv.grows _ _ _ hd,
    fun hsigned => ne_nil_of_grows hv.grows (h.signed hsigned)⟩

theorem During.broadcast (h : During txid signed s w) {round : ByteString}
    (hround : Outside txid round) : During txid signed s (Relay.broadcast w round i data) := by
  have hgrows := grows_broadcast w round i data
  exact ⟨h.orderly.broadcast hround.allowed, h.knows.broadcast hround.preprocess,
    fun j hj => (h.ready j hj).imp fun _ hd => hgrows _ _ _ hd,
    fun hsigned => ne_nil_of_grows hgrows (h.signed hsigned)⟩

theorem During.holds (h : During txid signed s w) : HoldsBatch txid i w s :=
  ⟨h.orderly, fun _ _ _ => h.knows⟩

theorem HoldsBatch.others (h : HoldsBatch txid i w s) (hv : Others txid i w v) :
    HoldsBatch txid i v s := by
  refine ⟨hv.orderly h.orderly, fun hready hunsigned hstanding => ?_⟩
  obtain ⟨data, hposted⟩ := hready
  have hbefore : w (r2Round txid) = [] := by
    by_contra hne
    exact ne_nil_of_grows hv.grows hne hunsigned
  exact (h.knows ⟨data, hv.own _ _ hposted⟩ hbefore hstanding).others h.orderly hv

end Server

section Barrier
variable {D : Deployment} {txid : ByteString} {turns : ℕ → List (ByteString × Bool)}
variable {c : Configuration}

end Barrier

section Concrete
open Ed25519Algebra NodeRuns

end Concrete

end MpcDemo.BarrierBatches
