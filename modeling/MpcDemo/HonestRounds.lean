import MpcDemo.NodeFrames

/-!
# The protocol of the nodes

What the nodes post to the rounds of key generation, whatever they agree on for the sessions, and
how far a node has come in the rounds that it still has to post to.
-/

namespace MpcDemo.HonestRounds
open ByteStrings Ed25519Algebra CosignerTypes Persistencies NodeState Processes RelayProtocols
open HexText Serialization NodePrograms ThreeNodes NodeFrames

/-- What the nodes may post to the rounds of sessions, given what the relay holds. -/
structure SessionRules where
  Permits : World → Round → ℕ → ByteString → Prop
  permits_grows : ∀ w w' r i data, Grows w w' → Permits w r i data → Permits w' r i data
  plain : ∀ w r i data, Permits w r i data → Plain data

/-- The rules under which anything goes that arrives as it was sent. -/
def plainRules : SessionRules := ⟨fun _ _ _ => Plain, fun _ _ _ _ _ _ => id, fun _ _ _ _ => id⟩

/-- The keys in a decommitment have lengths that fit 32 bits. -/
structure Sized (d : SetupDecommitment) : Prop where
  paillier : d.paillierPublicKey.length < 2 ^ 32
  ringPedersen : d.ringPedersenPublicKey.length < 2 ^ 32

variable (E : Ed25519) (S : SessionRules)

/-- A decommitment that shows the share of a point. -/
structure Shows (d : SetupDecommitment) (X : E.Point) : Prop where
  sized : Sized d
  share : d.share.X = Ed25519Point.generic (E.encode X)

/-- The relay holds the share of a player. -/
def Share (w : World) (j : ℕ) (X : E.Point) : Prop :=
  ∃ d, Posted w (Round.name .keygenReveal) j (serializeDecommitment d) ∧ Shows E d X

def Honest (w : World) : Round → ℕ → ByteString → Prop
  | .keygenCommit, _, data => ∃ c, data = serializeCommitment c
  | .keygenReveal, _, data =>
    (∀ j ∈ playersIds, ∃ c, Posted w (Round.name .keygenCommit) j c) ∧
      ∃ (d : SetupDecommitment) (x : ℕ), data = serializeDecommitment d ∧ Shows E d (x • E.base)
  | .preprocess requestId, i, data => S.Permits w (.preprocess requestId) i data
  | .sign step txid, i, data => S.Permits w (.sign step txid) i data

theorem honest_grows {w w' : World} {r : Round} {i : ℕ} {data : ByteString} (hw : Grows w w')
    (h : Honest E S w r i data) : Honest E S w' r i data := by
  cases r with
  | keygenCommit => exact h
  | keygenReveal =>
    obtain ⟨hcommits, hdata⟩ := h
    refine ⟨fun j hj => ?_, hdata⟩
    obtain ⟨c, hc⟩ := hcommits j hj
    exact ⟨c, hw _ _ _ hc⟩
  | preprocess requestId => exact S.permits_grows _ _ _ _ _ hw h
  | sign step txid => exact S.permits_grows _ _ _ _ _ hw h

theorem plain_of_honest {w : World} {r : Round} {i : ℕ} {data : ByteString}
    (h : Honest E S w r i data) : Plain data := by
  cases r with
  | keygenCommit =>
    obtain ⟨c, rfl⟩ := h
    exact plain_toHex _
  | keygenReveal =>
    obtain ⟨-, d, x, rfl, -⟩ := h
    exact plain_toHex _
  | preprocess requestId => exact S.plain _ _ _ _ h
  | sign step txid => exact S.plain _ _ _ _ h

/-- The nodes as players of a protocol. -/
def nodes : Protocol where
  Round := Round
  name := Round.name
  name_injective := Round.name_injective
  senders := Round.senders
  senders_subset := Round.senders_subset
  Honest := Honest E S
  honest_grows _ _ _ _ _ := honest_grows E S
  plain _ _ _ _ := plain_of_honest E S

variable {E S}

theorem Share.grows {w w' : World} {j : ℕ} {X : E.Point} (hw : Grows w w') (h : Share E w j X) :
    Share E w' j X := by
  obtain ⟨d, hd, hshows⟩ := h
  exact ⟨d, hw _ _ _ hd, hshows⟩

theorem Shows.unique {d : SetupDecommitment} {X Y : E.Point} (h : Shows E d X)
    (h' : Shows E d Y) : X = Y := by
  have heq := congrArg EllipticCurvePoint.ed25519 (h.share.symm.trans h'.share)
  rw [ed25519_generic, ed25519_generic] at heq
  exact encode_injective heq

theorem Shows.decode {d : SetupDecommitment} {X : E.Point} (h : Shows E d X) :
    deserializeDecommitment (serializeDecommitment d) = .ok d :=
  deserialize_serializeDecommitment h.sized.paillier h.sized.ringPedersen

theorem Share.unique {w : World} (hw : (nodes E S).Legal w) {j : ℕ} {X Y : E.Point}
    (h : Share E w j X) (h' : Share E w j Y) : X = Y := by
  obtain ⟨d, hd, hshows⟩ := h
  obtain ⟨d', hd', hshows'⟩ := h'
  have heq := @Protocol.Legal.posted_unique w j _ _ (nodes E S) .keygenReveal hw hd hd'
  have hdecode := hshows.decode
  rw [heq, hshows'.decode] at hdecode
  rw [Except.ok.inj hdecode] at hshows'
  exact hshows.unique hshows'

section Progress

/-- The order in which a node comes to the rounds of key generation or of a session. -/
def rank : Round → ℕ
  | .keygenCommit => 0
  | .keygenReveal => 1
  | .preprocess _ => 0
  | .sign .ready _ => 1
  | .sign .serverCommit _ => 2
  | .sign .serverDecommitR _ => 3
  | .sign .serverR _ => 4
  | .sign .r2 _ => 5
  | .sign .r2Sigs _ => 6
  | .sign .r3 _ => 7

variable {P : Protocol} {mine later : Round → Prop}

/-- Player `i` has not posted to any of its rounds from a rank on, nor to later ones. -/
structure Ahead (E : Ed25519) (S : SessionRules) (i : ℕ) (mine later : Round → Prop) (k : ℕ)
    (w : World) : Prop where
  legal : (nodes E S).Legal w
  fresh : ∀ r, later r ∨ mine r ∧ k ≤ rank r → ¬ (nodes E S).Sent w r i

variable {i k : ℕ} {w v : World}

theorem Ahead.others (h : Ahead E S i mine later k w) (hv : (nodes E S).Others i w v) :
    Ahead E S i mine later k v :=
  ⟨hv.legal h.legal, fun r hr => hv.not_sent (h.fresh r hr)⟩

theorem Ahead.mono (h : Ahead E S i mine later k w) {l : ℕ} (hl : k ≤ l) :
    Ahead E S i mine later l w :=
  ⟨h.legal, fun r hr => h.fresh r (hr.imp_right fun hmine => ⟨hmine.1, hl.trans hmine.2⟩)⟩

variable {r : Round} {data : ByteString}

theorem Ahead.posts (h : Ahead E S i mine later k w) (hk : k ≤ rank r) (hr : ¬ later r)
    (hv : @Protocol.Posts (nodes E S) i r data w v) :
    Ahead E S i mine later (rank r + 1) v := by
  refine ⟨hv.legal, fun r' hr' => hv.not_sent ?_ (h.fresh r' ?_)⟩
  · rintro rfl
    rcases hr' with hlater | ⟨-, hrank⟩
    · exact hr hlater
    · omega
  · exact hr'.imp_right fun hmine => ⟨hmine.1, by omega⟩

end Progress

section Rules
variable {i k : ℕ} {mine later : Round → Prop} {w : World} {s : Node} {α : Type}
variable {A : World → Node → Prop} {Q : World → Except Failure α → Node → Prop} {r : Round}

/-- What player `i` asserts is not disturbed by the others. -/
def Undisturbed (E : Ed25519) (S : SessionRules) (i : ℕ) (A : World → Node → Prop) : Prop :=
  ∀ w v s, (nodes E S).Others i w v → A w s → A v s

/-- Post to the next round. -/
theorem safe_post_next (hA : Undisturbed E S i A) (hw : A w s)
    (hahead : Ahead E S i mine later k w) (hk : k ≤ rank r) (hmine : mine r) (hlater : ¬ later r)
    (hsender : i ∈ r.senders) {data : ByteString} (hhonest : Honest E S w r i data)
    {f : Unit → NodeProg α}
    (hnext : ∀ v, @Protocol.Posts (nodes E S) i r data w v →
      Ahead E S i mine later (rank r + 1) v →
      Safe ((nodes E S).environment i) A Q (f () s) v) :
    Safe ((nodes E S).environment i) A Q ((Prog.post r.name data >>= f) s) w := by
  have hfresh := hahead.fresh r (Or.inr ⟨hmine, hk⟩)
  refine @Protocol.safe_broadcast_bind w i data (nodes E S) r Node α A Q s f
    (fun v hv => hA w v s hv hw) hahead.legal ⟨hsender, hfresh, hhonest⟩ fun v hv => ?_
  exact hnext v hv (hahead.posts hk hlater hv)

/-- Wait for the messages of all senders of a round. -/
theorem safe_await_next (hA : Undisturbed E S i A) (hw : A w s)
    (hahead : Ahead E S i mine later k w) {count : ℕ} (hcount : count = r.senders.card)
    {f : PlayerMap ByteString → NodeProg α}
    (hnext : ∀ v a, (nodes E S).Others i w v → Ahead E S i mine later k v → A v s →
      @Protocol.Answers (nodes E S) r v a →
      Safe ((nodes E S).environment i) A Q (f a s) v) :
    Safe ((nodes E S).environment i) A Q ((Prog.await r.name count >>= f) s) w := by
  refine @Protocol.safe_answer_bind w i (nodes E S) r Node α A Q s count f
    (fun v hv => hA w v s hv hw) hahead.legal hcount fun v a hv _ ha => ?_
  exact hnext v a hv (hahead.others hv) (hA w v s hv hw) ha

theorem senders_nonempty (r : Round) : r.senders.Nonempty := by
  cases r with
  | keygenCommit => exact ⟨1, by decide⟩
  | keygenReveal => exact ⟨1, by decide⟩
  | preprocess requestId => exact ⟨1, Finset.mem_singleton_self 1⟩
  | sign step txid =>
    cases step with
    | ready => exact ⟨1, (by decide : 1 ∈ SigningStep.ready.senders)⟩
    | r2 => exact ⟨1, (by decide : 1 ∈ SigningStep.r2.senders)⟩
    | _ => exact ⟨2, (by decide : 2 ∈ SigningStep.r3.senders)⟩

/-- What every sender of a round has posted, in the words of its messages. -/
theorem exists_messages {V : Type} (encode : ℕ → V → ByteString) (good : ℕ → V → Prop)
    {a : PlayerMap ByteString} (hw : (nodes E S).Legal w)
    (ha : @Protocol.Answers (nodes E S) r w a)
    (hhonest : ∀ j data, Honest E S w r j data → ∃ x, data = encode j x ∧ good j x) :
    ∃ value : ℕ → V,
      (∀ j ∈ r.senders, Posted w r.name j (encode j (value j)) ∧ good j (value j)) ∧
      ∀ (j : ℕ) data, a[j]? = some data ↔ j ∈ r.senders ∧ data = encode j (value j) := by
  have hsent : ∀ j ∈ r.senders, ∃ x, Posted w r.name j (encode j x) ∧ good j x := by
    intro j hj
    obtain ⟨data, hdata⟩ := ha.sent j hj
    obtain ⟨x, rfl, hx⟩ := hhonest j data (hw.honest r j data hdata)
    exact ⟨x, hdata, hx⟩
  obtain ⟨some, hsome⟩ := senders_nonempty r
  obtain ⟨default, -⟩ := hsent some hsome
  have hvalue : ∀ j, ∃ x, j ∈ r.senders → Posted w r.name j (encode j x) ∧ good j x := by
    intro j
    by_cases hj : j ∈ r.senders
    · obtain ⟨x, hx⟩ := hsent j hj
      exact ⟨x, fun _ => hx⟩
    · exact ⟨default, fun h => absurd h hj⟩
  choose value hvalue using hvalue
  refine ⟨value, hvalue, fun j data => ?_⟩
  rw [ha.entries]
  constructor
  · intro h
    have hj := hw.senders r j data h
    exact ⟨hj, @Protocol.Legal.posted_unique w j _ _ (nodes E S) r hw h (hvalue j hj).1⟩
  · intro h
    obtain ⟨hj, rfl⟩ := h
    exact (hvalue j hj).1

end Rules

end MpcDemo.HonestRounds
