import MpcDemo.NodePrograms

/-!
# Protocols over the relay

A protocol has rounds and says for each of them who posts there and what an honest player may
post, given what the relay already holds. As long as every player posts to a round at most
once, a poll for as many messages as the round has senders is answered with exactly one message
of each, and what another player does never takes anything back.
-/

namespace MpcDemo.RelayProtocols
open ByteStrings CosignerTypes Persistencies HexText NetworkManager Relay Processes
open NodePrograms (playersIds)

/-- The messages that the relay holds. -/
abbrev World := Messages ByteString ℕ ByteString

def Posted (w : World) (round : ByteString) (i : ℕ) (data : ByteString) : Prop :=
  ⟨i, data⟩ ∈ w round

def Grows (w w' : World) : Prop := ∀ round i data, Posted w round i data → Posted w' round i data

variable {w w' : World} {i j : ℕ} {data data' : ByteString}

theorem grows_refl (w : World) : Grows w w := fun _ _ _ h => h

theorem Grows.trans {v : World} (h : Grows w w') (h' : Grows w' v) : Grows w v :=
  fun round i data hposted => h' round i data (h round i data hposted)

theorem posted_broadcast_iff {round round' : ByteString} :
    Posted (broadcast w round i data) round' j data' ↔
      Posted w round' j data' ∨ round' = round ∧ j = i ∧ data' = data := by
  rw [Posted, Posted, broadcast]
  by_cases hround : round' = round
  · subst hround
    rw [Function.update_self, List.mem_append, List.mem_singleton, Message.mk.injEq]
    simp only [true_and]
  · rw [Function.update_of_ne hround]
    simp only [hround, false_and, or_false]

theorem grows_broadcast (w : World) (round : ByteString) (i : ℕ) (data : ByteString) :
    Grows w (broadcast w round i data) :=
  fun _ _ _ h => posted_broadcast_iff.2 (Or.inl h)

structure Protocol where
  Round : Type
  name : Round → ByteString
  name_injective : Function.Injective name
  senders : Round → Finset ℕ
  senders_subset : ∀ r, senders r ⊆ playersIds
  /-- What a player may post to a round while the relay holds some messages. -/
  Honest : World → Round → ℕ → ByteString → Prop
  honest_grows : ∀ w w' r i data, Grows w w' → Honest w r i data → Honest w' r i data
  plain : ∀ w r i data, Honest w r i data → Plain data

namespace Protocol
variable (P : Protocol)

def Sent (w : World) (r : P.Round) (i : ℕ) : Prop := ∃ data, Posted w (P.name r) i data

/-- Nobody has posted to a round twice, and everything was posted honestly. -/
structure Legal (w : World) : Prop where
  nodup : ∀ r, ((w (P.name r)).map Message.senderId).Nodup
  senders : ∀ r i data, Posted w (P.name r) i data → i ∈ P.senders r
  honest : ∀ r i data, Posted w (P.name r) i data → P.Honest w r i data

/-- How the relay may change by what the players other than `i` do. -/
structure Others (i : ℕ) (w w' : World) : Prop where
  legal : P.Legal w → P.Legal w'
  grows : Grows w w'
  own : ∀ round data, Posted w' round i data → Posted w round i data

/-- What it takes to post to a round. -/
structure MayPost (w : World) (i : ℕ) (r : P.Round) (data : ByteString) : Prop where
  sender : i ∈ P.senders r
  fresh : ¬ P.Sent w r i
  honest : P.Honest w r i data

/-- The relay as player `i` meets it. -/
def environment (i : ℕ) : Environment World ByteString ByteString (PlayerMap ByteString) where
  rely := P.Others i
  rely_refl w := ⟨id, grows_refl w, fun _ _ => id⟩
  rely_trans _ _ _ h h' := ⟨h'.legal ∘ h.legal, h.grows.trans h'.grows,
    fun round data => h.own round data ∘ h'.own round data⟩
  posted w round data := broadcast w round i data
  allowed w round data := ∃ r, round = P.name r ∧ P.MayPost w i r data
  answers w round count a :=
    awaitResponse totalPlayers (jsonify (poll w round count)) = some a

variable {P} {r : P.Round}

theorem legal_start : P.Legal fun _ => [] :=
  ⟨fun _ => List.nodup_nil, fun _ _ _ h => absurd h List.not_mem_nil,
    fun _ _ _ h => absurd h List.not_mem_nil⟩

theorem Legal.posted_unique (hw : P.Legal w) (h : Posted w (P.name r) i data)
    (h' : Posted w (P.name r) i data') : data = data' := by
  have heq := List.inj_on_of_nodup_map (hw.nodup r) h h' rfl
  exact (Message.mk.inj heq).2

theorem Sent.grows (h : P.Sent w r i) (hw : Grows w w') : P.Sent w' r i := by
  obtain ⟨data, hdata⟩ := h
  exact ⟨data, hw _ _ _ hdata⟩

theorem Others.not_sent (h : P.Others i w w') (hfresh : ¬ P.Sent w r i) : ¬ P.Sent w' r i := by
  intro hsent
  obtain ⟨data, hdata⟩ := hsent
  exact hfresh ⟨data, h.own _ data hdata⟩

private theorem posted_broadcast_name_iff {r' : P.Round} :
    Posted (broadcast w (P.name r) i data) (P.name r') j data' ↔
      Posted w (P.name r') j data' ∨ r' = r ∧ j = i ∧ data' = data := by
  rw [posted_broadcast_iff, P.name_injective.eq_iff]

theorem Legal.broadcast (hw : P.Legal w) (h : P.MayPost w i r data) :
    P.Legal (broadcast w (P.name r) i data) := by
  have hgrows := grows_broadcast w (P.name r) i data
  refine ⟨fun r' => ?_, fun r' j data' hposted => ?_, fun r' j data' hposted => ?_⟩
  · rw [Relay.broadcast]
    by_cases hr : r' = r
    · subst hr
      rw [Function.update_self, List.map_append, List.map_singleton, List.nodup_append]
      refine ⟨hw.nodup r', List.nodup_singleton _, fun j hj k hk => ?_⟩
      rw [List.mem_singleton.1 hk]
      obtain ⟨m, hm, rfl⟩ := List.mem_map.1 hj
      intro heq
      have hsame : m = ⟨i, m.data⟩ := by rw [← show m.senderId = i from heq]
      exact h.fresh ⟨m.data, by rw [Posted, ← hsame]; exact hm⟩
    · rw [Function.update_of_ne fun heq => hr (P.name_injective heq)]
      exact hw.nodup r'
  · rcases posted_broadcast_name_iff.1 hposted with hold | ⟨rfl, rfl, -⟩
    · exact hw.senders r' j data' hold
    · exact h.sender
  · rcases posted_broadcast_name_iff.1 hposted with hold | ⟨rfl, rfl, rfl⟩
    · exact P.honest_grows _ _ _ _ _ hgrows (hw.honest r' j data' hold)
    · exact P.honest_grows _ _ _ _ _ hgrows h.honest

theorem others_broadcast (h : P.MayPost w i r data) (hne : j ≠ i) :
    P.Others j w (broadcast w (P.name r) i data) := by
  refine ⟨fun hw => hw.broadcast h, grows_broadcast _ _ _ _, fun round data' hposted => ?_⟩
  rcases posted_broadcast_iff.1 hposted with hold | ⟨-, heq, -⟩
  · exact hold
  · exact absurd heq hne

/-- With one message of each sender a ready round is answered exactly. -/
theorem Legal.answer (hw : P.Legal w) {a : PlayerMap ByteString}
    (ha : awaitResponse totalPlayers (jsonify (poll w (P.name r) (P.senders r).card)) = some a) :
    (∀ j ∈ P.senders r, P.Sent w r j) ∧
      ∀ j data, a[j]? = some data ↔ Posted w (P.name r) j data := by
  have hnodup := hw.nodup r
  by_cases hready : Ready w (P.name r) (P.senders r).card
  · rw [poll, if_pos hready, dataMap_of_nodup hnodup] at ha
    have hkeys : (((w (P.name r)).map fun m => (m.senderId, m.data)).map Prod.fst) =
        (w (P.name r)).map Message.senderId := by
      rw [List.map_map]
      rfl
    have hsenders : ∀ m ∈ w (P.name r), m.senderId ∈ P.senders r :=
      fun m hm => hw.senders r m.senderId m.data hm
    obtain ⟨a', ha', hentries⟩ := @awaitResponse_jsonify _ totalPlayers (by decide)
      (hkeys ▸ hnodup) (fun e he => by
        obtain ⟨m, hm, rfl⟩ := List.mem_map.1 he
        have hplayer := P.senders_subset r (hsenders m hm)
        simp only [playersIds, Finset.mem_insert, Finset.mem_singleton] at hplayer
        simp only [totalPlayers]
        omega) fun e he => by
        obtain ⟨m, hm, rfl⟩ := List.mem_map.1 he
        exact P.plain _ _ _ _ (hw.honest r m.senderId m.data hm)
    obtain rfl := Option.some.inj (ha'.symm.trans ha)
    constructor
    · have hsub : ((w (P.name r)).map Message.senderId).toFinset ⊆ P.senders r := by
        intro j hj
        obtain ⟨m, hm, rfl⟩ := List.mem_map.1 (List.mem_toFinset.1 hj)
        exact hsenders m hm
      have hcard : (P.senders r).card ≤ ((w (P.name r)).map Message.senderId).toFinset.card := by
        rw [List.toFinset_card_of_nodup hnodup, List.length_map]
        exact Int.ofNat_le.1 hready
      intro j hj
      rw [← Finset.eq_of_subset_of_card_le hsub hcard, List.mem_toFinset] at hj
      obtain ⟨m, hm, rfl⟩ := List.mem_map.1 hj
      exact ⟨m.data, hm⟩
    · intro j data
      rw [hentries, List.mem_map]
      constructor
      · intro h
        obtain ⟨m, hm, heq⟩ := h
        cases heq
        exact hm
      · intro h
        exact ⟨⟨j, data⟩, h, rfl⟩
  · rw [poll, if_neg hready, awaitResponse, isReady_jsonify_none] at ha
    cases ha

/-- How the relay stands after a post of player `i`. -/
structure Posts (i : ℕ) (r : P.Round) (data : ByteString) (w w' : World) : Prop where
  legal : P.Legal w'
  grows : Grows w w'
  posted : Posted w' (P.name r) i data
  own : ∀ r' data', Posted w' (P.name r') i data' →
    Posted w (P.name r') i data' ∨ r' = r ∧ data' = data

/-- An answer that has the message of every sender of a round. -/
structure Answers (r : P.Round) (w : World) (a : PlayerMap ByteString) : Prop where
  sent : ∀ j ∈ P.senders r, P.Sent w r j
  entries : ∀ j data, a[j]? = some data ↔ Posted w (P.name r) j data

theorem Posts.not_sent {r' : P.Round} (h : P.Posts i r data w w') (hne : r' ≠ r)
    (hfresh : ¬ P.Sent w r' i) : ¬ P.Sent w' r' i := by
  intro hsent
  obtain ⟨data', hdata'⟩ := hsent
  rcases h.own r' data' hdata' with hold | ⟨heq, -⟩
  · exact hfresh ⟨data', hold⟩
  · exact hne heq

section Rules
variable {σ α : Type} {A : World → σ → Prop} {Q : World → Except Failure α → σ → Prop}
variable {s : σ}

theorem safe_broadcast_bind
    {f : Unit → Prog Failure σ ByteString ByteString (PlayerMap ByteString) α}
    (hA : ∀ v, P.Others i w v → A v s) (hw : P.Legal w) (hpost : P.MayPost w i r data)
    (hnext : ∀ v, P.Posts i r data w v → Safe (P.environment i) A Q (f () s) v) :
    Safe (P.environment i) A Q ((Prog.post (P.name r) data >>= f) s) w := by
  refine safe_post_bind fun v hv => ?_
  have hmay : P.MayPost v i r data := ⟨hpost.sender, hv.not_sent hpost.fresh,
    P.honest_grows _ _ _ _ _ hv.grows hpost.honest⟩
  have hgrows := grows_broadcast v (P.name r) i data
  refine ⟨hA v hv, ⟨r, rfl, hmay⟩, hnext _ ⟨(hv.legal hw).broadcast hmay, hv.grows.trans hgrows,
    posted_broadcast_name_iff.2 (Or.inr ⟨rfl, rfl, rfl⟩), fun r' data' hposted => ?_⟩⟩
  rcases posted_broadcast_name_iff.1 hposted with hold | ⟨hr, -, hdata⟩
  · exact Or.inl (hv.own _ _ hold)
  · exact Or.inr ⟨hr, hdata⟩

theorem safe_answer_bind {count : ℕ}
    {f : PlayerMap ByteString → Prog Failure σ ByteString ByteString (PlayerMap ByteString) α}
    (hA : ∀ v, P.Others i w v → A v s) (hw : P.Legal w) (hcount : count = (P.senders r).card)
    (hnext : ∀ v a, P.Others i w v → P.Legal v → P.Answers r v a →
      Safe (P.environment i) A Q (f a s) v) :
    Safe (P.environment i) A Q ((Prog.await (P.name r) count >>= f) s) w := by
  refine safe_await_bind fun v hv => ⟨hA v hv, fun a ha => ?_⟩
  subst hcount
  obtain ⟨hsent, hentries⟩ := (hv.legal hw).answer ha
  exact hnext v a hv (hv.legal hw) ⟨hsent, hentries⟩

end Rules

section Systems
variable {σ α κ : Type} [DecidableEq κ] {player : κ → ℕ}
variable {A : κ → World → σ → Prop} {Q : κ → World → Except Failure α → σ → Prop}
variable {c start : Config World κ Failure σ ByteString ByteString (PlayerMap ByteString) α}

/-- Players that are safe from an empty relay on stay safe in every interleaving. -/
theorem allSafe_reachable (hplayer : Function.Injective player)
    (hstart : AllSafe (fun k => P.environment (player k)) A Q P.Legal start)
    (h : Reachable (fun k => P.environment (player k)) start c) :
    AllSafe (fun k => P.environment (player k)) A Q P.Legal c := by
  refine AllSafe.reachable (fun k w round data hw hallowed => ?_) hstart h
  obtain ⟨r, rfl, hmay⟩ := hallowed
  exact ⟨hw.broadcast hmay, fun k' hne =>
    others_broadcast hmay fun heq => hne (hplayer heq)⟩

end Systems

end Protocol

end MpcDemo.RelayProtocols
