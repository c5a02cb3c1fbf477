import MpcDemo.NetworkManager
import MpcDemo.Processes
import MpcDemo.NodeState

/-!
# Programs of a node

What the orchestrators have in common: the round trip to the relay, the decoding of a round's
answer, and the players of the demo.
-/

namespace MpcDemo.NodePrograms
open ByteStrings CosignerTypes FallibleState Persistencies NodeState Processes

/-- A program of a node: rounds and data are strings, and an answer is a map by player. -/
abbrev NodeProg := Prog Failure Node ByteString ByteString (PlayerMap ByteString)

def broadcast (roundId data : ByteString) : NodeProg Unit := Prog.post roundId data

def awaitDataCustomCount (roundId : ByteString) (expectedCount : ℕ) :
    NodeProg (PlayerMap ByteString) := Prog.await roundId expectedCount

def awaitData (roundId : ByteString) : NodeProg (PlayerMap ByteString) :=
  awaitDataCustomCount roundId totalPlayers

def playersIds : Finset ℕ := {1, 2, 3}

/-- Write to the journal. -/
def note (e : Event) : EStateM Failure Node Unit :=
  modify fun s => { s with journal := e :: s.journal }

/-- Decode the entries of some players, in the order of their ids. -/
def decodeEntries {V : Type} (decode : ByteString → Except Failure V) (keep : ℕ → Bool)
    (data : PlayerMap ByteString) : Except Failure (PlayerMap V) := do
  let entries ← (data.toList.filter fun e => keep e.1).mapM fun e =>
    (decode e.2).map fun v => (e.1, v)
  .ok (entries.foldl (fun res e => res.insert e.1 e.2) ∅)

section Entries
variable {V : Type} {decode : ByteString → Except Failure V} {keep : ℕ → Bool}
variable {data : PlayerMap ByteString}

theorem nodup_keys {α : Type} (m : PlayerMap α) : (m.toList.map Prod.fst).Nodup := by
  rw [List.nodup_iff_pairwise_ne, List.pairwise_map]
  refine (Std.ExtTreeMap.distinct_keys_toList (t := m)).imp fun h heq => h ?_
  exact Nat.compare_eq_eq.2 heq

private theorem decodeEntry_ok_iff {e : ℕ × ByteString} {r : ℕ × V} :
    (decode e.2).map (fun v => (e.1, v)) = .ok r ↔ r.1 = e.1 ∧ decode e.2 = .ok r.2 := by
  cases decode e.2 with
  | error _ => simp [Except.map]
  | ok v =>
    simp only [Except.map, Except.ok.injEq]
    constructor
    · intro h
      rw [← h]
      exact ⟨rfl, rfl⟩
    · intro h
      rw [← h.1, h.2]

/-- Corresponding entries have the same player, and the decoded value of one is the other's. -/
def EntriesDecode (decode : ByteString → Except Failure V) :
    List (ℕ × ByteString) → List (ℕ × V) → Prop :=
  List.Forall₂ fun e r => r.1 = e.1 ∧ decode e.2 = .ok r.2

theorem decodeEntries_ok_iff {m : PlayerMap V} : decodeEntries decode keep data = .ok m ↔
    ∃ entries, EntriesDecode decode (data.toList.filter fun e => keep e.1) entries ∧
      m = entries.foldl (fun res e => res.insert e.1 e.2) ∅ := by
  simp only [decodeEntries, except_bind_ok_iff, except_mapM_ok_iff_forall₂, decodeEntry_ok_iff]
  refine exists_congr fun entries => and_congr_right fun _ => ?_
  rw [Except.ok.injEq]
  exact eq_comm

theorem EntriesDecode.keys_eq {l : List (ℕ × ByteString)} {entries : List (ℕ × V)}
    (h : EntriesDecode decode l entries) : entries.map Prod.fst = l.map Prod.fst := by
  induction h with
  | nil => rfl
  | cons hr _ ih => rw [List.map_cons, List.map_cons, ih, hr.1]

theorem EntriesDecode.mem_iff {l : List (ℕ × ByteString)} {entries : List (ℕ × V)}
    (h : EntriesDecode decode l entries) (i : ℕ) (v : V) :
    (i, v) ∈ entries ↔ ∃ hex, (i, hex) ∈ l ∧ decode hex = .ok v := by
  induction h with
  | nil => simp
  | @cons e r l entries hr _ ih =>
    obtain ⟨j, hex'⟩ := e
    obtain ⟨j', v'⟩ := r
    obtain ⟨rfl, hv'⟩ := hr
    simp only [List.mem_cons, ih, Prod.mk.injEq]
    constructor
    · intro h
      rcases h with ⟨rfl, rfl⟩ | ⟨hex, hmem, hv⟩
      · exact ⟨hex', Or.inl ⟨rfl, rfl⟩, hv'⟩
      · exact ⟨hex, Or.inr hmem, hv⟩
    · intro h
      obtain ⟨hex, hmem, hv⟩ := h
      rcases hmem with ⟨rfl, rfl⟩ | hmem
      · exact Or.inl ⟨rfl, Except.ok.inj (hv.symm.trans hv')⟩
      · exact Or.inr ⟨hex, hmem, hv⟩

theorem getElem?_decodeEntries {m : PlayerMap V} (h : decodeEntries decode keep data = .ok m)
    (i : ℕ) (v : V) :
    m[i]? = some v ↔ keep i = true ∧ ∃ hex, data[i]? = some hex ∧ decode hex = .ok v := by
  obtain ⟨entries, hentries, rfl⟩ := decodeEntries_ok_iff.1 h
  have hnodup : (entries.map Prod.fst).Nodup := by
    rw [hentries.keys_eq]
    exact (nodup_keys data).sublist (List.filter_sublist.map Prod.fst)
  rw [NetworkManager.getElem?_foldl_insert hnodup, hentries.mem_iff]
  simp only [List.mem_filter, Std.ExtTreeMap.mem_toList_iff_getElem?_eq_some,
    Std.ExtTreeMap.getElem?_empty, reduceCtorEq, and_false, or_false]
  constructor
  · intro h
    obtain ⟨hex, ⟨hget, hkeep⟩, hv⟩ := h
    exact ⟨hkeep, hex, hget, hv⟩
  · intro h
    obtain ⟨hkeep, hex, hget, hv⟩ := h
    exact ⟨hex, ⟨hget, hkeep⟩, hv⟩

/-- What is kept has been decoded. -/
theorem exists_of_decodeEntries {m : PlayerMap V} (h : decodeEntries decode keep data = .ok m)
    {i : ℕ} {hex : ByteString} (hkeep : keep i = true) (hhex : data[i]? = some hex) :
    ∃ v, decode hex = .ok v := by
  obtain ⟨entries, hentries, -⟩ := decodeEntries_ok_iff.1 h
  have hmem : (i, hex) ∈ data.toList.filter fun e => keep e.1 :=
    List.mem_filter.2 ⟨Std.ExtTreeMap.mem_toList_iff_getElem?_eq_some.2 hhex, hkeep⟩
  obtain ⟨n, hn, heq⟩ := List.mem_iff_getElem.1 hmem
  have hlength := hentries.length_eq
  have hentry := (List.forall₂_iff_get.1 hentries).2 n hn (hlength ▸ hn)
  simp only [List.get_eq_getElem, heq] at hentry
  exact ⟨_, hentry.2⟩

theorem exists_decodeEntries
    (h : ∀ i hex, keep i = true → data[i]? = some hex → ∃ v, decode hex = .ok v) :
    ∃ m, decodeEntries decode keep data = .ok m := by
  have hlist : ∀ l : List (ℕ × ByteString), (∀ e ∈ l, ∃ v, decode e.2 = .ok v) →
      ∃ entries, EntriesDecode decode l entries := by
    intro l
    induction l with
    | nil => exact fun _ => ⟨[], .nil⟩
    | cons e l ih =>
      intro hl
      obtain ⟨v, hv⟩ := hl e List.mem_cons_self
      obtain ⟨entries, hentries⟩ := ih fun e' he => hl e' (List.mem_cons_of_mem e he)
      exact ⟨(e.1, v) :: entries, .cons ⟨rfl, hv⟩ hentries⟩
  obtain ⟨entries, hentries⟩ := hlist (data.toList.filter fun e => keep e.1) fun e he => by
    obtain ⟨hmem, hkeep⟩ := List.mem_filter.1 he
    exact h e.1 e.2 hkeep (Std.ExtTreeMap.mem_toList_iff_getElem?_eq_some.1 hmem)
  exact ⟨_, decodeEntries_ok_iff.2 ⟨entries, hentries, rfl⟩⟩

/-- Maps with the same entries are equal. -/
theorem ext_entries {m m' : PlayerMap V} (h : ∀ (i : ℕ) (v : V), m[i]? = some v ↔ m'[i]? = some v) :
    m = m' := by
  apply Std.ExtTreeMap.ext_getElem?
  intro i
  exact Option.ext fun v => h i v

/-- The map that a list of entries makes. -/
def ofEntries (entries : List (ℕ × V)) : PlayerMap V :=
  entries.foldl (fun res e => res.insert e.1 e.2) ∅

theorem getElem?_ofEntries {entries : List (ℕ × V)} (hkeys : (entries.map Prod.fst).Nodup) (i : ℕ)
    (v : V) : (ofEntries entries)[i]? = some v ↔ (i, v) ∈ entries := by
  rw [ofEntries, NetworkManager.getElem?_foldl_insert hkeys]
  simp

/-- What was encoded in the answer to a round is decoded from it. -/
theorem decodeEntries_jsonify {encode : V → ByteString} {entries : List (ℕ × V)}
    (hkeys : (entries.map Prod.fst).Nodup) (hrange : ∀ e ∈ entries, 1 ≤ e.1 ∧ e.1 ≤ totalPlayers)
    (hplain : ∀ e ∈ entries, HexText.Plain (encode e.2))
    (hdecode : ∀ e ∈ entries, decode (encode e.2) = .ok e.2) :
    ∃ r, NetworkManager.awaitResponse totalPlayers
        (NetworkManager.jsonify (some (entries.map fun e => (e.1, encode e.2)))) = some r ∧
      decodeEntries decode (fun _ => true) r = .ok (ofEntries entries) := by
  have hfst : (entries.map fun e => (e.1, encode e.2)).map Prod.fst = entries.map Prod.fst := by
    rw [List.map_map]
    rfl
  have hrange' : ∀ e ∈ entries.map fun e => (e.1, encode e.2), 1 ≤ e.1 ∧ e.1 ≤ totalPlayers := by
    intro e he
    obtain ⟨e', he', rfl⟩ := List.mem_map.1 he
    exact hrange e' he'
  have hplain' : ∀ e ∈ entries.map fun e => (e.1, encode e.2), HexText.Plain e.2 := by
    intro e he
    obtain ⟨e', he', rfl⟩ := List.mem_map.1 he
    exact hplain e' he'
  obtain ⟨r, hr, hget⟩ :=
    NetworkManager.awaitResponse_jsonify (by decide) (by rwa [hfst]) hrange' hplain'
  have hentry : ∀ i hex, r[i]? = some hex ↔ ∃ v, (i, v) ∈ entries ∧ encode v = hex := by
    intro i hex
    rw [hget, List.mem_map]
    constructor
    · intro h
      obtain ⟨e, he, heq⟩ := h
      cases heq
      exact ⟨e.2, he, rfl⟩
    · intro h
      obtain ⟨v, hv, rfl⟩ := h
      exact ⟨(i, v), hv, rfl⟩
  obtain ⟨m, hm⟩ : ∃ m, decodeEntries decode (fun _ => true) r = .ok m :=
    exists_decodeEntries fun i hex _ hhex => by
      obtain ⟨v, hv, rfl⟩ := (hentry i hex).1 hhex
      exact ⟨v, hdecode _ hv⟩
  refine ⟨r, hr, hm.trans (congrArg Except.ok (ext_entries fun i v => ?_))⟩
  rw [getElem?_ofEntries hkeys, getElem?_decodeEntries hm]
  constructor
  · intro h
    obtain ⟨-, hex, hhex, hv⟩ := h
    obtain ⟨v', hv', rfl⟩ := (hentry i hex).1 hhex
    rwa [← Except.ok.inj ((hdecode _ hv').symm.trans hv)]
  · intro h
    exact ⟨rfl, encode v, (hentry i _).2 ⟨v, h, rfl⟩, hdecode _ h⟩

end Entries

end MpcDemo.NodePrograms
