import MpcDemo.NetworkManager

/-!
# When an answer is read back

`jsonify` sorts the keys of an answer as strings, and `parse_json_map` looks for one number after
the other and never moves back. An answer is read back exactly when its senders are in the same
order as numbers and as strings.
-/

namespace MpcDemo.AnswerParsing
open ByteStrings HexText Relay NetworkManager

section Entries
variable {entries : List (ℕ × ByteString)} {players : ℕ}

/-- The entries of an answer stand in its text in the order of the player ids. -/
theorem ascending_inTextOrder_iff (hkeys : (entries.map Prod.fst).Nodup) :
    ((inTextOrder entries).Pairwise fun e e' => e.1 < e'.1) ↔
      ∀ e ∈ entries, ∀ e' ∈ entries, e.1 < e'.1 → decimal e.1 < decimal e'.1 := by
  have hperm := perm_inTextOrder entries
  have htext := pairwise_inTextOrder entries
  constructor
  · intro h e he e' he' hlt
    have hboth : (inTextOrder entries).Pairwise fun a b =>
        (a.1 < b.1 → decimal a.1 < decimal b.1) ∧ (b.1 < a.1 → decimal b.1 < decimal a.1) := by
      refine (h.and htext).imp fun hab => ⟨fun _ => ?_, fun hba => ?_⟩
      · by_contra hnot
        exact hab.1.ne (decimal_injective (List.le_antisymm hab.2 hnot))
      · exact absurd hab.1 hba.asymm
    have hne : e ≠ e' := fun heq => hlt.ne (congrArg Prod.fst heq)
    have hsymm : Std.Symm fun a b : ℕ × ByteString => (a.1 < b.1 → decimal a.1 < decimal b.1) ∧
        (b.1 < a.1 → decimal b.1 < decimal a.1) := ⟨fun a b hab => ⟨hab.2, hab.1⟩⟩
    exact (hboth.forall (hperm.mem_iff.2 he) (hperm.mem_iff.2 he') hne).1 hlt
  · intro h
    have hne : (inTextOrder entries).Pairwise fun e e' => e.1 ≠ e'.1 :=
      List.pairwise_map.1 ((hperm.map Prod.fst).nodup_iff.2 hkeys)
    refine (htext.and hne).imp_of_mem fun he he' hboth => ?_
    by_contra hnot
    have hlt := h _ (hperm.mem_iff.1 he') _ (hperm.mem_iff.1 he) (by omega)
    exact hboth.1 hlt

/-- The parser gives back the entries of an answer and nothing else. -/
theorem parseJsonMap_exact_iff (hkeys : (entries.map Prod.fst).Nodup)
    (hrange : ∀ e ∈ entries, 1 ≤ e.1 ∧ e.1 ≤ players) (hplain : ∀ e ∈ entries, Plain e.2) :
    (∀ i v, (parseJsonMap players (jsonify (some entries)))[i]? = some v ↔ (i, v) ∈ entries) ↔
      ∀ e ∈ entries, ∀ e' ∈ entries, e.1 < e'.1 → decimal e.1 < decimal e'.1 := by
  have hperm := perm_inTextOrder entries
  have hnodup : ((inTextOrder entries).map Prod.fst).Nodup :=
    (hperm.map Prod.fst).nodup_iff.2 hkeys
  have hsublist := readEntries_sublist (List.range' 1 players) (inTextOrder entries)
  have hread : ∀ i v, (parseJsonMap players (jsonify (some entries)))[i]? = some v ↔
      (i, v) ∈ readEntries (List.range' 1 players) (inTextOrder entries) := by
    intro i v
    rw [parseJsonMap_jsonify players hplain,
      getElem?_foldl_insert ((hsublist.map Prod.fst).nodup hnodup)]
    simp
  have hids : ∀ e ∈ inTextOrder entries, e.1 ∈ List.range' 1 players := by
    intro e he
    have h := hrange e (hperm.mem_iff.1 he)
    exact List.mem_range'_1.2 (by omega)
  rw [← ascending_inTextOrder_iff hkeys, ← readEntries_eq_iff List.pairwise_lt_range' hids]
  constructor
  · intro h
    have hall : inTextOrder entries ⊆
        readEntries (List.range' 1 players) (inTextOrder entries) := by
      intro e he
      exact (hread e.1 e.2).1 ((h e.1 e.2).2 (hperm.mem_iff.1 he))
    have hlength := (hnodup.of_map.subperm hall).length_le
    exact hsublist.eq_of_length_le hlength
  · intro h i v
    rw [hread, h, hperm.mem_iff]

end Entries

variable {ρ : Type} [DecidableEq ρ]

/-- Every ready answer for a round is read as the map of the last data of each sender. -/
def ParsesExactly (players : ℕ) (history : List (Request ρ ℕ ByteString)) (roundId : ρ) : Prop :=
  ∀ expectedCount answer, poll (messagesAfter history) roundId expectedCount = some answer →
    ∀ senderId data, (parseJsonMap players (jsonify (some answer)))[senderId]? = some data ↔
      lastData (messagesAfter history roundId) senderId = some data

/-- The senders of a round have the same order as numbers and as strings. -/
def SameOrder (history : List (Request ρ ℕ ByteString)) (roundId : ρ) : Prop :=
  ∀ i ∈ senders roundId history, ∀ j ∈ senders roundId history, i < j → decimal i < decimal j

variable {players : ℕ} {history : List (Request ρ ℕ ByteString)} {roundId : ρ}

theorem mem_senders_iff {i : ℕ} : i ∈ senders roundId history ↔
    ∃ d, (i, d) ∈ dataMap (messagesAfter history roundId) := by
  have hmap := map_senderId_messagesAfter roundId history
  have hmem : i ∈ senders roundId history ↔
      ∃ m ∈ messagesAfter history roundId, m.senderId = i := by
    rw [← List.mem_reverse, ← hmap, List.mem_map]
  simp only [hmem, mem_dataMap_iff, ← lastData_isSome_iff, Option.isSome_iff_exists]

/-- Whatever is posted to a round by players, its answers are read back exactly when the senders
have the same order as numbers and as strings. -/
theorem parsesExactly_iff (hrange : ∀ i ∈ senders roundId history, 1 ≤ i ∧ i ≤ players)
    (hplain : ∀ m ∈ messagesAfter history roundId, Plain m.data) :
    ParsesExactly players history roundId ↔ SameOrder history roundId := by
  let entries := dataMap (messagesAfter history roundId)
  have hentries : ∀ e ∈ entries, e.1 ∈ senders roundId history :=
    fun e he => mem_senders_iff.2 ⟨e.2, he⟩
  have hdata : ∀ e ∈ entries, Plain e.2 := by
    intro e he
    obtain ⟨m, hm, -, hdata⟩ := exists_of_lastData (mem_dataMap_iff.1 he)
    rw [← hdata]
    exact hplain m hm
  have hexact := parseJsonMap_exact_iff (nodup_dataMap (messagesAfter history roundId))
    (fun e he => hrange e.1 (hentries e he)) hdata
  have horder : SameOrder history roundId ↔
      ∀ e ∈ entries, ∀ e' ∈ entries, e.1 < e'.1 → decimal e.1 < decimal e'.1 := by
    constructor
    · intro h e he e' he'
      exact h e.1 (hentries e he) e'.1 (hentries e' he')
    · intro h i hi j hj
      obtain ⟨d, hd⟩ := mem_senders_iff.1 hi
      obtain ⟨d', hd'⟩ := mem_senders_iff.1 hj
      exact h (i, d) hd (j, d') hd'
  rw [horder, ← hexact]
  constructor
  · intro h i v
    have hpoll : poll (messagesAfter history) roundId
        (messagesAfter history roundId).length = some entries := if_pos le_rfl
    rw [h _ entries hpoll i v, ← mem_dataMap_iff]
  · intro h expectedCount answer hpoll i v
    rw [poll] at hpoll
    split at hpoll
    · rw [← Option.some.inj hpoll, h i v, mem_dataMap_iff]
    · cases hpoll

/-- Players 2 and 10 of ten have posted: the parser finds 2 first and then looks for 10 behind
it. -/
theorem parsesExactly_fails : ¬ ∀ (players : ℕ) (history : List (Request ℕ ℕ ByteString)),
    (∀ i ∈ senders 0 history, 1 ≤ i ∧ i ≤ players) →
      (∀ m ∈ messagesAfter history 0, Plain m.data) → ParsesExactly players history 0 := by
  intro h
  let history : List (Request ℕ ℕ ByteString) :=
    [.broadcast 0 2 (ascii "ready"), .broadcast 0 10 (ascii "ready")]
  have hexact := h 10 history (by decide) (by decide +kernel) 2
    [(10, ascii "ready"), (2, ascii "ready")] (by decide) 10 (ascii "ready")
  have hlast : lastData (messagesAfter history 0) 10 = some (ascii "ready") := by decide
  have hparse : (parseJsonMap 10 (jsonify (some [(10, ascii "ready"), (2, ascii "ready")])))[10]? =
      none := by decide +kernel
  have hfound := hexact.2 hlast
  rw [hparse] at hfound
  cases hfound

/-- The three players of the demo. -/
theorem parsesExactly_iff_three :
    let history : List (Request ℕ ℕ ByteString) :=
      [.broadcast 0 2 (ascii "ready"), .broadcast 0 3 (ascii "ready"), .broadcast 0 1 []]
    ParsesExactly 3 history 0 ↔ SameOrder history 0 :=
  parsesExactly_iff (by decide) (by decide +kernel)

end MpcDemo.AnswerParsing
