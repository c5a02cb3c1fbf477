import MpcDemo.NodePrograms

/-!
# Maps with an entry for each of some players

The map that a loop over a set of players fills.
-/

namespace MpcDemo.PlayerTables
open ByteStrings CosignerTypes NodePrograms

variable {V W : Type}

/-- An entry for each player of a set, in the order of the ids. -/
def table (players : Finset ℕ) (value : ℕ → V) : PlayerMap V :=
  ofEntries (players.sort.map fun i => (i, value i))

variable {players : Finset ℕ} {value : ℕ → V}

theorem getElem?_table (i : ℕ) :
    (table players value)[i]? = if i ∈ players then some (value i) else none := by
  have hkeys : ((players.sort.map fun i => (i, value i)).map Prod.fst).Nodup := by
    rw [List.map_map]
    exact (List.map_id _).symm ▸ players.sort_nodup (· ≤ ·)
  apply Option.ext
  intro v
  rw [table, getElem?_ofEntries hkeys]
  simp only [List.mem_map, Finset.mem_sort, Prod.mk.injEq]
  by_cases hi : i ∈ players
  · simp [hi]
  · simp only [hi, if_false, reduceCtorEq, iff_false, not_exists, not_and]
    rintro j hj rfl
    exact absurd hj hi

theorem getElem?_table_of_mem {i : ℕ} (hi : i ∈ players) :
    (table players value)[i]? = some (value i) := by
  rw [getElem?_table, if_pos hi]

theorem mem_table {i : ℕ} : i ∈ table players value ↔ i ∈ players := by
  rw [← Std.ExtTreeMap.isSome_getElem?_iff_mem, getElem?_table]
  by_cases hi : i ∈ players
  · simp [hi]
  · simp [hi]

theorem mem_toList_table {e : ℕ × V} :
    e ∈ (table players value).toList ↔ e.1 ∈ players ∧ e.2 = value e.1 := by
  obtain ⟨i, v⟩ := e
  rw [Std.ExtTreeMap.mem_toList_iff_getElem?_eq_some, getElem?_table]
  by_cases hi : i ∈ players
  · simp [hi, eq_comm]
  · simp [hi]

theorem toList_table_ne_nil (h : players.Nonempty) : (table players value).toList ≠ [] := by
  obtain ⟨i, hi⟩ := h
  have hmem : (i, value i) ∈ (table players value).toList := mem_toList_table.2 ⟨hi, rfl⟩
  exact List.ne_nil_of_mem hmem

theorem perm_toList_table :
    (table players value).toList.Perm (players.toList.map fun i => (i, value i)) := by
  have hlist : (table players value).toList.Nodup := (nodup_keys _).of_map
  have hplayers : (players.toList.map fun i => (i, value i)).Nodup :=
    players.nodup_toList.map fun i j h => (Prod.mk.inj h).1
  rw [List.perm_ext_iff_of_nodup hlist hplayers]
  intro e
  rw [mem_toList_table, List.mem_map]
  constructor
  · intro h
    exact ⟨e.1, Finset.mem_toList.2 h.1, by rw [← h.2]⟩
  · rintro ⟨i, hi, rfl⟩
    exact ⟨Finset.mem_toList.1 hi, rfl⟩

theorem size_table : (table players value).size = players.card := by
  rw [← Std.ExtTreeMap.length_toList, perm_toList_table.length_eq, List.length_map,
    Finset.length_toList]

/-- A sum over the entries is a sum over the players. -/
theorem sum_toList_table {M : Type} [AddCommMonoid M] (f : ℕ × V → M) :
    ((table players value).toList.map f).sum = ∑ i ∈ players, f (i, value i) := by
  rw [(perm_toList_table.map f).sum_eq, List.map_map, ← Finset.sum_map_toList]
  rfl

theorem table_congr {value' : ℕ → V} (h : ∀ i ∈ players, value i = value' i) :
    table players value = table players value' := by
  rw [table, table]
  refine congrArg ofEntries (List.map_congr_left fun i hi => ?_)
  rw [h i ((Finset.mem_sort (· ≤ ·)).1 hi)]

/-- A map with just these entries is the table. -/
theorem eq_table {m : PlayerMap V}
    (h : ∀ (i : ℕ) v, m[i]? = some v ↔ i ∈ players ∧ v = value i) : m = table players value := by
  apply ext_entries
  intro i v
  rw [h, getElem?_table]
  by_cases hi : i ∈ players
  · simp [hi, eq_comm]
  · simp [hi]

/-- Messages of some players decode to a table of what they say. -/
theorem decodeEntries_eq_table (keep : ℕ → Bool) {decode : ByteString → Except Failure V}
    {a : PlayerMap ByteString} {data : ℕ → ByteString}
    (ha : ∀ (i : ℕ) hex, a[i]? = some hex ↔ i ∈ players ∧ hex = data i)
    (hdecode : ∀ i ∈ players, keep i = true → decode (data i) = .ok (value i)) :
    decodeEntries decode keep a = .ok (table (players.filter fun i => keep i = true) value) := by
  obtain ⟨m, hm⟩ := @exists_decodeEntries V decode keep a
    fun i hex hkeep hhex => by
      obtain ⟨hi, rfl⟩ := (ha i hex).1 hhex
      exact ⟨_, hdecode i hi hkeep⟩
  rw [hm]
  refine congrArg Except.ok (eq_table fun i v => ?_)
  rw [getElem?_decodeEntries hm, Finset.mem_filter]
  constructor
  · intro h
    obtain ⟨hkeep, hex, hhex, hv⟩ := h
    obtain ⟨hi, rfl⟩ := (ha i hex).1 hhex
    exact ⟨⟨hi, hkeep⟩, Except.ok.inj (hv.symm.trans (hdecode i hi hkeep))⟩
  · intro h
    obtain ⟨⟨hi, hkeep⟩, rfl⟩ := h
    exact ⟨hkeep, data i, (ha i _).2 ⟨hi, rfl⟩, hdecode i hi hkeep⟩

theorem map_table (f : V → W) :
    (table players value).map (fun _ v => f v) = table players fun i => f (value i) := by
  apply Std.ExtTreeMap.ext_getElem?
  intro i
  rw [Std.ExtTreeMap.getElem?_map, getElem?_table, getElem?_table]
  by_cases hi : i ∈ players
  · rw [if_pos hi, if_pos hi]
    rfl
  · rw [if_neg hi, if_neg hi]
    rfl

end MpcDemo.PlayerTables
