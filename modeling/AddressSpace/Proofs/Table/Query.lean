import Mathlib.Data.List.Basic
import AddressSpace.Proofs.Table.Index
import AddressSpace.Proofs.Table.Valid
/-!
# What a valid table answers

In a valid table one look into the index finds what a scan of all rows would find: a row that overlaps a span
(`overlapping?_eq_some`, `overlapping?_eq_none`) and the row that holds a number (`containing?_eq_some_iff`). The rows in
ascending order do not overlap (`pairwise_toList`), and those that lie inside a span are picked from them
(`inside_eq_filter`).
-/

namespace AddressSpace.Table

variable {R : Type} [Row R] {t : Table R}

/-! ## Overlaps -/

/-- Of two rows of a valid table, one that does not start later ends before the other starts. -/
theorem Valid.last_lt_first (ht : t.Valid) {r s : R} (hr : r ∈ t) (hs : s ∈ t)
    (h : (Row.span s).first ≤ (Row.span r).first) (hne : s ≠ r) : (Row.span s).last < (Row.span r).first := by
  have hd := ht.disjoint s hs r hr hne
  have ho := ht.ordered r hr
  unfold Row.Ordered at ho
  simp only [Interval.meets, Bool.and_eq_false_iff, decide_eq_false_iff_not] at hd
  omega

/-- The row that is found overlaps the span, and no other such row starts later. -/
theorem overlapping?_eq_some (ht : t.Valid) {i : Interval} {exclude : List Identifier} {r : R}
    (h : t.overlapping? i exclude = some r) :
    r ∈ t ∧ Row.id r ∉ exclude ∧ (Row.span r).meets i = true ∧
      ∀ s ∈ t, Row.id s ∉ exclude → (Row.span s).meets i = true → (Row.span s).first ≤ (Row.span r).first := by
  unfold overlapping? at h
  split at h
  · cases h
  · rename_i id hfind
    obtain ⟨hex, n, hn, hle, hmax⟩ := KeyMap.find?_downFrom_eq_some hfind
    obtain ⟨hget, hlast⟩ := Option.filter_eq_some_iff.1 h
    obtain ⟨hr, hid⟩ := ht.get?_eq_some_iff.1 hget
    obtain ⟨r', hr', hid', rfl⟩ := ht.index_get?_eq_some_iff.1 hn
    obtain rfl := eq_of_id hr hr' (hid.trans hid'.symm)
    refine ⟨hr, by simpa [hid] using hex, ?_, fun s hs hsex hm => ?_⟩
    · simp only [Interval.meets, Bool.and_eq_true, decide_eq_true_eq]
      exact ⟨hle, by simpa using hlast⟩
    · simp only [Interval.meets, Bool.and_eq_true, decide_eq_true_eq] at hm
      exact hmax _ (Row.id s) (ht.index_get?_eq_some_iff.2 ⟨s, hs, rfl, rfl⟩) hm.1 (by simpa using hsex)

/-- When none is found, no row overlaps the span but those left out. -/
theorem overlapping?_eq_none (ht : t.Valid) {i : Interval} {exclude : List Identifier}
    (h : t.overlapping? i exclude = none) {s : R} (hs : s ∈ t) (hex : Row.id s ∉ exclude) :
    (Row.span s).meets i = false := by
  have hindex := ht.index_get?_eq_some_iff.2 ⟨s, hs, rfl, rfl⟩
  have hp : (!exclude.contains (Row.id s)) = true := by simpa using hex
  simp only [Interval.meets, Bool.and_eq_false_iff, decide_eq_false_iff_not]
  by_cases hfirst : (Row.span s).first ≤ i.last
  · right
    unfold overlapping? at h
    split at h
    · rename_i hfind
      rw [KeyMap.find?_downFrom_eq_none hfind hindex hfirst] at hp
      exact absurd hp (by decide)
    · rename_i id hfind
      obtain ⟨-, n, hn, -, hmax⟩ := KeyMap.find?_downFrom_eq_some hfind
      obtain ⟨r, hr, hid, rfl⟩ := ht.index_get?_eq_some_iff.1 hn
      have hget : t.get? id = some r := ht.get?_eq_some_iff.2 ⟨hr, hid⟩
      have hlast : (Row.span r).last < i.first := by simpa [hget] using h
      have hsr := hmax _ _ hindex hfirst hp
      -- the row found is too far below, and all other candidates end below it
      by_cases hne : s = r
      · rw [hne]
        omega
      · have := ht.last_lt_first hr hs hsr hne
        have := ht.ordered r hr
        unfold Row.Ordered at this
        omega
  · exact .inl hfirst

/-- A span is free when no row overlaps it but those left out. -/
theorem checkFree_eq_ok_iff (ht : t.Valid) {i : Interval} {exclude : List Identifier} :
    t.checkFree i exclude = .ok () ↔ ∀ s ∈ t, Row.id s ∉ exclude → (Row.span s).meets i = false := by
  unfold checkFree
  cases hfind : t.overlapping? i exclude with
  | none => exact ⟨fun _ s hs hex => overlapping?_eq_none ht hfind hs hex, fun _ => rfl⟩
  | some r =>
    obtain ⟨hr, hex, hm, -⟩ := overlapping?_eq_some ht hfind
    refine ⟨nofun, fun h => ?_⟩
    rw [h r hr hex] at hm
    exact absurd hm (by decide)

/-! ## The row at a number -/

/-- In a valid table a row is found at a number just when it is stored and contains it. -/
theorem containing?_eq_some_iff (ht : t.Valid) {n : Nat} {r : R} :
    t.containing? n = some r ↔ r ∈ t ∧ (Row.span r).contains n = true := by
  unfold containing?
  constructor
  · intro h
    split at h
    · cases h
    · rename_i id hhead
      obtain ⟨k, hk, hkn, -⟩ := KeyMap.head?_downFrom_eq_some hhead
      obtain ⟨hget, hlast⟩ := Option.filter_eq_some_iff.1 h
      obtain ⟨hr, hid⟩ := ht.get?_eq_some_iff.1 hget
      obtain ⟨r', hr', hid', rfl⟩ := ht.index_get?_eq_some_iff.1 hk
      obtain rfl := eq_of_id hr hr' (hid.trans hid'.symm)
      simp only [Interval.contains, Bool.and_eq_true, decide_eq_true_eq]
      exact ⟨hr, hkn, by simpa using hlast⟩
  · rintro ⟨hr, hn⟩
    have hn' := hn
    simp only [Interval.contains, Bool.and_eq_true, decide_eq_true_eq] at hn'
    have hindex := ht.index_get?_eq_some_iff.2 ⟨r, hr, rfl, rfl⟩
    split
    · rename_i hhead
      exact absurd hn'.1 (KeyMap.head?_downFrom_eq_none hhead hindex)
    · rename_i id hhead
      obtain ⟨k, hk, hkn, hmax⟩ := KeyMap.head?_downFrom_eq_some hhead
      obtain ⟨s, hs, hid, rfl⟩ := ht.index_get?_eq_some_iff.1 hk
      have hle := hmax _ _ hindex hn'.1
      have hsr : r = s := by
        apply Classical.byContradiction
        intro hne
        have := ht.last_lt_first hs hr hle hne
        omega
      subst hsr
      rw [ht.get?_eq_some_iff.2 ⟨hr, hid⟩]
      simpa using hn'.2

/-- In a valid table no row is found at a number just when no stored row contains it. -/
theorem containing?_eq_none_iff (ht : t.Valid) {n : Nat} :
    t.containing? n = none ↔ ∀ r ∈ t, (Row.span r).contains n = false := by
  rw [Option.eq_none_iff_forall_not_mem]
  simp only [Option.mem_def, containing?_eq_some_iff ht, not_and, Bool.not_eq_true]

/-! ## All rows in order -/

/-- An entry of the index leads to the row that starts there. -/
theorem Valid.row_of_entry (ht : t.Valid) {e : Nat × Identifier} (he : e ∈ t.index.entries) :
    ∃ r ∈ t, t.get? e.2 = some r ∧ (Row.span r).first = e.1 := by
  obtain ⟨r, hr, hid, hn⟩ := ht.index_get?_eq_some_iff.1 ((KeyMap.get?_eq_some_iff _ _ _).2 he)
  exact ⟨r, hr, ht.get?_eq_some_iff.2 ⟨hr, hid⟩, hn⟩

/-- The list of a valid table has its rows. -/
theorem mem_toList (ht : t.Valid) {r : R} : r ∈ t.toList ↔ r ∈ t := by
  simp only [toList, List.mem_filterMap, KeyMap.mem_values]
  constructor
  · rintro ⟨id, -, hget⟩
    exact (ht.get?_eq_some_iff.1 hget).1
  · intro hr
    exact ⟨Row.id r, ⟨_, ht.index_get?_eq_some_iff.2 ⟨r, hr, rfl, rfl⟩⟩, hr⟩

/-- In ascending order, each row ends before the next one starts. -/
theorem pairwise_toList (ht : t.Valid) : t.toList.Pairwise fun r s => (Row.span r).last < (Row.span s).first := by
  rw [toList, KeyMap.values, List.pairwise_filterMap, List.pairwise_map]
  refine t.index.sorted.imp_of_mem fun {d e} hd he hlt r hr s hs => ?_
  obtain ⟨r', hr', hget, hfirst⟩ := ht.row_of_entry hd
  obtain ⟨s', hs', hget', hfirst'⟩ := ht.row_of_entry he
  cases Option.some.inj (hget.symm.trans hr)
  cases Option.some.inj (hget'.symm.trans hs)
  refine ht.last_lt_first hs' hr' (by omega) fun hne => ?_
  rw [hne] at hfirst
  omega

/-- In ascending order, each row starts before the next one does. -/
theorem pairwise_first_toList (ht : t.Valid) : t.toList.Pairwise fun r s => (Row.span r).first < (Row.span s).first :=
  (pairwise_toList ht).imp_of_mem fun {r _} hr _ hlt => Nat.lt_of_le_of_lt (ht.ordered r ((mem_toList ht).1 hr)) hlt

/-- The list of a valid table has every row once. -/
theorem nodup_toList (ht : t.Valid) : t.toList.Nodup := by
  refine (pairwise_first_toList ht).imp fun {r s} hlt hne => ?_
  rw [hne] at hlt
  exact Nat.lt_irrefl _ hlt

/-- The rows inside a span are those of all rows that the span covers. -/
theorem inside_eq_filter (ht : t.Valid) (i : Interval) : t.inside i = t.toList.filter fun r => i.covers (Row.span r) := by
  rw [inside, toList, KeyMap.between, KeyMap.values, List.filterMap_map, List.filterMap_map, List.filterMap_filter,
    List.filter_filterMap, List.filter_filterMap]
  refine List.filterMap_congr fun e he => ?_
  obtain ⟨r, hr, hget, hfirst⟩ := ht.row_of_entry he
  have ho := ht.ordered r hr
  unfold Row.Ordered at ho
  by_cases hc : i.covers (Row.span r) = true
  · have hc' := hc
    simp only [Interval.covers, Bool.and_eq_true, decide_eq_true_eq] at hc'
    have : (decide (i.first ≤ e.1) && decide (e.1 ≤ i.last)) = true := by
      simp only [Bool.and_eq_true, decide_eq_true_eq]
      omega
    simp [this, hget, hc, hc'.2, Option.filter_some]
  · have hc' := hc
    simp only [Interval.covers, Bool.and_eq_true, decide_eq_true_eq] at hc'
    by_cases hb : (decide (i.first ≤ e.1) && decide (e.1 ≤ i.last)) = true
    · have hl : ¬(Row.span r).last ≤ i.last := by
        simp only [Bool.and_eq_true, decide_eq_true_eq] at hb
        omega
      simp [hb, hget, hc, hl, Option.filter_some]
    · simp [hb, hget, hc, Option.filter_some]

end AddressSpace.Table
