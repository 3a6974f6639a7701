import AddressSpace.Proofs.Span.Tiling
import AddressSpace.Proofs.Table.Exact
/-!
# Room for a swap

A swap goes through when the rows that it takes out are there and there is room for those that it puts in (`swap_succeeds`).
There is room whenever the new rows tile the run of numbers that the old ones tiled (`room_of_tiles`): what is in nobody's way
before is in nobody's way after.
-/

namespace AddressSpace.Table

variable {R : Type} [Row R] {t : Table R} {old new : List R}

/-- The rows `old` are in the table, and when they are gone the rows `new` are in nobody's way. -/
structure Room (t : Table R) (old new : List R) : Prop where
  old_mem : ∀ r ∈ old, r ∈ t
  nodup : old.Nodup
  ordered : ∀ r ∈ new, Row.Ordered r
  apart : new.Pairwise Row.Apart
  free : ∀ s ∈ t, s ∉ old → ∀ r ∈ new, Row.Apart s r

/-- In which order the rows are taken out does not matter. -/
theorem Room.perm {old' : List R} (h : t.Room old new) (hp : old'.Perm old) : t.Room old' new where
  old_mem := fun r hr => h.old_mem r (hp.mem_iff.1 hr)
  nodup := hp.nodup_iff.2 h.nodup
  ordered := h.ordered
  apart := h.apart
  free := fun s hs hso => h.free s hs fun ho => hso (hp.mem_iff.2 ho)

/-! ## Swaps that go through -/

/-- Where there is room, a swap goes through. -/
theorem swap_succeeds (ht : t.Valid) (h : t.Room old new) : (swap (old.map Row.id) new).Succeeds t := by
  have hfits : t.Fits (old.map Row.id) new :=
    fits_iff.2 ⟨h.apart, fun s hs hid => h.free s hs fun ho => hid (List.mem_map_of_mem ho)⟩
  have hneeds := And.intro (removable_of_mem h.old_mem h.nodup) hfits
  exact (swap_decides ht _ h.ordered).imp (fun _ _ _ => trivial) fun _ _ he => he.1 hneeds

/-! ## Rows that tile one run -/

/-- In a run of numbers that rows of a table tile, no other row has any space. -/
theorem Valid.disjoint_of_tiles (ht : t.Valid) {a b : Nat} (hold : Interval.Tiles a b (old.map Row.span))
    (hmem : ∀ r ∈ old, r ∈ t) {s : R} (hs : s ∈ t) (hso : s ∉ old) {i : Interval} (ha : a ≤ i.first)
    (hi : i.first ≤ i.last) (hb : i.last < b) : (Row.span s).meets i = false := by
  rw [← Bool.not_eq_true]
  intro hmeets
  simp only [Interval.meets, Bool.and_eq_true, decide_eq_true_eq] at hmeets
  have hordered := ht.ordered s hs
  unfold Row.Ordered at hordered
  -- the greater of the two starts lies in both, so that a row of the tiling holds it too
  have hnumber : (Row.span s).contains (max (Row.span s).first i.first) = true := by
    simp only [Interval.contains, Bool.and_eq_true, decide_eq_true_eq]
    omega
  have hrange : a ≤ max (Row.span s).first i.first ∧ max (Row.span s).first i.first < b := by omega
  obtain ⟨j, hj, hjn⟩ := (hold.exists_contains_iff _).2 hrange
  obtain ⟨o, ho, rfl⟩ := List.mem_map.1 hj
  rw [ht.eq_of_contains hs (hmem o ho) hnumber hjn] at hso
  exact hso ho

/-- Rows with names of their own that tile a run have room where rows of the table tiled it. -/
theorem room_of_tiles (ht : t.Valid) {a b : Nat} (hmem : ∀ r ∈ old, r ∈ t) (hold : Interval.Tiles a b (old.map Row.span))
    (hnew : Interval.Tiles a b (new.map Row.span)) (hids : (new.map Row.id).Nodup)
    (hfresh : ∀ s ∈ t, s ∉ old → ∀ r ∈ new, Row.id s ≠ Row.id r) : t.Room old new where
  old_mem := hmem
  nodup := by
    refine (List.pairwise_map.1 hold.pairwise).imp_of_mem fun {r s} hr _ hlt he => ?_
    have hordered := ht.ordered r (hmem r hr)
    unfold Row.Ordered at hordered
    rw [he] at hlt hordered
    omega
  ordered := fun r hr => (hnew.bounds (List.mem_map_of_mem hr)).2.1
  apart := by
    refine (List.pairwise_map.1 hids).imp₂ (fun r s hne hlt => ⟨hne, ?_⟩) (List.pairwise_map.1 hnew.pairwise)
    simp only [Interval.meets, Bool.and_eq_false_iff, decide_eq_false_iff_not]
    omega
  free := by
    intro s hs hso r hr
    obtain ⟨ha, hle, hb⟩ := hnew.bounds (List.mem_map_of_mem hr)
    exact ⟨hfresh s hs hso r hr, ht.disjoint_of_tiles hold hmem hs hso ha hle hb⟩

end AddressSpace.Table
