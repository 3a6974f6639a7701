import AddressSpace.Table
/-!
# Valid tables

A table is valid when its two maps are one table: every row is kept under its own identifier, the index holds exactly the
starts of the rows, and no two rows overlap. A valid table is determined by the rows in it (`Valid.ext`), and stays valid
when a row is put into free space (`valid_put`) or taken out (`valid_of_remove?`).
-/

namespace AddressSpace

variable {R : Type} [Row R]

/-- The row ends where it starts or after that. -/
def Row.Ordered (r : R) : Prop := (Row.span r).first ≤ (Row.span r).last

instance (r : R) : Decidable (Row.Ordered r) := inferInstanceAs (Decidable ((Row.span r).first ≤ (Row.span r).last))

/-- Neither row has the other's name, nor any of its space. -/
def Row.Apart (r s : R) : Prop := Row.id r ≠ Row.id s ∧ (Row.span r).meets (Row.span s) = false

/-- A row in order overlaps itself. -/
theorem Row.Ordered.meets_self {r : R} (h : Row.Ordered r) : (Row.span r).meets (Row.span r) = true := by
  unfold Row.Ordered at h
  simp [Interval.meets, h]

theorem Row.Apart.symm {r s : R} (h : Row.Apart r s) : Row.Apart s r :=
  ⟨h.1.symm, by rw [Interval.meets_comm]; exact h.2⟩

namespace Table

/-- A row is in a table that holds it under its identifier. -/
instance : Membership R (Table R) := ⟨fun t r => t.get? (Row.id r) = some r⟩

theorem mem_def {t : Table R} {r : R} : r ∈ t ↔ t.get? (Row.id r) = some r := Iff.rfl

/-- The two maps of a table agree, and its rows are disjoint. -/
structure Valid (t : Table R) : Prop where
  /-- The key of a row is its own identifier. -/
  keyed : ∀ k r, t.rows.get? k = some r → k = (Row.id r).bits
  /-- The index names a row at a number just when the row is stored and starts there. -/
  indexed : ∀ n id, t.index.get? n = some id ↔ ∃ r, t.get? id = some r ∧ (Row.span r).first = n
  ordered : ∀ r ∈ t, Row.Ordered r
  disjoint : ∀ r ∈ t, ∀ s ∈ t, r ≠ s → (Row.span r).meets (Row.span s) = false

/-- Rows of one table with one identifier are one row. -/
theorem eq_of_id {t : Table R} {r s : R} (hr : r ∈ t) (hs : s ∈ t) (h : Row.id r = Row.id s) : r = s := by
  rw [mem_def, h, mem_def.1 hs] at hr
  exact (Option.some.inj hr).symm

namespace Valid

variable {t u : Table R} {r s : R} {id : Identifier}

theorem empty : (Table.empty : Table R).Valid where
  keyed := fun _ _ h => nomatch h
  indexed := fun _ _ => ⟨nofun, fun ⟨_, h, _⟩ => nomatch h⟩
  ordered := fun _ h => nomatch h
  disjoint := fun _ h => nomatch h

/-- In a valid table a row is found under its own identifier only. -/
theorem id_of_get? (h : t.Valid) (hr : t.get? id = some r) : Row.id r = id :=
  (Identifier.ext_bits (h.keyed _ _ hr)).symm

/-- What a table holds under an identifier is a row of it with that identifier. -/
theorem get?_eq_some_iff (h : t.Valid) : t.get? id = some r ↔ r ∈ t ∧ Row.id r = id := by
  constructor
  · intro hr
    have hid := h.id_of_get? hr
    exact ⟨by rw [mem_def, hid]; exact hr, hid⟩
  · rintro ⟨hr, rfl⟩
    exact hr

/-- In a valid table the index has the identifier of a row under the number at which it starts. -/
theorem index_get?_eq_some_iff (h : t.Valid) {n : Nat} :
    t.index.get? n = some id ↔ ∃ r ∈ t, Row.id r = id ∧ (Row.span r).first = n := by
  simp only [h.indexed, h.get?_eq_some_iff, and_assoc]

/-- Rows that overlap are one row. -/
theorem eq_of_meets (h : t.Valid) (hr : r ∈ t) (hs : s ∈ t) (hm : (Row.span r).meets (Row.span s) = true) : r = s := by
  apply Classical.byContradiction
  intro hne
  rw [h.disjoint r hr s hs hne] at hm
  exact absurd hm (by decide)

/-- Rows that hold one number are one row. -/
theorem eq_of_contains (h : t.Valid) (hr : r ∈ t) (hs : s ∈ t) {n : Nat} (hn : (Row.span r).contains n = true)
    (hn' : (Row.span s).contains n = true) : r = s :=
  h.eq_of_meets hr hs (Interval.meets_of_contains hn hn')

/-- Rows with one span are one row. -/
theorem eq_of_span (h : t.Valid) (hr : r ∈ t) (hs : s ∈ t) (he : Row.span r = Row.span s) : r = s :=
  h.eq_of_meets hr hs (by rw [← he]; exact (h.ordered r hr).meets_self)

/-- In a valid table different rows are apart. -/
theorem apart (h : t.Valid) (hr : r ∈ t) (hs : s ∈ t) (hne : r ≠ s) : Row.Apart r s :=
  ⟨fun hid => hne (eq_of_id hr hs hid), h.disjoint r hr s hs hne⟩

/-- Valid tables with the same rows are equal. -/
theorem ext (ht : t.Valid) (hu : u.Valid) (h : ∀ r, r ∈ t ↔ r ∈ u) : t = u := by
  have hget : ∀ id, t.get? id = u.get? id := by
    intro id
    apply Option.ext
    intro r
    rw [ht.get?_eq_some_iff, hu.get?_eq_some_iff, h]
  have hrows : t.rows = u.rows := by
    apply KeyMap.ext_get?
    intro k
    apply Option.ext
    intro r
    constructor
    · intro hr
      have := hget (Row.id r)
      rw [get?, get?, ← ht.keyed k r hr, hr] at this
      exact this.symm
    · intro hr
      have := hget (Row.id r)
      rw [get?, get?, ← hu.keyed k r hr, hr] at this
      exact this
  have hindex : t.index = u.index := by
    apply KeyMap.ext_get?
    intro n
    apply Option.ext
    intro id
    rw [ht.indexed, hu.indexed]
    simp only [hget]
  cases t
  cases u
  simp only at hrows hindex
  rw [hrows, hindex]

end Valid

/-! ## Putting a row in -/

/-- Putting a row takes the place of the one with its identifier, and leaves all others. -/
theorem mem_put {t : Table R} {r s : R} : s ∈ t.put r ↔ s = r ∨ s ∈ t ∧ Row.id s ≠ Row.id r := by
  rw [mem_def, get?_put, mem_def]
  by_cases h : Row.id s = Row.id r
  · rw [if_pos h]
    exact ⟨fun hs => .inl (Option.some.inj hs).symm, fun hs => hs.elim (fun e => e ▸ rfl) fun e => absurd h e.2⟩
  · rw [if_neg h]
    exact ⟨fun hs => .inr ⟨hs, h⟩, fun hs => hs.elim (fun e => absurd (e ▸ rfl) h) fun e => e.1⟩

/-- A row that is apart from all others is added to them. -/
theorem mem_put_of_apart {t : Table R} {r : R} (h : ∀ s ∈ t, Row.Apart s r) (s : R) : s ∈ t.put r ↔ s = r ∨ s ∈ t := by
  rw [mem_put]
  exact ⟨fun hs => hs.imp_right And.left, fun hs => hs.imp_right fun hs => ⟨hs, (h s hs).1⟩⟩

/-- Rows of which neither meets the other do not start at one number. -/
theorem Valid.first_ne {t : Table R} (ht : t.Valid) {r s : R} (hr : Row.Ordered r) (hs : s ∈ t)
    (h : (Row.span s).meets (Row.span r) = false) : (Row.span s).first ≠ (Row.span r).first := by
  have hs' := ht.ordered s hs
  unfold Row.Ordered at hr hs'
  intro he
  simp only [Interval.meets, Bool.and_eq_false_iff, decide_eq_false_iff_not] at h
  omega

/-- Putting a row that is apart from all others keeps a table valid: the index gets its start, and all other starts stay where
they are. -/
theorem valid_put {t : Table R} (ht : t.Valid) {r : R} (hr : Row.Ordered r) (h : ∀ s ∈ t, Row.Apart s r) :
    (t.put r).Valid where
  keyed := by
    intro k s hs
    rw [put, KeyMap.get?_insert] at hs
    split at hs
    · rename_i hk
      cases hs
      exact hk
    · exact ht.keyed k s hs
  indexed := by
    intro n id
    have hput : (t.put r).index.get? n = if n = (Row.span r).first then some (Row.id r) else t.index.get? n :=
      KeyMap.get?_insert _ _ _ _
    rw [hput]
    by_cases hn : n = (Row.span r).first
    · rw [if_pos hn]
      constructor
      · rintro ⟨⟩
        exact ⟨r, by rw [get?_put, if_pos rfl], hn.symm⟩
      · rintro ⟨s, hs, hsn⟩
        rw [get?_put] at hs
        split at hs
        · rename_i hid
          rw [hid]
        · obtain ⟨hs, -⟩ := ht.get?_eq_some_iff.1 hs
          exact absurd (hsn.trans hn) (ht.first_ne hr hs (h s hs).2)
    · rw [if_neg hn, ht.indexed]
      constructor
      · rintro ⟨s, hs, hsn⟩
        obtain ⟨hmem, hid⟩ := ht.get?_eq_some_iff.1 hs
        exact ⟨s, by rw [get?_put, if_neg (hid ▸ (h s hmem).1)]; exact hs, hsn⟩
      · rintro ⟨s, hs, hsn⟩
        rw [get?_put] at hs
        split at hs
        · cases hs
          exact absurd hsn.symm hn
        · exact ⟨s, hs, hsn⟩
  ordered := by
    intro s hs
    rcases (mem_put_of_apart h s).1 hs with rfl | hs
    · exact hr
    · exact ht.ordered s hs
  disjoint := by
    intro s hs u hu hne
    rcases (mem_put_of_apart h s).1 hs with hsr | hst
    · rcases (mem_put_of_apart h u).1 hu with hur | hut
      · exact absurd (hsr.trans hur.symm) hne
      · exact hsr ▸ (h u hut).symm.2
    · rcases (mem_put_of_apart h u).1 hu with hur | hut
      · exact hur ▸ (h s hst).2
      · exact ht.disjoint s hst u hut hne

/-! ## Taking a row out -/

/-- Nothing is removed just when nothing is found. -/
theorem remove?_eq_none_iff {t : Table R} {id : Identifier} : t.remove? id = none ↔ t.get? id = none := by
  simp [remove?]

/-- What is removed from a valid table was stored under that identifier. -/
theorem mem_of_remove? {t t' : Table R} (ht : t.Valid) {id : Identifier} {r : R} (h : t.remove? id = some (r, t')) :
    r ∈ t ∧ Row.id r = id := ht.get?_eq_some_iff.1 (get?_of_remove? h id).1

/-- All other rows stay. -/
theorem mem_remove?_iff {t t' : Table R} (ht : t.Valid) {id : Identifier} {r : R} (h : t.remove? id = some (r, t'))
    (s : R) : s ∈ t' ↔ s ∈ t ∧ s ≠ r := by
  obtain ⟨hr, hid⟩ := mem_of_remove? ht h
  rw [mem_def, (get?_of_remove? h _).2]
  constructor
  · intro hs
    split at hs
    · cases hs
    · rename_i hne
      exact ⟨hs, fun he => hne (he ▸ hid)⟩
  · rintro ⟨hs, hne⟩
    rw [if_neg fun he => hne (eq_of_id hs hr (he.trans hid.symm))]
    exact hs

/-- Removing a row keeps a table valid: the index loses its start, at which no other row can begin. -/
theorem valid_of_remove? {t t' : Table R} (ht : t.Valid) {id : Identifier} {r : R} (h : t.remove? id = some (r, t')) :
    t'.Valid := by
  obtain ⟨hr, hid⟩ := mem_of_remove? ht h
  have hmem := mem_remove?_iff ht h
  have hget : ∀ j, t'.get? j = if j = id then none else t.get? j := fun j => (get?_of_remove? h j).2
  have hindex : t'.index = t.index.erase (Row.span r).first := by
    obtain ⟨s, hs, he⟩ := Option.map_eq_some_iff.1 h
    cases he
    rfl
  refine ⟨?_, ?_, fun s hs => ht.ordered s ((hmem s).1 hs).1,
    fun s hs u hu hne => ht.disjoint s ((hmem s).1 hs).1 u ((hmem u).1 hu).1 hne⟩
  · intro k s hs
    obtain ⟨s', hs', he⟩ := Option.map_eq_some_iff.1 h
    cases he
    rw [KeyMap.get?_erase] at hs
    split at hs
    · cases hs
    · exact ht.keyed k s hs
  · intro n j
    rw [hindex, KeyMap.get?_erase]
    by_cases hn : n = (Row.span r).first
    · rw [if_pos hn]
      refine ⟨nofun, ?_⟩
      rintro ⟨s, hs, hsn⟩
      rw [hget] at hs
      split at hs
      · cases hs
      · rename_i hj
        obtain ⟨hs, hsid⟩ := ht.get?_eq_some_iff.1 hs
        have hsr : s ≠ r := fun he => hj (hsid ▸ he ▸ hid)
        exact absurd (hsn.trans hn) (ht.first_ne (ht.ordered r hr) hs (ht.disjoint s hs r hr hsr))
    · rw [if_neg hn, ht.indexed]
      constructor
      · rintro ⟨s, hs, hsn⟩
        obtain ⟨hsm, hsid⟩ := ht.get?_eq_some_iff.1 hs
        have hj : j ≠ id := fun he => hn (hsn ▸ (eq_of_id hsm hr (by rw [hsid, hid, he])) ▸ rfl)
        exact ⟨s, by rw [hget, if_neg hj]; exact hs, hsn⟩
      · rintro ⟨s, hs, hsn⟩
        rw [hget] at hs
        split at hs
        · cases hs
        · exact ⟨s, hs, hsn⟩

end Table

end AddressSpace
