import AddressSpace.Proofs.Action
import AddressSpace.Proofs.Span.Free
import AddressSpace.Proofs.Supernet.Tally
/-!
# What the warehouse does

A supernet is current when its rollup is the one that the ranges inside it give. Supernets that are created or edited are
current (`create_ends`, `update_ends`). Deriving rollups anew makes the supernets named current and leaves the others
(`refreshIds_spec`, `refresh_spec`, `refresh_span`), and where all are current it does nothing (`refreshIds_of_current`).
The free blocks of a stored supernet fill what no range holds (`exists_free`).
-/

namespace AddressSpace

/-- Complete bounds are accepted when their span has the right shape. -/
theorem Bounds.span_eq_ok {b : Bounds} {s : Span .v4} (h : b.span = .ok s) : s.Shaped := by
  unfold Bounds.span at h
  split at h
  · rw [check_bind_eq_ok_iff, mapError_eq_ok_iff, Span.checkShape_eq_ok_iff, pure_eq_ok_iff] at h
    exact h.2 ▸ h.1
  · cases h

namespace Warehouse

open AddressSpace.Action

variable {ranges : Store .v4} {t : Table Supernet} {s : Supernet}

/-- The rollup of the supernet is the one that the ranges give, and its total the number of its addresses. -/
structure Current (ranges : Store .v4) (s : Supernet) : Prop where
  rolledUp : rolledUp ranges s = s
  total : s.total = countWord s.span.size

@[simp] theorem rolledUp_id (ranges : Store .v4) (s : Supernet) : (rolledUp ranges s).id = s.id := rfl

@[simp] theorem rolledUp_span (ranges : Store .v4) (s : Supernet) : (rolledUp ranges s).span = s.span := rfl

theorem ordered_of_shaped (h : s.span.Shaped) : Row.Ordered s := h.first_le

/-- Deriving a rollup twice is deriving it once. -/
@[simp] theorem rolledUp_rolledUp (ranges : Store .v4) (s : Supernet) :
    rolledUp ranges (rolledUp ranges s) = rolledUp ranges s := rfl

/-- A rollup derived from other ranges does not matter. -/
theorem Current.renew {ranges' : Store .v4} (h : Current ranges' s) : Current ranges (Warehouse.rolledUp ranges s) :=
  ⟨rfl, h.total⟩

/-- A supernet is found just when the table has it under its identifier. -/
theorem row_eq_ok_iff {id : Identifier} : row t id = .ok s ↔ t.get? id = some s := by
  unfold row
  cases t.get? id <;> simp

/-! ## Changes of the table -/

/-- Creating a supernet puts in one row of the right shape that is current, or changes nothing. -/
theorem create_ends (ht : t.Valid) (stamp : Stamp) (input : SupernetInput) (operator : String) :
    (create ranges stamp input operator).Ends t
      (fun s t' => s.span.Shaped ∧ Current ranges s ∧ t.Swapped [] [s] t') (fun _ t' => t' = t) := by
  unfold create
  simp only [ends_bind, ends_liftM, ends_get, ends_set, ends_pure, implies_true, and_true]
  intro span hspan t' hinsert
  have hshape := Bounds.span_eq_ok hspan
  exact ⟨hshape, ⟨rfl, rfl⟩, Table.swapped_of_insert ht (ordered_of_shaped hshape) hinsert⟩

/-- Changing a supernet puts in one row of the right shape that is current for another, or changes nothing. -/
theorem update_ends (ht : t.Valid) (stamp : Stamp) (id : Identifier) (input : SupernetInput) (operator : String) :
    (update ranges stamp id input operator).Ends t
      (fun s t' => s.span.Shaped ∧ Current ranges s ∧ ∃ old, t.Swapped [old] [s] t') (fun _ t' => t' = t) := by
  unfold update
  simp only [ends_bind, ends_liftM, ends_get, ends_set, ends_pure, implies_true, and_true]
  rintro span hspan old hold ⟨old', t'⟩ hreplace
  have hshape := Bounds.span_eq_ok hspan
  obtain ⟨-, -, hsw⟩ := Table.replace_ok ht (ordered_of_shaped hshape) hreplace
  exact ⟨hshape, ⟨rfl, rfl⟩, old', hsw⟩

/-- Deleting a supernet takes out one row, or changes nothing. -/
theorem delete_ends (ht : t.Valid) (id : Identifier) :
    (delete id).Ends t (fun s t' => t.Swapped [s] [] t') (fun _ t' => t' = t) := by
  unfold delete
  rw [ends_bind, ends_get]
  cases hrem : t.remove? id with
  | none => rfl
  | some x => exact Table.swapped_of_remove? ht hrem

/-! ## Keeping the rollups -/

/-- The supernet with its rollup derived anew if it is one of those named. -/
def rolledUpIf (ranges : Store .v4) (ids : List Identifier) (s : Supernet) : Supernet :=
  if s.id ∈ ids then rolledUp ranges s else s

/-- A rollup that is derived anew for the first identifier, and then for the others, is derived anew for all. -/
theorem rolledUpIf_cons (ranges : Store .v4) (id : Identifier) (ids : List Identifier) (s : Supernet) :
    rolledUpIf ranges ids (rolledUpIf ranges [id] s) = rolledUpIf ranges (id :: ids) s := by
  unfold rolledUpIf
  by_cases hid : s.id = id <;> by_cases hids : s.id ∈ ids <;> simp [hid, hids]

/-- The table holds the supernets of another, some of them with their rollups derived anew. -/
structure Refreshed (ranges : Store .v4) (ids : List Identifier) (t t' : Table Supernet) : Prop where
  valid : t'.Valid
  mem_iff : ∀ s, s ∈ t' ↔ ∃ r ∈ t, s = rolledUpIf ranges ids r

/-- Where deriving the rollups named gives them again, the table is what it was. -/
theorem Refreshed.same (ht : t.Valid) {ids : List Identifier} (h : ∀ r ∈ t, r.id ∈ ids → rolledUp ranges r = r) :
    Refreshed ranges ids t t := by
  have hsame : ∀ r ∈ t, rolledUpIf ranges ids r = r := by
    intro r hr
    unfold rolledUpIf
    split
    · rename_i hid
      exact h r hr hid
    · rfl
  refine ⟨ht, fun s => ⟨fun hs => ⟨s, hs, (hsame s hs).symm⟩, ?_⟩⟩
  rintro ⟨r, hr, rfl⟩
  rwa [hsame r hr]

/-- A supernet gives way to itself with its rollup derived anew. -/
theorem Refreshed.of_swapped {t' : Table Supernet} (hs : s ∈ t) (hsw : t.Swapped [s] [rolledUp ranges s] t') :
    Refreshed ranges [s.id] t t' := by
  have hnew : rolledUpIf ranges [s.id] s = rolledUp ranges s := if_pos (List.mem_singleton.2 rfl)
  have hkept : ∀ r ∈ t, r ≠ s → rolledUpIf ranges [s.id] r = r := by
    intro r hr hne
    exact if_neg fun hid => hne (Table.eq_of_id hr hs (List.mem_singleton.1 hid))
  refine ⟨hsw.valid, fun r => ?_⟩
  rw [hsw.mem_iff, List.mem_singleton, List.mem_singleton]
  constructor
  · rintro (⟨hr, hne⟩ | rfl)
    · exact ⟨r, hr, (hkept r hr hne).symm⟩
    · exact ⟨s, hs, hnew.symm⟩
  · rintro ⟨r', hr', rfl⟩
    by_cases hne : r' = s
    · rw [hne]
      exact .inr hnew
    · rw [hkept r' hr' hne]
      exact .inl ⟨hr', hne⟩

/-- Refreshing one supernet derives its rollup anew, if there is one, and leaves the others. -/
theorem refreshOne_spec (ranges : Store .v4) (ht : t.Valid) (id : Identifier) : Refreshed ranges [id] t (refreshOne ranges t id).2 := by
  unfold refreshOne
  cases hget : t.get? id with
  | none =>
    refine .same ht fun r hr hid => ?_
    rw [ht.get?_eq_some_iff.2 ⟨hr, List.mem_singleton.1 hid⟩] at hget
    cases hget
  | some s =>
    obtain ⟨hs, rfl⟩ := ht.get?_eq_some_iff.1 hget
    by_cases hsame : rolledUp ranges s = s
    · simp only [hsame, if_true]
      refine .same ht fun r hr hid => ?_
      rw [Table.eq_of_id hr hs (List.mem_singleton.1 hid), hsame]
    · -- the new row has the name and the place of the old one, so that nothing is in its way
      obtain ⟨t', hreplace⟩ := Table.exists_replace ht (r := rolledUp ranges s) hs rfl
        fun r hr hne => ht.disjoint r hr s hs hne
      simp only [hsame, if_false, hreplace]
      obtain ⟨-, -, hsw⟩ := Table.replace_ok ht (r := rolledUp ranges s) (ht.ordered s hs) hreplace
      exact .of_swapped hs hsw

/-- Refreshing supernets one by one refreshes the first, and then the others. -/
theorem refreshIds_cons (ranges : Store .v4) (id : Identifier) (ids : List Identifier) (t : Table Supernet) :
    (refreshIds ranges (id :: ids) t).2 = (refreshIds ranges ids (refreshOne ranges t id).2).2 := by
  -- the number of changes so far has no part in what comes next
  have hcount : ∀ (f : Nat × Table Supernet → Identifier → Nat × Table Supernet),
      (∀ x y id, x.2 = y.2 → (f x id).2 = (f y id).2) →
        ∀ (ids : List Identifier) x y, x.2 = y.2 → (ids.foldl f x).2 = (ids.foldl f y).2 := by
    intro f hf ids
    induction ids with
    | nil => intro x y h; exact h
    | cons id ids ih => intro x y h; exact ih _ _ (hf x y id h)
  refine hcount _ ?_ ids _ _ rfl
  rintro ⟨m, t⟩ ⟨n, u⟩ id rfl
  rfl

/-- Where all supernets are current already, nothing is derived anew. -/
theorem refreshIds_of_current (h : ∀ s ∈ t, rolledUp ranges s = s) (ht : t.Valid) (ids : List Identifier) :
    refreshIds ranges ids t = (0, t) := by
  have hone : ∀ id, refreshOne ranges t id = (false, t) := by
    intro id
    unfold refreshOne
    cases hget : t.get? id with
    | none => rfl
    | some s => simp only [h s (ht.get?_eq_some_iff.1 hget).1, if_true]
  unfold refreshIds
  induction ids with
  | nil => rfl
  | cons id ids ih =>
    rw [List.foldl_cons]
    simp only [hone, Bool.false_eq_true, if_false]
    exact ih

/-- Deriving rollups anew changes those named and leaves the others. -/
theorem refreshIds_spec (ranges : Store .v4) (ids : List Identifier) :
    ∀ t : Table Supernet, t.Valid → Refreshed ranges ids t (refreshIds ranges ids t).2 := by
  induction ids with
  | nil => intro t ht; exact .same ht (by simp)
  | cons id ids ih =>
    intro t ht
    rw [refreshIds_cons]
    have hone := refreshOne_spec ranges ht id
    have hrest := ih _ hone.valid
    refine ⟨hrest.valid, fun s => ?_⟩
    rw [hrest.mem_iff]
    constructor
    · rintro ⟨r, hr, rfl⟩
      obtain ⟨r', hr', rfl⟩ := (hone.mem_iff r).1 hr
      exact ⟨r', hr', rolledUpIf_cons ranges id ids r'⟩
    · rintro ⟨r, hr, rfl⟩
      exact ⟨_, (hone.mem_iff _).2 ⟨r, hr, rfl⟩, (rolledUpIf_cons ranges id ids r).symm⟩

/-- Deriving rollups anew loses no supernet. -/
theorem refreshIds_row (ranges : Store .v4) (ids : List Identifier) (ht : t.Valid) {id : Identifier}
    (h : row t id = .ok s) : ∃ s', row (refreshIds ranges ids t).2 id = .ok s' := by
  obtain ⟨hvalid, hmem⟩ := refreshIds_spec ranges ids t ht
  obtain ⟨hs, hid⟩ := ht.get?_eq_some_iff.1 (row_eq_ok_iff.1 h)
  have hid' : (rolledUpIf ranges ids s).id = id := by
    unfold rolledUpIf
    split
    · exact hid
    · exact hid
  exact ⟨_, row_eq_ok_iff.2 (hvalid.get?_eq_some_iff.2 ⟨(hmem _).2 ⟨s, hs, rfl⟩, hid'⟩)⟩

/-- A refresh leaves every supernet to be found under its identifier. -/
theorem refresh_row (ranges : Store .v4) (spans : List (Span .v4)) (ht : t.Valid) {id : Identifier}
    (h : row t id = .ok s) : ∃ s', row (refresh ranges spans t).2 id = .ok s' :=
  refreshIds_row ranges _ ht h

/-- The supernets that meet one of the spans are derived anew, the others are left. -/
theorem refresh_spec (ranges : Store .v4) (ht : t.Valid) (spans : List (Span .v4)) :
    (refresh ranges spans t).2.Valid ∧
      ∀ s, s ∈ (refresh ranges spans t).2 ↔ ∃ r ∈ t, s = if spans.any (·.meets r.span) then rolledUp ranges r else r := by
  obtain ⟨hvalid, hmem⟩ :=
    refreshIds_spec ranges ((t.toList.filter fun s => spans.any (·.meets s.span)).map (·.id)) t ht
  have hif : ∀ r ∈ t, rolledUpIf ranges ((t.toList.filter fun s => spans.any (·.meets s.span)).map (·.id)) r =
      if spans.any (·.meets r.span) then rolledUp ranges r else r := by
    intro r hr
    unfold rolledUpIf
    refine if_congr ?_ rfl rfl
    simp only [List.mem_map, List.mem_filter, Table.mem_toList ht]
    constructor
    · rintro ⟨s, ⟨hs, hmeets⟩, hid⟩
      rwa [← Table.eq_of_id hs hr hid]
    · intro hmeets
      exact ⟨r, ⟨hr, hmeets⟩, rfl⟩
  refine ⟨hvalid, fun s => ?_⟩
  unfold refresh
  rw [hmem]
  constructor
  · rintro ⟨r, hr, rfl⟩
    exact ⟨r, hr, hif r hr⟩
  · rintro ⟨r, hr, rfl⟩
    exact ⟨r, hr, (hif r hr).symm⟩

/-- When ranges have come or gone over a supernet, it alone is derived anew: no other meets its span. -/
theorem refresh_span (ranges : Store .v4) (ht : t.Valid) (hs : s ∈ t) :
    t.Swapped [s] [rolledUp ranges s] (refresh ranges [s.span] t).2 := by
  obtain ⟨hvalid, hmem⟩ := refresh_spec ranges ht [s.span]
  have hself : [s.span].any (·.meets s.span) = true := (Bool.or_false _).trans (ht.ordered s hs).meets_self
  have hothers : ∀ r ∈ t, r ≠ s → [s.span].any (·.meets r.span) = false :=
    fun r hr hne => (Bool.or_false _).trans (ht.disjoint s hs r hr hne.symm)
  refine ⟨hvalid, List.forall_mem_singleton.2 hs, fun o => ?_, fun r hr hrt => ?_⟩
  · rw [hmem, List.mem_singleton, List.mem_singleton]
    constructor
    · rintro ⟨r, hr, rfl⟩
      by_cases hne : r = s
      · rw [hne, hself, if_pos rfl]
        exact .inr rfl
      · rw [hothers r hr hne, if_neg Bool.false_ne_true]
        exact .inl ⟨hr, hne⟩
    · rintro (⟨ho, hne⟩ | rfl)
      · exact ⟨o, ho, by rw [hothers o ho hne, if_neg Bool.false_ne_true]⟩
      · exact ⟨s, hs, by rw [hself, if_pos rfl]⟩
  · have hid : r.id = s.id := by rw [List.mem_singleton.1 hr, rolledUp_id]
    exact List.mem_singleton.2 (Table.eq_of_id hrt hs hid)

/-- A saved supernet is added with its rollup derived anew. -/
theorem restore_ends (ht : t.Valid) (s : Supernet) :
    (restore ranges s).Ends t (fun _ t' => s.span.Shaped ∧ t.Swapped [] [rolledUp ranges s] t') (fun _ t' => t' = t) := by
  unfold restore
  simp only [ends_bind, ends_liftM, ends_get, ends_set, implies_true, and_true]
  intro _ hcheck u hinsert
  have hshape := Span.checkShape_eq_ok_iff.1 hcheck
  have hsw := Table.swapped_of_insert ht (ordered_of_shaped hshape) hinsert
  have hapart : ∀ r ∈ t, r.id ≠ s.id := fun r hr => hsw.id_ne hr (by simp) (by simp)
  obtain ⟨hvalid, hmem⟩ := refreshIds_spec ranges [s.id] u hsw.valid
  have hkeep : ∀ r ∈ t, rolledUpIf ranges [s.id] r = r := fun r hr => if_neg (by simpa using hapart r hr)
  have hnew : rolledUpIf ranges [s.id] s = rolledUp ranges s := if_pos (by simp)
  refine ⟨hshape, hvalid, by simp, fun r => ?_, fun r hr hrt => ?_⟩
  · rw [hmem]
    constructor
    · rintro ⟨r', hr', rfl⟩
      rcases (hsw.mem_iff r').1 hr' with ⟨hr', -⟩ | hr'
      · rw [hkeep r' hr']
        exact .inl ⟨hr', by simp⟩
      · rw [List.mem_singleton.1 hr', hnew]
        exact .inr (by simp)
    · rintro (⟨hr, -⟩ | hr)
      · exact ⟨r, hsw.kept hr (by simp), (hkeep r hr).symm⟩
      · exact ⟨s, hsw.new_mem (by simp), (List.mem_singleton.1 hr).trans hnew.symm⟩
  · have hid : r.id = s.id := by rw [List.mem_singleton.1 hr, rolledUp_id]
    exact absurd hid (hapart r hrt)

/-! ## Free blocks -/

/-- The free blocks of a stored supernet fill what none of the ranges holds. -/
theorem exists_free (hranges : ranges.table.Valid) (hs : s ∈ t) (hshaped : s.span.Shaped) :
    ∃ blocks, free ranges t s.id = .ok blocks ∧
      Span.Fill s.span.plen.toNat (s.span.Unoccupied (ranges.toList.map (·.span))) blocks := by
  have hordered : ∀ o ∈ ranges.toList.map (·.span), o.start ≤ o.stop :=
    List.forall_mem_map.2 fun r hr => hranges.ordered r ((Table.mem_toList hranges).1 hr)
  have hsorted : (ranges.toList.map (·.span)).Pairwise fun o p => o.start ≤ p.start ∧ o.meets p = false := by
    refine List.pairwise_map.2 ((Table.pairwise_first_toList hranges).imp_of_mem fun {r q} hr hq hlt => ⟨Nat.le_of_lt hlt, ?_⟩)
    have hne : r ≠ q := fun he => Nat.lt_irrefl _ (he ▸ hlt)
    exact hranges.disjoint r ((Table.mem_toList hranges).1 hr) q ((Table.mem_toList hranges).1 hq) hne
  obtain ⟨blocks, hblocks, hfill⟩ := Span.exists_free_fill hshaped
    (fun o ho => hordered o (List.mem_of_mem_filter ho)) (hsorted.filter (·.meets s.span))
  refine ⟨blocks, ?_, hfill.congr fun a => Span.unoccupied_filter⟩
  have hrow : row t s.id = .ok s := row_eq_ok_iff.2 hs
  rw [free, hrow, ok_bind, hblocks]

end Warehouse

end AddressSpace
