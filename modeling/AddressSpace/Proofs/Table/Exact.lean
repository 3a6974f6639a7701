import AddressSpace.Proofs.Table.Built
/-!
# What a swap needs and what it does

A swap works row by row, and can fail with any of its rows taken out and put in. What it needs can nevertheless be said of the
table that it starts from: the rows to take out are there under different names (`Removable`), and the rows to put in fit beside
the others (`Fits`). It goes through just when both hold, its rows are then what they should be, and otherwise the table is as it
was and the failure tells which of the two is missing (`swap_exact`).
-/

namespace AddressSpace.Table

variable {R : Type} [Row R] {t u : Table R} {remove : List Identifier} {add old : List R}

/-- The names are those of rows of the table, each of another one. -/
structure Removable (t : Table R) (remove : List Identifier) : Prop where
  distinct : remove.Nodup
  stored : ∀ id ∈ remove, ∃ r ∈ t, Row.id r = id

/-- The rows `add` have names and space of their own, once the rows with the names `remove` are gone. -/
structure Fits (t : Table R) (remove : List Identifier) (add : List R) : Prop where
  distinct : (add.map Row.id).Nodup
  fresh : ∀ s ∈ t, Row.id s ∉ remove → ∀ r ∈ add, Row.id s ≠ Row.id r
  disjoint : add.Pairwise fun r s => (Row.span r).meets (Row.span s) = false
  free : ∀ s ∈ t, Row.id s ∉ remove → ∀ r ∈ add, (Row.span s).meets (Row.span r) = false

/-- Rows fit when each is apart from the others and from those that stay. -/
theorem fits_iff : t.Fits remove add ↔
    add.Pairwise Row.Apart ∧ ∀ s ∈ t, Row.id s ∉ remove → ∀ r ∈ add, Row.Apart s r := by
  constructor
  · intro h
    refine ⟨(List.pairwise_map.1 h.distinct).and h.disjoint, fun s hs hid r hr => ?_⟩
    exact ⟨h.fresh s hs hid r hr, h.free s hs hid r hr⟩
  · rintro ⟨hapart, hothers⟩
    exact {
      distinct := List.pairwise_map.2 (hapart.imp And.left)
      fresh := fun s hs hid r hr => (hothers s hs hid r hr).1
      disjoint := hapart.imp And.right
      free := fun s hs hid r hr => (hothers s hs hid r hr).2 }

/-! ## Taking rows out -/

/-- Different rows of a table can be taken out. -/
theorem removable_of_mem (hmem : ∀ r ∈ old, r ∈ t) (hn : old.Nodup) : t.Removable (old.map Row.id) where
  distinct := nodup_map_id hmem hn
  stored := List.forall_mem_map.2 fun r hr => ⟨r, hmem r hr, rfl⟩

/-- Rows that are there can be taken out. -/
theorem takeOut_succeeds {ids : List Identifier} (hn : ids.Nodup) :
    ∀ (t : Table R) (taken : List R), (∀ id ∈ ids, (t.get? id).isSome = true) → (takeOut taken ids).Succeeds t := by
  induction ids with
  | nil => intro t taken _; trivial
  | cons id ids ih =>
    intro t taken h
    obtain ⟨hfresh, hn⟩ := List.nodup_cons.1 hn
    obtain ⟨hid, hids⟩ := List.forall_mem_cons.1 h
    unfold Action.Succeeds
    rw [takeOut, Action.ends_bind, Action.ends_get]
    cases hrem : t.remove? id with
    | none => rw [remove?_eq_none_iff.1 hrem] at hid; cases hid
    | some x =>
      obtain ⟨r, u⟩ := x
      simp only [Action.ends_bind, Action.ends_set]
      refine ih hn u (r :: taken) fun j hj => ?_
      have hne : j ≠ id := fun he => hfresh (he ▸ hj)
      rw [(get?_of_remove? hrem j).2, if_neg hne]
      exact hids j hj

/-- Only a name under which nothing is stored keeps rows from being taken out. -/
theorem takeOut_error (ids : List Identifier) :
    ∀ (t : Table R) (taken : List R), (takeOut taken ids).Ends t (fun _ _ => True) fun e _ => ∃ id, e = .noRow id := by
  induction ids with
  | nil => exact fun _ _ => trivial
  | cons id ids ih =>
    intro t taken
    rw [takeOut, Action.ends_bind, Action.ends_get]
    cases t.remove? id with
    | none =>
      simp only [Action.ends_bind, Action.ends_modify, Action.ends_throw]
      exact ⟨id, rfl⟩
    | some x =>
      simp only [Action.ends_bind, Action.ends_set]
      exact ih x.2 (x.1 :: taken)

/-- Rows are taken out just when they are there under different names. -/
theorem takeOut_exact (ht : t.Valid) (remove : List Identifier) :
    (takeOut [] remove).Ends t
      (fun rows u => t.Removable remove ∧ rows.Nodup ∧ t.Swapped rows [] u ∧ ∀ r ∈ t, r ∈ rows ↔ Row.id r ∈ remove)
      (fun e u => ¬t.Removable remove ∧ u = t ∧ e.kind = .targetNotExist) := by
  have hends := (takeOut_ends ht remove t [] (.refl ht) .nil).and (takeOut_error remove t [])
  by_cases hrem : t.Removable remove
  · have hthere : ∀ id ∈ remove, (t.get? id).isSome = true := fun id hid => (isSome_get?_iff ht).2 (hrem.stored id hid)
    refine (hends.succeeded (takeOut_succeeds hrem.distinct t [] hthere)).imp ?_ fun _ _ he => he
    rintro rows u ⟨⟨⟨old, rfl, rfl⟩, hn, hsw⟩, -⟩
    refine ⟨hrem, hn, hsw, fun r hr => ?_⟩
    rw [mem_iff_id_mem hsw.old_mem hr]
    simp
  · refine hends.imp ?_ ?_
    · rintro rows u ⟨⟨⟨old, rfl, rfl⟩, hn, hsw⟩, -⟩
      rw [List.append_nil] at hn hsw
      have hmem : ∀ r ∈ old, r ∈ t := fun r hr => hsw.old_mem r (List.mem_reverse.2 hr)
      exact absurd (removable_of_mem hmem (List.nodup_reverse.1 hn)) hrem
    · rintro e u ⟨rfl, id, rfl⟩
      exact ⟨hrem, rfl, rfl⟩

/-! ## Putting rows in -/

/-- An insertion fails as a validation only. -/
theorem insert_error_kind {r : R} {e : Failure} (h : t.insert r = .error e) : e.kind = .validation := by
  unfold insert at h
  by_cases hid : (t.get? (Row.id r)).isSome = true
  · rw [if_pos hid] at h
    cases h
    rfl
  · rw [if_neg hid, checkFree] at h
    cases hfind : t.overlapping? (Row.span r) [] with
    | none => rw [hfind] at h; cases h
    | some s => rw [hfind] at h; cases h; rfl

/-- Rows are put in just when the table admits them. -/
theorem putIn_admits (taken : List R) (rows : List R) :
    ∀ (t : Table R) (added : List Identifier), t.Valid → (∀ r ∈ rows, Row.Ordered r) →
      (putIn taken added rows).Ends t (fun _ _ => t.Admits rows) fun e _ => ¬t.Admits rows ∧ e.kind = .validation := by
  induction rows with
  | nil => exact fun _ _ _ _ => admits_nil
  | cons r rows ih =>
    intro t added ht ho
    obtain ⟨hr, ho⟩ := List.forall_mem_cons.1 ho
    rw [putIn, Action.ends_bind, Action.ends_get]
    cases hins : t.insert r with
    | error e =>
      simp only [Action.ends_bind, Action.ends_modify, Action.ends_throw]
      refine ⟨fun h => ?_, insert_error_kind hins⟩
      obtain ⟨-, hapart, -⟩ := admits_cons.1 h
      cases hins.symm.trans ((insert_eq_ok_iff ht).2 ⟨hapart, rfl⟩)
    | ok u =>
      simp only [Action.ends_bind, Action.ends_set]
      obtain ⟨hapart, rfl⟩ := (insert_eq_ok_iff ht).1 hins
      refine (ih _ (Row.id r :: added) (valid_put ht hr hapart) ho).imp ?_ ?_
      · intro _ _ hadmits
        exact admits_cons.2 ⟨hr, hapart, hadmits⟩
      · rintro e _ ⟨hrefuses, hkind⟩
        exact ⟨fun h => hrefuses (admits_cons.1 h).2.2, hkind⟩

/-- A table admits rows when they fit beside the rows that have not been taken out. -/
theorem Swapped.admits_iff_fits (h : t.Swapped old [] u) (hold : ∀ r ∈ t, r ∈ old ↔ Row.id r ∈ remove)
    (ho : ∀ r ∈ add, Row.Ordered r) : u.Admits add ↔ t.Fits remove add := by
  have hmem : ∀ s, s ∈ u ↔ s ∈ t ∧ Row.id s ∉ remove := by
    intro s
    rw [h.mem_iff]
    simp only [List.not_mem_nil, or_false]
    exact and_congr_right fun hs => not_congr (hold s hs)
  rw [fits_iff]
  constructor
  · intro had
    exact ⟨had.apart, fun s hs hid => had.free s ((hmem s).2 ⟨hs, hid⟩)⟩
  · rintro ⟨hapart, hothers⟩
    refine ⟨ho, hapart, fun s hs => ?_⟩
    obtain ⟨hst, hid⟩ := (hmem s).1 hs
    exact hothers s hst hid

/-! ## Both -/

/-- How a swap ends, with what it needs on either side. -/
theorem swap_decides (ht : t.Valid) (remove : List Identifier) (ho : ∀ r ∈ add, Row.Ordered r) :
    (swap remove add).Ends t
      (fun _ t' => (t.Removable remove ∧ t.Fits remove add) ∧ t'.Valid ∧ ∀ r, r ∈ t' ↔ r ∈ t ∧ Row.id r ∉ remove ∨ r ∈ add)
      (fun e t' => ¬(t.Removable remove ∧ t.Fits remove add) ∧ t' = t ∧
        (e.kind = .targetNotExist ∧ ¬t.Removable remove ∨ e.kind = .validation ∧ t.Removable remove)) := by
  unfold swap
  rw [Action.ends_bind]
  refine (takeOut_exact ht remove).imp ?_ ?_
  · rintro rows u ⟨hrem, hn, hsw, hrows⟩
    have hfits := hsw.admits_iff_fits hrows ho
    have hends := (putIn_ends ht hn add u [] [] hsw (by simp) ho).and (putIn_admits rows add u [] hsw.valid ho)
    refine hends.imp ?_ ?_
    · rintro - t' ⟨hsw', hadmits⟩
      refine ⟨⟨hrem, hfits.1 hadmits⟩, hsw'.valid, fun r => ?_⟩
      rw [hsw'.mem_iff, List.nil_append]
      exact or_congr_left (and_congr_right fun hr => not_congr (hrows r hr))
    · rintro e t' ⟨rfl, hadmits, hkind⟩
      exact ⟨fun h => hadmits (hfits.2 h.2), rfl, .inr ⟨hkind, hrem⟩⟩
  · rintro e u ⟨hrem, rfl, hkind⟩
    exact ⟨fun h => hrem h.1, rfl, .inl ⟨hkind, hrem⟩⟩

/-- A swap goes through just when the names to remove are those of different rows and the rows to add fit beside the others. The
table then holds the rows with other names and those that are added. If it fails, the table is as it was, and the failure says
that a target is missing when the names to remove are the cause. -/
theorem swap_exact (ht : t.Valid) (remove : List Identifier) (ho : ∀ r ∈ add, Row.Ordered r) :
    ((∃ t', (swap remove add).run t = (.ok (), t')) ↔ t.Removable remove ∧ t.Fits remove add) ∧
      (∀ t', (swap remove add).run t = (.ok (), t') → t'.Valid ∧ ∀ r, r ∈ t' ↔ r ∈ t ∧ Row.id r ∉ remove ∨ r ∈ add) ∧
      ∀ e t', (swap remove add).run t = (.error e, t') → t' = t ∧
        (e.kind = .targetNotExist ∧ ¬t.Removable remove ∨ e.kind = .validation ∧ t.Removable remove) := by
  have hends := swap_decides ht remove ho
  refine ⟨⟨?_, ?_⟩, ?_, ?_⟩
  · rintro ⟨t', hrun⟩
    exact (hends.ok_of_run hrun).1
  · intro hneeds
    have hsucceeds : (swap remove add).Succeeds t := hends.imp (fun _ _ _ => trivial) fun _ _ he => he.1 hneeds
    obtain ⟨_, t', hrun, -⟩ := hsucceeds.exists_run
    exact ⟨t', hrun⟩
  · intro t' hrun
    exact (hends.ok_of_run hrun).2
  · intro e t' hrun
    have hfail := hends.fail_of_run (congrArg Prod.fst hrun)
    rw [hrun] at hfail
    exact hfail.2

/-- Two rows in a table of three give way to two others, of which one takes a name and a start from them and reaches further than
either. -/
theorem swap_exact_taking_over :
    let t : Table (Range .v4) := built [.insert (rowOf 1 0 99), .insert (rowOf 2 100 199), .insert (rowOf 3 500 599)]
    let add : List (Range .v4) := [rowOf 1 100 299, rowOf 4 0 49]
    t.Valid ∧ (∀ r ∈ add, Row.Ordered r) ∧
      ((∃ t', (swap [.ofBits 2, .ofBits 1] add).run t = (.ok (), t')) ↔
        t.Removable [.ofBits 2, .ofBits 1] ∧ t.Fits [.ofBits 2, .ofBits 1] add) ∧
      ((swap [.ofBits 2, .ofBits 1] add).run t).2.toList = [rowOf 4 0 49, rowOf 1 100 299, rowOf 3 500 599] := by
  intro t add
  have ht : t.Valid := valid_built (by decide +kernel)
  have ho : ∀ r ∈ add, Row.Ordered r := by decide +kernel
  exact ⟨ht, ho, (swap_exact ht [.ofBits 2, .ofBits 1] ho).1, by decide +kernel⟩

end AddressSpace.Table
