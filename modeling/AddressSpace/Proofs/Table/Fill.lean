import Mathlib.Data.List.Perm.Basic
import AddressSpace.Proofs.Table.Swap
/-!
# Filling a table

A row that is put into a table is checked against its nearest neighbour only. Rows that are put in one by one all go in just
when no two of them, and no one of them and a row that was there before, share a name or any space (`forM_fill`), a condition in
which their order has no part. The table that they make does not depend on it either (`putBack_perm`).
-/

namespace AddressSpace.Table

open AddressSpace.Action

variable {R σ α : Type} [Row R] {t t' : Table R} {r : R} {rows rows' : List R}

/-- In which order the rows are put in does not matter. -/
theorem Admits.perm (h : t.Admits rows) (hp : rows.Perm rows') : t.Admits rows' where
  ordered := fun r hr => h.ordered r (hp.mem_iff.2 hr)
  apart := (hp.pairwise_iff fun hab => hab.symm).1 h.apart
  free := fun s hs r hr => h.free s hs r (hp.mem_iff.2 hr)

/-- The table that rows make does not depend on their order. -/
theorem putBack_perm (ht : t.Valid) (h : t.Admits rows) (hp : rows.Perm rows') : t.putBack rows' = t.putBack rows := by
  obtain ⟨hvalid, hmem⟩ := putBack_of_admits rows t ht h
  obtain ⟨hvalid', hmem'⟩ := putBack_of_admits rows' t ht (h.perm hp)
  refine hvalid'.ext hvalid fun s => ?_
  rw [hmem, hmem', hp.mem_iff]

/-- A table that rows make from an empty one lists just these rows. -/
theorem Admits.toList_perm (h : (Table.empty : Table R).Admits rows) : (Table.empty.putBack rows).toList.Perm rows := by
  obtain ⟨hvalid, hmem⟩ := putBack_of_admits rows Table.empty .empty h
  have hnodup : rows.Nodup := h.apart.imp fun hab he => hab.1 (congrArg Row.id he)
  refine (List.perm_ext_iff_of_nodup (nodup_toList hvalid) hnodup).2 fun r => ?_
  rw [mem_toList hvalid, hmem]
  exact ⟨fun hr => hr.elim (fun hr => nomatch hr) id, .inr⟩

/-- What is put into a table where nothing is taken out has been apart from all rows. -/
theorem Swapped.eq_put (ht : t.Valid) (h : t.Swapped [] [r] t') : (∀ s ∈ t, Row.Apart s r) ∧ t' = t.put r := by
  have hr : r ∈ t' := h.new_mem (List.mem_singleton.2 rfl)
  have hapart : ∀ s ∈ t, Row.Apart s r := by
    intro s hs
    have hid : Row.id s ≠ Row.id r := h.id_ne hs (by simp) (List.mem_singleton.2 rfl)
    exact h.valid.apart (h.kept hs (by simp)) hr fun he => hid (he ▸ rfl)
  refine ⟨hapart, h.valid.ext (valid_put ht (h.valid.ordered r hr) hapart) fun s => ?_⟩
  rw [h.mem_iff, mem_put_of_apart hapart]
  simp [or_comm]

/-- When each row is put in, in the form in which it is stored, just when it is good and apart from those before it, all rows are
put in just when all are good and the table admits them. -/
theorem forM_fill (make : Table R → σ) (stored : α → R) {f : α → Action σ PUnit} {good : α → Prop}
    (hf : ∀ x t, t.Valid → (f x).Ends (make t)
      (fun _ s => good x ∧ ∃ t', t.Swapped [] [stored x] t' ∧ s = make t')
      (fun _ _ => ¬(good x ∧ Row.Ordered (stored x) ∧ ∀ s ∈ t, Row.Apart s (stored x)))) (xs : List α) :
    ∀ t : Table R, t.Valid → (xs.forM f).Ends (make t)
      (fun _ s => ((∀ x ∈ xs, good x) ∧ t.Admits (xs.map stored)) ∧ s = make (t.putBack (xs.map stored)))
      (fun _ _ => ¬((∀ x ∈ xs, good x) ∧ t.Admits (xs.map stored))) := by
  induction xs with
  | nil => exact fun t _ => ⟨⟨by simp, admits_nil⟩, rfl⟩
  | cons x xs ih =>
    intro t ht
    simp only [List.forall_mem_cons, List.map_cons, admits_cons]
    refine ends_bind .. |>.2 ((hf x t ht).imp ?_ fun _ _ hbad hall => hbad ⟨hall.1.1, hall.2.1, hall.2.2.1⟩)
    rintro _ _ ⟨hgood, t', hsw, rfl⟩
    obtain ⟨hapart, rfl⟩ := hsw.eq_put ht
    have hordered : Row.Ordered (stored x) := hsw.valid.ordered _ (hsw.new_mem (List.mem_singleton.2 rfl))
    refine (ih _ hsw.valid).imp ?_ fun _ _ hbad hall => hbad ⟨hall.1.2, hall.2.2.2⟩
    rintro _ _ ⟨⟨hrest, hadmits⟩, rfl⟩
    exact ⟨⟨⟨hgood, hrest⟩, hordered, hapart, hadmits⟩, rfl⟩

end AddressSpace.Table
