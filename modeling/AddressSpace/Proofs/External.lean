import AddressSpace.Proofs.Supernet.Warehouse
import AddressSpace.External
/-!
# What changes an external range

Every change of the table of external ranges takes out at most one row and puts in at most one, of the right shape, or leaves
the table as it was.
-/

namespace AddressSpace.External

open AddressSpace.Action

variable {t : Table ExternalRange}

theorem ordered_of_shaped {r : ExternalRange} (h : r.span.Shaped) : Row.Ordered r := h.first_le

/-- Creating an external range puts in one row of the right shape, or changes nothing. -/
theorem create_ends (ht : t.Valid) (stamp : Stamp) (input : ExternalInput) (operator : String) :
    (create stamp input operator).Ends t (fun r t' => r.span.Shaped ∧ t.Swapped [] [r] t') (fun _ t' => t' = t) := by
  unfold create
  simp only [ends_bind, ends_liftM, ends_get, ends_set, ends_pure, implies_true, and_true]
  intro span hspan t' hinsert
  have hshape : (described input span operator (stamp.rowId 0) stamp.now stamp.now).span.Shaped :=
    Bounds.span_eq_ok hspan
  exact ⟨hshape, Table.swapped_of_insert ht (ordered_of_shaped hshape) hinsert⟩

/-- Changing an external range puts in one row of the right shape for another, or changes nothing. -/
theorem update_ends (ht : t.Valid) (stamp : Stamp) (id : Identifier) (input : ExternalInput) (operator : String) :
    (update stamp id input operator).Ends t (fun r t' => r.span.Shaped ∧ ∃ old, t.Swapped [old] [r] t')
      (fun _ t' => t' = t) := by
  unfold update
  simp only [ends_bind, ends_liftM, ends_get, ends_set, ends_pure, implies_true, and_true]
  rintro span hspan old hold ⟨old', t'⟩ hreplace
  have hshape : (described input span operator id old.createdAt stamp.now).span.Shaped := Bounds.span_eq_ok hspan
  obtain ⟨-, -, hsw⟩ := Table.replace_ok ht (ordered_of_shaped hshape) hreplace
  exact ⟨hshape, old', hsw⟩

/-- Deleting an external range takes out one row, or changes nothing. -/
theorem delete_ends (ht : t.Valid) (id : Identifier) :
    (delete id).Ends t (fun r t' => t.Swapped [r] [] t') (fun _ t' => t' = t) := by
  unfold delete
  rw [ends_bind, ends_get]
  cases hrem : t.remove? id with
  | none => rfl
  | some x => exact Table.swapped_of_remove? ht hrem

/-- Putting back an external range puts in that row, if it has the right shape, or changes nothing. -/
theorem restore_ends (ht : t.Valid) (r : ExternalRange) :
    (restore r).Ends t (fun _ t' => r.span.Shaped ∧ t.Swapped [] [r] t') (fun _ t' => t' = t) := by
  unfold restore
  simp only [ends_bind, ends_liftM, ends_get, ends_set, implies_true, and_true]
  intro _ hcheck t' hinsert
  have hshape := Span.checkShape_eq_ok_iff.1 hcheck
  exact ⟨hshape, Table.swapped_of_insert ht (ordered_of_shaped hshape) hinsert⟩

end AddressSpace.External
