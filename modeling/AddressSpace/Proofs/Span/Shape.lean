import AddressSpace.Proofs.Outcome
import AddressSpace.Proofs.Table.Swap
import AddressSpace.Range
/-!
# Spans of the right shape

`Span.Shaped` says without the check what the check of a span's shape accepts (`checkShape_eq_ok_iff`). A range is prepared
for the store just when its span has that shape, and then only its name may change (`prepare_eq_ok_iff`).
-/

namespace AddressSpace

variable {F : Family}

/-- The length is one of the family, the bounds are in order, and both stand in one network of the length. -/
structure Span.Shaped (s : Span F) : Prop where
  plen_le : s.plen.toNat ≤ F.width
  start_le : s.start ≤ s.stop
  same_network : s.start.cut s.plen.toNat = s.stop.cut s.plen.toNat

/-- A length is accepted when it is one of the space. -/
theorem Mask.require_eq_ok_iff {width plen : Nat} {u : Unit} : Mask.require width plen = .ok u ↔ plen ≤ width := by
  unfold Mask.require
  by_cases h : width < plen
  · simp [h]
  · simp [h, Nat.not_lt.1 h]

namespace Span

theorem contains_iff {s : Span F} {a : Address F} : s.contains a = true ↔ s.start.bits ≤ a.bits ∧ a.bits ≤ s.stop.bits := by
  rw [contains, Bool.and_eq_true, decide_eq_true_eq, decide_eq_true_eq]
  rfl

/-- The check of shapes accepts just the spans of the right shape. -/
theorem checkShape_eq_ok_iff {s : Span F} {u : Unit} : s.checkShape = .ok u ↔ s.Shaped := by
  unfold checkShape
  simp only [check_bind_eq_ok_iff, refuse_bind_eq_ok_iff, refuse_eq_ok_iff, Mask.require_eq_ok_iff,
    Address.sameNetwork, Bool.not_eq_true', beq_eq_false_iff_ne, Classical.not_not]
  exact ⟨fun ⟨hplen, hle, hnet⟩ => ⟨hplen, Nat.not_lt.1 hle, hnet⟩,
    fun h => ⟨h.plen_le, Nat.not_lt.2 h.start_le, h.same_network⟩⟩

/-- The bounds of a span of the right shape are in order. -/
theorem Shaped.first_le {s : Span F} (h : s.Shaped) : s.interval.first ≤ s.interval.last := h.start_le

end Span

/-! ## Ranges as they are stored -/

namespace Range

@[simp] theorem named_id (r : Range F) : r.named.id = r.id := by rw [named]
@[simp] theorem named_span (r : Range F) : r.named.span = r.span := by rw [named]
@[simp] theorem named_status (r : Range F) : r.named.status = r.status := by rw [named]
@[simp] theorem named_asn (r : Range F) : r.named.asn = r.asn := by rw [named]
@[simp] theorem named_org (r : Range F) : r.named.org = r.org := by rw [named]
@[simp] theorem named_assignedAt (r : Range F) : r.named.assignedAt = r.assignedAt := by rw [named]
@[simp] theorem named_adminRemark (r : Range F) : r.named.adminRemark = r.adminRemark := by rw [named]
@[simp] theorem named_userRemark (r : Range F) : r.named.userRemark = r.userRemark := by rw [named]
@[simp] theorem named_createdAt (r : Range F) : r.named.createdAt = r.createdAt := by rw [named]
@[simp] theorem named_updatedAt (r : Range F) : r.named.updatedAt = r.updatedAt := by rw [named]

@[simp] theorem row_id (r : Range F) : Row.id r = r.id := rfl

@[simp] theorem row_span (r : Range F) : Row.span r = r.span.interval := rfl

/-- A range whose span has the right shape is prepared by giving it a name. -/
theorem prepare_eq_ok_iff {r r' : Range F} : r.prepare = .ok r' ↔ r.span.Shaped ∧ r' = r.named := by
  unfold prepare
  rw [check_bind_eq_ok_iff, mapError_eq_ok_iff, Span.checkShape_eq_ok_iff, pure_eq_ok_iff, @eq_comm _ r']

theorem ordered_of_shaped {r : Range F} (h : r.span.Shaped) : Row.Ordered r := h.first_le

theorem ordered_named {r : Range F} (h : r.span.Shaped) : Row.Ordered r.named :=
  ordered_of_shaped (by rwa [named_span])

end Range

end AddressSpace
