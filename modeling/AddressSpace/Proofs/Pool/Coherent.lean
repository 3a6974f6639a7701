import AddressSpace.Proofs.Pool.Members
/-!
# Statuses and consumers

A waiting range is held for nobody, a reserved one for somebody, and an assigned one by somebody since some time. Every
transition keeps it so.
-/

namespace AddressSpace

variable {F : Family}

/-- The consumer and the time of assignment are there just when the status asks for them. -/
def Range.Coherent (r : Range F) : Prop :=
  match r.status with
  | .wait => r.org = none ∧ r.assignedAt = none
  | .reserved => r.org.isSome = true ∧ r.assignedAt = none
  | .assigned => r.org.isSome = true ∧ r.assignedAt.isSome = true

namespace Range

variable {r s : Range F}

/-- Whether a range is coherent depends on its status, its consumer and the time of assignment only. -/
theorem Coherent.congr (h : r.Coherent) (hs : s.status = r.status) (ho : s.org = r.org) (ha : s.assignedAt = r.assignedAt) :
    s.Coherent := by
  unfold Coherent at h ⊢
  rwa [hs, ho, ha]

@[simp] theorem coherent_named : r.named.Coherent ↔ r.Coherent := by
  unfold Coherent
  rw [named_status, named_org, named_assignedAt]

/-- A waiting range has no consumer. -/
theorem Coherent.org_of_wait (h : r.Coherent) (hs : r.status = .wait) : r.org = none := by
  unfold Coherent at h
  rw [hs] at h
  exact h.1

/-- A range that is not assigned has a consumer just when it is reserved. -/
theorem Coherent.org_of_mutable (h : r.Coherent) (hm : r.status.mutable = true) :
    (if r.status = .reserved then r.org else none) = r.org := by
  unfold Coherent at h
  cases hs : r.status with
  | wait => rw [hs] at h; exact h.1.symm
  | reserved => rfl
  | assigned => rw [hs] at hm; cases hm

/-- A range that is not assigned has no time of assignment. -/
theorem Coherent.assignedAt_of_mutable (h : r.Coherent) (hm : r.status.mutable = true) : r.assignedAt = none := by
  unfold Coherent at h
  cases hs : r.status with
  | wait => rw [hs] at h; exact h.2
  | reserved => rw [hs] at h; exact h.2
  | assigned => rw [hs] at hm; cases hm

end Range

/-- What a transition puts in is coherent if what it takes out is. -/
theorem Transition.coherent {stamp : Stamp} {event : Option (Event F)} {spans : List (Span F)} {old new : List (Range F)}
    (h : Transition stamp event spans old new) (ho : ∀ r ∈ old, r.Coherent) : ∀ r ∈ new, r.Coherent := by
  cases h with
  | stay => exact ho
  | added new => simp [NewRange.row, Range.build, Range.Coherent]
  | edited edit hm hs => simpa [RangeEdit.row, RangeEdit.apply, Range.Coherent] using ho
  | moved edit hm hs => simpa [RangeEdit.row, RangeEdit.apply, Range.Coherent] using ho
  | deleted hm => simp
  | reserved org hw => simp [Range.heldBy, Range.Coherent]
  | assigned org ha => simp [Range.heldBy, Range.Coherent]
  | recovered hw => simp [Range.heldBy, Range.Coherent]
  | remarked userRemark adminRemark => simpa [Range.remarked, Range.Coherent] using ho
  | @split source spans hm ht hne =>
    intro r hr
    obtain ⟨r', hr', rfl⟩ := List.mem_map.1 hr
    obtain ⟨-, hstatus, -, horg, hsince⟩ := Pool.mem_parts hr'
    exact Range.coherent_named.2 ((ho source (by simp)).congr hstatus horg hsince)
  | @merged _ first last target hf hl hc hne =>
    intro r hr
    have hfirst : first ∈ old := List.mem_of_mem_head? hf
    obtain ⟨hall, -⟩ := Pool.checkMembers_eq_ok_iff.1 hc
    have hcoherent := ho first hfirst
    have hmutable := (hall first hfirst).1
    rw [List.mem_singleton.1 hr, Range.coherent_named]
    refine hcoherent.congr rfl (hcoherent.org_of_mutable hmutable) ?_
    exact (hcoherent.assignedAt_of_mutable hmutable).symm ▸ rfl

/-- A step of a pool keeps its ranges coherent. -/
theorem Pool.Step.coherent {p q : Pool F} {stamp : Stamp} {user : Option String} {spans : List (Span F)}
    (hstep : Step stamp user p spans q) (h : ∀ r ∈ p.store.table, r.Coherent) : ∀ r ∈ q.store.table, r.Coherent := by
  obtain ⟨event, old, new, htr, hb⟩ := hstep
  exact hb.table.all h (htr.coherent fun r hr => h r (hb.table.old_mem r hr))

end AddressSpace
