import AddressSpace.Proofs.Engine.Pools
import AddressSpace.Proofs.Pool.Planned
import AddressSpace.Proofs.Span.Halving
/-!
# Halving plans that are applied

A halving plan is made to be applied. It is a partition of its range, so that nothing but the number of its entries stands in the
way (`Pool.splitAlong_partition`): the plan is applied when the limit allows for so many entries, and refused for these when it
does not (`halvingPlan_applied`). The standard limits allow for the subnets that the greatest depth can tell apart, but not for
the pieces that the halving leaves aside besides, so that some plans of the greatest depth are refused
(`halvingPlan_not_always_applied`).
-/

namespace AddressSpace

open AddressSpace.Action

variable {F : Family}

namespace Pool

variable {p : Pool F} {target depth : UInt8}

/-- The halving plan of a stored range is that of its span. -/
theorem halvingPlan_eq_ok {id : Identifier} {plan : List (Span F)} (h : p.halvingPlan id target depth = .ok plan) :
    ∃ r, p.store.row id = .ok r ∧ r.span.Shaped ∧ r.span.plen < target ∧ target.toNat ≤ F.width ∧ 0 < depth.toNat ∧
      depth.toNat ≤ F.maxHalvingDepth ∧ r.span.IsHalvingPlan target depth.toNat plan := by
  unfold halvingPlan at h
  obtain ⟨r, hr, h⟩ := bind_eq_ok_iff.1 h
  obtain ⟨⟨hshaped, hlonger, hwidth, hpos, hmost⟩, hpieces⟩ := Span.halvingPlan_eq_ok_iff.1 h
  have hhalving := Span.isHalvingPlan_of_eq_ok hshaped (UInt8.le_of_lt hlonger) hwidth hpieces
  exact ⟨r, hr, hshaped, hlonger, hwidth, hpos, hmost, hhalving⟩

/-- The standard limits allow for every halving plan of less than the greatest depth, and for every one without steps. -/
theorem length_halvingPlan_le {s : Span F} {plan : List (Span F)} (hplan : s.IsHalvingPlan target depth.toNat plan)
    (hle : s.plen ≤ target) (hwidth : target.toNat ≤ F.width)
    (hpos : 0 < depth.toNat) (hmost : depth.toNat ≤ F.maxHalvingDepth)
    (hfew : depth.toNat < F.maxHalvingDepth ∨ target.toNat ≤ s.plen.toNat + depth.toNat) :
    plan.length ≤ Limits.standard.planEntries F := by
  have hlength := hplan.length_le hle hwidth hpos
  rcases hfew with hfew | hflat
  · -- half as many subnets leave room for a piece for each bit of an address
    have hroom : 1 <<< (F.maxHalvingDepth - 1) + F.width ≤ Limits.standard.planEntries F := by cases F <;> decide
    have hsize := Mask.size_le_size (Nat.le_sub_one_of_lt hfew)
    omega
  · have hroom : 1 <<< F.maxHalvingDepth ≤ Limits.standard.planEntries F := by cases F <;> decide
    have hsize := Mask.size_le_size hmost
    omega

end Pool

/-- A network of length 48 in the 128-bit family. -/
def Operation.laboratory : List Operation :=
  let network : Span .v6 :=
    ⟨.ofBits .v6 0x20010db8000000000000000000000000, .ofBits .v6 0x20010db80000ffffffffffffffffffff, 48⟩
  [.onRanges .v6 (.counting 16) none (.create ⟨"lab", network, ⟨1, 64512, "AS64512"⟩, "", ""⟩)]

namespace Engine

variable {e : Engine} {stamp : Stamp} {target depth : UInt8}

/-- In every engine that operations lead to under the standard limits from an empty or a restored one, the halving plan of a range
that is not assigned can be applied with identifiers that are new, unless it has more entries than a plan may have. Then it is
refused for these, and nothing changes. This happens with plans of the greatest depth only, and not when they need no steps. -/
theorem halvingPlan_applied {start : Engine}
    (hs : start = empty .standard ∨ ∃ snapshot, restore snapshot .standard = .ok start)
    (hr : Reached (fun _ => true) start e) {r : Range F} (hmem : r ∈ (e.pool F).store.table) (hm : r.status.mutable = true)
    {plan : List (Span F)} (hplan : (e.pool F).halvingPlan r.id target depth = .ok plan)
    (hfresh : stamp.Fresh (e.pool F).store.table plan.length) (user : Option String) :
    (plan.length ≤ Limits.standard.planEntries F →
        ∃ rows e', (splitAlong stamp r.id plan user).run e = (.ok rows, e') ∧ rows.map (·.span) = plan) ∧
      (Limits.standard.planEntries F < plan.length →
        (splitAlong stamp r.id plan user).run e =
          (.error (.planTooLong plan.length (Limits.standard.planEntries F)), e)) ∧
      (depth.toNat < F.maxHalvingDepth ∨ target.toNat ≤ r.span.plen.toNat + depth.toNat →
        plan.length ≤ Limits.standard.planEntries F) := by
  have hstart : start.Sound :=
    sound_of_start (hs.imp (fun h => ⟨.standard, h⟩) fun ⟨snapshot, h⟩ => ⟨snapshot, .standard, h⟩)
  have hlimits : (e.pool F).limits = .standard := by
    rw [reached_limits hstart hr F]
    rcases hs with rfl | ⟨snapshot, h⟩
    · cases F <;> rfl
    · exact restore_limits h F
  have hsound : (e.pool F).store.Sound := (reached_sound hstart hr).pool F
  obtain ⟨r', hrow, hshaped, hle, hwidth, hpos, hmost, hhalving⟩ := Pool.halvingPlan_eq_ok hplan
  obtain rfl : r' = r := by
    have hget := Store.row_eq_ok_iff.1 hrow
    rw [← Range.row_id, Table.mem_def.1 hmem] at hget
    exact (Option.some.inj hget).symm
  have hpartition : r'.span.Partition plan := hhalving.partition (UInt8.le_of_lt hle) hwidth
  have hpool : (Pool.splitAlong stamp r'.id plan user).Ends (e.pool F) _ _ :=
    Pool.splitAlong_partition hsound.toAtRest hmem hshaped hm hpartition hfresh
  rw [hlimits] at hpool
  refine ⟨fun hfits => ?_, fun hlong => ?_, fun hfew => ?_⟩
  · refine Ends.exists_run ((ends_manage _).2 (hpool.imp (fun _ _ hok => hok.2) fun _ _ hfail => ?_))
    exact absurd hfail.1 (Nat.not_lt.2 hfits)
  · have hrefused : (splitAlong stamp r'.id plan user).Ends e (fun _ _ => False)
        (fun f e' => f = .planTooLong plan.length (Limits.standard.planEntries F) ∧ e' = e) := by
      refine (ends_manage _).2 (hpool.imp (fun _ _ hok => absurd hlong (Nat.not_lt.2 hok.1)) ?_)
      rintro f q ⟨-, hf, rfl⟩
      exact ⟨hf, withPool_pool F e⟩
    obtain ⟨f, e', hrun, rfl, rfl⟩ := hrefused.exists_error
    exact hrun
  · exact Pool.length_halvingPlan_le hhalving (UInt8.le_of_lt hle) hwidth hpos hmost hfew

/-- A reserved network of length 24 is cut into two subnets of length 27, one of length 26 and one of length 25. -/
theorem halvingPlan_applied_sample :
    let e := Operation.afterAll Operation.sample (empty .standard)
    ∃ r ∈ (e.pool .v4).store.table, r.status = .reserved ∧ ∃ plan, (e.pool .v4).halvingPlan r.id 27 1 = .ok plan ∧
      plan.map (·.plen) = [27, 27, 26, 25] ∧
      ∃ rows e', (splitAlong (.counting 32) r.id plan none).run e = (.ok rows, e') ∧ rows.map (·.span) = plan := by
  intro e
  have hreached : Reached (fun _ => true) (empty .standard) e := reached_afterAll _ rfl
  let r : Range .v4 := ((e.pool .v4).store.table.get? (.ofBits 17)).get (by decide +kernel)
  have hmem : r ∈ (e.pool .v4).store.table := by
    rw [Table.mem_def]
    decide +kernel
  have hmade : ((e.pool .v4).halvingPlan r.id 27 1).map (·.map (·.plen)) = .ok [27, 27, 26, 25] := by decide +kernel
  obtain ⟨plan, hplan, hplens⟩ := map_eq_ok_iff.1 hmade
  have hlength : plan.length = 4 := by rw [← List.length_map, hplens]; rfl
  have hfresh : (Stamp.counting 32).Fresh (e.pool .v4).store.table plan.length := by
    rw [hlength]
    exact ⟨by decide +kernel, by decide +kernel⟩
  refine ⟨r, hmem, by decide +kernel, plan, hplan, hplens, ?_⟩
  exact (halvingPlan_applied (.inl rfl) hreached hmem (by decide +kernel) hplan hfresh none).1 (by rw [hlength]; decide)

/-- A plan that was made is not always applied: a network of length 48 that is to be cut with the greatest depth into subnets
nine bits longer has one half cut into as many subnets as a plan may have entries, and the other half besides. -/
theorem halvingPlan_not_always_applied :
    ¬∀ (F : Family) (start e : Engine),
      (start = empty .standard ∨ ∃ snapshot, restore snapshot .standard = .ok start) → Reached (fun _ => true) start e →
      ∀ r ∈ (e.pool F).store.table, r.status.mutable = true → ∀ target depth plan,
        (e.pool F).halvingPlan r.id target depth = .ok plan →
        ∀ stamp : Stamp, stamp.Fresh (e.pool F).store.table plan.length → ∀ user,
          ∃ rows e', (splitAlong stamp r.id plan user).run e = (.ok rows, e') := by
  intro h
  let e := Operation.afterAll Operation.laboratory (empty .standard)
  let r : Range .v6 := ((e.pool .v6).store.table.get? (.ofBits 16)).get (by decide +kernel)
  have hmem : r ∈ (e.pool .v6).store.table := by
    rw [Table.mem_def]
    decide +kernel
  have hmade : ((e.pool .v6).halvingPlan r.id 57 8).map
      (fun plan => (plan.length, ((splitAlong (.counting 32) r.id plan none).run e).1)) =
        .ok (257, .error (.planTooLong 257 256)) := by decide +kernel
  obtain ⟨plan, hplan, hmade⟩ := map_eq_ok_iff.1 hmade
  obtain ⟨hlength, hrefused⟩ := Prod.mk.inj hmade
  have hfresh : (Stamp.counting 32).Fresh (e.pool .v6).store.table plan.length := by
    rw [hlength]
    exact ⟨Stamp.nodup_counting (by decide +kernel), by decide +kernel⟩
  have hreached : Reached (fun _ => true) (empty .standard) e := reached_afterAll _ rfl
  obtain ⟨rows, e', hrun⟩ :=
    h .v6 (empty .standard) e (.inl rfl) hreached r hmem (by decide +kernel) 57 8 plan hplan (.counting 32) hfresh none
  rw [hrun] at hrefused
  cases hrefused

end Engine

end AddressSpace
