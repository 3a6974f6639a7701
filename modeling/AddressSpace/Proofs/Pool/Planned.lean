import AddressSpace.Proofs.Engine.Sound
import AddressSpace.Proofs.Pool.Commit
import AddressSpace.Proofs.Pool.Regroup
import AddressSpace.Proofs.Span.Partition
/-!
# Splits along a plan

Whether a plan is applied is decided in two places: the check of plans looks at lengths, bounds and neighbours, and the store at
the network of each entry. Together they accept just the partitions of a range that is not assigned, with no more entries than a
plan may have (`splitAlong_partitions`). A plan that is the range itself changes nothing, and any other puts one row for each entry
in the place of the range.
-/

namespace AddressSpace.Pool

open AddressSpace.Action

variable {F : Family} {p : Pool F} {stamp : Stamp} {user : Option String} {r : Range F} {plan : List (Span F)}

/-- A partition of a stored range that is not assigned is applied unless it has too many entries. -/
theorem splitAlong_partition (h : p.store.AtRest) (hr : r ∈ p.store.table) (hshaped : r.span.Shaped)
    (hm : r.status.mutable = true) (hplan : r.span.Partition plan)
    (hfresh : stamp.Fresh p.store.table plan.length) :
    (splitAlong stamp r.id plan user).Ends p
      (fun out _ => plan.length ≤ p.limits.planEntries F ∧ out.value.map (·.span) = plan)
      (fun f q => p.limits.planEntries F < plan.length ∧ f = .planTooLong plan.length (p.limits.planEntries F) ∧ q = p) := by
  have hmutable : requireMutable r .split = .ok () := requireMutable_eq_ok_iff.2 hm
  have hcheck := hplan.checkPlan_eq hshaped.start_le (p.limits.planEntries F)
  unfold splitAlong
  simp only [ends_bind, ends_get, onStore, ends_on]
  refine Store.locking_row_of_mem h hr fun tx t hguard htable => ?_
  simp only [ends_bind, ends_liftM, ends_ite, ends_pure, ends_record, hmutable, hcheck]
  refine ⟨fun _ _ => ⟨fun _ haccept => ?_, fun f hrefuse => ⟨trivial, ?_⟩⟩, fun _ hf => by cases hf⟩
  · by_cases hlong : p.limits.planEntries F < plan.length
    · rw [if_pos hlong] at haccept
      cases haccept
    · have hfits := Nat.not_lt.1 hlong
      refine ⟨fun hself => ⟨trivial, hfits, hself.symm⟩, fun _ => ?_⟩
      have hsource : r ∈ t.table := htable ▸ hr
      refine (writeParts_succeeds (htable ▸ h.valid) hsource hguard hshaped.start_le hplan.shaped hplan.tiles
        (htable ▸ hfresh)).imp ?_ fun _ _ hf => hf.elim
      rintro rows u ⟨rfl, hlocks⟩
      exact ⟨hlocks, hfits, map_span_parts ..⟩
  · by_cases hlong : p.limits.planEntries F < plan.length
    · rw [if_pos hlong] at hrefuse
      exact ⟨hlong, (Except.error.inj hrefuse).symm, back h htable⟩
    · rw [if_neg hlong] at hrefuse
      cases hrefuse

/-- The range is not assigned, and the plan is a partition of it with no more entries than a plan may have. -/
structure Plannable (limits : Limits) (r : Range F) (plan : List (Span F)) : Prop where
  status : r.status = .wait ∨ r.status = .reserved
  length_pos : 1 ≤ plan.length
  length_le : plan.length ≤ limits.planEntries F
  partition : r.span.Partition plan

/-- A plan that is applied is a partition: what the check of plans leaves out is seen to when the rows are written, or needs no
checking when the plan is the range itself. -/
theorem plannable_of_splitAlong (h : p.store.AtRest) (hshaped : ∀ r ∈ p.store.table, r.span.Shaped) (id : Identifier)
    (plan : List (Span F)) :
    (splitAlong stamp id plan user).Ends p (fun _ _ => ∃ r ∈ p.store.table, r.id = id ∧ Plannable p.limits r plan)
      fun _ _ => True := by
  refine (splitAlong_exact h id plan).imp ?_ fun _ _ _ => trivial
  rintro out q ⟨r, hr, hid, hm, hplan, hcase⟩
  have hentries : ∀ x ∈ plan, x.Shaped := by
    rcases hcase with ⟨rfl, -, -⟩ | ⟨-, -, hb⟩
    · exact List.forall_mem_singleton.2 (hshaped r hr)
    · intro x hx
      rw [← map_span_named_parts r stamp.now stamp.rowId plan] at hx
      obtain ⟨row, hrow, rfl⟩ := List.mem_map.1 hx
      exact hb.shaped row hrow
  have hle : r.span.start ≤ r.span.stop := h.valid.ordered r hr
  obtain ⟨hpartition, hmost⟩ := (Span.partition_iff_checkPlan hle).2 ⟨hplan, hentries⟩
  exact ⟨r, hr, hid, mutable_iff.1 hm, List.length_pos_iff.2 (hpartition.ne_nil hle), hmost, hpartition⟩

/-- In a pool in which no operation is under way and all rows have the right shape, a split along a plan goes through just when a
row with the identifier is stored that can be split along it. The plan that is the row itself changes nothing. Any other puts its
parts in the place of the row, and the split is written down. A split that does not go through changes nothing. -/
theorem splitAlong_partitions (id : Identifier) (plan : List (Span F)) (user : Option String) (h : p.store.AtRest)
    (hshaped : ∀ r ∈ p.store.table, r.span.Shaped) (hfresh : stamp.Fresh p.store.table plan.length) :
    ((∃ out q, (splitAlong stamp id plan user).run p = (.ok out, q)) ↔
        ∃ r ∈ p.store.table, r.id = id ∧ Plannable p.limits r plan) ∧
      (∀ out q, (splitAlong stamp id plan user).run p = (.ok out, q) →
        ∃ r ∈ p.store.table, r.id = id ∧ (plan = [r.span] → out.value = [r] ∧ q = p) ∧
          (plan ≠ [r.span] → PartedInto p.store.table r plan out.value ∧ q.store.table.Valid ∧
            (∀ s, s ∈ q.store.table ↔ s ∈ out.value ∨ s ∈ p.store.table ∧ s ≠ r) ∧
            q.journal = p.journal.enter stamp user (some (.split r.span plan)))) ∧
      ∀ f q, (splitAlong stamp id plan user).run p = (.error f, q) → q = p := by
  have hends : (splitAlong stamp id plan user).Ends p _ _ := splitAlong_exact h id plan
  refine ⟨⟨?_, ?_⟩, fun out q hrun => ?_, fun f q hrun => ?_⟩
  · rintro ⟨out, q, hrun⟩
    exact (plannable_of_splitAlong h hshaped id plan).ok_of_run hrun
  · rintro ⟨r, hr, rfl, hr'⟩
    have happlied : (splitAlong stamp r.id plan user).Ends p _ _ :=
      splitAlong_partition h hr (hshaped r hr) (mutable_iff.2 hr'.status) hr'.partition hfresh
    obtain ⟨out, q, hrun, -⟩ := (happlied.imp (fun _ _ h => h) fun _ _ hf => absurd hr'.length_le (Nat.not_le.2 hf.1)).exists_run
    exact ⟨out, q, hrun⟩
  · obtain ⟨r, hr, hid, -, -, hcase⟩ := hends.ok_of_run hrun
    refine ⟨r, hr, hid, ?_⟩
    rcases hcase with ⟨hself, rfl, rfl⟩ | ⟨hne, rfl, hb⟩
    · exact ⟨fun _ => ⟨rfl, rfl⟩, fun hne => absurd hself hne⟩
    · rw [map_named_parts] at hb ⊢
      have hinto : PartedInto p.store.table r plan _ := partedInto_parts hfresh stamp.now
      refine ⟨fun hself => absurd hself hne, fun _ => ⟨hinto, hb.table.valid, fun s => ?_, hb.journal⟩⟩
      rw [hb.table.mem_iff, or_comm, List.mem_singleton]
  · have := hends.fail_of_run (congrArg Prod.fst hrun)
    rwa [hrun] at this

/-- A reserved range is split along a plan with parts of two lengths, and the split is written down. -/
theorem splitAlong_partitions_sample :
    let p := (Operation.afterAll Operation.sample (Engine.empty .standard)).pool .v4
    let plan : List (Span .v4) :=
      [⟨.ofBits .v4 512, .ofBits .v4 639, 25⟩, ⟨.ofBits .v4 640, .ofBits .v4 703, 26⟩, ⟨.ofBits .v4 704, .ofBits .v4 767, 26⟩]
    p.store.AtRest ∧ (∀ r ∈ p.store.table, r.span.Shaped) ∧ (Stamp.counting 32).Fresh p.store.table plan.length ∧
      ∃ r ∈ p.store.table, r.status = .reserved ∧ ∃ out q, (splitAlong (.counting 32) r.id plan none).run p = (.ok out, q) ∧
        PartedInto p.store.table r plan out.value ∧
        q.journal = p.journal.enter (.counting 32) none (some (.split r.span plan)) := by
  intro p plan
  have hreached : Reached (fun _ => true) (Engine.empty .standard) (Operation.afterAll Operation.sample (Engine.empty .standard)) :=
    reached_afterAll _ rfl
  have hsound : p.store.Sound := (Engine.reached_sound (Engine.sound_empty _) hreached).pool .v4
  have hfresh : (Stamp.counting 32).Fresh p.store.table plan.length := ⟨by decide +kernel, by decide +kernel⟩
  let r : Range .v4 := (p.store.table.get? (.ofBits 17)).get (by decide +kernel)
  have hmem : r ∈ p.store.table := by
    rw [Table.mem_def]
    decide +kernel
  obtain ⟨hiff, hgives, -⟩ := splitAlong_partitions r.id plan none hsound.toAtRest hsound.shaped hfresh
  have hpartition : r.span.Partition plan ∧ plan.length ≤ p.limits.planEntries .v4 := by
    have hshapes : ∀ x ∈ plan, x.checkShape = .ok () := by decide +kernel
    refine (Span.partition_iff_checkPlan (by decide +kernel)).2 ⟨by decide +kernel, fun x hx => ?_⟩
    exact Span.checkShape_eq_ok_iff.1 (hshapes x hx)
  obtain ⟨out, q, hrun⟩ := hiff.2 ⟨r, hmem, rfl, .inr (by decide +kernel), by decide, hpartition.2, hpartition.1⟩
  obtain ⟨s, hs, hid, -, hnew⟩ := hgives out q hrun
  obtain rfl : s = r := Table.eq_of_id hs hmem hid
  obtain ⟨hinto, -, -, hjournal⟩ := hnew (by decide +kernel)
  exact ⟨hsound.toAtRest, hsound.shaped, hfresh, r, hmem, by decide +kernel, out, q, hrun, hinto, hjournal⟩

end AddressSpace.Pool
