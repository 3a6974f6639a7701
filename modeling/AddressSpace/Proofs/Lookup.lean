import AddressSpace.Proofs.Engine.Pools
/-!
# Splits and merges do not show in lookups

A split or a merge replaces rows by rows that cover the same addresses and have the same status, AS number and consumer. Whoever
looks up a single address is told the same of it before and after (`lookup_of_regroups`).
-/

namespace AddressSpace

variable {F : Family}

/-! ## Rows that cover the same numbers -/

/-- Rows give way to rows that tile the same run and all tell the same: a lookup is told what it was told before. -/
theorem Table.Swapped.map_containing? {R α : Type} [Row R] {t t' : Table R} {old new : List R} {a b : Nat}
    (hsw : t.Swapped old new t') (ht : t.Valid) (hold : Interval.Tiles a b (old.map Row.span))
    (hnew : Interval.Tiles a b (new.map Row.span)) {tell : R → α} {v : α} (hvo : ∀ r ∈ old, tell r = v)
    (hvn : ∀ r ∈ new, tell r = v) (n : Nat) : (t'.containing? n).map tell = (t.containing? n).map tell := by
  have hcover : (∃ r ∈ old, (Row.span r).contains n = true) ↔ ∃ r ∈ new, (Row.span r).contains n = true := by
    have ho := hold.exists_contains_iff n
    have hn := hnew.exists_contains_iff n
    simp only [List.mem_map, exists_exists_and_eq_and] at ho hn
    rw [ho, hn]
  cases hfind : t.containing? n with
  | some r =>
    obtain ⟨hr, hn⟩ := (containing?_eq_some_iff ht).1 hfind
    by_cases hro : r ∈ old
    · obtain ⟨s, hs, hsn⟩ := hcover.1 ⟨r, hro, hn⟩
      rw [(containing?_eq_some_iff hsw.valid).2 ⟨hsw.new_mem hs, hsn⟩, Option.map_some, Option.map_some, hvo r hro, hvn s hs]
    · rw [(containing?_eq_some_iff hsw.valid).2 ⟨hsw.kept hr hro, hn⟩]
  | none =>
    have hnone := (containing?_eq_none_iff ht).1 hfind
    have hnone' : t'.containing? n = none := by
      refine (containing?_eq_none_iff hsw.valid).2 fun s hs => ?_
      rcases (hsw.mem_iff s).1 hs with ⟨hs, -⟩ | hs
      · exact hnone s hs
      · rw [← Bool.not_eq_true]
        intro hsn
        obtain ⟨r, hr, hrn⟩ := hcover.2 ⟨s, hs, hsn⟩
        rw [hnone r (hsw.old_mem r hr)] at hrn
        cases hrn
    rw [hnone']

/-! ## One split or merge -/

/-- What a lookup tells of an address: its status, its AS number and its consumer. -/
def Range.standing (r : Range F) : Status × UInt32 × Option Consumer := (r.status, r.asn.number, r.org)

@[simp] theorem Range.standing_named (r : Range F) : r.named.standing = r.standing := by
  simp [standing]

/-- Each member of a merge stands as the range over all of them. -/
theorem Range.standing_member {members : List (Range F)} {first m : Range F} (last : Range F) {target : UInt8} (now : Instant)
    (id : Identifier) (hf : members.head? = some first) (hc : Pool.checkMembers target members = .ok ()) (hm : m ∈ members)
    (hcoherent : m.Coherent) : m.standing = (Pool.mergedRange now id target first last).standing := by
  obtain ⟨rest, rfl⟩ := List.head?_eq_some_iff.1 hf
  obtain ⟨hall, hchain⟩ := Pool.checkMembers_eq_ok_iff.1 hc
  obtain ⟨hstatus, hasn, horg⟩ := Pool.alike hchain m hm
  -- members that wait have no consumer, and those that are reserved have that of the first
  have hcarried : m.org = if first.status = .reserved then first.org else none := by
    rw [← hcoherent.org_of_mutable (hall m hm).1, hstatus]
    by_cases hr : first.status = .reserved
    · rw [if_pos hr, if_pos hr, horg hr]
    · rw [if_neg hr, if_neg hr]
  rw [standing, standing, Pool.mergedRange_status, Pool.mergedRange_asn, Pool.mergedRange_org, hstatus, hasn, hcarried]

/-- A split or a merge changes nothing of what a lookup tells. -/
theorem Pool.Regrouped.map_containing? {p q : Pool F} {stamp : Stamp} {user : Option String} {spans : List (Span F)}
    (h : Regrouped stamp user p spans q) (hp : p.store.Sound) (hc : ∀ r ∈ p.store.table, r.Coherent) (n : Nat) :
    (q.store.table.containing? n).map Range.standing = (p.store.table.containing? n).map Range.standing := by
  cases h with
  | same => rfl
  | @split source spans _ hm htile hne hb =>
    have hsource : source ∈ p.store.table := hb.table.old_mem source (List.mem_singleton.2 rfl)
    have hold : Interval.Tiles source.span.start.bits (source.span.stop.bits + 1) [source.span.interval] :=
      ⟨rfl, (hp.shaped source hsource).first_le, rfl⟩
    have hspans := map_span_named_parts source stamp.now stamp.rowId spans
    refine hb.table.map_containing? hp.valid hold (v := source.standing) ?_ ?_ ?_ n
    · rw [← hspans, List.map_map] at htile
      exact htile
    · intro r hr
      rw [List.mem_singleton.1 hr]
    · intro r hr
      obtain ⟨r', hr', rfl⟩ := List.mem_map.1 hr
      obtain ⟨-, hstatus, hasn, horg, -⟩ := mem_parts hr'
      rw [Range.standing_named, Range.standing, hstatus, hasn, horg, Range.standing]
  | @merged members first last target _ hf hl hcheck hne hb =>
    have hmember : ∀ m ∈ members, m ∈ p.store.table := hb.table.old_mem
    have hordered : ∀ m ∈ members, m.span.start ≤ m.span.stop := fun m hm => (hp.shaped m (hmember m hm)).start_le
    have hold := tiles_of_members hf hl hordered (checkMembers_eq_ok_iff.1 hcheck).2
    rw [List.map_map] at hold
    refine hb.table.map_containing? hp.valid hold (v := (mergedRange stamp.now (stamp.rowId 0) target first last).standing) ?_ ?_ ?_ n
    · have hshaped := hb.shaped _ (List.mem_singleton.2 rfl)
      rw [Range.named_span, mergedRange_span] at hshaped
      rw [List.map_singleton, Range.row_span, Range.named_span, mergedRange_span]
      exact ⟨rfl, hshaped.first_le, rfl⟩
    · intro m hm
      exact Range.standing_member last stamp.now (stamp.rowId 0) hf hcheck hm (hc m (hmember m hm))
    · intro r hr
      rw [List.mem_singleton.1 hr, Range.standing_named]

/-! ## All of them -/

namespace Engine

variable {e : Engine} {limits : Limits} {stamp : Stamp} {user : Option String}

/-- After a split or a merge, whether it succeeds or fails, the pool is regrouped. -/
theorem regrouped_after (h : (e.pool F).store.AtRest) {op : RangeOperation F} (ho : op.regroups = true) (stamp : Stamp)
    (user : Option String) :
    ∃ spans, Pool.Regrouped stamp user (e.pool F) spans (((Operation.onRanges F stamp user op).after e).pool F) := by
  refine Action.Ends.state (q := fun e' : Engine => ∃ spans, Pool.Regrouped stamp user (e.pool F) spans (e'.pool F)) ?_
  refine (regroups_ends h ho).imp ?_ ?_
  · rintro _ _ ⟨spans, q, hq, rfl⟩
    rw [followed, rangesChanged_pool, pool_withPool]
    exact ⟨spans, hq⟩
  · rintro _ _ rfl
    exact ⟨[], .same⟩

/-- In every engine that ordinary operations lead to from an empty one, a split or a merge does not show in the lookup of a
single address: it finds a range after the operation just when it found one before, with the same status, AS number and
consumer, and the range that it finds is the only one that holds the address. -/
theorem lookup_of_regroups (hr : Reached Operation.ordinary (empty limits) e) {op : RangeOperation F}
    (ho : op.regroups = true) (stamp : Stamp) (user : Option String) (a : Address F) :
    let before := (e.pool F).store
    let after := (((Operation.onRanges F stamp user op).after e).pool F).store
    ((∃ f, before.rowAt a = .error f) ↔ ∃ f, after.rowAt a = .error f) ∧
      (∀ r s, before.rowAt a = .ok r → after.rowAt a = .ok s →
        r.status = s.status ∧ r.asn.number = s.asn.number ∧ r.org = s.org) ∧
      ∀ s ∈ after.table, s.span.contains a = true → after.rowAt a = .ok s := by
  intro before after
  have hsound := reached_ordinary_sound hr
  obtain ⟨spans, hregrouped⟩ := regrouped_after (hsound.pool F).toAtRest ho stamp user
  have hsame := hregrouped.map_containing? (hsound.pool F) (reached_coherent hr F) a.bits
  refine ⟨?_, fun r s hr hs => ?_, fun s hs hin => ?_⟩
  · rw [Store.exists_rowAt_eq_error_iff, Store.exists_rowAt_eq_error_iff, ← Option.map_eq_none_iff (f := Range.standing), ← hsame,
      Option.map_eq_none_iff]
  · rw [Store.rowAt_eq_ok_iff.1 hr, Store.rowAt_eq_ok_iff.1 hs, Option.map_some, Option.map_some, Option.some.injEq] at hsame
    have hstanding : r.standing = s.standing := hsame.symm
    simpa only [Range.standing, Prod.mk.injEq] using hstanding
  · have hafter := (after_sound hsound (.onRanges F stamp user op)).pool F
    exact Store.rowAt_eq_ok_iff.2 ((Table.containing?_eq_some_iff hafter.valid).2 ⟨hs, hin⟩)

/-- A reserved network of length 24 becomes two of length 25, and no lookup shows it. -/
theorem lookup_of_regroups_sample :
    let e := Operation.afterAll Operation.sample (empty .standard)
    let e' := (Operation.onRanges .v4 (.counting 32) none (.split (.ofBits 17) 25)).after e
    ((e.pool .v4).store.toList.length = 2 ∧ (e'.pool .v4).store.toList.length = 3) ∧
      ∀ (a : Address .v4) r s, (e.pool .v4).store.rowAt a = .ok r → (e'.pool .v4).store.rowAt a = .ok s →
        r.status = s.status ∧ r.asn.number = s.asn.number ∧ r.org = s.org :=
  ⟨by decide +kernel, fun a => (lookup_of_regroups (reached_afterAll Operation.sample rfl) rfl (.counting 32) none a).2.1⟩

end Engine

end AddressSpace
