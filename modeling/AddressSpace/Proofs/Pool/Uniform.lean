import AddressSpace.Proofs.Engine.Operation
import AddressSpace.Proofs.Pool.Commit
import AddressSpace.Proofs.Pool.Regroup
import AddressSpace.Proofs.Span.Subnets
import AddressSpace.Proofs.Table.Built
/-!
# Uniform splits

Whether a range can be split into its subnets of one length is decided by the plan alone: nothing stands in the way of writing the
subnets of a stored range when there are identifiers for them (`split_succeeds`). A split thus goes through just for a stored range
that is not assigned and a length that is greater than its own by no more than the limit, and it replaces the range by one row for
each network of the length that meets it (`split_into_networks`).
-/

namespace AddressSpace.Pool

open AddressSpace.Action

variable {F : Family} {p : Pool F} {stamp : Stamp} {user : Option String} {target : UInt8} {id : Identifier} {r : Range F}

/-! ## When a range is split -/

/-- The range is not assigned, and the length is greater than its own by no more than the limit. -/
structure Splittable (limits : Limits) (r : Range F) (target : UInt8) : Prop where
  status : r.status = .wait ∨ r.status = .reserved
  longer : r.span.plen.toNat < target.toNat
  le_width : target.toNat ≤ F.width
  depth : target.toNat - r.span.plen.toNat ≤ limits.splitDepth.toNat

/-- The plan for a range whose bounds are in order is accepted just when the range can be split. -/
theorem uniformPlan_iff_splittable {limits : Limits} {spans : List (Span F)} (hle : r.span.start ≤ r.span.stop) :
    uniformPlan limits r target = .ok spans ↔ Splittable limits r target ∧ spans = r.span.pieces target := by
  rw [uniformPlan_eq_ok_iff, mutable_iff]
  constructor
  · rintro ⟨hm, hlonger, hwidth, hdepth, -, hspans⟩
    rw [UInt8.le_iff_toNat_le, UInt8.toNat_sub_of_le _ _ (UInt8.le_of_lt hlonger)] at hdepth
    exact ⟨⟨hm, UInt8.lt_iff_toNat_lt.1 hlonger, hwidth, hdepth⟩, hspans⟩
  · rintro ⟨h, hspans⟩
    have hlonger : r.span.plen < target := UInt8.lt_iff_toNat_lt.2 h.longer
    refine ⟨h.status, hlonger, h.le_width, ?_, hle, hspans⟩
    rw [UInt8.le_iff_toNat_le, UInt8.toNat_sub_of_le _ _ (UInt8.le_of_lt hlonger)]
    exact h.depth

/-- A stored range that can be split is split when there are identifiers for its subnets. -/
theorem split_succeeds (h : p.store.AtRest) (hr : r ∈ p.store.table) (hsplit : Splittable p.limits r target)
    (hfresh : stamp.Fresh p.store.table (r.span.pieces target).length) : (split stamp r.id target user).Succeeds p := by
  have hle : r.span.start ≤ r.span.stop := h.valid.ordered r hr
  have hplan : uniformPlan p.limits r target = .ok (r.span.pieces target) := (uniformPlan_iff_splittable hle).2 ⟨hsplit, rfl⟩
  obtain ⟨hshaped, htile⟩ := shaped_of_uniformPlan hplan
  unfold Succeeds split
  simp only [ends_bind, ends_get, onStore, ends_on]
  refine Store.locking_row_of_mem h hr fun tx t hguard htable => ?_
  simp only [ends_bind, ends_liftM, ends_pure, ends_record, hplan]
  refine ⟨fun spans hspans => ?_, fun _ hf => by cases hf⟩
  cases hspans
  refine (writeParts_succeeds (htable ▸ h.valid) (htable ▸ hr) hguard hle hshaped htile (htable ▸ hfresh)).imp ?_ fun _ _ hf => hf.elim
  rintro rows u ⟨-, hlocks⟩
  exact ⟨hlocks, trivial⟩

/-! ## What it becomes -/

/-- The rows are what a range is split into: one for each network of the length that meets it, which is clipped to it, in ascending
order. They take over from the range what is not a name, a time of change or a user remark, and have identifiers that are new to the
table. -/
structure SplitInto (t : Table (Range F)) (r : Range F) (target : UInt8) (rows : List (Range F)) : Prop where
  networks : ∃ cs, r.span.Meeting target.toNat cs ∧
    List.Forall₂ (fun row c => row.span.interval = ⟨max c.lo.bits r.span.start.bits, min c.hi.bits r.span.stop.bits⟩) rows cs
  length_pos : 1 ≤ rows.length
  length_le : rows.length ≤ 1 <<< (target.toNat - r.span.plen.toNat)
  plen : ∀ row ∈ rows, row.span.plen = target
  inherited : ∀ row ∈ rows, row.asn = r.asn ∧ row.status = r.status ∧ row.org = r.org ∧ row.assignedAt = r.assignedAt ∧
    row.adminRemark = r.adminRemark ∧ row.userRemark = ""
  unused : ∀ row ∈ rows, t.get? row.id = none
  distinct : (rows.map (·.id)).Nodup

/-- The parts of a range are what it is split into. -/
theorem splitInto_parts {t : Table (Range F)} {limits : Limits} (hshaped : r.span.Shaped) (h : Splittable limits r target)
    (hfresh : stamp.Fresh t (r.span.pieces target).length) (now : Instant) :
    SplitInto t r target (parts r now stamp.rowId (r.span.pieces target)) where
  networks := by
    obtain ⟨cs, hmeeting, hclipped⟩ := Span.exists_meeting hshaped.start_le h.le_width
    rw [← map_span_parts r now stamp.rowId (r.span.pieces target)] at hclipped
    exact ⟨cs, hmeeting, List.forall₂_map_left_iff.1 hclipped⟩
  length_pos := by
    rw [length_parts]
    exact List.length_pos_iff.2 (Span.pieces_ne_nil hshaped.start_le)
  length_le := by
    rw [length_parts]
    exact Span.length_pieces_le hshaped (Nat.le_of_lt h.longer) h.le_width
  plen := fun row hrow => Span.plen_of_mem_pieces (mem_parts hrow).1
  inherited := (partedInto_parts hfresh now).inherited
  unused := (partedInto_parts hfresh now).unused
  distinct := (partedInto_parts hfresh now).distinct

/-- In a pool in which no operation is under way and all rows have the right shape, a split into subnets of one length goes through
just when a row with the identifier is stored that can be split. It gives what the row is split into, and these rows take its place in
the table. -/
theorem split_into_networks (target : UInt8) (user : Option String) (h : p.store.AtRest)
    (hshaped : ∀ r ∈ p.store.table, r.span.Shaped)
    (hfresh : ∀ r ∈ p.store.table, r.id = id → stamp.Fresh p.store.table (r.span.pieces target).length) :
    ((∃ out q, (split stamp id target user).run p = (.ok out, q)) ↔
        ∃ r ∈ p.store.table, r.id = id ∧ Splittable p.limits r target) ∧
      ∀ out q, (split stamp id target user).run p = (.ok out, q) →
        ∃ r ∈ p.store.table, r.id = id ∧ SplitInto p.store.table r target out.value ∧ q.store.table.Valid ∧
          ∀ s, s ∈ q.store.table ↔ s ∈ out.value ∨ s ∈ p.store.table ∧ s ≠ r := by
  have hends : (split stamp id target user).Ends p _ _ := split_exact h id target
  refine ⟨⟨?_, ?_⟩, fun out q hrun => ?_⟩
  · rintro ⟨out, q, hrun⟩
    obtain ⟨r, hr, hid, spans, hplan, -⟩ := hends.ok_of_run hrun
    exact ⟨r, hr, hid, ((uniformPlan_iff_splittable (h.valid.ordered r hr)).1 hplan).1⟩
  · rintro ⟨r, hr, rfl, hsplit⟩
    obtain ⟨out, q, hrun, -⟩ := (split_succeeds h hr hsplit (hfresh r hr rfl)).exists_run
    exact ⟨out, q, hrun⟩
  · obtain ⟨r, hr, hid, spans, hplan, rfl, hb⟩ := hends.ok_of_run hrun
    obtain ⟨hsplit, rfl⟩ := (uniformPlan_iff_splittable (h.valid.ordered r hr)).1 hplan
    rw [map_named_parts] at hb ⊢
    refine ⟨r, hr, hid, splitInto_parts (hshaped r hr) hsplit (hfresh r hr hid) stamp.now, hb.table.valid, fun s => ?_⟩
    rw [hb.table.mem_iff, or_comm, List.mem_singleton]

/-- A range that starts inside a network of length 26 and ends with the last address is split into four, of which the first is
clipped. -/
theorem split_into_networks_top :
    let r : Range .v4 := Table.rowOf 1 0xffffff05 0xffffffff
    let p : Pool .v4 := ⟨⟨Table.empty.put r, .empty⟩, .empty, .standard⟩
    p.store.AtRest ∧ (∀ s ∈ p.store.table, s.span.Shaped) ∧
      (∀ s ∈ p.store.table, s.id = .ofBits 1 → (Stamp.counting 2).Fresh p.store.table (s.span.pieces 26).length) ∧
      ∃ out q, (split (.counting 2) (.ofBits 1) 26 none).run p = (.ok out, q) ∧ SplitInto p.store.table r 26 out.value ∧
        out.value.map (·.span.interval) =
          [⟨0xffffff05, 0xffffff3f⟩, ⟨0xffffff40, 0xffffff7f⟩, ⟨0xffffff80, 0xffffffbf⟩, ⟨0xffffffc0, 0xffffffff⟩] := by
  intro r p
  have hnone : ∀ s : Range .v4, s ∉ (Table.empty : Table (Range .v4)) := fun _ => nofun
  have hmem : ∀ s, s ∈ p.store.table ↔ s = r := by
    intro s
    exact (Table.mem_put_of_apart (fun s hs => (hnone s hs).elim) s).trans (or_iff_left (hnone s))
  have hrest : p.store.AtRest := ⟨Table.valid_put .empty (by decide +kernel) fun s hs => (hnone s hs).elim, rfl⟩
  have hshape : r.span.Shaped := Span.checkShape_eq_ok_iff (u := ()).1 (by decide +kernel)
  have hshaped : ∀ s ∈ p.store.table, s.span.Shaped := fun s hs => (hmem s).1 hs ▸ hshape
  have hfresh : ∀ s ∈ p.store.table, s.id = .ofBits 1 → (Stamp.counting 2).Fresh p.store.table (s.span.pieces 26).length := by
    intro s hs _
    obtain rfl := (hmem s).1 hs
    exact ⟨Stamp.nodup_counting (by decide +kernel), by decide +kernel⟩
  obtain ⟨hiff, hgives⟩ := split_into_networks 26 none hrest hshaped hfresh
  have hsplit : Splittable p.limits r 26 := ⟨.inl rfl, by decide, by decide, by decide⟩
  obtain ⟨out, q, hrun⟩ := hiff.2 ⟨r, (hmem r).2 rfl, rfl, hsplit⟩
  obtain ⟨s, hs, -, hinto, -⟩ := hgives out q hrun
  obtain rfl := (hmem s).1 hs
  have hspans : ((split (.counting 2) (.ofBits 1) 26 none).run p).1.map (fun out => out.value.map (·.span.interval)) = .ok
      [⟨0xffffff05, 0xffffff3f⟩, ⟨0xffffff40, 0xffffff7f⟩, ⟨0xffffff80, 0xffffffbf⟩, ⟨0xffffffc0, 0xffffffff⟩] := by
    decide +kernel
  rw [hrun] at hspans
  exact ⟨hrest, hshaped, hfresh, out, q, hrun, hinto, Except.ok.inj hspans⟩

end AddressSpace.Pool
