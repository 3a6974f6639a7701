import AddressSpace.Proofs.Pool.Members
import AddressSpace.Proofs.Store.Success
/-!
# Accepted splits and merges can be written

What the checks before a split or a merge accept can be stored: the new rows have the right shape, and they fill exactly the space
of the rows that they replace. With identifiers that are new to the table the parts of a range can be written
(`writeParts_succeeds`), and there is room for the range over the members of a merge (`room_of_members`).
-/

namespace AddressSpace

open AddressSpace.Action

variable {F : Family}

/-- The first `n` identifiers that the stamp gives to rows differ, and no row of the table has one of them. -/
structure Stamp.Fresh (stamp : Stamp) (t : Table (Range F)) (n : Nat) : Prop where
  distinct : ((List.range n).map stamp.rowId).Nodup
  unused : ∀ i < n, t.get? (stamp.rowId i) = none

/-- A row of the table has none of the identifiers. -/
theorem Stamp.Fresh.id_ne {stamp : Stamp} {t : Table (Range F)} {n : Nat} (h : stamp.Fresh t n) {i : Nat} (hi : i < n)
    {r : Range F} (hr : r ∈ t) : r.id ≠ stamp.rowId i := by
  intro he
  have hnone := h.unused i hi
  rw [← he, ← Range.row_id, Table.mem_def.1 hr] at hnone
  cases hnone

/-- Identifiers that are new to a table stay so when rows with other identifiers are put in. -/
theorem Stamp.Fresh.of_swapped {stamp : Stamp} {t t' : Table (Range F)} {n : Nat} {old new : List (Range F)}
    (h : stamp.Fresh t n) (hsw : t.Swapped old new t') (hnew : ∀ r ∈ new, ∀ i < n, r.id ≠ stamp.rowId i) : stamp.Fresh t' n where
  distinct := h.distinct
  unused := by
    intro i hi
    cases hget : t'.get? (stamp.rowId i) with
    | none => rfl
    | some r =>
      obtain ⟨hr, hid⟩ := hsw.valid.get?_eq_some_iff.1 hget
      rcases (hsw.mem_iff r).1 hr with ⟨hr, -⟩ | hr
      · exact absurd hid (h.id_ne hi hr)
      · exact absurd hid (hnew r hr i hi)

namespace Pool

variable {stamp : Stamp} {target : UInt8}

/-! ## Parts of a range -/

/-- A part goes by the name of its span, as it is stored. -/
@[simp] theorem named_part (source : Range F) (now : Instant) (id : Identifier) (span : Span F) :
    (part source now id span).named = part source now id span :=
  Range.named_of_name rfl

/-- The parts of a split have settled names. -/
theorem map_named_parts (source : Range F) (now : Instant) (ids : Nat → Identifier) (spans : List (Span F)) :
    (parts source now ids spans).map Range.named = parts source now ids spans := by
  rw [parts, List.map_map]
  exact List.map_congr_left fun s _ => named_part source now (ids s.2) s.1

theorem length_parts (source : Range F) (now : Instant) (ids : Nat → Identifier) (spans : List (Span F)) :
    (parts source now ids spans).length = spans.length := by
  rw [parts, List.length_map, List.length_zipIdx]

/-- The parts have the identifiers in order. -/
theorem map_id_parts (source : Range F) (now : Instant) (ids : Nat → Identifier) (spans : List (Span F)) :
    (parts source now ids spans).map (·.id) = (List.range spans.length).map ids := by
  have hid : ∀ s : Span F × Nat, (part source now (ids s.2) s.1).id = ids s.2 := by
    intro s
    simp [part, Range.build]
  rw [List.range_eq_range', ← List.zipIdx_map_snd 0 spans, parts, List.map_map, List.map_map]
  exact List.map_congr_left fun s _ => hid s

/-- A part has the admin remark of the source, and no user remark. -/
theorem remarks_of_mem_parts {source row : Range F} {now : Instant} {ids : Nat → Identifier} {spans : List (Span F)}
    (h : row ∈ parts source now ids spans) : row.adminRemark = source.adminRemark ∧ row.userRemark = "" := by
  obtain ⟨s, -, rfl⟩ := List.mem_map.1 h
  simp [part, Range.build]

/-- The rows are parts of the range, one for each span in order. They take over from the range what is not a name, a time of change
or a user remark, and have identifiers that are new to the table. -/
structure PartedInto (t : Table (Range F)) (r : Range F) (spans : List (Span F)) (rows : List (Range F)) : Prop where
  spans : rows.map (·.span) = spans
  inherited : ∀ row ∈ rows, row.asn = r.asn ∧ row.status = r.status ∧ row.org = r.org ∧ row.assignedAt = r.assignedAt ∧
    row.adminRemark = r.adminRemark ∧ row.userRemark = ""
  unused : ∀ row ∈ rows, t.get? row.id = none
  distinct : (rows.map (·.id)).Nodup

/-- The parts of a split are what a split is to store. -/
theorem partedInto_parts {t : Table (Range F)} {source : Range F} {spans : List (Span F)} (hfresh : stamp.Fresh t spans.length)
    (now : Instant) : PartedInto t source spans (parts source now stamp.rowId spans) where
  spans := map_span_parts ..
  inherited := by
    intro row hrow
    obtain ⟨-, hstatus, hasn, horg, hassigned⟩ := mem_parts hrow
    obtain ⟨hadmin, huser⟩ := remarks_of_mem_parts hrow
    exact ⟨hasn, hstatus, horg, hassigned, hadmin, huser⟩
  unused := by
    intro row hrow
    have hid : row.id ∈ (List.range spans.length).map stamp.rowId :=
      map_id_parts source now stamp.rowId spans ▸ List.mem_map_of_mem hrow
    obtain ⟨i, hi, he⟩ := List.mem_map.1 hid
    exact he ▸ hfresh.unused i (List.mem_range.1 hi)
  distinct := by
    rw [map_id_parts]
    exact hfresh.distinct

/-- The subnets of an accepted uniform plan have the right shape and tile the source. -/
theorem shaped_of_uniformPlan {limits : Limits} {source : Range F} {spans : List (Span F)}
    (h : uniformPlan limits source target = .ok spans) :
    (∀ x ∈ spans, x.Shaped) ∧
      Interval.Tiles source.span.start.bits (source.span.stop.bits + 1) (spans.map Span.interval) := by
  obtain ⟨-, -, hwidth, -, hle, rfl⟩ := uniformPlan_eq_ok_iff.1 h
  exact ⟨fun x hx => Span.shaped_of_mem_pieces hle hwidth hx, Span.pieces_tile hle target⟩

/-- Where a range is stored, there is room for parts that tile it. -/
theorem room_of_parts {t : Table (Range F)} (ht : t.Valid) {source : Range F} (hsource : source ∈ t) {spans : List (Span F)}
    (htile : Interval.Tiles source.span.start.bits (source.span.stop.bits + 1) (spans.map Span.interval))
    (hle : source.span.start ≤ source.span.stop) (hfresh : stamp.Fresh t spans.length) (now : Instant) :
    t.Room [source] (parts source now stamp.rowId spans) := by
  have hspans : (parts source now stamp.rowId spans).map Row.span = spans.map Span.interval := by
    rw [← map_span_parts source now stamp.rowId spans, List.map_map, map_span_parts]
    rfl
  have hids : (parts source now stamp.rowId spans).map Row.id = (List.range spans.length).map stamp.rowId :=
    map_id_parts source now stamp.rowId spans
  refine Table.room_of_tiles ht (by simpa using hsource) ⟨rfl, hle, rfl⟩ (hspans ▸ htile) (hids ▸ hfresh.distinct) ?_
  intro r hr _ r' hr' he
  have hmem : Row.id r' ∈ (List.range spans.length).map stamp.rowId := hids ▸ List.mem_map_of_mem hr'
  obtain ⟨i, hi, hid⟩ := List.mem_map.1 hmem
  exact hfresh.id_ne (List.mem_range.1 hi) hr (he.trans hid.symm)

/-- A locked range can be replaced by parts that tile it. -/
theorem writeParts_succeeds {s : Store F} (h : s.table.Valid) {tx : Transaction F} {source : Range F}
    (hsource : source ∈ s.table) (hguard : source.id ∈ tx.guard.ids) (hle : source.span.start ≤ source.span.stop)
    {spans : List (Span F)} (hshaped : ∀ x ∈ spans, x.Shaped)
    (htile : Interval.Tiles source.span.start.bits (source.span.stop.bits + 1) (spans.map Span.interval))
    (hfresh : stamp.Fresh s.table spans.length) :
    (writeParts stamp tx source spans).Ends s
      (fun rows t => rows = parts source stamp.now stamp.rowId spans ∧ t.locks = s.locks) fun _ _ => False := by
  have hroom := room_of_parts h hsource htile hle hfresh stamp.now
  rw [← map_named_parts] at hroom
  have hparts : ∀ r ∈ parts source stamp.now stamp.rowId spans, r.span.Shaped := fun r hr => hshaped _ (mem_parts hr).1
  have hwrite : (Store.write tx [source.id] (parts source stamp.now stamp.rowId spans)).Succeeds s :=
    Store.write_succeeds h (by simpa using hguard) hparts hroom
  unfold writeParts
  rw [ends_rewording]
  refine ((Store.write_ends h tx [source.id] _).succeeded hwrite).imp ?_ fun _ _ hf => hf
  rintro rows t ⟨-, rfl, hlocks, -⟩
  exact ⟨map_named_parts .., hlocks⟩

/-! ## The range over members -/

/-- A merged range goes by the name of its span, as it is stored. -/
@[simp] theorem named_mergedRange (now : Instant) (id : Identifier) (first last : Range F) :
    (mergedRange now id target first last).named = mergedRange now id target first last :=
  Range.named_of_name rfl

/-- A request to merge that is accepted names members, and a length of the family. -/
theorem checkMergeRequest_eq_ok {limits : Limits} {ids : List Identifier} {u : Unit}
    (h : checkMergeRequest (F := F) limits ids target = .ok u) : target.toNat ≤ F.width := by
  unfold checkMergeRequest at h
  simp only [refuse_bind_eq_ok_iff, refuse_eq_ok_iff, not_or] at h
  exact Nat.not_lt.1 h.2.2.2

/-- All members start in the network of the first one's start. -/
theorem starts_in_one_network {first : Range F} {rest : List (Range F)} (h : (first :: rest).IsChain (Neighbours target)) :
    ∀ m ∈ first :: rest, first.span.start.cut target.toNat = m.span.start.cut target.toNat := by
  induction rest generalizing first with
  | nil =>
    intro m hm
    rw [List.mem_singleton.1 hm]
  | cons second rest ih =>
    obtain ⟨hn, hrest⟩ := List.isChain_cons_cons.1 h
    have hnext : first.span.start.cut target.toNat = second.span.start.cut target.toNat :=
      Address.sameNetwork_iff.1 hn.network
    intro m hm
    rcases List.mem_cons.1 hm with rfl | hm
    · rfl
    · exact hnext.trans (ih hrest m hm)

variable {members : List (Range F)} {first last : Range F}

/-- The range over members of the right shape has the right shape. -/
theorem shaped_over (hf : members.head? = some first) (hl : members.getLast? = some last)
    (hc : checkMembers target members = .ok ()) (hshaped : ∀ m ∈ members, m.span.Shaped) (hwidth : target.toNat ≤ F.width) :
    (⟨first.span.start, last.span.stop, target⟩ : Span F).Shaped := by
  obtain ⟨hall, hchain⟩ := checkMembers_eq_ok_iff.1 hc
  have hlast : last ∈ members := List.mem_of_getLast? hl
  have htile := tiles_of_members hf hl (fun m hm => (hshaped m hm).start_le) hchain
  have hbounds := htile.bounds (List.mem_map_of_mem (List.mem_map_of_mem hlast))
  refine ⟨hwidth, Nat.le_trans hbounds.1 hbounds.2.1, ?_⟩
  -- the last member starts in the network of the first one's start, and ends in that of its own start
  obtain ⟨rest, rfl⟩ := List.head?_eq_some_iff.1 hf
  have hstart := starts_in_one_network hchain last hlast
  have hend : last.span.start.cut target.toNat = last.span.stop.cut target.toNat :=
    (hshaped last hlast).cut_eq (hall last hlast).2
  exact hstart.trans hend

/-- Where the members are stored, there is room for the range over them. -/
theorem room_of_members {t : Table (Range F)} (ht : t.Valid) (hmem : ∀ m ∈ members, m ∈ t) (hf : members.head? = some first)
    (hl : members.getLast? = some last) (hc : checkMembers target members = .ok ()) (hshaped : ∀ m ∈ members, m.span.Shaped)
    (hwidth : target.toNat ≤ F.width) (hfresh : stamp.Fresh t 1) (now : Instant) :
    t.Room members [mergedRange now (stamp.rowId 0) target first last] := by
  have hle := (shaped_over hf hl hc hshaped hwidth).start_le
  have htile := tiles_of_members hf hl (fun m hm => (hshaped m hm).start_le) (checkMembers_eq_ok_iff.1 hc).2
  rw [List.map_map] at htile
  refine Table.room_of_tiles ht hmem htile ?_ (by simp) ?_
  · rw [List.map_singleton, Range.row_span, mergedRange_span]
    exact ⟨rfl, hle, rfl⟩
  · intro r hr _ r' hr' he
    rw [List.mem_singleton.1 hr'] at he
    exact hfresh.id_ne Nat.one_pos hr he

end Pool

end AddressSpace
