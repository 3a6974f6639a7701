import AddressSpace.Proofs.Engine.Pools
/-!
# Operations touch only what they name

An operation on the ranges of a family takes out none but the rows that it names, and what it announces are spans of rows that it
has taken out, put in or rewritten (`Transition.of_announced`). The supernets that meet none of these stay as they are, and of the
others only the rollup is derived anew. Everything else is the same afterwards, whether the operation succeeds or fails
(`Engine.framed_of_reached`).
-/

namespace AddressSpace

open AddressSpace.Action

variable {F : Family}

/-! ## Rows that are taken out and put in -/

/-- Whether an event of the kind takes rows away for good. -/
def EventKind.takesAway : EventKind → Bool
  | delete | split | merge => true
  | _ => false

namespace Transition

variable {stamp : Stamp} {event : Option (Event F)} {spans : List (Span F)} {old new : List (Range F)}

/-- A row that is rewritten keeps its identifier. -/
theorem kept_id (h : Transition stamp event spans old new) (hevent : ∀ happened, event = some happened → happened.kind.takesAway = false)
    {r : Range F} (hr : r ∈ old) : ∃ s ∈ new, s.id = r.id := by
  have hone : ∀ {o s : Range F}, s.id = o.id → r ∈ [o] → ∃ s' ∈ [s], s'.id = r.id := by
    intro o s hid hr
    obtain rfl := List.mem_singleton.1 hr
    exact ⟨s, List.mem_singleton.2 rfl, hid⟩
  cases h with
  | stay => cases hr
  | added new => cases hr
  | edited edit hm hs => exact hone (by rw [RangeEdit.row, Range.named_id]; rfl) hr
  | moved edit hm hs => exact hone (by rw [RangeEdit.row, Range.named_id]; rfl) hr
  | deleted hm => cases hevent _ rfl
  | reserved org hw => exact hone (Range.heldBy_id ..) hr
  | assigned org ha => exact hone (Range.heldBy_id ..) hr
  | recovered hw => exact hone (Range.heldBy_id ..) hr
  | remarked userRemark adminRemark => exact hone (Range.remarked_id ..) hr
  | split hm ht hne => cases hevent _ rfl
  | merged hf hl hc hne => cases hevent _ rfl

/-- A range that is held with another status is another range. -/
theorem heldBy_ne {r : Range F} {status : Status} {org : Option Consumer} {assignedAt : Option Instant} {now : Instant}
    (h : r.status ≠ status) : r ≠ r.heldBy status org assignedAt now := by
  intro he
  have hstatus : r.status = (r.heldBy status org assignedAt now).status := congrArg Range.status he
  rw [Range.heldBy, Range.named_status] at hstatus
  exact h hstatus

/-- Members that become a new range do not have the span of that range among theirs. -/
theorem merged_span_ne {members : List (Range F)} {first last : Range F} {target : UInt8} (hf : members.head? = some first)
    (hl : members.getLast? = some last) (hc : Pool.checkMembers target members = .ok ())
    (hne : ¬(members.length = 1 ∧ first.span.plen = target)) (ho : ∀ r ∈ members, r.span.start ≤ r.span.stop) {r : Range F}
    (hr : r ∈ members) : r.span ≠ ⟨first.span.start, last.span.stop, target⟩ := by
  intro he
  have htile := Pool.tiles_of_members hf hl ho (Pool.checkMembers_eq_ok_iff.1 hc).2
  have hmem : (⟨first.span.start, last.span.stop, target⟩ : Span F) ∈ members.map (·.span) := he ▸ List.mem_map_of_mem hr
  obtain ⟨only, rfl, honly⟩ := List.map_eq_singleton_iff.1 (Span.eq_singleton_of_tiles htile hmem)
  cases hf
  exact hne ⟨rfl, congrArg Span.plen honly⟩

/-- Each span that is announced is that of a row which is there before or afterwards, but not both. -/
theorem of_announced (h : Transition stamp event spans old new) (ho : ∀ r ∈ old, r.span.start ≤ r.span.stop) {x : Span F}
    (hx : x ∈ spans) : ∃ r : Range F, r.span = x ∧ (r ∈ old ∧ r ∉ new ∨ r ∈ new ∧ r ∉ old) := by
  have hheld : ∀ {o s : Range F}, o ≠ s → x ∈ [o.span] → ∃ r, r.span = x ∧ (r ∈ [o] ∧ r ∉ [s] ∨ r ∈ [s] ∧ r ∉ [o]) := by
    intro o s hne hx
    obtain rfl := List.mem_singleton.1 hx
    exact ⟨o, rfl, .inl ⟨List.mem_singleton.2 rfl, fun hs => hne (List.mem_singleton.1 hs)⟩⟩
  cases h with
  | stay => cases hx
  | added new =>
    obtain rfl := List.mem_singleton.1 hx
    exact ⟨new.row stamp, NewRange.row_span .., .inr ⟨List.mem_singleton.2 rfl, List.not_mem_nil⟩⟩
  | edited edit hm hs => cases hx
  | @moved o edit hm hs =>
    have hne : o ≠ edit.row o stamp := fun he => hs (RangeEdit.row_span edit o stamp ▸ (congrArg Range.span he).symm)
    rcases List.mem_cons.1 hx with rfl | hx
    · exact hheld hne (List.mem_singleton.2 rfl)
    · obtain rfl := List.mem_singleton.1 hx
      exact ⟨edit.row o stamp, RangeEdit.row_span .., .inr ⟨List.mem_singleton.2 rfl, fun hs => hne (List.mem_singleton.1 hs).symm⟩⟩
  | @deleted o hm =>
    obtain rfl := List.mem_singleton.1 hx
    exact ⟨o, rfl, .inl ⟨List.mem_singleton.2 rfl, List.not_mem_nil⟩⟩
  | reserved org hw => exact hheld (heldBy_ne (by rw [hw]; decide)) hx
  | @assigned o org ha =>
    refine hheld (heldBy_ne fun hassigned => ?_) hx
    rw [Pool.requireAssignable, hassigned] at ha
    cases ha
  | recovered hw => exact hheld (heldBy_ne hw) hx
  | remarked userRemark adminRemark => cases hx
  | @split source plan hm ht hne =>
    obtain rfl := List.mem_singleton.1 hx
    refine ⟨source, rfl, .inl ⟨List.mem_singleton.2 rfl, fun hmem => hne ?_⟩⟩
    refine Span.eq_singleton_of_tiles ht ?_
    rw [← Pool.map_span_named_parts source stamp.now stamp.rowId plan]
    exact List.mem_map_of_mem hmem
  | merged hf hl hc hne =>
    obtain rfl := List.mem_singleton.1 hx
    refine ⟨_, by rw [Range.named_span, Pool.mergedRange_span], .inr ⟨List.mem_singleton.2 rfl, fun hmem => ?_⟩⟩
    refine merged_span_ne hf hl hc hne ho hmem ?_
    rw [Range.named_span, Pool.mergedRange_span]

end Transition

/-- Rows that are taken out or put in are there before or afterwards, but not both. -/
theorem Table.Swapped.mem_one_iff {R : Type} [Row R] {t t' : Table R} {old new : List R} (h : t.Swapped old new t') {r : R}
    (hr : r ∈ old ∧ r ∉ new ∨ r ∈ new ∧ r ∉ old) : r ∈ t ∧ r ∉ t' ∨ r ∈ t' ∧ r ∉ t := by
  rcases hr with ⟨hold, hnew⟩ | ⟨hnew, hold⟩
  · refine .inl ⟨h.old_mem r hold, fun hr' => ?_⟩
    rcases (h.mem_iff r).1 hr' with ⟨-, hkept⟩ | hput
    · exact hkept hold
    · exact hnew hput
  · exact .inr ⟨h.new_mem hnew, fun hrt => hold (h.fresh r hnew hrt)⟩

/-! ## The frame -/

/-- What an operation on the ranges of a family leaves alone. -/
structure RangeOperation.Framed (op : RangeOperation F) (e e' : Engine) : Prop where
  /-- Ranges that are not named stay as they are. -/
  ranges : ∀ r ∈ (e.pool F).store.table, r.id ∉ op.names → r ∈ (e'.pool F).store.table
  /-- No identifier is lost but those of ranges that are to be deleted, split or merged. -/
  ids : ∀ r ∈ (e.pool F).store.table, r.id ∉ op.removes → ∃ s ∈ (e'.pool F).store.table, s.id = r.id
  /-- The other family's ranges and records stay. -/
  other : ∀ G ≠ F, e'.pool G = e.pool G
  externals : e'.externals = e.externals
  v4Notes : e'.v4Notes = e.v4Notes
  v6Notes : e'.v6Notes = e.v6Notes
  registry : e'.registry = e.registry
  /-- No supernet appears or disappears. -/
  supernets : ∀ id, (e'.supernets.get? id).isSome = (e.supernets.get? id).isSome
  /-- A supernet keeps everything but its rollup, and that too unless it meets a range that has come, gone or changed. -/
  rollups : ∀ s ∈ e.supernets, ∀ s' ∈ e'.supernets, s'.id = s.id →
    s' = { s with rollup := s'.rollup, used := s'.used } ∧
      (s' ≠ s → ∃ r : Range .v4, r.span.meets s.span = true ∧
        (r ∈ e.v4.store.table ∧ r ∉ e'.v4.store.table ∨ r ∈ e'.v4.store.table ∧ r ∉ e.v4.store.table))
  /-- Operations on the 128-bit family change no supernet. -/
  untouched : F = .v6 → e'.supernets = e.supernets

/-- What an operation names is gone when what it writes down takes rows away. -/
theorem RangeOperation.mem_removes {op : RangeOperation F} {id : Identifier} {kind : EventKind} (hid : id ∈ op.names)
    (hkind : op.kind = some kind) (haway : kind.takesAway = true) : id ∈ op.removes := by
  cases op <;> cases hkind <;> first | exact hid | cases haway

namespace Engine

variable {e e' : Engine} {stamp : Stamp} {user : Option String} {spans : List (Span F)} {q : Pool F}

/-- An operation that changes nothing leaves everything alone. -/
theorem framed_refl (e : Engine) (op : RangeOperation F) : op.Framed e e where
  ranges := fun _ hr _ => hr
  ids := fun r hr _ => ⟨r, hr, rfl⟩
  other := fun _ _ => rfl
  externals := rfl
  v4Notes := rfl
  v6Notes := rfl
  registry := rfl
  supernets := fun _ => rfl
  rollups := fun s hs s' hs' hid => by
    obtain rfl := Table.eq_of_id hs' hs hid
    exact ⟨rfl, fun hne => absurd rfl hne⟩
  untouched := fun _ => rfl

/-- When the supernets follow, each is found under its identifier, and has changed only if it meets a span that was announced. -/
theorem supernets_refreshed {t : Table Supernet} (ht : t.Valid) (ranges : Store .v4) (spans : List (Span .v4)) :
    (∀ id, ((Warehouse.refresh ranges spans t).2.get? id).isSome = (t.get? id).isSome) ∧
      ∀ s ∈ t, ∀ s' ∈ (Warehouse.refresh ranges spans t).2, s'.id = s.id →
        s' = { s with rollup := s'.rollup, used := s'.used } ∧ (s' ≠ s → ∃ x ∈ spans, x.meets s.span = true) := by
  obtain ⟨hvalid, hmem⟩ := Warehouse.refresh_spec ranges ht spans
  have hid : ∀ s : Supernet, (if spans.any (·.meets s.span) then Warehouse.rolledUp ranges s else s).id = s.id := by
    intro s
    split
    · exact Warehouse.rolledUp_id ranges s
    · rfl
  refine ⟨fun id => Bool.eq_iff_iff.2 ?_, fun s hs s' hs' he => ?_⟩
  · rw [Table.isSome_get?_iff hvalid, Table.isSome_get?_iff ht]
    constructor
    · rintro ⟨s', hs', rfl⟩
      obtain ⟨s, hs, rfl⟩ := (hmem s').1 hs'
      exact ⟨s, hs, (hid s).symm⟩
    · rintro ⟨s, hs, rfl⟩
      exact ⟨_, (hmem _).2 ⟨s, hs, rfl⟩, hid s⟩
  · obtain ⟨o, ho, rfl⟩ := (hmem s').1 hs'
    obtain rfl := Table.eq_of_id ho hs ((hid o).symm.trans he)
    by_cases hmeets : spans.any (·.meets o.span) = true
    · rw [if_pos hmeets]
      exact ⟨rfl, fun _ => List.any_eq_true.1 hmeets⟩
    · rw [if_neg hmeets]
      exact ⟨rfl, fun hne => absurd rfl hne⟩

/-- An operation that takes out none but the rows that it names leaves everything else alone. -/
theorem framed_of_deed (h : e.Sound) {op : RangeOperation F}
    (hdeed : Pool.Deed op.names op.kind stamp user (e.pool F) spans q) : op.Framed e (followed F e q spans) := by
  obtain ⟨event, old, new, htr, hb, hnames, hkind⟩ := hdeed
  have hpool : (followed F e q spans).pool F = q := by rw [followed, rangesChanged_pool, pool_withPool]
  have hordered : ∀ r ∈ old, r.span.start ≤ r.span.stop := fun r hr =>
    ((h.pool F).shaped r (hb.table.old_mem r hr)).start_le
  have hannounced : ∀ x ∈ spans, ∃ r : Range F, r.span = x ∧
      (r ∈ (e.pool F).store.table ∧ r ∉ q.store.table ∨ r ∈ q.store.table ∧ r ∉ (e.pool F).store.table) := by
    intro x hx
    obtain ⟨r, hspan, hr⟩ := htr.of_announced hordered hx
    exact ⟨r, hspan, hb.table.mem_one_iff hr⟩
  refine {
    ranges := fun r hr hid => by
      rw [hpool]
      exact hb.table.kept hr fun hro => hid (hnames r hro)
    ids := fun r hr hid => ?_
    other := fun G hG => by rw [followed, rangesChanged_pool, pool_withPool_of_ne hG]
    externals := by cases F <;> rfl
    v4Notes := by cases F <;> rfl
    v6Notes := by cases F <;> rfl
    registry := by cases F <;> rfl
    supernets := ?_
    rollups := ?_
    untouched := fun hF => by subst hF; rfl }
  · rw [hpool]
    by_cases hro : r ∈ old
    · -- a row that is named but not to be removed is rewritten
      have hevent : ∀ happened, event = some happened → happened.kind.takesAway = false := fun happened he =>
        Bool.eq_false_iff.2 fun haway => hid (op.mem_removes (hnames r hro) (hkind happened he) haway)
      obtain ⟨s, hs, hsid⟩ := htr.kept_id hevent hro
      exact ⟨s, hb.table.new_mem hs, hsid⟩
    · exact ⟨r, hb.table.kept hr hro, rfl⟩
  · cases F with
    | v4 => exact (supernets_refreshed h.supernets q.store spans).1
    | v6 => exact fun _ => rfl
  · cases F with
    | v4 =>
      intro s hs s' hs' hid
      obtain ⟨hfields, hchanged⟩ := (supernets_refreshed h.supernets q.store spans).2 s hs s' hs' hid
      refine ⟨hfields, fun hne => ?_⟩
      obtain ⟨x, hx, hmeets⟩ := hchanged hne
      obtain ⟨r, rfl, hr⟩ := hannounced x hx
      exact ⟨r, hmeets, hr⟩
    | v6 => exact (framed_refl e op).rollups

/-- In every engine that operations lead to from an empty or a restored one, an operation on the ranges of a family, whatever it is
asked and whether it succeeds or fails, leaves all ranges alone that it does not name, and everything that does not depend on the
ranges of that family. -/
theorem framed_of_reached {start : Engine}
    (hs : (∃ limits, start = empty limits) ∨ ∃ snapshot limits, restore snapshot limits = .ok start)
    (hr : Reached (fun _ => true) start e) (F : Family) (stamp : Stamp) (user : Option String) (op : RangeOperation F) :
    op.Framed e ((Operation.onRanges F stamp user op).after e) := by
  have hsound := reached_sound (sound_of_start hs) hr
  refine Ends.state (q := fun e' => op.Framed e e') ?_
  refine (perform_deed (hsound.pool F).toAtRest op).imp ?_ fun _ _ he => he ▸ framed_refl e op
  rintro _ _ ⟨spans, q, hdeed, rfl⟩
  exact framed_of_deed hsound hdeed

/-- A reserved network is deleted: the assigned one before it stays, and of the supernet over both only the rollup is derived
anew. -/
theorem framed_of_reached_sample :
    let e := Operation.afterAll Operation.sample (empty .standard)
    let op : RangeOperation .v4 := .delete (.ofBits 17)
    let e' := (Operation.onRanges .v4 (.counting 32) none op).after e
    op.Framed e e' ∧ e.v4.store.toList.length = 2 ∧ e'.v4.store.toList.length = 1 :=
  ⟨framed_of_reached (.inl ⟨.standard, rfl⟩) (reached_afterAll _ rfl) .v4 _ none _, by decide +kernel, by decide +kernel⟩

end Engine

end AddressSpace
