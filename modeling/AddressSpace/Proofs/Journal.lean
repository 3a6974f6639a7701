import Mathlib.Data.Set.Defs
import AddressSpace.Proofs.Engine.Pools
/-!
# The journal is complete

A reader who knows only the journal follows its records from the first to the last. Each record says which entries it replaces,
and the reader refuses it when one of them is missing or is not what the record says (`Event.follow`). The reader never refuses
a record of a pool, and ends with exactly the bounds, statuses and consumers of the stored ranges; an operation writes one
record when it changes them and none when it does not (`journal_complete`).
-/

namespace AddressSpace

variable {F : Family}

/-! ## Following records -/

/-- What is known of the range with some bounds: its status and its consumer. -/
abbrev Holding : Type := Status × Option Consumer

/-- What a reader of a journal knows. -/
abbrev Holdings (F : Family) : Type := Span F → Option Holding

/-- Takes the entries of some bounds out and puts others in, all of them the same. -/
def Holdings.replace (m : Holdings F) (old new : List (Span F)) (v : Holding) : Holdings F := fun s =>
  if s ∈ new then some v else if s ∈ old then none else m s

/-- What a record makes of the holdings, if the entries that it replaces are there and are what it says. -/
def Event.follow (m : Holdings F) : Event F → Option (Holdings F)
  | add range => some (m.replace [] [range] (.wait, none))
  | change old new => do
    let v ← m old
    return m.replace [old] [new] v
  | delete range org => do
    let v ← m range
    guard (v.2 = org)
    return m.replace [range] [] v
  | split source subnets => do
    let v ← m source
    return m.replace [source] subnets v
  | merge merged members => do
    let v ← members.head?.bind m
    guard (members.all fun s => (m s).isSome)
    return m.replace members [merged] v
  | reserve range org before => do
    let v ← m range
    guard (v = (before, none))
    return m.replace [range] [range] (.reserved, some org)
  | assign range org before => do
    let v ← m range
    guard (v = (before, if before = .reserved then some org else none))
    return m.replace [range] [range] (.assigned, some org)
  | recover range org before => do
    let v ← m range
    guard (v = (before, org))
    return m.replace [range] [range] (.wait, none)

/-- Follows records, oldest first, from no holdings at all. -/
def replay (records : List (Record F)) : Option (Holdings F) :=
  records.foldlM (fun m r => r.event.follow m) fun _ => none

/-- What is known of a range. -/
def Range.holding (r : Range F) : Holding := (r.status, r.org)

namespace Range

@[simp] theorem holding_named (r : Range F) : r.named.holding = r.holding := by
  simp [holding]

@[simp] theorem holding_row (new : NewRange F) (stamp : Stamp) : (new.row stamp).holding = (.wait, none) := by
  simp [NewRange.row, build, holding]

@[simp] theorem holding_edited (edit : RangeEdit F) (r : Range F) (stamp : Stamp) :
    (edit.row r stamp).holding = r.holding := by
  simp [RangeEdit.row, RangeEdit.apply, holding]

@[simp] theorem holding_heldBy (r : Range F) (status : Status) (org : Option Consumer) (assignedAt : Option Instant)
    (now : Instant) : (r.heldBy status org assignedAt now).holding = (status, org) := by
  simp [heldBy, holding]

@[simp] theorem holding_remarked (r : Range F) (userRemark adminRemark : Option String) (now : Instant) :
    (r.remarked userRemark adminRemark now).holding = r.holding := by
  simp [remarked, holding]

/-- A part has the holding of its source. -/
theorem holding_part {source r : Range F} {now : Instant} {ids : Nat → Identifier} {spans : List (Span F)}
    (h : r ∈ (Pool.parts source now ids spans).map named) : r.holding = source.holding := by
  obtain ⟨r', hr', rfl⟩ := List.mem_map.1 h
  obtain ⟨-, hstatus, -, horg, -⟩ := Pool.mem_parts hr'
  rw [holding_named, holding, hstatus, horg, holding]

/-- The range over the members of a merge has the holding of the first. -/
theorem holding_merged (now : Instant) (id : Identifier) (target : UInt8) {first : Range F} (last : Range F)
    (h : first.Coherent) (hm : first.status.mutable = true) :
    (Pool.mergedRange now id target first last).named.holding = first.holding := by
  rw [holding_named, holding, Pool.mergedRange_status, Pool.mergedRange_org, h.org_of_mutable hm, holding]

/-- What is known of a range that may be assigned to a consumer. -/
theorem holding_assignable {r : Range F} {org : Consumer} (h : r.Coherent) (ha : Pool.requireAssignable r org = .ok ()) :
    r.holding = (r.status, if r.status = .reserved then some org else none) ∧ r.status ≠ .assigned := by
  unfold Pool.requireAssignable at ha
  cases hs : r.status with
  | wait => exact ⟨Prod.ext hs (h.org_of_wait hs), nofun⟩
  | reserved =>
    rw [hs] at ha
    by_cases ho : r.org = some org
    · exact ⟨Prod.ext hs ho, nofun⟩
    · rw [if_neg ho] at ha
      cases ha
  | assigned => rw [hs] at ha; cases ha

end Range

/-- The bounds, statuses and consumers of the stored ranges. -/
def Pool.held (p : Pool F) : Set (Span F × Holding) := fun x => ∃ r ∈ p.store.table, (r.span, r.holding) = x

/-- The holdings are those of the ranges in the table. -/
def Holdings.Of (m : Holdings F) (t : Table (Range F)) : Prop :=
  ∀ s v, m s = some v ↔ ∃ r ∈ t, (r.span, r.holding) = (s, v)

namespace Holdings

variable {m : Holdings F} {t t' : Table (Range F)} {old new : List (Range F)}

/-- A row of the table is found with its status and holder. -/
theorem Of.found (h : m.Of t) {r : Range F} (hr : r ∈ t) : m r.span = some r.holding := (h _ _).2 ⟨r, hr, rfl⟩

/-- Rows of a valid table with the same bounds are one row. -/
theorem eq_of_bounds (ht : t.Valid) {r s : Range F} (hr : r ∈ t) (hs : s ∈ t) (h : r.span = s.span) : r = s :=
  ht.eq_of_span hr hs (by rw [Range.row_span, Range.row_span, h])

/-- What replaces the rows of a table replaces their holdings. -/
theorem Of.replace (h : m.Of t) (ht : t.Valid) (hsw : t.Swapped old new t') {v : Holding}
    (hv : ∀ r ∈ new, r.holding = v) : (m.replace (old.map (·.span)) (new.map (·.span)) v).Of t' := by
  intro s w
  unfold Holdings.replace
  by_cases hnew : s ∈ new.map (·.span)
  · rw [if_pos hnew]
    obtain ⟨r, hr, rfl⟩ := List.mem_map.1 hnew
    constructor
    · rintro ⟨⟩
      exact ⟨r, hsw.new_mem hr, by rw [hv r hr]⟩
    · rintro ⟨r', hr', he⟩
      rw [Prod.mk.injEq] at he
      obtain rfl := eq_of_bounds hsw.valid hr' (hsw.new_mem hr) he.1
      rw [← he.2, hv r' hr]
  · have hstays : ∀ r ∈ t', r.span = s → r ∈ t ∧ r ∉ old := by
      intro r hr hspan
      rcases (hsw.mem_iff r).1 hr with hr | hr
      · exact hr
      · exact absurd (List.mem_map.2 ⟨r, hr, hspan⟩) hnew
    rw [if_neg hnew]
    by_cases hold : s ∈ old.map (·.span)
    · rw [if_pos hold]
      obtain ⟨o, ho, rfl⟩ := List.mem_map.1 hold
      refine ⟨nofun, ?_⟩
      rintro ⟨r, hr, he⟩
      rw [Prod.mk.injEq] at he
      obtain ⟨hr, hro⟩ := hstays r hr he.1
      obtain rfl := eq_of_bounds ht hr (hsw.old_mem o ho) he.1
      exact absurd ho hro
    · rw [if_neg hold, h s w]
      constructor
      · rintro ⟨r, hr, he⟩
        rw [Prod.mk.injEq] at he
        refine ⟨r, hsw.kept hr fun hro => hold ?_, by rw [Prod.mk.injEq]; exact he⟩
        exact List.mem_map.2 ⟨r, hro, he.1⟩
      · rintro ⟨r, hr, he⟩
        rw [Prod.mk.injEq] at he
        exact ⟨r, (hstays r hr he.1).1, by rw [Prod.mk.injEq]; exact he⟩

end Holdings

/-! ## One step -/

/-- An entry that is there and is what it should be is used. -/
theorem checked_eq_some {x : Option Holding} {v : Holding} {p : Holding → Prop} [DecidablePred p]
    {k : Holding → Holdings F} (hx : x = some v) (hp : p v) :
    (do let v ← x; guard (p v); return k v) = some (k v) := by
  subst hx
  simp [guard, hp]

/-- The reader follows the record of a transition to the holdings of the table after it. -/
theorem Transition.follow {stamp : Stamp} {event : Event F} {spans : List (Span F)} {old new : List (Range F)}
    {t t' : Table (Range F)} {m : Holdings F} (htr : Transition stamp (some event) spans old new)
    (hsw : t.Swapped old new t') (ht : t.Valid) (hc : ∀ r ∈ t, r.Coherent) (hm : m.Of t) :
    ∃ m', event.follow m = some m' ∧ m'.Of t' := by
  have hfound : ∀ r ∈ old, m r.span = some r.holding := fun r hr => hm.found (hsw.old_mem r hr)
  have hcoherent : ∀ r ∈ old, r.Coherent := fun r hr => hc r (hsw.old_mem r hr)
  have hnext := fun v => hm.replace ht hsw (v := v)
  cases htr with
  | added new => exact ⟨_, rfl, by simpa using hnext (.wait, none) (by simp)⟩
  | @moved old edit hmut hs =>
    refine ⟨m.replace [old.span] [(edit.apply old).span] old.holding, ?_, by simpa using hnext old.holding (by simp)⟩
    simp [Event.follow, hfound old (by simp)]
  | @deleted old hmut =>
    exact ⟨_, checked_eq_some (hfound old (by simp)) rfl, by simpa using hnext old.holding (by simp)⟩
  | @reserved old org hw =>
    have hwait : old.holding = (old.status, none) := Prod.ext rfl ((hcoherent old (by simp)).org_of_wait hw)
    exact ⟨_, checked_eq_some (hfound old (by simp)) hwait, by simpa using hnext (.reserved, some org) (by simp)⟩
  | @assigned old org ha =>
    obtain ⟨hheld, -⟩ := Range.holding_assignable (hcoherent old (by simp)) ha
    exact ⟨_, checked_eq_some (hfound old (by simp)) hheld, by simpa using hnext (.assigned, some org) (by simp)⟩
  | @recovered old hw =>
    exact ⟨_, checked_eq_some (hfound old (by simp)) rfl, by simpa using hnext (.wait, none) (by simp)⟩
  | @split source spans hmut htile hne =>
    have hnew := hnext source.holding fun r hr => Range.holding_part hr
    rw [Pool.map_span_named_parts] at hnew
    refine ⟨m.replace [source.span] spans source.holding, ?_, by simpa using hnew⟩
    simp [Event.follow, hfound source (by simp)]
  | @merged _ first last target hf hl hcheck hne =>
    have hfirst : first ∈ old := List.mem_of_mem_head? hf
    obtain ⟨hall, -⟩ := Pool.checkMembers_eq_ok_iff.1 hcheck
    have hheld := Range.holding_merged stamp.now (stamp.rowId 0) target last (hcoherent first hfirst) (hall first hfirst).1
    have hhead : (old.map (·.span)).head?.bind m = some first.holding := by
      rw [List.head?_map, hf]
      exact hfound first hfirst
    have hthere : (old.map (·.span)).all (fun s => (m s).isSome) = true := by
      rw [List.all_map, List.all_eq_true]
      intro r hr
      rw [Function.comp_apply, hfound r hr]
      rfl
    have hnew := hnext first.holding (List.forall_mem_singleton.2 hheld)
    rw [List.map_singleton, Range.named_span, Pool.mergedRange_span] at hnew
    exact ⟨_, checked_eq_some (p := fun _ => (old.map (·.span)).all (fun s => (m s).isSome) = true) hhead hthere, hnew⟩

namespace Pool

variable {p q : Pool F} {old new : List (Range F)}

/-- A new row with bounds, status and consumer that no old one has changes what is held. -/
theorem held_ne_of_new (hsw : p.store.table.Swapped old new q.store.table) {r : Range F}
    (hr : r ∈ new) (hne : ∀ o ∈ old, (o.span, o.holding) ≠ (r.span, r.holding)) : q.held ≠ p.held := by
  intro he
  have hin : (r.span, r.holding) ∈ p.held := he ▸ ⟨r, hsw.new_mem hr, rfl⟩
  obtain ⟨s, hs, heq⟩ := hin
  have hso : s ∉ old := fun hso => hne s hso heq
  obtain rfl := Holdings.eq_of_bounds hsw.valid (hsw.kept hs hso) (hsw.new_mem hr) (congrArg Prod.fst heq)
  exact hso (hsw.fresh s hr hs)

/-- An old row with bounds, status and consumer that no new one has changes what is held. -/
theorem held_ne_of_old (ht : p.store.table.Valid) (hsw : p.store.table.Swapped old new q.store.table) {o : Range F}
    (ho : o ∈ old) (hne : ∀ r ∈ new, (r.span, r.holding) ≠ (o.span, o.holding)) : q.held ≠ p.held := by
  intro he
  have hin : (o.span, o.holding) ∈ q.held := he ▸ ⟨o, hsw.old_mem o ho, rfl⟩
  obtain ⟨s, hs, heq⟩ := hin
  rcases (hsw.mem_iff s).1 hs with ⟨hst, hso⟩ | hsn
  · exact hso (Holdings.eq_of_bounds ht hst (hsw.old_mem o ho) (congrArg Prod.fst heq) ▸ ho)
  · exact hne s hsn heq

/-- A new status changes what is held. -/
theorem held_ne_of_status {o : Range F} {status : Status} {org : Option Consumer} {since : Option Instant} {now : Instant}
    (hsw : p.store.table.Swapped [o] [o.heldBy status org since now] q.store.table) (hne : o.status ≠ status) :
    q.held ≠ p.held := by
  refine held_ne_of_new hsw (List.mem_singleton.2 rfl) fun o' ho' he => hne ?_
  have hholding := congrArg Prod.snd he
  rw [List.mem_singleton.1 ho', Range.holding_heldBy] at hholding
  exact congrArg Prod.fst hholding

/-- A row in the place of another with the same bounds, status and consumer changes nothing of what is held. -/
theorem held_eq_of_same {o r : Range F} (hsw : p.store.table.Swapped [o] [r] q.store.table)
    (h : (o.span, o.holding) = (r.span, r.holding)) : q.held = p.held := by
  apply Set.ext
  intro x
  constructor
  · rintro ⟨s, hs, rfl⟩
    rcases (hsw.mem_iff s).1 hs with ⟨hs, -⟩ | hs
    · exact ⟨s, hs, rfl⟩
    · rw [List.mem_singleton.1 hs, ← h]
      exact ⟨o, hsw.old_mem o (by simp), rfl⟩
  · rintro ⟨s, hs, rfl⟩
    by_cases hso : s = o
    · rw [hso, h]
      exact ⟨r, hsw.new_mem (by simp), rfl⟩
    · exact ⟨s, hsw.kept hs (by simpa using hso), rfl⟩

/-- A step of a pool changes what is held just when it has an event. -/
theorem held_eq_iff {stamp : Stamp} {user : Option String} {event : Option (Event F)} {spans : List (Span F)}
    (hp : p.store.Sound) (hc : ∀ r ∈ p.store.table, r.Coherent) (htr : Transition stamp event spans old new)
    (hb : Became stamp user p event old new q) : q.held = p.held ↔ event = none := by
  have ht := hp.valid
  have hsw := hb.table
  have hchange : ∀ {e : Event F}, q.held ≠ p.held → (q.held = p.held ↔ some e = none) :=
    fun h => ⟨fun he => absurd he h, nofun⟩
  cases htr with
  | stay =>
    refine ⟨fun _ => rfl, fun _ => ?_⟩
    have hsame : q.store.table = p.store.table := hsw.valid.ext ht fun r => by simp [hsw.mem_iff]
    unfold held
    rw [hsame]
  | added new => exact hchange (held_ne_of_new hsw (List.mem_singleton.2 rfl) (by simp))
  | edited edit hmut hs => exact ⟨fun _ => rfl, fun _ => held_eq_of_same hsw (by simp [hs])⟩
  | remarked userRemark adminRemark => exact ⟨fun _ => rfl, fun _ => held_eq_of_same hsw (by simp)⟩
  | @moved o edit hmut hs =>
    refine hchange (held_ne_of_new hsw (List.mem_singleton.2 rfl) fun o' ho' he => hs ?_)
    have hspan := congrArg Prod.fst he
    rw [List.mem_singleton.1 ho', RangeEdit.row_span] at hspan
    exact hspan.symm
  | deleted hmut => exact hchange (held_ne_of_old ht hsw (List.mem_singleton.2 rfl) (by simp))
  | reserved org hw => exact hchange (held_ne_of_status hsw (by rw [hw]; decide))
  | @assigned o org ha => exact hchange (held_ne_of_status hsw (Range.holding_assignable (hc o (hsw.old_mem o (by simp))) ha).2)
  | recovered hw => exact hchange (held_ne_of_status hsw hw)
  | @split source spans hmut htile hne =>
    -- a part with the bounds of the source would be the only one
    refine hchange (held_ne_of_old ht hsw (List.mem_singleton.2 rfl) fun r hr he => hne ?_)
    have hspan : source.span ∈ spans := by
      rw [← map_span_named_parts source stamp.now stamp.rowId spans, List.mem_map]
      exact ⟨r, hr, congrArg Prod.fst he⟩
    exact Span.eq_singleton_of_tiles htile hspan
  | @merged _ first last target hf hl hcheck hne =>
    -- a member with the bounds of the merged range would be the only one
    refine hchange (held_ne_of_new hsw (List.mem_singleton.2 rfl) fun o ho he => hne ?_)
    have hspan : o.span = ⟨first.span.start, last.span.stop, target⟩ := by
      have hspan := congrArg Prod.fst he
      rwa [Range.named_span, mergedRange_span] at hspan
    have hordered : ∀ m ∈ old, m.span.start ≤ m.span.stop := fun m hm => (hp.shaped m (hsw.old_mem m hm)).start_le
    have htile := tiles_of_members hf hl hordered (checkMembers_eq_ok_iff.1 hcheck).2
    have hone := Span.eq_singleton_of_tiles (s := ⟨first.span.start, last.span.stop, target⟩) htile
      (List.mem_map.2 ⟨o, ho, hspan⟩)
    obtain ⟨m, rfl, hm⟩ := List.map_eq_singleton_iff.1 hone
    cases hf
    exact ⟨rfl, by rw [hm]⟩

/-! ## All steps -/

/-- The journal takes records, and a reader who has followed it knows the stored ranges. -/
structure Journaled (p : Pool F) : Prop where
  opened : p.journal.closed = false
  followed : ∃ m, replay p.journal.records = some m ∧ m.Of p.store.table
  coherent : ∀ r ∈ p.store.table, r.Coherent

/-- The journal of an empty pool takes records, and a reader of it knows that there are no ranges. -/
theorem journaled_empty (F : Family) (limits : Limits) : (Pool.empty F limits).Journaled where
  opened := rfl
  followed := ⟨fun _ => none, rfl, fun _ _ => ⟨nofun, fun ⟨_, h, _⟩ => nomatch h⟩⟩
  coherent := fun _ h => nomatch h

/-- Reading one record more follows its event from where the reader was. -/
theorem replay_concat (records : List (Record F)) (r : Record F) :
    replay (records ++ [r]) = (replay records).bind fun m => r.event.follow m := by
  unfold replay
  rw [List.foldlM_append]
  simp only [List.foldlM_cons, List.foldlM_nil, bind_pure]
  rfl

/-- A step of a pool writes one record when it changes what is held, and none otherwise. -/
theorem Journaled.step {stamp : Stamp} {user : Option String} {spans : List (Span F)} (h : p.Journaled)
    (hp : p.store.Sound) (hstep : Step stamp user p spans q) :
    q.Journaled ∧
      (q.held = p.held ∧ q.journal.records = p.journal.records ∨
        q.held ≠ p.held ∧ ∃ r, q.journal.records = p.journal.records ++ [r]) := by
  obtain ⟨event, old, new, htr, hb⟩ := hstep
  have hheld := held_eq_iff hp h.coherent htr hb
  have hcoherent := hb.table.all h.coherent (htr.coherent fun r hr => h.coherent r (hb.table.old_mem r hr))
  obtain ⟨m, hm, hof⟩ := h.followed
  cases event with
  | none =>
    have hjournal : q.journal = p.journal := hb.journal
    have hsame := hheld.2 rfl
    refine ⟨⟨by rw [hjournal]; exact h.opened, ⟨m, by rw [hjournal]; exact hm, fun s v => ?_⟩, hcoherent⟩,
      .inl ⟨hsame, by rw [hjournal]⟩⟩
    rw [hof s v]
    exact (Set.ext_iff.1 hsame (s, v)).symm
  | some event =>
    have hjournal : q.journal = p.journal.note ⟨stamp.recordId, event, user, event.remark, stamp.now⟩ := hb.journal
    have hrecords : q.journal.records = p.journal.records ++ [⟨stamp.recordId, event, user, event.remark, stamp.now⟩] := by
      rw [hjournal, Journal.records_note, h.opened, if_neg (by decide)]
    obtain ⟨m', hfollow, hof'⟩ := htr.follow hb.table hp.valid h.coherent hof
    refine ⟨⟨?_, ⟨m', ?_, hof'⟩, hcoherent⟩, .inr ⟨fun he => absurd (hheld.1 he) nofun, _, hrecords⟩⟩
    · rw [hjournal, Journal.closed_note]
      exact h.opened
    · rw [hrecords, replay_concat, hm]
      exact hfollow

end Pool

namespace Engine

/-- What ordinary operations lead to from an empty engine has its ranges in the journals. -/
theorem reached_journaled {limits : Limits} {e : Engine} (hr : Reached Operation.ordinary (empty limits) e) (F : Family) :
    (e.pool F).Journaled :=
  reached_pool Pool.Journaled (Pool.journaled_empty F limits) (fun _ _ _ _ _ hp h hstep => (h.step hp hstep).1) hr

/-! ## All runs -/

/-- In every engine that ordinary operations lead to from an empty one, a reader of the journal ends with exactly the bounds,
statuses and consumers of the stored ranges. The next operation leaves the earlier records as they are and adds one when it
changes those bounds, statuses or consumers, and none when it does not; an operation that fails and a preview change nothing
of them. -/
theorem journal_complete {limits : Limits} {e : Engine} (hr : Reached Operation.ordinary (empty limits) e) (F : Family) :
    (∃ m, replay (e.pool F).journal.records = some m ∧ ∀ s v, m s = some v ↔ (s, v) ∈ (e.pool F).held) ∧
      (∀ op : Operation, op.ordinary = true →
        ((op.after e).pool F).held = (e.pool F).held ∧
            ((op.after e).pool F).journal.records = (e.pool F).journal.records ∨
          ((op.after e).pool F).held ≠ (e.pool F).held ∧
            ∃ r, ((op.after e).pool F).journal.records = (e.pool F).journal.records ++ [r]) ∧
      (∀ (op : Operation) (f : Failure), op.ordinary = true → (op.perform.run e).1 = .error f →
        (op.after e).pool F = e.pool F) ∧
      (∀ (G : Family) stamp user id target, (Operation.onRanges G stamp user (.splitPreview id target)).after e = e) ∧
      ∀ (G : Family) stamp user ids target, (Operation.onRanges G stamp user (.mergePreview ids target)).after e = e := by
  have hsound := reached_ordinary_sound hr
  have hjournaled := reached_journaled hr F
  refine ⟨hjournaled.followed, fun op ho => ?_, fun op f ho hf => ?_, fun G stamp user id target => ?_,
    fun G stamp user ids target => ?_⟩
  · obtain ⟨stamp, user, spans, hstep⟩ := pool_step hsound ho F
    exact (hjournaled.step (hsound.pool F) hstep).2
  · obtain ⟨registry, he⟩ := (ordinary_ends hsound ho).fail_of_run hf
    rw [Operation.after, he]
    cases F <;> rfl
  · exact Action.Ends.state (q := fun e' => e' = e) (Action.ends_map .. |>.2 (preview_ends _))
  · exact Action.Ends.state (q := fun e' => e' = e) (Action.ends_map .. |>.2 (preview_ends _))

/-- After two ranges are created, the one assigned and the other reserved, the reader knows both. -/
theorem journal_complete_sample :
    let e := Operation.afterAll Operation.sample (empty .standard)
    (∃ m, replay (e.pool .v4).journal.records = some m ∧ ∀ s v, m s = some v ↔ (s, v) ∈ (e.pool .v4).held) ∧
      (e.pool .v4).journal.records.length = 4 :=
  ⟨(journal_complete (reached_afterAll Operation.sample rfl) .v4).1, by decide +kernel⟩

end Engine

end AddressSpace
