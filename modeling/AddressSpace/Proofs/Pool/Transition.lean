import AddressSpace.Proofs.Span.Tiling
import AddressSpace.Proofs.Store
import AddressSpace.Pool.Lifecycle
import AddressSpace.Pool.Merge
import AddressSpace.Pool.Split
/-!
# What an operation can do to a pool

`Transition stamp event spans old new` lists everything that an operation on a pool can do to the ranges: the rows `old` are
replaced by the rows `new`, `event` is written down, and `spans` are announced. `Pool.Became` says of two pools that this has
happened. All that is proved of every operation is proved by going through these cases once.
-/

namespace AddressSpace

variable {F : Family}

/-! ## New rows -/

/-- The range that is stored when a new one is asked for. -/
def NewRange.row (new : NewRange F) (stamp : Stamp) : Range F :=
  Range.named { Range.build (stamp.rowId 0) new.name new.span new.asn stamp.now with
    adminRemark := new.adminRemark, userRemark := new.userRemark }

/-- The range that is stored after an edit. -/
def RangeEdit.row (edit : RangeEdit F) (old : Range F) (stamp : Stamp) : Range F :=
  Range.named { edit.apply old with updatedAt := stamp.now }

namespace Range

/-- The range after it is held for a consumer, or for none. -/
def heldBy (r : Range F) (status : Status) (org : Option Consumer) (assignedAt : Option Instant) (now : Instant) :
    Range F :=
  named { r with status, org, assignedAt, userRemark := "", updatedAt := now }

/-- The range with other remarks. -/
def remarked (r : Range F) (userRemark adminRemark : Option String) (now : Instant) : Range F :=
  named { r with
    userRemark := userRemark.getD r.userRemark, adminRemark := adminRemark.getD r.adminRemark, updatedAt := now }

end Range

@[simp] theorem NewRange.row_span (new : NewRange F) (stamp : Stamp) : (new.row stamp).span = new.span := by
  simp [row, Range.build]

@[simp] theorem RangeEdit.row_span (edit : RangeEdit F) (old : Range F) (stamp : Stamp) :
    (edit.row old stamp).span = (edit.apply old).span := by
  simp [row]

@[simp] theorem Range.heldBy_id (r : Range F) (status : Status) (org : Option Consumer) (assignedAt : Option Instant)
    (now : Instant) : (r.heldBy status org assignedAt now).id = r.id := by
  simp [heldBy]

@[simp] theorem Range.heldBy_span (r : Range F) (status : Status) (org : Option Consumer) (assignedAt : Option Instant)
    (now : Instant) : (r.heldBy status org assignedAt now).span = r.span := by
  simp [heldBy]

@[simp] theorem Range.remarked_id (r : Range F) (userRemark adminRemark : Option String) (now : Instant) :
    (r.remarked userRemark adminRemark now).id = r.id := by
  simp [remarked]

@[simp] theorem Range.remarked_span (r : Range F) (userRemark adminRemark : Option String) (now : Instant) :
    (r.remarked userRemark adminRemark now).span = r.span := by
  simp [remarked]

/-! ## Transitions -/

/-- What an operation can do to the ranges of a pool: the event that it writes down, the spans that it announces, the rows
that it takes out and those that it puts in. -/
inductive Transition (stamp : Stamp) :
    Option (Event F) → List (Span F) → List (Range F) → List (Range F) → Prop where
  | stay : Transition stamp none [] [] []
  | added (new : NewRange F) : Transition stamp (some (.add new.span)) [new.span] [] [new.row stamp]
  /-- An edit leaves the bounds alone. -/
  | edited {old : Range F} (edit : RangeEdit F) (hm : old.status.mutable = true) (hs : (edit.apply old).span = old.span) :
      Transition stamp none [] [old] [edit.row old stamp]
  /-- An edit moves the bounds. -/
  | moved {old : Range F} (edit : RangeEdit F) (hm : old.status.mutable = true) (hs : (edit.apply old).span ≠ old.span) :
      Transition stamp (some (.change old.span (edit.apply old).span)) [old.span, (edit.apply old).span] [old]
        [edit.row old stamp]
  | deleted {old : Range F} (hm : old.status.mutable = true) :
      Transition stamp (some (.delete old.span old.org)) [old.span] [old] []
  | reserved {old : Range F} (org : Consumer) (hw : old.status = .wait) :
      Transition stamp (some (.reserve old.span org old.status)) [old.span] [old]
        [old.heldBy .reserved (some org) none stamp.now]
  | assigned {old : Range F} (org : Consumer) (ha : Pool.requireAssignable old org = .ok ()) :
      Transition stamp (some (.assign old.span org old.status)) [old.span] [old]
        [old.heldBy .assigned (some org) (some stamp.now) stamp.now]
  | recovered {old : Range F} (hw : old.status ≠ .wait) :
      Transition stamp (some (.recover old.span old.org old.status)) [old.span] [old]
        [old.heldBy .wait none none stamp.now]
  | remarked {old : Range F} (userRemark adminRemark : Option String) :
      Transition stamp none [] [old] [old.remarked userRemark adminRemark stamp.now]
  | split {source : Range F} {spans : List (Span F)} (hm : source.status.mutable = true)
      (ht : Interval.Tiles source.span.start.bits (source.span.stop.bits + 1) (spans.map Span.interval))
      (hne : spans ≠ [source.span]) :
      Transition stamp (some (.split source.span spans)) [source.span] [source]
        ((Pool.parts source stamp.now stamp.rowId spans).map Range.named)
  | merged {members : List (Range F)} {first last : Range F} {target : UInt8} (hf : members.head? = some first)
      (hl : members.getLast? = some last) (hc : Pool.checkMembers target members = .ok ())
      (hne : ¬(members.length = 1 ∧ first.span.plen = target)) :
      Transition stamp
        (some (.merge ⟨first.span.start, last.span.stop, target⟩ (members.map (·.span))))
        [⟨first.span.start, last.span.stop, target⟩] members
        [(Pool.mergedRange stamp.now (stamp.rowId 0) target first last).named]

/-- The rows that a transition puts in keep their names when they are stored again. -/
theorem Transition.settled {stamp : Stamp} {event : Option (Event F)} {spans : List (Span F)} {old new : List (Range F)}
    (h : Transition stamp event spans old new) : ∀ r ∈ new, r.named = r := by
  have hone : ∀ r : Range F, ∀ r' ∈ [r.named], r'.named = r' := fun r => List.forall_mem_singleton.2 r.named_named
  cases h with
  | stay => simp
  | added new => exact hone _
  | edited edit hm hs => exact hone _
  | moved edit hm hs => exact hone _
  | deleted hm => simp
  | reserved org hw => exact hone _
  | assigned org ha => exact hone _
  | recovered hw => exact hone _
  | remarked userRemark adminRemark => exact hone _
  | split hm ht hne => exact List.forall_mem_map.2 fun r _ => r.named_named
  | merged hf hl hc hne => exact hone _

/-! ## Pools before and after -/

/-- The journal with an event written down, if there is one. -/
def Journal.enter (j : Journal F) (stamp : Stamp) (user : Option String) : Option (Event F) → Journal F
  | none => j
  | some event => j.note ⟨stamp.recordId, event, user, event.remark, stamp.now⟩

/-- The record of the event, if there is one and the journal takes it. -/
def Journal.entry (j : Journal F) (stamp : Stamp) (user : Option String) (event : Option (Event F)) : List (Record F) :=
  if j.closed then [] else event.toList.map fun event => ⟨stamp.recordId, event, user, event.remark, stamp.now⟩

/-- What is entered stands behind the records that were there. -/
@[simp] theorem Journal.records_enter (j : Journal F) (stamp : Stamp) (user : Option String) (event : Option (Event F)) :
    (j.enter stamp user event).records = j.records ++ j.entry stamp user event := by
  cases event with
  | none => simp [enter, entry]
  | some event =>
    rw [enter, records_note, entry]
    split <;> simp

@[simp] theorem Journal.closed_enter (j : Journal F) (stamp : Stamp) (user : Option String) (event : Option (Event F)) :
    (j.enter stamp user event).closed = j.closed := by
  cases event with
  | none => rfl
  | some event => exact j.closed_note _

namespace Pool

/-- The pool `q` is `p` with the rows `old` replaced by the rows `new`, and an event written down. -/
structure Became (stamp : Stamp) (user : Option String) (p : Pool F) (event : Option (Event F)) (old new : List (Range F))
    (q : Pool F) : Prop where
  table : p.store.table.Swapped old new q.store.table
  locks : q.store.locks = .empty
  shaped : ∀ r ∈ new, r.span.Shaped
  journal : q.journal = p.journal.enter stamp user event
  limits : q.limits = p.limits

/-- The pool `q` is what an operation that announces the spans may make of `p`. -/
def Step (stamp : Stamp) (user : Option String) (p : Pool F) (spans : List (Span F)) (q : Pool F) : Prop :=
  ∃ event old new, Transition stamp event spans old new ∧ Became stamp user p event old new q

/-- The pool `q` is what an operation that takes no range back from its consumer may make of `p`. -/
def Advance (stamp : Stamp) (user : Option String) (p : Pool F) (spans : List (Span F)) (q : Pool F) : Prop :=
  ∃ event old new, Transition stamp event spans old new ∧ Became stamp user p event old new q ∧
    event.map Event.kind ≠ some .recover

/-- The pool `q` is what an operation that takes out none but the rows named, and writes down events of one kind if any, may make
of `p`. -/
def Deed (names : List Identifier) (kind : Option EventKind) (stamp : Stamp) (user : Option String) (p : Pool F)
    (spans : List (Span F)) (q : Pool F) : Prop :=
  ∃ event old new, Transition stamp event spans old new ∧ Became stamp user p event old new q ∧
    (∀ r ∈ old, r.id ∈ names) ∧ ∀ happened, event = some happened → kind = some happened.kind

variable {p q : Pool F} {stamp : Stamp} {user : Option String} {spans : List (Span F)} {names : List Identifier}
  {kind : Option EventKind}

/-- What an operation makes of a pool is at rest. -/
theorem Became.atRest {event : Option (Event F)} {old new : List (Range F)} (h : Became stamp user p event old new q) :
    q.store.AtRest := ⟨h.table.valid, h.locks⟩

/-- An operation may leave a pool as it is. -/
theorem Became.refl (h : p.store.AtRest) : Became stamp user p none [] [] p :=
  ⟨.refl h.valid, h.unlocked, by simp, rfl, rfl⟩

theorem Advance.refl (h : p.store.AtRest) : Advance stamp user p [] p := ⟨none, [], [], .stay, .refl h, nofun⟩

theorem Advance.step (h : Advance stamp user p spans q) : Step stamp user p spans q :=
  let ⟨event, old, new, htr, hb, _⟩ := h
  ⟨event, old, new, htr, hb⟩

theorem Step.refl (h : p.store.AtRest) : Step stamp user p [] p := (Advance.refl h).step

theorem Deed.refl (h : p.store.AtRest) : Deed names kind stamp user p [] p :=
  ⟨none, [], [], .stay, .refl h, by simp, by simp⟩

theorem Deed.step (h : Deed names kind stamp user p spans q) : Step stamp user p spans q :=
  let ⟨event, old, new, htr, hb, _⟩ := h
  ⟨event, old, new, htr, hb⟩

/-- A deed that is not a recovery is an advance. -/
theorem Deed.advance (h : Deed names kind stamp user p spans q) (hkind : kind ≠ some .recover) : Advance stamp user p spans q := by
  obtain ⟨event, old, new, htr, hb, -, hevent⟩ := h
  refine ⟨event, old, new, htr, hb, fun he => ?_⟩
  obtain ⟨happened, rfl, hrecover⟩ := Option.map_eq_some_iff.1 he
  exact hkind (hrecover ▸ hevent happened rfl)

end Pool

end AddressSpace
