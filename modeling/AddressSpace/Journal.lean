import AddressSpace.Range
/-!
# The journal

Every committed change of a range pool is written down as one record: what happened, with the bounds it was about, who
did it and when. Records are only appended, until the journal is closed; the one later change is that a user can be
forgotten.
-/

namespace AddressSpace

/-- What a record is about. -/
inductive EventKind where
  | add
  | change
  | delete
  | split
  | merge
  | reserve
  | assign
  | recover
  deriving DecidableEq, Repr

namespace EventKind

/-- The word for a kind of event. -/
def text : EventKind → String
  | add => "add"
  | change => "change"
  | delete => "delete"
  | split => "split"
  | merge => "merge"
  | reserve => "reserve"
  | assign => "assign"
  | recover => "recover"

/-- All kinds, in the order in which they are numbered. -/
def all : List EventKind := [add, change, delete, split, merge, reserve, assign, recover]

end EventKind

/-- What happened to a pool. -/
inductive Event (F : Family) where
  | add (range : Span F)
  | change (old new : Span F)
  | delete (range : Span F) (org : Option Consumer)
  | split (source : Span F) (subnets : List (Span F))
  | merge (merged : Span F) (members : List (Span F))
  | reserve (range : Span F) (org : Consumer) (before : Status)
  | assign (range : Span F) (org : Consumer) (before : Status)
  | recover (range : Span F) (org : Option Consumer) (before : Status)
  deriving DecidableEq

namespace Event

variable {F : Family}

/-- The kind of an event. -/
def kind : Event F → EventKind
  | add .. => .add
  | change .. => .change
  | delete .. => .delete
  | split .. => .split
  | merge .. => .merge
  | reserve .. => .reserve
  | assign .. => .assign
  | recover .. => .recover

/-- The bounds of the range that was worked on; for a merge those of the range that came out of it. -/
def primary : Event F → Span F
  | add range | change range _ | delete range _ | split range _ | merge range _ | reserve range _ _ | assign range _ _
  | recover range _ _ => range

/-- The other bounds: what a range was changed to, split into or merged from. -/
def secondary : Event F → List (Span F)
  | change _ new => [new]
  | split _ subnets => subnets
  | merge _ members => members
  | _ => []

/-- The consumer concerned. -/
def org : Event F → Option Consumer
  | reserve _ org _ | assign _ org _ => some org
  | delete _ org | recover _ org _ => org
  | _ => none

/-- What the record remarks: the change of status, if there was one. -/
def remark : Event F → String
  | reserve _ _ before => s!"{Status.reserved.text} from {before.text}"
  | assign _ _ before => s!"{Status.assigned.text} from {before.text}"
  | recover _ _ before => s!"{Status.wait.text} from {before.text}"
  | _ => ""

end Event

/-- An entry of the journal. -/
structure Record (F : Family) where
  id : Identifier
  event : Event F
  user : Option String
  remark : String
  createdAt : Instant
  deriving DecidableEq

namespace Record

variable {F : Family}

/-- Whether the event's primary bounds hold the address. -/
def touches (r : Record F) (addr : Address F) : Bool := r.event.primary.contains addr

/-- The line of a record: its kind and the range that it is about. -/
def text (r : Record F) : String := s!"{r.event.kind.text} {r.event.primary.text}"

end Record

/-- The records, oldest first, and whether no more are taken. -/
structure Journal (F : Family) where
  records : List (Record F)
  closed : Bool
  deriving DecidableEq

/-- Which records a reader asks for. -/
structure RecordQuery (F : Family) where
  kind : Option EventKind
  /-- An address that the primary bounds must hold. -/
  contains : Option (Address F)

/-- Why a journal refuses a record. -/
inductive JournalRefusal where
  | unavailable (reason : String)
  deriving DecidableEq

/-- The wording of a refusal. -/
def JournalRefusal.message : JournalRefusal → String
  | unavailable reason => "ledger is not accepting records: " ++ reason

namespace Journal

variable {F : Family}

/-- An open journal with the records. -/
def ofRecords (records : List (Record F)) : Journal F := ⟨records, false⟩

/-- An open journal without records. -/
def empty : Journal F := ofRecords []

/-- The journal that takes no more records. -/
def close (j : Journal F) : Journal F := { j with closed := true }

/-- Adds a record, unless the journal is closed. -/
def append (j : Journal F) (r : Record F) : Except JournalRefusal (Journal F) :=
  if j.closed then .error (.unavailable s!"{F.label} ledger is closed") else .ok { j with records := j.records ++ [r] }

/-- Writes a record if the journal takes it. What has happened has happened, so a refusal changes nothing else. -/
def note (j : Journal F) (r : Record F) : Journal F :=
  match j.append r with
  | .ok j => j
  | .error _ => j

/-- An open journal takes every record, a closed one takes none. -/
theorem records_note (j : Journal F) (r : Record F) :
    (j.note r).records = if j.closed then j.records else j.records ++ [r] := by
  unfold note append
  cases j.closed <;> rfl

theorem closed_note (j : Journal F) (r : Record F) : (j.note r).closed = j.closed := by
  unfold note append
  cases h : j.closed <;> simp [h]

/-- The records that a reader asks for, newest first. -/
def query (j : Journal F) (q : RecordQuery F) : List (Record F) :=
  j.records.reverse.filter fun r => q.kind.all (· == r.event.kind) && q.contains.all r.touches

/-- Takes a user's name off all records, and tells how many those are. -/
def forget (j : Journal F) (user : String) : Nat × Journal F :=
  (j.records.countP (·.user == some user),
    { j with records := j.records.map fun r => if r.user == some user then { r with user := none } else r })

end Journal

end AddressSpace
