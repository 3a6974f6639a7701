import AddressSpace.Range.Store
import AddressSpace.Journal
import AddressSpace.Limits
/-!
# Range pools

The ranges of one family with the journal of their changes and the limits on operations. What an operation needs from
its surroundings, a reading of the clock and new identifiers, is handed to it as a stamp; what it tells its
surroundings, the spans in which ranges came or went, is part of its result.
-/

namespace AddressSpace

/-- The ranges of one family, managed. -/
structure Pool (F : Family) where
  store : Store F
  journal : Journal F
  limits : Limits
  deriving DecidableEq

/-- What an operation gets from its surroundings. -/
structure Stamp where
  now : Instant
  /-- Identifiers for the rows that the operation adds, the first for the first. -/
  rowId : Nat → Identifier
  /-- The identifier for the record that the operation writes. -/
  recordId : Identifier

/-- A result, with the spans in which ranges came or went. -/
structure Announced (F : Family) (α : Type) where
  value : α
  spans : List (Span F)

namespace Pool

variable {F : Family} {α : Type}

/-- The pool without any rows and records. -/
def empty (F : Family) (limits : Limits) : Pool F := ⟨.empty, .empty, limits⟩

/-- Works on the stored ranges. -/
def onStore (a : Action (Store F) α) : Action (Pool F) α := Action.on Pool.store (fun p store => { p with store }) a

/-- Writes a record of what happened. -/
def record (stamp : Stamp) (user : Option String) (event : Event F) : Action (Pool F) Unit :=
  modify fun p => { p with journal := p.journal.note ⟨stamp.recordId, event, user, event.remark, stamp.now⟩ }

/-- Refuses a range that must not undergo the change. -/
def requireMutable (r : Range F) (change : Change) : Except Failure Unit :=
  if r.status.mutable then .ok () else .error (.notMutable change r.span r.status)

/-- Writes a new version of a locked row. -/
def renew (tx : Transaction F) (r : Range F) : Action (Store F) (Range F) := do
  let rows ← Store.write tx [r.id] [r]
  Action.demand (.unknown (.ranges F) r.id) rows.getLast?

end Pool

end AddressSpace
