import AddressSpace.Range.Filter
import AddressSpace.Locks
/-!
# The range store

The ranges of one family with their row locks. Whoever changes stored ranges first locks them, reads them under the
lock, and writes by taking out locked rows and putting in new ones, all of it or nothing.
-/

namespace AddressSpace

/-- The ranges of one family. -/
structure Store (F : Family) where
  table : Table (Range F)
  locks : Locks
  deriving DecidableEq

/-- Rows that one operation has locked, in ascending order, as they were when they were locked. -/
structure Transaction (F : Family) where
  rows : List (Range F)
  guard : Guard
  deriving DecidableEq

namespace Store

variable {F : Family} {α : Type}

/-- The store without rows and locks. -/
def empty : Store F := ⟨.empty, .empty⟩

instance : Inhabited (Store F) := ⟨empty⟩

/-! ## Queries -/

/-- The ranges in ascending order. -/
def toList (s : Store F) : List (Range F) := s.table.toList

/-- The range with the identifier. -/
def row (s : Store F) (id : Identifier) : Except Failure (Range F) :=
  match s.table.get? id with
  | some r => .ok r
  | none => .error (.unknown (.ranges F) id)

/-- The range that holds the address. -/
def rowAt (s : Store F) (addr : Address F) : Except Failure (Range F) :=
  match s.table.containing? addr.bits with
  | some r => .ok r
  | none => .error (.nothingAt (.ranges F) addr)

/-- The ranges that a filter shows, in ascending order. -/
def filter (s : Store F) (f : RangeFilter F) : List (Range F) := s.toList.filter f.accepts

/-- The ranges that lie between two addresses, in ascending order. -/
def inside (s : Store F) (start stop : Address F) : List (Range F) := s.table.inside ⟨start.bits, stop.bits⟩

/-- Refuses a span that overlaps a range, those with the identifiers `exclude` aside. -/
def checkFree (s : Store F) (span : Span F) (exclude : List Identifier) : Except Failure Unit :=
  s.table.checkFree span.interval exclude

/-! ## Changes -/

/-- Adds a range, in free space. -/
def insert (r : Range F) : Action (Store F) (Range F) := do
  let r ← r.prepare
  let s ← get
  let table ← s.table.insert r
  set { s with table }
  return r

/-- The order in which rows are locked: by first address, then by identifier. -/
def lockOrder (a b : Range F) : Bool :=
  a.span.start.bits < b.span.start.bits ||
    (a.span.start.bits == b.span.start.bits && a.id.bits ≤ b.id.bits)

/-- Locks rows and reads them, to be called when they are free. -/
def lock (ids : List Identifier) : Action (Store F) (Transaction F) := do
  let s ← get
  let rows ← Action.ofExcept ((Locks.distinct ids).mapM s.row)
  let rows := rows.mergeSort lockOrder
  let (guard, locks) := s.locks.acquire (rows.map (·.id))
  set { s with locks }
  return ⟨rows, guard⟩

/-- Gives locked rows back. -/
def release (tx : Transaction F) (s : Store F) : Store F := { s with locks := s.locks.release tx.guard }

/-- Takes out locked rows and puts in new ones, all of it or nothing. The rows stay locked. -/
def write (tx : Transaction F) (remove : List Identifier) (add : List (Range F)) :
    Action (Store F) (List (Range F)) := do
  if let some id := remove.find? (!tx.guard.ids.contains ·) then
    throw (.notLocked F id)
  let add ← Action.ofExcept (add.mapM Range.prepare)
  Action.on Store.table (fun s table => { s with table }) (Table.swap remove add)
  return add

/-- Runs the rest of an operation on locked rows and gives them back, however it ends. -/
def finishing (tx : Transaction F) (a : Action (Store F) α) : Action (Store F) α := fun s =>
  match a s with
  | .ok x s => .ok x (s.release tx)
  | .error e s => .error e (s.release tx)

/-- Writes and gives the locked rows back, also when the write fails. -/
def commit (tx : Transaction F) (remove : List Identifier) (add : List (Range F)) :
    Action (Store F) (List (Range F)) := finishing tx (write tx remove add)

/-- Locks rows for as long as `body` runs. -/
def locking (ids : List Identifier) (body : Transaction F → Action (Store F) α) : Action (Store F) α := do
  let tx ← lock ids
  finishing tx (body tx)

end Store

/-- The locked row with the identifier. -/
def Transaction.row {F : Family} (tx : Transaction F) (id : Identifier) : Except Failure (Range F) :=
  match tx.rows.find? (·.id == id) with
  | some r => .ok r
  | none => .error (.unknown (.ranges F) id)

end AddressSpace
