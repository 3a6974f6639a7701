import AddressSpace.Supernet
import AddressSpace.Pool
import AddressSpace.Span.Free
/-!
# The warehouse

The table of supernets, kept in step with the ranges of the 32-bit family. Rollups are derived when a supernet is
written, and again for every supernet that meets a span in which ranges came or went.
-/

namespace AddressSpace.Warehouse

/-- The tally of the ranges inside a span. -/
def tally (ranges : Store .v4) (span : Span .v4) : Tally := .collect (ranges.inside span.start span.stop)

/-- The supernet with the identifier. -/
def row (t : Table Supernet) (id : Identifier) : Except Failure Supernet :=
  match t.get? id with
  | some s => .ok s
  | none => .error (.unknown .supernets id)

/-- The supernet that holds the address. -/
def rowAt (t : Table Supernet) (addr : Address .v4) : Except Failure Supernet :=
  match t.containing? addr.bits with
  | some s => .ok s
  | none => .error (.nothingAt .supernets addr)

/-- The supernets that a filter shows, in ascending order. -/
def filter (t : Table Supernet) (f : SupernetFilter) : List Supernet := t.toList.filter f.accepts

/-- Adds a supernet. -/
def create (ranges : Store .v4) (stamp : Stamp) (input : SupernetInput) (operator : String) :
    Action (Table Supernet) Supernet := do
  let span ← input.bounds.span
  let tally := tally ranges span
  let total := countWord span.size
  let s : Supernet :=
    { id := stamp.rowId 0, name := span.name, span, rollup := tally.rollup total, asn := input.asn,
      remark := input.remark, operator, used := tally.assigned.addresses, total, createdAt := stamp.now,
      updatedAt := stamp.now }
  set (← (← get).insert s)
  return s

/-- Gives a supernet new bounds, AS and remark. A blank remark keeps the old one. -/
def update (ranges : Store .v4) (stamp : Stamp) (id : Identifier) (input : SupernetInput) (operator : String) :
    Action (Table Supernet) Supernet := do
  let span ← input.bounds.span
  let tally := tally ranges span
  let total := countWord span.size
  let t ← get
  let old ← row t id
  let s : Supernet :=
    { old with name := span.name, span, rollup := tally.rollup total, asn := input.asn,
               remark := if input.remark = "" then old.remark else input.remark, operator,
               used := tally.assigned.addresses, total, updatedAt := stamp.now }
  let (_, t) ← t.replace s
  set t
  return s

/-- Takes a supernet out, and gives it as it was. -/
def delete (id : Identifier) : Action (Table Supernet) Supernet := do
  match (← get).remove? id with
  | some (s, t) =>
    set t
    return s
  | none => throw (.unknown .supernets id)

/-! ## Keeping the rollups -/

/-- The supernet with its rollup derived anew. -/
def rolledUp (ranges : Store .v4) (s : Supernet) : Supernet :=
  let tally := tally ranges s.span
  { s with rollup := tally.rollup s.total, used := tally.assigned.addresses }

/-- Derives one rollup anew. Gives whether it changed, with the table. -/
def refreshOne (ranges : Store .v4) (t : Table Supernet) (id : Identifier) : Bool × Table Supernet :=
  match t.get? id with
  | none => (false, t)
  | some s =>
    if rolledUp ranges s = s then (false, t)
    else match t.replace (rolledUp ranges s) with
      | .ok (_, t) => (true, t)
      | .error _ => (false, t)

/-- Derives rollups anew. Gives how many changed, with the table. -/
def refreshIds (ranges : Store .v4) (ids : List Identifier) (t : Table Supernet) : Nat × Table Supernet :=
  ids.foldl (fun (n, t) id =>
    let (changed, t) := refreshOne ranges t id
    (if changed then n + 1 else n, t)) (0, t)

/-- Derives the rollups of all supernets that meet one of the spans. -/
def refresh (ranges : Store .v4) (spans : List (Span .v4)) (t : Table Supernet) : Nat × Table Supernet :=
  refreshIds ranges ((t.toList.filter fun s => spans.any (·.meets s.span)).map (·.id)) t

/-- Derives all rollups. -/
def refreshAll (ranges : Store .v4) (t : Table Supernet) : Nat × Table Supernet :=
  refreshIds ranges (t.toList.map (·.id)) t

/-- Adds a saved supernet, with its rollup derived anew. -/
def restore (ranges : Store .v4) (s : Supernet) : Action (Table Supernet) Unit := do
  s.span.checkShape
  let t ← (← get).insert s
  set (refreshIds ranges [s.id] t).2

/-- The largest networks inside a supernet that no range meets. -/
def free (ranges : Store .v4) (t : Table Supernet) (id : Identifier) : Except Failure (List (Cidr .v4)) := do
  let s ← row t id
  s.span.free ((ranges.toList.map (·.span)).filter (·.meets s.span))

end AddressSpace.Warehouse
