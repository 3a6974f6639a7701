import AddressSpace.Supernet
import AddressSpace.Pool
/-!
# External ranges

Blocks of the 32-bit family that belong to third parties. They are only described, in a table of their own.
-/

namespace AddressSpace

/-- A block of a third party. -/
structure ExternalRange where
  id : Identifier
  name : String
  span : Span .v4
  asn : UInt32
  orgName : String
  country : String
  city : String
  remark : String
  operator : String
  createdAt : Instant
  updatedAt : Instant
  deriving DecidableEq

instance : Row ExternalRange := ⟨ExternalRange.id, fun r => r.span.interval⟩

/-- What a caller says of an external range. -/
structure ExternalInput where
  /-- Taken from the span's network when blank. -/
  name : String
  bounds : Bounds
  asn : UInt32
  orgName : String
  country : String
  city : String
  remark : String

/-- Which external ranges a listing shows. A criterion that is not set holds of every one. -/
structure ExternalFilter where
  asn : Option UInt32
  contains : Option (Address .v4)
  /-- A term to look for in the name, the remark, the organization, the country and the city. -/
  search : Option String

/-- Whether a filter accepts a range: every condition that is set holds. -/
def ExternalFilter.accepts (f : ExternalFilter) (r : ExternalRange) : Bool :=
  f.asn.all (· == r.asn) && f.contains.all r.span.contains &&
    f.search.all (Text.found · [r.name, r.remark, r.orgName, r.country, r.city])

namespace External

/-- The row that the input describes. -/
def described (input : ExternalInput) (span : Span .v4) (operator : String) (id : Identifier)
    (createdAt updatedAt : Instant) : ExternalRange :=
  let name := Text.trim input.name
  { id, name := if name = "" then span.name else name, span, asn := input.asn, orgName := input.orgName,
    country := input.country, city := input.city, remark := input.remark, operator, createdAt, updatedAt }

/-- The external range with the identifier. -/
def row (t : Table ExternalRange) (id : Identifier) : Except Failure ExternalRange :=
  match t.get? id with
  | some r => .ok r
  | none => .error (.unknown .externals id)

/-- The external range that holds the address. -/
def rowAt (t : Table ExternalRange) (addr : Address .v4) : Except Failure ExternalRange :=
  match t.containing? addr.bits with
  | some r => .ok r
  | none => .error (.nothingAt .externals addr)

/-- The external ranges that a filter shows, in ascending order. -/
def filter (t : Table ExternalRange) (f : ExternalFilter) : List ExternalRange := t.toList.filter f.accepts

/-- Adds an external range. -/
def create (stamp : Stamp) (input : ExternalInput) (operator : String) : Action (Table ExternalRange) ExternalRange := do
  let span ← input.bounds.span
  let r := described input span operator (stamp.rowId 0) stamp.now stamp.now
  set (← (← get).insert r)
  return r

/-- Describes an external range anew. -/
def update (stamp : Stamp) (id : Identifier) (input : ExternalInput) (operator : String) :
    Action (Table ExternalRange) ExternalRange := do
  let span ← input.bounds.span
  let t ← get
  let old ← row t id
  let r := described input span operator id old.createdAt stamp.now
  let (_, t) ← t.replace r
  set t
  return r

/-- Takes an external range out, and gives it as it was. -/
def delete (id : Identifier) : Action (Table ExternalRange) ExternalRange := do
  match (← get).remove? id with
  | some (r, t) =>
    set t
    return r
  | none => throw (.unknown .externals id)

/-- Adds a saved external range as it is. -/
def restore (r : ExternalRange) : Action (Table ExternalRange) Unit := do
  r.span.checkShape
  set (← (← get).insert r)

end External

end AddressSpace
