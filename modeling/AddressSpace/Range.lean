import AddressSpace.Table
import AddressSpace.Cidr.Read
import AddressSpace.Instant
/-!
# Ranges

An owned range: its bounds, its allocation state, the AS it is announced by and the consumer it is held for. A range
without a name of its own is named after the network of its first address.
-/

namespace AddressSpace

/-- Whoever a range is reserved for or assigned to: an object, and the organization that it belongs to. -/
structure Consumer where
  id : String
  orgId : String
  deriving DecidableEq

/-- An AS number as the registry knows it. -/
structure Asn where
  id : UInt32
  number : UInt32
  name : String
  deriving DecidableEq

/-- A range of the pool of one family. -/
structure Range (F : Family) where
  id : Identifier
  name : String
  span : Span F
  status : Status
  asn : Asn
  org : Option Consumer
  assignedAt : Option Instant
  adminRemark : String
  userRemark : String
  createdAt : Instant
  updatedAt : Instant
  deriving DecidableEq

instance {F : Family} : Row (Range F) := ⟨Range.id, fun r => r.span.interval⟩

/-- The name that a span gives to what has none: the network of its first address, or address zero with the length of the span when
that is beyond the family's width. -/
def Span.name {F : Family} (s : Span F) : String :=
  match s.network? with
  | some c => c.text
  | none => String.ofList ((Address.ofBits F 0).charsWithLength s.plen.toNat)

namespace Range

variable {F : Family}

/-- The range with a trimmed name, or that of its span. -/
def named (r : Range F) : Range F :=
  let name := Text.trim r.name
  { r with name := if name = "" then r.span.name else name }

/-- A new waiting range. -/
def build (id : Identifier) (name : String) (span : Span F) (asn : Asn) (now : Instant) : Range F :=
  named { id, name, span, status := .wait, asn, org := none, assignedAt := none, adminRemark := "", userRemark := "",
          createdAt := now, updatedAt := now }

/-- The range as it may be stored. -/
def prepare (r : Range F) : Except Failure (Range F) := do
  r.span.checkShape.mapError .invalidRow
  return r.named

end Range

end AddressSpace
