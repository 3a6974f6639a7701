import AddressSpace.Range
import AddressSpace.Text.Search
/-!
# Supernets

Coarse blocks of the 32-bit family that are tracked for bookkeeping. How much of a supernet is in use is not told but
derived from the ranges that lie inside it.
-/

namespace AddressSpace

/-- A block that is tracked, with the rollup of the ranges inside it. -/
structure Supernet where
  id : Identifier
  name : String
  span : Span .v4
  rollup : Rollup
  asn : UInt32
  remark : String
  operator : String
  /-- The addresses of assigned ranges inside. -/
  used : UInt64
  total : UInt64
  createdAt : Instant
  updatedAt : Instant
  deriving DecidableEq

instance : Row Supernet := ⟨Supernet.id, fun s => s.span.interval⟩

/-- The bounds that a caller gives, which may be incomplete. -/
structure Bounds where
  start : Option (Address .v4)
  stop : Option (Address .v4)
  plen : UInt8

/-- The span of complete bounds of the right shape. -/
def Bounds.span (b : Bounds) : Except Failure (Span .v4) :=
  match b.start, b.stop with
  | some start, some stop => do
    let s : Span .v4 := ⟨start, stop, b.plen⟩
    s.checkShape.mapError .invalidRow
    return s
  | _, _ => .error .boundsMissing

/-- What a caller says of a supernet. Its name is that of its span. -/
structure SupernetInput where
  bounds : Bounds
  asn : UInt32
  remark : String

/-- Which supernets a listing shows. A criterion that is not set holds of every supernet. -/
structure SupernetFilter where
  rollup : Option Rollup
  asn : Option UInt32
  contains : Option (Address .v4)
  /-- A term to look for in the name and the remark. -/
  search : Option String

/-- Whether a filter accepts a supernet: every condition that is set holds. -/
def SupernetFilter.accepts (f : SupernetFilter) (s : Supernet) : Bool :=
  f.rollup.all (· == s.rollup) && f.asn.all (· == s.asn) && f.contains.all s.span.contains &&
    f.search.all (Text.found · [s.name, s.remark])

/-! ## The tally of the ranges inside -/

/-- The ranges of one status: which they are, and how many addresses they have. -/
structure Share where
  ids : List Identifier
  addresses : UInt64
  deriving DecidableEq

/-- A number of addresses as it is kept. -/
def countWord (n : Nat) : UInt64 := UInt64.ofNat (min n (UInt64.size - 1))

/-- The ranges by status. -/
structure Tally where
  assigned : Share
  reserved : Share
  wait : Share
  deriving DecidableEq

namespace Tally

/-- The share of the ranges with one status. -/
def share (status : Status) (ranges : List (Range .v4)) : Share :=
  let rs := ranges.filter (·.status == status)
  ⟨rs.map (·.id), (rs.map fun r => countWord r.span.size).foldl (· + ·) 0⟩

/-- Counts ranges and their addresses, by status. -/
def collect (ranges : List (Range .v4)) : Tally :=
  ⟨share .assigned ranges, share .reserved ranges, share .wait ranges⟩

/-- How many ranges there are. -/
def ranges (t : Tally) : Nat := t.assigned.ids.length + t.reserved.ids.length + t.wait.ids.length

/-- How many addresses the ranges have. -/
def addresses (t : Tally) : UInt64 := t.assigned.addresses + t.reserved.addresses + t.wait.addresses

/-- The rollup of a supernet of `total` addresses. -/
def rollup (t : Tally) (total : UInt64) : Rollup :=
  match t.ranges with
  | 0 => .outOfWarehouse
  | 1 => if total ≤ t.addresses then .inWarehouse else .divided
  | _ => .divided

end Tally

end AddressSpace
