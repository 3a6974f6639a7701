import AddressSpace.Range
import AddressSpace.Span.Free
/-!
# Listings with gaps

The ranges of a family as rows of a listing, with a row for each free network between one range and the next.
-/

namespace AddressSpace

/-- A row of a listing: a range by its number, or a free network under the number zero. -/
structure ListingRow where
  number : Nat
  /-- The status of a range, or a word for a gap. -/
  state : String
  cidr : String
  start : String
  stop : String
  hosts : String
  name : String
  asn : String
  org : String
  remark : String
  deriving DecidableEq

namespace Listing

variable {F : Family}

/-- The row of a free network. -/
def gapRow (c : Cidr F) : ListingRow :=
  { number := 0, state := "-gap-", cidr := c.text, start := c.lo.text, stop := c.hi.text,
    hosts := (Span.ofCidr c).sizeText, name := "None", asn := "None", org := "None", remark := "" }

/-- The row of the `n`-th range. -/
def rangeRow (n : Nat) (r : Range F) : ListingRow :=
  { number := n, state := r.status.text, cidr := r.span.name, start := r.span.start.text, stop := r.span.stop.text,
    hosts := r.span.sizeText, name := r.name, asn := "AS" ++ Text.decimal r.asn.number.toNat,
    org := match r.org with
      | some org => org.orgId
      | none => "None",
    remark := r.adminRemark }

/-- The rows of the free networks behind the address `before` and in front of `start`. -/
def gapRows (before start : Address F) : Except Failure (List ListingRow) :=
  if before.bits + 1 < start.bits then do
    let gap : Span F := ⟨.ofBits F (before.bits + 1), .ofBits F (start.bits - 1), 0⟩
    return (← gap.free []).map gapRow
  else return []

/-- The rows of ranges in ascending order, the first of which is the `n`-th and follows on the address `before`. -/
def rowsFrom (n : Nat) (before : Option (Address F)) : List (Range F) → Except Failure (List ListingRow)
  | [] => .ok []
  | r :: rs => do
    let gaps ← match before with
      | some before => gapRows before r.span.start
      | none => pure []
    let rows ← rowsFrom (n + 1) (some r.span.stop) rs
    return gaps ++ rangeRow n r :: rows

/-- The rows of ranges in ascending order. -/
def rows (ranges : List (Range F)) : Except Failure (List ListingRow) := rowsFrom 1 none ranges

end Listing

end AddressSpace
