import AddressSpace.Listing
import AddressSpace.Supernet
/-!
# Listings as text

One line a row, with quoted fields between commas. Fields are padded on the left to the width of their column. On a
terminal with colours a status shows how much of the space is given away; its colour does not count as text.
-/

namespace AddressSpace.Csv

open Text (decimal)

/-- Blanks in front of a field of some length, up to the width of its column. -/
def padding (length width : Nat) : String := String.ofList (List.replicate (width - length) ' ')

/-- A quoted field. -/
def field (value : String) (width : Nat) : String := padding (value.length + 2) width ++ "\"" ++ value ++ "\""

/-- The colour of a status on a terminal. -/
inductive Colour where
  | red
  | yellow
  | green
  deriving DecidableEq

/-- The number by which terminals know a colour. -/
def Colour.code : Colour → Nat
  | red => 31
  | green => 32
  | yellow => 33

/-- How a status is coloured: given away, held back, free. Other texts are not. -/
def statusColour? (status : String) : Option Colour :=
  if status = "assigned" ∨ status = "split" then some .red
  else if status = "reserved" ∨ status = "in-warehouse" then some .yellow
  else if status = "wait" ∨ status = "out-warehouse" then some .green
  else none

/-- A status, coloured if there are colours. -/
def statusLabel (colours : Bool) (status : String) : String :=
  match statusColour? status with
  | some c => if colours then "\x1b[" ++ decimal c.code ++ "m" ++ status ++ "\x1b[0m" else status
  | none => status

/-- A quoted status. -/
def statusField (colours : Bool) (status : String) (width : Nat) : String :=
  padding (status.length + 2) width ++ "\"" ++ statusLabel colours status ++ "\""

/-- The line of a listing's row. -/
def rangeLine (r : ListingRow) : String :=
  ",".intercalate [field (decimal r.number) 6,
    if r.number = 0 then field r.state 10 else statusField false r.state 10,
    field r.cidr 20, field r.start 16, field r.stop 16, field r.hosts 8, field r.name 20, field r.asn 9, field r.org 8,
    field r.remark 0]

/-- The line of a supernet. -/
def supernetLine (s : Supernet) : String :=
  ",".intercalate [field s.name 18, statusField false s.rollup.text 15,
    field (decimal s.used.toNat ++ "/" ++ decimal s.total.toNat) 16, field ("AS" ++ decimal s.asn.toNat) 9,
    field s.remark 0]

/-- The first line of a listing of ranges. -/
def rangeHeader : String :=
  " \"cnt\",   \"status\",          \"cidr\",          \"start\",            \"end\",  \"hosts\"," ++
    "              \"name\",     \"asn\",    \"org\", \"remark\""

/-- The first line of a listing of supernets. -/
def supernetHeader : String := "\"name\",          \"status\",     \"used/total\",    \"asn\", \"remark\""

/-- Lines as one text, each with its end. -/
def unlines (lines : List String) : String := String.join (lines.map (· ++ "\n"))

/-- The listing of the ranges of one family, in ascending order. -/
def ranges {F : Family} (ranges : List (Range F)) : Except Failure String := do
  let rows ← Listing.rows ranges
  let gaps := rows.countP (·.number == 0)
  let note := s!"#NOTE# {decimal ranges.length} {F.label} ranges, {decimal gaps} unallocated blocks between them"
  return unlines (rangeHeader :: rows.map rangeLine ++ [note])

/-- The listing of supernets. -/
def supernets (supernets : List Supernet) : String := unlines (supernetHeader :: supernets.map supernetLine)

end AddressSpace.Csv
