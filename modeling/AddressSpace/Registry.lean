import AddressSpace.KeyMap
import AddressSpace.Range
/-!
# The AS registry

AS numbers in use. A number is registered the first time that it is asked for, under the identifier after the largest
one so far.
-/

namespace AddressSpace

/-- The registered AS numbers. -/
abbrev Registry := KeyMap Asn

namespace Registry

/-- Saved entries, the later of two with one number. -/
def ofList (entries : List Asn) : Registry := KeyMap.ofList (entries.map fun a => (a.number.toNat, a))

/-- The AS number as the registry knows it, if it does. -/
def get? (r : Registry) (number : UInt32) : Option Asn := KeyMap.get? r number.toNat

/-- The largest identifier, zero when there is none. -/
def largestId (r : Registry) : UInt32 := r.values.foldl (fun id a => if id < a.id then a.id else id) 0

/-- The entry of a number, and the registry with it. -/
def register (r : Registry) (number : UInt32) : Asn × Registry :=
  match get? r number with
  | some a => (a, r)
  | none =>
    let a : Asn := ⟨r.largestId + 1, number, "AS" ++ Text.decimal number.toNat⟩
    (a, KeyMap.insert r number.toNat a)

end Registry

end AddressSpace
