import AddressSpace.Action
import AddressSpace.KeyMap
import AddressSpace.Instant
import AddressSpace.Text.Search
/-!
# Notes

Remarks on single addresses. A note is made the first time that somebody remarks on an address.
-/

namespace AddressSpace

/-- The remarks on an address. -/
structure Note (F : Family) where
  address : Address F
  adminRemark : String
  userRemark : String
  createdAt : Instant
  updatedAt : Instant
  deriving DecidableEq

/-- The notes by address. -/
abbrev Notes (F : Family) := KeyMap (Note F)

namespace Notes

variable {F : Family}

/-- Saved notes, the later of two on one address. -/
def ofList (notes : List (Note F)) : Notes F := KeyMap.ofList (notes.map fun n => (n.address.bits, n))

/-- The note at an address. -/
def get? (m : Notes F) (address : Address F) : Option (Note F) := KeyMap.get? m address.bits

/-- Sets the remark of the user, of the administrator or both. -/
def remark (now : Instant) (address : Address F) (userRemark adminRemark : Option String) :
    Action (Notes F) (Note F) := do
  if userRemark.isNone && adminRemark.isNone then
    throw .noRemark
  let m ← MonadState.get
  let old := (get? m address).getD ⟨address, "", "", now, now⟩
  let n := { old with userRemark := userRemark.getD old.userRemark, adminRemark := adminRemark.getD old.adminRemark,
                      updatedAt := now }
  set (KeyMap.insert m address.bits n)
  return n

/-- The remarks that a reader may see. -/
def visible (n : Note F) (privileged : Bool) : List String :=
  n.userRemark :: if privileged then [n.adminRemark] else []

/-- Whether a reader finds the term in a note. A blank term finds every note with some remark to see. -/
def found (term : String) (privileged : Bool) (n : Note F) : Bool :=
  if Text.trimChars term.toList = [] then (visible n privileged).any (· ≠ "")
  else (visible n privileged).any (Text.holds (Text.needle term))

/-- The notes between two addresses, in ascending order, in which a reader finds the term. -/
def filter (m : Notes F) (start stop : Option (Address F)) (term : Option String) (privileged : Bool) :
    List (Note F) :=
  let low := (start.map (·.bits)).getD 0
  let high := (stop.map (·.bits)).getD (F.size - 1)
  (m.between low high).filter fun n => term.all (found · privileged n)

end Notes

end AddressSpace
