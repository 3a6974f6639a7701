import AddressSpace.Range
import AddressSpace.Text.Search
/-!
# Range filters

Which ranges a listing shows. A criterion that is not set holds of every range.
-/

namespace AddressSpace

/-- Criteria on ranges. -/
structure RangeFilter (F : Family) where
  /-- The organizations, one of which the range's consumer must belong to. -/
  orgIds : Option (List String)
  status : Option Status
  asn : Option UInt32
  contains : Option (Address F)
  /-- A term to look for in the name and the user remark, and in the admin remark for the privileged. -/
  search : Option String
  privileged : Bool

namespace RangeFilter

variable {F : Family}

/-- Everything, as an unprivileged reader sees it. -/
def all : RangeFilter F := ⟨none, none, none, none, none, false⟩

/-- Everything, as a privileged reader sees it. -/
def admin : RangeFilter F := { all with privileged := true }

/-- The assigned ranges of some organizations. -/
def forOrganizations (ids : List String) : RangeFilter F := { all with orgIds := some ids, status := some .assigned }

/-- Whether the consumer belongs to one of the organizations. -/
def orgMatches (ids : List String) : Option Consumer → Bool
  | some org => ids.contains org.orgId
  | none => false

/-- The texts of a range that a search looks into. -/
def searched (f : RangeFilter F) (r : Range F) : List String :=
  r.name :: r.userRemark :: if f.privileged then [r.adminRemark] else []

/-- Whether the filter shows the range. -/
def accepts (f : RangeFilter F) (r : Range F) : Bool :=
  f.orgIds.all (orgMatches · r.org) && f.status.all (· == r.status) && f.asn.all (· == r.asn.number) &&
    f.contains.all r.span.contains && f.search.all (Text.found · (f.searched r))

end RangeFilter

end AddressSpace
