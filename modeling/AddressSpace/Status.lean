/-!
# Statuses

The allocation state of a range, and the rollup of a supernet.
-/

namespace AddressSpace

/-- The allocation state of a range. -/
inductive Status where
  | wait
  | reserved
  | assigned
  deriving DecidableEq, Repr

namespace Status

/-- The word for a status. -/
def text : Status → String
  | wait => "wait"
  | reserved => "reserved"
  | assigned => "assigned"

/-- Waiting and reserved ranges may be edited, deleted, split and merged. -/
def mutable : Status → Bool
  | assigned => false
  | _ => true

end Status

/-- What the ranges inside a supernet make of it. -/
inductive Rollup where
  /-- No range lies inside. -/
  | outOfWarehouse
  /-- One range covers it. -/
  | inWarehouse
  /-- Several ranges lie inside, or one that covers only a part. -/
  | divided
  deriving DecidableEq, Repr

namespace Rollup

/-- The word for a rollup. -/
def text : Rollup → String
  | outOfWarehouse => "out-warehouse"
  | inWarehouse => "in-warehouse"
  | divided => "split"

end Rollup

end AddressSpace
