import AddressSpace.Mask
import AddressSpace.Failure
/-!
# Network masks, with the length checked

The mask functions for callers whose length may be beyond the width, which is refused.
-/

namespace AddressSpace.Mask

/-- Refuses a length beyond the width. -/
def require (width plen : Nat) : Except Failure Unit :=
  if width < plen then .error (.lengthOutOfRange plen width) else .ok ()

/-- The network bits of a length. -/
def networkOf (width plen : Nat) : Except Failure Nat := do
  require width plen
  return network width plen

/-- The first address of the network that holds `bits`. -/
def cutOf (bits width plen : Nat) : Except Failure Nat := do
  require width plen
  return cut bits width plen

/-- The last address of the network that holds `bits`. -/
def lastOf (bits width plen : Nat) : Except Failure Nat := do
  require width plen
  return last bits width plen

/-- The first address after the network that holds `bits`, unless the space ends there. -/
def afterOf (bits width plen : Nat) : Except Failure (Option Nat) := do
  require width plen
  return after? bits width plen

end AddressSpace.Mask
