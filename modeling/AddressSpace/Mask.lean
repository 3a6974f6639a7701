/-!
# Network masks

Bit patterns of networks. A network of length `plen` in a space of `width` bits fixes the first `plen` bits and leaves
the other `width - plen` to the hosts; lengths beyond the width leave none. All functions are total; callers that must
refuse a length beyond the width do so first.
-/

namespace AddressSpace.Mask

/-- All bits of a space of `width` bits; no space has more than 128. -/
def space (width : Nat) : Nat := (1 <<< min width 128) - 1

/-- The host bits of a network of length `plen`. -/
def host (width plen : Nat) : Nat := space (width - plen)

/-- The network bits of a network of length `plen`. -/
def network (width plen : Nat) : Nat := space width ^^^ host width plen

/-- The first address of the network that holds `bits`. -/
def cut (bits width plen : Nat) : Nat := bits &&& network width plen

/-- The last address of the network that holds `bits`. -/
def last (bits width plen : Nat) : Nat := cut bits width plen ||| host width plen

/-- The bits that a mask leaves out, among the 128 of the widest space. -/
def complement (mask : Nat) : Nat := space 128 ^^^ mask

/-- The first address after the network that holds `bits`, unless the space ends there. -/
def after? (bits width plen : Nat) : Option Nat :=
  let l := last bits width plen
  if space width ≤ l then none else some (l + 1)

/-- The position of the lowest bit set among the first `width`. -/
def lowestBit? (bits width : Nat) : Option Nat := (List.range width).find? fun i => bits.testBit i

/-- The least length for which `bits` is the first address of a network. -/
def shortest (bits width : Nat) : Nat :=
  match lowestBit? (bits &&& space width) width with
  | none => 0
  | some i => width - i

end AddressSpace.Mask
