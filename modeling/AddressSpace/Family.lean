/-!
# Address families

The two address spaces. Everything else is indexed by one of them, so an address of one family never meets a range of
the other.
-/

namespace AddressSpace

/-- The 32-bit and the 128-bit address space. -/
inductive Family where
  | v4
  | v6
  deriving DecidableEq, Repr

namespace Family

/-- How many bits an address has. -/
def width : Family → Nat
  | v4 => 32
  | v6 => 128

/-- No family has more than 128 bits. -/
theorem width_le (F : Family) : F.width ≤ 128 := by cases F <;> decide

/-- How many addresses there are. -/
def size (F : Family) : Nat := 1 <<< F.width

/-- A space has an address. -/
theorem size_pos (F : Family) : 0 < F.size := by cases F <;> decide

/-- The family's name in messages. -/
def label : Family → String
  | v4 => "ipv4"
  | v6 => "ipv6"

/-- The largest distance between the length a halving plan stops at and its target length. -/
def maxHalvingDepth : Family → Nat
  | v4 => 10
  | v6 => 8

end Family

end AddressSpace
