import AddressSpace.Family
/-!
# Addresses

An address is a number below the size of its family's space, and addresses are ordered as numbers.
-/

namespace AddressSpace

/-- An address of the family `F`. -/
structure Address (F : Family) where
  bits : Nat
  isLt : bits < F.size
  deriving DecidableEq

namespace Address

variable {F : Family}

/-- The address that the low bits of `n` stand for. -/
def ofBits (F : Family) (n : Nat) : Address F := ⟨n % F.size, Nat.mod_lt _ F.size_pos⟩

instance : LE (Address F) := ⟨fun a b => a.bits ≤ b.bits⟩
instance : LT (Address F) := ⟨fun a b => a.bits < b.bits⟩
instance (a b : Address F) : Decidable (a ≤ b) := inferInstanceAs (Decidable (a.bits ≤ b.bits))
instance (a b : Address F) : Decidable (a < b) := inferInstanceAs (Decidable (a.bits < b.bits))

instance : Inhabited (Address F) := ⟨ofBits F 0⟩

/-- Whether `b` is the address right after `a`. -/
def contiguous (a b : Address F) : Bool := b.bits == a.bits + 1

/-- Addresses with the same number are the same. -/
theorem ext_bits {a b : Address F} (h : a.bits = b.bits) : a = b := by
  cases a
  cases b
  simp_all

/-- The address of a number in the space has that number. -/
theorem ofBits_bits (a : Address F) : ofBits F a.bits = a := ext_bits (Nat.mod_eq_of_lt a.isLt)

variable {a b : Address F}

/-- The address after one that is not the last. -/
def next (h : a < b) : Address F := ⟨a.bits + 1, Nat.lt_of_le_of_lt h b.isLt⟩

@[simp] theorem next_bits (h : a < b) : (next h).bits = a.bits + 1 := rfl

/-- The address before one that is not the first. -/
def previous (_h : a < b) : Address F := ⟨b.bits - 1, Nat.lt_of_le_of_lt (Nat.sub_le ..) b.isLt⟩

end Address

end AddressSpace
