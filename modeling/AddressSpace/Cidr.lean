import AddressSpace.Mask
import AddressSpace.Address.Text
/-!
# Networks in CIDR notation

An address with the length of the network it stands in. The address need not be the network's first.
-/

namespace AddressSpace

namespace Mask

/-- The host bits are bits of the space. -/
theorem host_lt (width plen : Nat) : host width plen < 1 <<< width := by
  unfold host space
  rw [Nat.one_shiftLeft, Nat.one_shiftLeft]
  have h : 2 ^ min (width - plen) 128 ≤ 2 ^ width := Nat.pow_le_pow_right (by decide) (by omega)
  have := Nat.two_pow_pos (min (width - plen) 128)
  omega

/-- The first address of a network lies in the space. -/
theorem cut_lt {bits width : Nat} (h : bits < 1 <<< width) (plen : Nat) : cut bits width plen < 1 <<< width :=
  Nat.lt_of_le_of_lt Nat.and_le_left h

/-- The last address of a network lies in the space. -/
theorem last_lt {bits width : Nat} (h : bits < 1 <<< width) (plen : Nat) : last bits width plen < 1 <<< width := by
  have hc := cut_lt h plen
  have hh := host_lt width plen
  rw [Nat.one_shiftLeft] at hc hh ⊢
  exact Nat.or_lt_two_pow hc hh

/-- The bits of a space are its first `width` bits. -/
theorem testBit_space {width : Nat} (hw : width ≤ 128) (i : Nat) : (space width).testBit i = decide (i < width) := by
  rw [space, Nat.min_eq_left hw, Nat.one_shiftLeft, Nat.testBit_two_pow_sub_one]

/-- The last address of a network has all host bits set. -/
theorem last_eq_or {bits width : Nat} (hw : width ≤ 128) (h : bits < 1 <<< width) (plen : Nat) :
    last bits width plen = bits ||| host width plen := by
  rw [Nat.one_shiftLeft] at h
  refine Nat.eq_of_testBit_eq fun i => ?_
  simp only [last, cut, network, Nat.testBit_or, Nat.testBit_and, Nat.testBit_xor, testBit_space hw]
  by_cases hi : i < width
  · cases bits.testBit i <;> cases (host width plen).testBit i <;> simp [hi]
  · have hbit : bits.testBit i = false :=
      Nat.testBit_lt_two_pow (Nat.lt_of_lt_of_le h (Nat.pow_le_pow_right (by decide) (Nat.not_lt.1 hi)))
    simp [hbit]

/-- The bits of the space that the network bits leave out are the host bits. -/
theorem space_and_complement {width : Nat} (hw : width ≤ 128) (plen : Nat) :
    space width &&& complement (network width plen) = host width plen := by
  refine Nat.eq_of_testBit_eq fun i => ?_
  simp only [complement, network, host, Nat.testBit_and, Nat.testBit_xor, testBit_space hw, testBit_space (Nat.le_refl 128),
    testBit_space (Nat.le_trans (Nat.sub_le width plen) hw)]
  by_cases hi : i < width
  · simp [hi, Nat.lt_of_lt_of_le hi hw]
  · have hhost : ¬i < width - plen := by omega
    simp [hi, hhost]

/-- No address is beyond the last one of its network. -/
theorem le_last {bits width : Nat} (hw : width ≤ 128) (h : bits < 1 <<< width) (plen : Nat) :
    bits ≤ last bits width plen := by
  rw [last_eq_or hw h]
  exact Nat.left_le_or

end Mask

namespace Address

variable {F : Family}

/-- The first address of the network of length `plen` that holds the address. -/
def cut (a : Address F) (plen : Nat) : Address F := ⟨Mask.cut a.bits F.width plen, Mask.cut_lt a.isLt plen⟩

/-- The last address of the network of length `plen` that holds the address. -/
def last (a : Address F) (plen : Nat) : Address F := ⟨Mask.last a.bits F.width plen, Mask.last_lt a.isLt plen⟩

theorem le_last (a : Address F) (plen : Nat) : a ≤ a.last plen := Mask.le_last F.width_le a.isLt plen

/-- The address with the length of a network behind a slash. -/
def charsWithLength (a : Address F) (plen : Nat) : List Char := a.chars ++ '/' :: Text.digits 10 plen

end Address

/-- An address and the length of its network. -/
structure Cidr (F : Family) where
  addr : Address F
  plen : Nat
  plen_le : plen ≤ F.width
  deriving DecidableEq

namespace Cidr

variable {F : Family}

/-- The network's first address. -/
def lo (c : Cidr F) : Address F := c.addr.cut c.plen

/-- The network's last address: the network bits of the address, and all others of the space. -/
def hi (c : Cidr F) : Address F where
  bits := (c.addr.bits &&& Mask.network F.width c.plen) |||
    (Mask.space F.width &&& Mask.complement (Mask.network F.width c.plen))
  isLt := by
    rw [Mask.space_and_complement F.width_le]
    exact Mask.last_lt c.addr.isLt c.plen

/-- It is the last address of the network of that length that holds the address. -/
theorem hi_eq_last (c : Cidr F) : c.hi = c.addr.last c.plen :=
  Address.ext_bits (congrArg (Mask.cut c.addr.bits F.width c.plen ||| ·) (Mask.space_and_complement F.width_le c.plen))

/-- The same network, written with its first address. -/
def network (c : Cidr F) : Cidr F := { c with addr := c.lo }

/-- Whether the network holds the address. -/
def contains (c : Cidr F) (a : Address F) : Bool := c.lo ≤ a && a ≤ c.hi

/-- By address, then by length. -/
def compare (c d : Cidr F) : Ordering := (Ord.compare c.addr.bits d.addr.bits).then (Ord.compare c.plen d.plen)

/-- In ascending order. -/
def sort (cs : List (Cidr F)) : List (Cidr F) := cs.mergeSort fun c d => (c.compare d).isLE

/-- The characters of the notation. -/
def chars (c : Cidr F) : List Char := c.addr.charsWithLength c.plen

/-- The notation: the address, a slash and the length. -/
def text (c : Cidr F) : String := String.ofList c.chars

end Cidr

end AddressSpace
