import AddressSpace.Cidr.Read
/-!
# Masks as arithmetic

Cutting a number to its network rounds it down to a multiple of the network's size (`Mask.cut_eq`), so that two addresses stand in
one network just when their quotients by its size agree (`Address.cut_eq_cut_iff`), and addresses of one network stand in one
network of every shorter length (`Address.cut_eq_cut_of_le`). A network of a length starts at a number just when its size divides
the number (`Mask.shortest_le_iff`).
-/

namespace AddressSpace

namespace Mask

variable {bits width plen : Nat}

/-! ## Sizes of networks -/

/-- A network with more host bits is no smaller. -/
theorem size_le_size {few many : Nat} (h : few ≤ many) : 1 <<< few ≤ 1 <<< many := by
  rw [Nat.one_shiftLeft, Nat.one_shiftLeft]
  exact Nat.pow_le_pow_right (by decide) h

/-- A network consists of as many networks with fewer host bits as the other bits tell apart. -/
theorem size_eq_mul {few more many : Nat} (h : few + more = many) : 1 <<< many = 1 <<< few * 1 <<< more := by
  rw [← h, Nat.one_shiftLeft, Nat.one_shiftLeft, Nat.one_shiftLeft, Nat.pow_add]

/-! ## Cutting -/

/-- The bits that are kept are those above the host bits. -/
theorem testBit_cut (hw : width ≤ 128) (hb : bits < 1 <<< width) (i : Nat) :
    (cut bits width plen).testBit i = (decide (width - plen ≤ i) && bits.testBit i) := by
  have hhost : (host width plen).testBit i = decide (i < width - plen) := testBit_space (by omega) i
  rw [cut, Nat.testBit_and, network, Nat.testBit_xor, testBit_space hw, hhost]
  by_cases hi : i < width
  · by_cases hh : i < width - plen
    · simp [hi, hh, Nat.not_le.2 hh]
    · simp [hi, hh, Nat.not_lt.1 hh]
  · -- beyond the width there are no bits to keep
    rw [Nat.one_shiftLeft] at hb
    have hzero : bits.testBit i = false :=
      Nat.testBit_lt_two_pow (Nat.lt_of_lt_of_le hb (Nat.pow_le_pow_right (by decide) (Nat.not_lt.1 hi)))
    simp [hzero]

/-- The first address of a network is the number rounded down to a multiple of the network's size. -/
theorem cut_eq (hw : width ≤ 128) (hb : bits < 1 <<< width) (plen : Nat) :
    cut bits width plen = bits / (1 <<< (width - plen)) * (1 <<< (width - plen)) := by
  have hshift : bits / (1 <<< (width - plen)) * (1 <<< (width - plen)) = bits >>> (width - plen) <<< (width - plen) := by
    simp only [Nat.shiftLeft_eq, Nat.shiftRight_eq_div_pow, Nat.one_mul]
  rw [hshift]
  refine Nat.eq_of_testBit_eq fun i => ?_
  rw [testBit_cut hw hb, Nat.testBit_shiftLeft, Nat.testBit_shiftRight]
  by_cases hi : width - plen ≤ i
  · rw [Nat.add_sub_cancel' hi]
  · simp [hi]

/-- The last address of a network is as far from the first as the host bits reach. -/
theorem last_eq (hw : width ≤ 128) (hb : bits < 1 <<< width) (plen : Nat) :
    last bits width plen = cut bits width plen + (1 <<< (width - plen) - 1) := by
  have hhost : host width plen = 1 <<< (width - plen) - 1 := by rw [host, space, Nat.min_eq_left (by omega)]
  have hlt : 1 <<< (width - plen) - 1 < 2 ^ (width - plen) := by
    rw [Nat.one_shiftLeft]
    exact Nat.sub_lt (Nat.two_pow_pos _) Nat.one_pos
  have hcut : cut bits width plen = (bits / 1 <<< (width - plen)) <<< (width - plen) := by
    rw [cut_eq hw hb]
    simp only [Nat.shiftLeft_eq, Nat.one_mul]
  rw [last, hhost, hcut, Nat.shiftLeft_add_eq_or_of_lt hlt]

/-! ## Networks that start at a number -/

/-- A number is a multiple of a network's size when it has no host bits. -/
theorem size_dvd_iff {height : Nat} : 1 <<< height ∣ bits ↔ ∀ i < height, bits.testBit i = false := by
  rw [Nat.one_shiftLeft, Nat.dvd_iff_mod_eq_zero]
  constructor
  · intro h i hi
    have hbit : (bits % 2 ^ height).testBit i = false := by rw [h, Nat.zero_testBit]
    rwa [Nat.testBit_mod_two_pow, decide_eq_true hi, Bool.true_and] at hbit
  · intro h
    refine Nat.eq_of_testBit_eq fun i => ?_
    rw [Nat.zero_testBit, Nat.testBit_mod_two_pow]
    by_cases hi : i < height
    · rw [h i hi, Bool.and_false]
    · rw [decide_eq_false hi, Bool.false_and]

/-- The shortest length of a network that starts at a number is the least one whose size divides it. -/
theorem shortest_le_iff (hw : width ≤ 128) (hb : bits < 1 <<< width) (hp : plen ≤ width) :
    shortest bits width ≤ plen ↔ 1 <<< (width - plen) ∣ bits := by
  have hspace : bits &&& space width = bits := by
    rw [space, Nat.min_eq_left hw, Nat.one_shiftLeft, Nat.and_two_pow_sub_one_eq_mod]
    exact Nat.mod_eq_of_lt (by rwa [← Nat.one_shiftLeft])
  unfold shortest
  rw [hspace]
  cases hlow : lowestBit? bits width with
  | none =>
    have hzero : ∀ i < width, bits.testBit i = false := by simpa [lowestBit?] using hlow
    exact iff_of_true (Nat.zero_le _) (size_dvd_iff.2 fun i hi => hzero i (by omega))
  | some low =>
    obtain ⟨hbit, hlt, hbelow⟩ := List.find?_range_eq_some.1 hlow
    rw [List.mem_range] at hlt
    show width - low ≤ plen ↔ _
    rw [size_dvd_iff]
    constructor
    · intro hle i hi
      simpa using hbelow i (by omega)
    · intro hzero
      have : ¬low < width - plen := fun hlow => by rw [hzero low hlow] at hbit; cases hbit
      omega

end Mask

namespace Address

variable {F : Family} {a b c : Address F} {plen : Nat}

/-- The first address of a network is rounded down to a multiple of the network's size. -/
theorem cut_bits (a : Address F) (plen : Nat) :
    (a.cut plen).bits = a.bits / (1 <<< (F.width - plen)) * (1 <<< (F.width - plen)) :=
  Mask.cut_eq F.width_le a.isLt plen

/-- Addresses stand in one network when their quotients by its size agree. -/
theorem cut_eq_cut_iff : a.cut plen = b.cut plen ↔ a.bits / (1 <<< (F.width - plen)) = b.bits / (1 <<< (F.width - plen)) := by
  have hsize : 0 < 1 <<< (F.width - plen) := Nat.pos_of_neZero _
  constructor
  · intro h
    have hbits := congrArg Address.bits h
    rw [cut_bits, cut_bits] at hbits
    exact Nat.eq_of_mul_eq_mul_right hsize hbits
  · intro h
    exact ext_bits (by rw [cut_bits, cut_bits, h])

/-- Addresses of one network stand in one network of every shorter length. -/
theorem cut_eq_cut_of_le {long : Nat} (hle : plen ≤ long) (h : a.cut long = b.cut long) : a.cut plen = b.cut plen := by
  rw [cut_eq_cut_iff] at h ⊢
  have hsize : 1 <<< (F.width - plen) = 1 <<< (F.width - long) * 1 <<< ((F.width - plen) - (F.width - long)) :=
    Mask.size_eq_mul (by omega)
  rw [hsize, ← Nat.div_div_eq_div_mul, ← Nat.div_div_eq_div_mul, h]

/-- The last address of a network is as far from the first as the host bits reach. -/
theorem last_bits (a : Address F) (plen : Nat) : (a.last plen).bits = (a.cut plen).bits + (1 <<< (F.width - plen) - 1) :=
  Mask.last_eq F.width_le a.isLt plen

/-- Addresses stand in one network when it has the same first address. -/
theorem sameNetwork_iff : a.sameNetwork b plen = true ↔ a.cut plen = b.cut plen := beq_iff_eq

end Address

end AddressSpace
