import AddressSpace.Proofs.Mask
/-!
# Networks as sets of addresses

A network holds the addresses that share its first bits (`contains_iff`), which are as many as its size (`hi_bits`). Two networks
that share an address are therefore nested (`contains_of_le`), and of one length they are the same (`eq_of_contains`). The network
of the next shorter length holding a network is its parent, the least network that holds more.
-/

namespace AddressSpace

namespace Address

variable {F : Family} {a : Address F}

/-- In the network of the full length an address is the first. -/
theorem cut_width (a : Address F) : a.cut F.width = a := by
  refine ext_bits ?_
  rw [cut_bits, Nat.sub_self, Nat.one_shiftLeft, Nat.pow_zero, Nat.div_one, Nat.mul_one]

/-- All addresses stand in the network of length zero. -/
theorem cut_zero (a b : Address F) : a.cut 0 = b.cut 0 := by
  have hwhole : ∀ a : Address F, a.bits / (1 <<< (F.width - 0)) = 0 := fun a => Nat.div_eq_of_lt a.isLt
  exact cut_eq_cut_iff.2 ((hwhole a).trans (hwhole b).symm)

/-- The network of the full length holds one address. -/
theorem last_width (a : Address F) : a.last F.width = a := by
  refine ext_bits ?_
  rw [last_bits, cut_width, Nat.sub_self, Nat.one_shiftLeft, Nat.pow_zero]
  rfl

/-- The first address of a network is its own first address. -/
theorem cut_cut (a : Address F) (plen : Nat) : (a.cut plen).cut plen = a.cut plen := by
  refine ext_bits ?_
  rw [cut_bits (a.cut plen), cut_bits a, Nat.mul_div_cancel _ (Nat.pos_of_neZero _)]

end Address

namespace Cidr

variable {F : Family} {c d : Cidr F} {a b : Address F}

/-- The number of addresses. -/
def size (c : Cidr F) : Nat := 1 <<< (F.width - c.plen)

theorem size_pos (c : Cidr F) : 0 < c.size := Nat.pos_of_neZero (1 <<< (F.width - c.plen))

theorem size_le_size (h : d.plen ≤ c.plen) : c.size ≤ d.size := Mask.size_le_size (Nat.sub_le_sub_left h _)

/-- A network of a shorter length is larger. -/
theorem size_lt_size (h : d.plen < c.plen) : c.size < d.size := by
  have := c.plen_le
  rw [size, size, Nat.one_shiftLeft, Nat.one_shiftLeft]
  exact Nat.pow_lt_pow_right (by decide) (by omega)

/-- The last address is as far from the first as the size reaches. -/
theorem hi_bits (c : Cidr F) : c.hi.bits = c.lo.bits + (c.size - 1) := by
  rw [hi_eq_last]
  exact Address.last_bits ..

/-- A network does not end before it starts. -/
theorem lo_le_hi (c : Cidr F) : c.lo ≤ c.hi := by
  show c.lo.bits ≤ c.hi.bits
  rw [hi_bits]
  omega

/-- A network holds the addresses from its first to its last. -/
theorem contains_eq_true : c.contains a = true ↔ c.lo ≤ a ∧ a ≤ c.hi := by
  rw [contains, Bool.and_eq_true, decide_eq_true_eq, decide_eq_true_eq]

theorem contains_lo (c : Cidr F) : c.contains c.lo = true := contains_eq_true.2 ⟨Nat.le_refl _, c.lo_le_hi⟩

theorem contains_hi (c : Cidr F) : c.contains c.hi = true := contains_eq_true.2 ⟨c.lo_le_hi, Nat.le_refl _⟩

/-- A network holds the addresses that stand in one network of its length with its own. -/
theorem contains_iff : c.contains a = true ↔ a.cut c.plen = c.lo := by
  have hlo : c.lo.bits = c.addr.bits / c.size * c.size := Address.cut_bits ..
  have hsize := c.size_pos
  have hhi := c.hi_bits
  show c.contains a = true ↔ a.cut c.plen = c.addr.cut c.plen
  rw [contains_eq_true, Address.cut_eq_cut_iff]
  show c.lo.bits ≤ a.bits ∧ a.bits ≤ c.hi.bits ↔ a.bits / c.size = c.addr.bits / c.size
  generalize c.addr.bits / c.size = n at *
  constructor
  · rintro ⟨hfirst, hlast⟩
    refine Nat.div_eq_of_lt_le (hlo ▸ hfirst) ?_
    rw [Nat.succ_mul]
    omega
  · rintro rfl
    have hlast := Nat.lt_div_mul_add (a := a.bits) hsize
    have hfirst := Nat.div_mul_le_self a.bits c.size
    omega

/-- Of two networks that share an address, the one of the shorter length holds all of the other. -/
theorem contains_of_le (hle : d.plen ≤ c.plen) (hc : c.contains a = true) (hd : d.contains a = true) (hb : c.contains b = true) :
    d.contains b = true := by
  rw [contains_iff] at *
  rw [← hd]
  exact Address.cut_eq_cut_of_le hle (hb.trans hc.symm)

/-- It also ends no earlier. -/
theorem hi_le_hi (hle : d.plen ≤ c.plen) (hc : c.contains a = true) (hd : d.contains a = true) : c.hi ≤ d.hi :=
  (contains_eq_true.1 (contains_of_le hle hc hd c.contains_hi)).2

/-- The last address is that of the network that any of the addresses stands in. -/
theorem last_eq_hi (h : c.contains a = true) : a.last c.plen = c.hi := by
  refine Address.ext_bits ?_
  rw [Address.last_bits, contains_iff.1 h, hi_bits, size]

/-! ## Networks that are written with their first address -/

theorem network_lo (c : Cidr F) : c.network.lo = c.lo := Address.cut_cut ..

/-- A network is written with its first address when it starts at the address that is written. -/
theorem network_eq_self_iff : c.network = c ↔ c.lo = c.addr := by
  obtain ⟨addr, plen, hplen⟩ := c
  simp [network]

/-- A network is written with its first address when it is no larger than a network that starts there can be. -/
theorem network_eq_self_iff_shortest : c.network = c ↔ Mask.shortest c.addr.bits F.width ≤ c.plen := by
  rw [network_eq_self_iff, Mask.shortest_le_iff F.width_le c.addr.isLt c.plen_le, ← size]
  have hlo : c.lo.bits = c.addr.bits / c.size * c.size := Address.cut_bits ..
  constructor
  · intro h
    rw [← h, hlo]
    exact Nat.dvd_mul_left ..
  · intro h
    exact Address.ext_bits (hlo.trans (Nat.div_mul_cancel h))

theorem network_network (c : Cidr F) : c.network.network = c.network := network_eq_self_iff.2 c.network_lo

/-- Written with its first address, a network holds the same addresses. -/
theorem contains_network (c : Cidr F) : c.network.contains = c.contains := by
  funext a
  rw [Bool.eq_iff_iff, contains_iff, contains_iff, network_lo]
  rfl

/-- Two networks of one length that share an address are the same. -/
theorem eq_of_contains (hc : c.network = c) (hd : d.network = d) (hplen : c.plen = d.plen) (hac : c.contains a = true)
    (had : d.contains a = true) : c = d := by
  rw [network_eq_self_iff] at hc hd
  have haddr : c.addr = d.addr := by rw [← hc, ← hd, ← contains_iff.1 hac, ← contains_iff.1 had, hplen]
  cases c
  cases d
  simp only [Cidr.mk.injEq] at *
  exact ⟨haddr, hplen⟩

/-- A network that lies in another is no larger. -/
theorem plen_le_of_subset (h : ∀ a, c.contains a = true → d.contains a = true) : d.plen ≤ c.plen := by
  refine Nat.not_lt.1 fun hlt => ?_
  have hlo : d.lo.bits ≤ c.lo.bits := (contains_eq_true.1 (h _ c.contains_lo)).1
  have hhi : c.hi.bits ≤ d.hi.bits := (contains_eq_true.1 (h _ c.contains_hi)).2
  have hsize := size_lt_size hlt
  have := d.size_pos
  rw [hi_bits, hi_bits] at hhi
  omega

/-! ## Networks that hold an address -/

/-- The network of a length that holds the address. -/
def holding (a : Address F) (plen : Nat) (h : plen ≤ F.width) : Cidr F := network ⟨a, plen, h⟩

theorem network_holding (a : Address F) (plen : Nat) (h : plen ≤ F.width) : (holding a plen h).network = holding a plen h :=
  network_network _

/-- The network that is made to hold an address holds it. -/
theorem contains_holding (a : Address F) (plen : Nat) (h : plen ≤ F.width) : (holding a plen h).contains a = true := by
  rw [holding, contains_network, contains_iff]
  rfl

/-- Where it starts. -/
theorem holding_lo (a : Address F) (plen : Nat) (h : plen ≤ F.width) : (holding a plen h).lo = a.cut plen := network_lo _

/-- It starts at a multiple of its size. -/
theorem holding_lo_bits (a : Address F) (plen : Nat) (h : plen ≤ F.width) :
    (holding a plen h).lo.bits = a.bits / (1 <<< (F.width - plen)) * (1 <<< (F.width - plen)) := by
  rw [holding_lo, Address.cut_bits]

/-- Where it ends. -/
theorem holding_hi (a : Address F) (plen : Nat) (h : plen ≤ F.width) : (holding a plen h).hi = a.last plen :=
  (last_eq_hi (contains_holding a plen h)).symm

/-- The network of the next shorter length that holds a network. -/
def parent (c : Cidr F) : Cidr F := holding c.addr (c.plen - 1) (Nat.le_trans (Nat.sub_le ..) c.plen_le)

theorem parent_plen (c : Cidr F) : c.parent.plen = c.plen - 1 := rfl

/-- A parent holds the network. -/
theorem contains_parent (h : c.contains a = true) : c.parent.contains a = true := by
  rw [parent, holding, contains_network, contains_iff] at *
  exact Address.cut_eq_cut_of_le (Nat.sub_le ..) h

end Cidr

end AddressSpace
