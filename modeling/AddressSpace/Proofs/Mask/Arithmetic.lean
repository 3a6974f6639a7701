import Mathlib.Algebra.Group.Nat.Defs
import Mathlib.Data.Set.Operations
import Mathlib.Order.Bounds.Defs
import Mathlib.Tactic.SplitIfs
import AddressSpace.Mask.Checked
import AddressSpace.Proofs.Cidr
/-!
# One notion of a network

A network is found by masking bits, by setting them, by comparing addresses and by looking for the lowest bit. All of these agree with
arithmetic: a network of length `plen` in a space of `width` bits has `2 ^ (width - plen)` addresses, from a multiple of this size on
(`Mask.numeric`). So they agree with each other on which addresses stand in one network (`Address.networked`).
-/

namespace AddressSpace

namespace Mask

variable {width bits plen : Nat}

/-! ## Lengths that are checked -/

theorem require_of_le (h : plen ≤ width) : require width plen = .ok () := if_neg (Nat.not_lt.2 h)

theorem require_of_lt (h : width < plen) : require width plen = .error (.lengthOutOfRange plen width) := if_pos h

theorem cutOf_of_le (h : plen ≤ width) : cutOf bits width plen = .ok (cut bits width plen) := by
  rw [cutOf, require_of_le h]
  rfl

theorem lastOf_of_le (h : plen ≤ width) : lastOf bits width plen = .ok (last bits width plen) := by
  rw [lastOf, require_of_le h]
  rfl

theorem afterOf_of_le (h : plen ≤ width) : afterOf bits width plen = .ok (after? bits width plen) := by
  rw [afterOf, require_of_le h]
  rfl

/-! ## Arithmetic -/

/-- Cutting takes away what is left over when the number is divided by the network's size. -/
theorem cut_eq_sub_mod (hw : width ≤ 128) (hb : bits < 2 ^ width) (plen : Nat) :
    cut bits width plen = bits - bits % 2 ^ (width - plen) := by
  have hdiv := Nat.div_add_mod' bits (2 ^ (width - plen))
  rw [cut_eq hw (by rwa [Nat.one_shiftLeft]), Nat.one_shiftLeft]
  omega

/-- The last address is as many after the first as the network has addresses, less one. -/
theorem last_eq_add (hw : width ≤ 128) (hb : bits < 2 ^ width) (plen : Nat) :
    last bits width plen = cut bits width plen + 2 ^ (width - plen) - 1 := by
  have hsize := Nat.two_pow_pos (width - plen)
  rw [last_eq hw (by rwa [Nat.one_shiftLeft]), Nat.one_shiftLeft]
  omega

/-- The network ends with the space when no address of the space is left behind it. -/
theorem after?_eq (hw : width ≤ 128) (hb : bits < 2 ^ width) (plen : Nat) :
    after? bits width plen =
      if cut bits width plen + 2 ^ (width - plen) < 2 ^ width then some (cut bits width plen + 2 ^ (width - plen)) else none := by
  have hsize := Nat.two_pow_pos (width - plen)
  have hspace : space width = 2 ^ width - 1 := by rw [space, Nat.min_eq_left hw, Nat.one_shiftLeft]
  simp only [after?, hspace, last_eq_add hw hb]
  split_ifs with hend hlt hlt
  · omega
  · rfl
  · congr 1
    omega
  · omega

/-- The length for a number alone is the least one whose networks can start there. -/
theorem isLeast_shortest (hw : width ≤ 128) (hb : bits < 2 ^ width) :
    IsLeast {plen | plen ≤ width ∧ cut bits width plen = bits} (shortest bits width) := by
  have hb' : bits < 1 <<< width := by rwa [Nat.one_shiftLeft]
  have hstart {plen : Nat} (hp : plen ≤ width) : shortest bits width ≤ plen ↔ cut bits width plen = bits := by
    rw [shortest_le_iff hw hb' hp, cut_eq hw hb', Nat.dvd_iff_div_mul_eq]
  have hwidth : shortest bits width ≤ width := by
    refine (hstart (Nat.le_refl width)).2 ?_
    rw [cut_eq_sub_mod hw hb, Nat.sub_self, Nat.pow_zero, Nat.mod_one, Nat.sub_zero]
  exact ⟨⟨hwidth, (hstart hwidth).1 (Nat.le_refl _)⟩, fun plen hplen => (hstart hplen.1).2 hplen.2⟩

/-- What the mask functions give for a number of `width` bits. -/
structure Numeric (width bits : Nat) : Prop where
  cut : ∀ plen ≤ width, cutOf bits width plen = .ok (bits - bits % 2 ^ (width - plen))
  last : ∀ plen ≤ width, ∃ first, cutOf bits width plen = .ok first ∧ lastOf bits width plen = .ok (first + 2 ^ (width - plen) - 1)
  after : ∀ plen ≤ width, ∃ first, cutOf bits width plen = .ok first ∧
    afterOf bits width plen =
      .ok (if first + 2 ^ (width - plen) < 2 ^ width then some (first + 2 ^ (width - plen)) else none)
  shortest : IsLeast {plen | cutOf bits width plen = .ok bits} (shortest bits width)
  refused : ∀ plen, width < plen → cutOf bits width plen = .error (.lengthOutOfRange plen width) ∧
    lastOf bits width plen = .error (.lengthOutOfRange plen width) ∧
    afterOf bits width plen = .error (.lengthOutOfRange plen width)

/-- The mask functions are the arithmetic that they stand for. -/
theorem numeric (hw : width ≤ 128) (hb : bits < 2 ^ width) : Numeric width bits where
  cut plen hp := by rw [cutOf_of_le hp, cut_eq_sub_mod hw hb]
  last plen hp := ⟨_, cutOf_of_le hp, by rw [lastOf_of_le hp, last_eq_add hw hb]⟩
  after plen hp := ⟨_, cutOf_of_le hp, by rw [afterOf_of_le hp, after?_eq hw hb]⟩
  shortest := by
    have hstart : {plen | cutOf bits width plen = .ok bits} = {plen | plen ≤ width ∧ Mask.cut bits width plen = bits} := by
      ext plen
      rcases Nat.lt_or_ge width plen with hp | hp
      · refine iff_of_false (fun h => ?_) fun h => absurd h.1 (Nat.not_le.2 hp)
        rw [Set.mem_ofPred_eq, cutOf, require_of_lt hp] at h
        cases h
      · rw [Set.mem_ofPred_eq, cutOf_of_le hp, Except.ok.injEq]
        exact (and_iff_right hp).symm
    rw [hstart]
    exact isLeast_shortest hw hb
  refused plen hp := by
    rw [cutOf, lastOf, afterOf, require_of_lt hp]
    exact ⟨rfl, rfl, rfl⟩

end Mask

/-! ## Networks of addresses -/

variable {F : Family} {a x : Address F} {plen : Nat}

/-- For a length of the family, two addresses are found in one network just when it has the same first address. -/
theorem Address.sameNetworkOf_iff (h : plen ≤ F.width) : a.sameNetworkOf x plen = .ok true ↔ a.cut plen = x.cut plen := by
  rw [sameNetworkOf, Mask.require_of_le h, ← sameNetwork_iff]
  exact ⟨Except.ok.inj, congrArg Except.ok⟩

/-- The network around an address is made for every length of the family. -/
theorem Cidr.around_eq (a : Address F) (h : plen ≤ F.width) : around a plen = .ok (network ⟨a, plen, h⟩) := by
  rw [around, ofParts, dif_pos h]
  rfl

/-- The ways to ask whether two addresses stand in one network of length `plen`, and where the network of the one starts and ends. -/
structure Address.Networked (a x : Address F) (plen : Nat) (h : plen ≤ F.width) : Prop where
  contains : Cidr.contains ⟨a, plen, h⟩ x = true ↔ a.sameNetworkOf x plen = .ok true
  around : ∃ c d : Cidr F, Cidr.around a plen = .ok c ∧ Cidr.around x plen = .ok d ∧ (a.sameNetworkOf x plen = .ok true ↔ c = d)
  lo : Mask.cutOf a.bits F.width plen = .ok (Cidr.lo ⟨a, plen, h⟩).bits
  hi : Mask.lastOf a.bits F.width plen = .ok (Cidr.hi ⟨a, plen, h⟩).bits
  nested : ∀ shorter ≤ plen, a.sameNetworkOf x plen = .ok true → a.sameNetworkOf x shorter = .ok true

/-- All ways to speak of the networks of two addresses agree. -/
theorem Address.networked (a x : Address F) (plen : Nat) (h : plen ≤ F.width) : a.Networked x plen h where
  contains := by
    rw [sameNetworkOf_iff h, Cidr.contains_iff]
    exact eq_comm
  around := by
    refine ⟨_, _, Cidr.around_eq a h, Cidr.around_eq x h, (sameNetworkOf_iff h).trans ?_⟩
    simp only [Cidr.network, Cidr.mk.injEq, and_true]
    exact Iff.rfl
  lo := Mask.cutOf_of_le h
  hi := by
    rw [Cidr.hi_eq_last]
    exact Mask.lastOf_of_le h
  nested shorter hle hsame := by
    rw [sameNetworkOf_iff h] at hsame
    rw [sameNetworkOf_iff (Nat.le_trans hle h)]
    exact cut_eq_cut_of_le hle hsame

/-- The mask functions compute what arithmetic on the sizes of networks gives, and all ways to speak of a network agree. -/
theorem masks_agree :
    (∀ width ≤ 128, ∀ bits < 2 ^ width, Mask.Numeric width bits) ∧
      ∀ (F : Family) (a x : Address F) (plen : Nat) (h : plen ≤ F.width), a.Networked x plen h :=
  ⟨fun _ hw _ hb => Mask.numeric hw hb, fun _ => Address.networked⟩

/-- The last number of 128 bits, whose network of length zero is the whole space, and two addresses on the two sides of the boundary
between networks of length 24, which stand in one network of length 23 and of every shorter length. -/
theorem masks_agree_edges :
    let a : Address .v4 := .ofBits .v4 0x0a0000ff
    let x : Address .v4 := .ofBits .v4 0x0a000100
    (128 ≤ 128 ∧ 2 ^ 128 - 1 < 2 ^ 128 ∧ Mask.cutOf (2 ^ 128 - 1) 128 0 = .ok 0 ∧ Mask.afterOf (2 ^ 128 - 1) 128 0 = .ok none ∧
        Mask.shortest (2 ^ 128 - 1) 128 = 128 ∧ Mask.lastOf (2 ^ 128 - 1) 128 129 = .error (.lengthOutOfRange 129 128)) ∧
      23 ≤ Family.v4.width ∧ a.sameNetworkOf x 24 ≠ .ok true ∧ a.sameNetworkOf x 23 = .ok true ∧ a.sameNetworkOf x 8 = .ok true := by
  intro a x
  have hnumeric := masks_agree.1 128 (Nat.le_refl _) (2 ^ 128 - 1) (by decide)
  have hapart := masks_agree.2 .v4 a x 24 (by decide)
  have hnetworked := masks_agree.2 .v4 a x 23 (by decide)
  have hshortest : Mask.shortest (2 ^ 128 - 1) 128 = 128 := by decide +kernel
  obtain ⟨first, hfirst, hafter⟩ := hnumeric.after 0 (by decide)
  obtain rfl : 0 = first := Except.ok.inj ((hnumeric.cut 0 (by decide)).symm.trans hfirst)
  have hsame : a.sameNetworkOf x 23 = .ok true := hnetworked.contains.1 (by decide +kernel)
  exact ⟨⟨Nat.le_refl _, by decide, hfirst, hafter, hshortest, (hnumeric.refused 129 (by decide)).2.1⟩,
    by decide, fun h => absurd (hapart.contains.2 h) (by decide +kernel), hsame, hnetworked.nested 8 (by decide) hsame⟩

end AddressSpace
