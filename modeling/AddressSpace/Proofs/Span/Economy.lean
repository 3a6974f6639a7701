import Mathlib
import AddressSpace.Proofs.Span.Halving
/-!
# Halving plans are economical

A halving plan first lists subnets of the target length, about as many as the depth can tell apart, and then ever larger pieces
(`Economical`). The number of the subnets is counted in networks: every piece of a plan is the whole network that it stands in
unless the span itself begins or ends there (`Clipped`), so that the lowest piece of an upper half has as many subnets as a whole
network has, or reaches to the end of the span. For every span of the right shape the plan is made, is an ordered partition that
the check of plans accepts, and is economical (`halvingPlan_correct`).
-/

namespace AddressSpace.Span

variable {F : Family} {s x y : Span F} {target : UInt8} {depth : Nat}

/-! ## Counting subnets -/

/-- The first addresses of the networks of a length that meet the span. -/
def networks (s : Span F) (target : UInt8) : Finset Nat :=
  (Finset.Icc s.start.bits s.stop.bits).image fun n => Mask.cut n F.width target.toNat

/-- A span has a subnet for each network that it meets. -/
theorem card_networks (h : s.start ≤ s.stop) : (s.networks target).card = (s.pieces target).length := by
  have hle : s.start.bits ≤ s.stop.bits := h
  have hcut : ∀ n ≤ s.stop.bits, Mask.cut n F.width target.toNat =
      n / (1 <<< (F.width - target.toNat)) * (1 <<< (F.width - target.toNat)) := fun n hn =>
    Mask.cut_eq F.width_le (Nat.lt_of_le_of_lt hn s.stop.isLt) target.toNat
  have hsize : 0 < 1 <<< (F.width - target.toNat) := Nat.pos_of_neZero _
  rw [length_pieces]
  generalize 1 <<< (F.width - target.toNat) = size at *
  -- the networks are numbered from that of the first address to that of the last
  have hnetworks : s.networks target = (Finset.Icc (s.start.bits / size) (s.stop.bits / size)).image (· * size) := by
    ext m
    simp only [networks, Finset.mem_image, Finset.mem_Icc]
    constructor
    · rintro ⟨n, ⟨hstart, hstop⟩, rfl⟩
      exact ⟨n / size, ⟨Nat.div_le_div_right hstart, Nat.div_le_div_right hstop⟩, (hcut n hstop).symm⟩
    · rintro ⟨k, ⟨hstart, hstop⟩, rfl⟩
      have hk : k * size ≤ s.stop.bits := (Nat.le_div_iff_mul_le hsize).1 hstop
      have hlt : s.start.bits < (k + 1) * size := (Nat.div_lt_iff_lt_mul hsize).1 (Nat.lt_succ_of_le hstart)
      have hmax : max (k * size) s.start.bits ≤ s.stop.bits := Nat.max_le.2 ⟨hk, hle⟩
      refine ⟨max (k * size) s.start.bits, ⟨Nat.le_max_right .., hmax⟩, ?_⟩
      rw [hcut _ hmax, Nat.div_eq_of_lt_le (Nat.le_max_left ..) (Nat.max_lt.2 ⟨?_, hlt⟩)]
      exact Nat.mul_lt_mul_of_pos_right (Nat.lt_succ_self k) hsize
  have hinj : Function.Injective (· * size : Nat → Nat) := fun _ _ he => Nat.eq_of_mul_eq_mul_right hsize he
  rw [hnetworks, Finset.card_image_of_injective _ hinj, Nat.card_Icc]

/-- Where a network begins, the subnets before and after it are those of both parts. -/
theorem length_pieces_add {first next : Span F} (hle : first.start ≤ first.stop) (hnext : first.stop.bits + 1 = next.start.bits)
    (horder : next.start ≤ next.stop) (hdvd : 1 <<< (F.width - target.toNat) ∣ next.start.bits) :
    (first.pieces target).length + (next.pieces target).length =
      next.stop.bits / (1 <<< (F.width - target.toNat)) + 1 - first.start.bits / (1 <<< (F.width - target.toNat)) := by
  rw [length_pieces, length_pieces]
  have hle' : first.start.bits ≤ first.stop.bits := hle
  have horder' : next.start.bits ≤ next.stop.bits := horder
  have hsize : 0 < 1 <<< (F.width - target.toNat) := Nat.pos_of_neZero _
  generalize 1 <<< (F.width - target.toNat) = size at *
  obtain ⟨n, hn⟩ := hdvd
  have hmid : next.start.bits / size = n := by rw [hn, Nat.mul_div_cancel_left _ hsize]
  have hfirst : first.start.bits / size < n := by
    rw [Nat.div_lt_iff_lt_mul hsize, Nat.mul_comm]
    omega
  have hlast : first.stop.bits / size = n - 1 := by
    refine Nat.div_eq_of_lt_le ?_ ?_
    · rw [Nat.sub_mul, Nat.mul_comm]
      omega
    · rw [Nat.sub_add_cancel (Nat.lt_of_le_of_lt (Nat.zero_le _) hfirst), Nat.mul_comm]
      omega
  have hstop : n ≤ next.stop.bits / size := hmid ▸ Nat.div_le_div_right horder'
  rw [hlast, hmid]
  generalize first.start.bits / size = a at *
  generalize next.stop.bits / size = b at *
  omega

/-- A span that begins and ends where networks of its length do has all subnets of such a network. -/
theorem le_length_pieces (horder : x.start ≤ x.stop) (hstart : x.networkSize ∣ x.start.bits)
    (hstop : x.networkSize ∣ x.stop.bits + 1) {d : Nat} (hplen : x.plen.toNat + d = target.toNat) (hwidth : target.toNat ≤ F.width) :
    1 <<< d ≤ (x.pieces target).length := by
  have horder' : x.start.bits ≤ x.stop.bits := horder
  have hsplit : x.networkSize = 1 <<< (F.width - target.toNat) * 1 <<< d := Mask.size_eq_mul (by omega)
  have hsize : 0 < 1 <<< (F.width - target.toNat) := Nat.pos_of_neZero _
  rw [length_pieces]
  rw [hsplit] at hstart hstop
  generalize 1 <<< (F.width - target.toNat) = size at *
  generalize 1 <<< d = count at *
  obtain ⟨a, ha⟩ := hstart
  obtain ⟨b, hb⟩ := hstop
  -- the span goes from the `a`-th network to before the `b`-th, and these have `count` subnets each
  have hab : a + 1 ≤ b := by
    refine Nat.succ_le_of_lt (Nat.lt_of_not_le fun hba => ?_)
    have := Nat.mul_le_mul_left (size * count) hba
    omega
  have hfirst : x.start.bits / size = count * a := by rw [ha, Nat.mul_assoc, Nat.mul_div_cancel_left _ hsize]
  have hlast : count * b ≤ x.stop.bits / size + 1 := by
    rw [← Nat.add_div_right _ hsize, Nat.le_div_iff_mul_le hsize, Nat.mul_comm, ← Nat.mul_assoc, ← hb]
    omega
  have hcount := Nat.mul_le_mul_left count hab
  rw [Nat.mul_add, Nat.mul_one] at hcount
  omega

/-! ## Plans -/

/-- A plan lists subnets of the target length, and then pieces that get larger one by one. The subnets are no more than the depth can
tell apart, and no less than half as many, unless these are all that there are. -/
structure Economical (s : Span F) (target : UInt8) (depth : Nat) (plan : List (Span F)) (fine coarse : List (Span F)) : Prop where
  plan_eq : plan = fine ++ coarse
  fine_plen : ∀ x ∈ fine, x.plen = target
  coarse_plen : ∀ x ∈ coarse, s.plen < x.plen ∧ x.plen < target
  larger : coarse.Pairwise fun x y => y.plen < x.plen
  enough : min (2 ^ (depth - 1)) (s.networks target).card ≤ fine.length
  few : fine.length ≤ 2 ^ depth

/-- The pieces that are left aside on the way are longer than the span and shorter than the target. -/
theorem Stairs.coarse {q : Nat} {lowest : Span F} {others : List (Span F)} (h : s.Stairs q lowest others) (hq : q < target.toNat) :
    (∀ x ∈ others, s.plen < x.plen ∧ x.plen < target) ∧ others.Pairwise fun x y => y.plen < x.plen := by
  refine ⟨fun x hx => ?_, h.descending.imp fun hlt => UInt8.lt_iff_toNat_lt.2 hlt⟩
  have hbetween := h.between x hx
  rw [UInt8.lt_iff_toNat_lt, UInt8.lt_iff_toNat_lt]
  omega

/-- The one piece of a partition is the span, up to its length. -/
theorem Partition.ends_of_singleton (h : s.Partition [x]) : x.start = s.start ∧ x.stop = s.stop :=
  ends_of_tiles h.tiles rfl rfl

/-- The subnets of two pieces in a row, of which the second is the lowest of its stairs, are half as many as the depth can tell
apart, or all that there are. -/
theorem enough_of_two {q r : Nat} {first second next : Span F} {rest more : List (Span F)} (h : s.Shaped)
    (hwidth : target.toNat ≤ F.width) (hstairs : s.Stairs q first (second :: rest)) (hstairs' : second.Stairs r next more)
    (hr : r + (depth - 1) = target.toNat) :
    min (2 ^ (depth - 1)) (s.networks target).card ≤ (first.pieces target ++ next.pieces target).length := by
  have hnextShaped := hstairs'.lowest_shaped
  have hplen : next.plen.toNat + (depth - 1) = target.toNat := hstairs'.lowest_plen ▸ hr
  obtain ⟨hfirst, hle, hafter, -⟩ := hstairs.partition.tiles
  obtain ⟨hnext, -⟩ := hstairs'.partition.tiles
  have hstart : first.stop.bits + 1 = next.start.bits := hafter.symm.trans hnext.symm
  have hfiner := hstairs'.partition.finer next List.mem_cons_self
  have hclipped : s.Clipped next := (hstairs.clipped second (by simp)).trans
    (hstairs'.clipped next List.mem_cons_self) (UInt8.le_iff_toNat_le.1 hfiner)
  -- the second piece does not begin where the span does, so that it begins where a network does
  have hbegins : next.networkSize ∣ next.start.bits := by
    refine hclipped.start.resolve_left fun he => ?_
    have hbits : next.start.bits = s.start.bits := congrArg Address.bits he
    have hle' : first.start.bits ≤ first.stop.bits := hle
    have hfirst' : first.start.bits = s.start.bits := hfirst
    omega
  have hdvd : 1 <<< (F.width - target.toNat) ∣ next.start.bits :=
    (networkSize_dvd (x := next) (y := ⟨next.start, next.stop, target⟩) (hplen ▸ Nat.le_add_right ..)).trans hbegins
  rw [List.length_append]
  rcases hclipped.stop with he | hends
  · rw [length_pieces_add hle hstart hnextShaped.start_le hdvd, card_networks h.start_le, length_pieces, he,
      show first.start.bits = s.start.bits from hfirst]
    exact Nat.min_le_right ..
  · have hmany := le_length_pieces hnextShaped.start_le hbegins hends hplen hwidth
    rw [Nat.one_shiftLeft] at hmany
    exact Nat.le_trans (Nat.min_le_left ..) (Nat.le_trans hmany (Nat.le_add_left ..))

/-- A halving plan of a span for a longer length is economical. -/
theorem IsHalvingPlan.economical {plan : List (Span F)} (hplan : s.IsHalvingPlan target depth plan) (h : s.Shaped)
    (hlt : s.plen < target) (hwidth : target.toNat ≤ F.width) (hdepth : 0 < depth) :
    ∃ fine coarse, s.Economical target depth plan fine coarse := by
  have hlt' := UInt8.lt_iff_toNat_lt.1 hlt
  cases hplan with
  | @single lowest others hstairs henough =>
    have hq : s.plen.toNat + (target.toNat - depth - s.plen.toNat) < target.toNat := by omega
    obtain ⟨hbetween, hlarger⟩ := hstairs.coarse hq
    refine ⟨lowest.pieces target, others, rfl, fun x hx => plen_of_mem_pieces hx, hbetween, hlarger, ?_, ?_⟩
    · rcases henough with rfl | hmany
      · obtain ⟨hstart, hstop⟩ := hstairs.partition.ends_of_singleton
        rw [card_networks h.start_le, length_pieces, length_pieces, hstart, hstop]
        exact Nat.min_le_right ..
      · rw [Nat.one_shiftLeft] at hmany
        exact Nat.le_trans (Nat.min_le_left ..) hmany
    · rw [← Nat.one_shiftLeft]
      exact hstairs.length_lowest_le (by omega) hwidth (by omega)
  | @double first second next rest more hstairs hstairs' hfew hdeep =>
    have hq : s.plen.toNat + (target.toNat - depth - s.plen.toNat) < target.toNat := by omega
    have hsecond := hstairs.between second List.mem_cons_self
    have hr : second.plen.toNat + (target.toNat - (depth - 1) - second.plen.toNat) < target.toNat := by omega
    obtain ⟨hbetween, hlarger⟩ := hstairs.coarse hq
    obtain ⟨hbetween', hlarger'⟩ := hstairs'.coarse hr
    obtain ⟨hrest, hlargerRest⟩ := List.pairwise_cons.1 hlarger
    refine ⟨first.pieces target ++ next.pieces target, more ++ rest, List.append_assoc .., ?_, ?_, ?_, ?_, ?_⟩
    · intro x hx
      exact (List.mem_append.1 hx).elim plen_of_mem_pieces plen_of_mem_pieces
    · intro x hx
      rcases List.mem_append.1 hx with hx | hx
      · exact ⟨UInt8.lt_trans (hbetween second List.mem_cons_self).1 (hbetween' x hx).1, (hbetween' x hx).2⟩
      · exact hbetween x (List.mem_cons_of_mem _ hx)
    · refine List.pairwise_append.2 ⟨hlarger', hlargerRest, fun x hx y hy => ?_⟩
      exact UInt8.lt_trans (hrest y hy) (hbetween' x hx).1
    · exact enough_of_two h hwidth hstairs hstairs' (by omega)
    · have hlowest := hstairs'.length_lowest_le (Nat.le_of_lt hr) hwidth (d := depth - 1) (by omega)
      rw [List.length_append, ← Nat.one_shiftLeft, shift_depth hdepth]
      omega

/-- A halving plan is made for every span of the right shape, every longer length of its family and every depth of the family, and
for nothing else. It is an ordered partition of the span into spans that lie in networks of their own lengths, which are longer
than that of the span and no longer than the target, so that the check of plans accepts it, and it is economical. -/
theorem halvingPlan_correct (s : Span F) (target depth : UInt8) :
    ((∃ plan, s.halvingPlan target depth = .ok plan) ↔
      s.Shaped ∧ s.plen < target ∧ target.toNat ≤ F.width ∧ 1 ≤ depth.toNat ∧ depth.toNat ≤ F.maxHalvingDepth) ∧
      ∀ plan, s.halvingPlan target depth = .ok plan →
        Interval.Tiles s.start.bits (s.stop.bits + 1) (plan.map interval) ∧
          (∀ x ∈ plan, x.Shaped ∧ s.plen < x.plen ∧ x.plen ≤ target) ∧
          s.checkPlan plan plan.length = .ok () ∧
          ∃ fine coarse, s.Economical target depth.toNat plan fine coarse := by
  refine ⟨⟨fun ⟨plan, hplan⟩ => (halvingPlan_eq_ok_iff.1 hplan).1, fun h => ?_⟩, fun plan hplan => ?_⟩
  · have ⟨hshaped, hlt, hwidth, _⟩ := h
    obtain ⟨plan, hplan, -⟩ := exists_halvingPieces hshaped (UInt8.le_of_lt hlt) hwidth depth.toNat
    exact ⟨plan, halvingPlan_eq_ok_iff.2 ⟨h, hplan⟩⟩
  obtain ⟨⟨hshaped, hlt, hwidth, hpos, -⟩, hpieces⟩ := halvingPlan_eq_ok_iff.1 hplan
  have hhalving := isHalvingPlan_of_eq_ok hshaped (UInt8.le_of_lt hlt) hwidth hpieces
  have hpartition := hhalving.partition (UInt8.le_of_lt hlt) hwidth
  obtain ⟨fine, coarse, heconomical⟩ := hhalving.economical hshaped hlt hwidth hpos
  refine ⟨hpartition.tiles, fun x hx => ⟨hpartition.shaped x hx, ?_⟩, ?_, fine, coarse, heconomical⟩
  · rw [heconomical.plan_eq] at hx
    rcases List.mem_append.1 hx with hx | hx
    · rw [heconomical.fine_plen x hx]
      exact ⟨hlt, UInt8.le_refl _⟩
    · exact (heconomical.coarse_plen x hx).imp_right UInt8.le_of_lt
  · rw [hpartition.checkPlan_eq hshaped.start_le, if_neg (Nat.lt_irrefl _)]

/-- A network of length 16 without its first three subnets of length 24: the lowest piece has one of these only, and the next one
gives two more. -/
theorem halvingPlan_correct_sample :
    let s : Span .v4 := ⟨.ofBits .v4 0x0a000300, .ofBits .v4 0x0a00ffff, 16⟩
    ∃ plan, s.halvingPlan 24 2 = .ok plan ∧ plan.map (·.plen) = [24, 24, 24, 23, 21, 20, 19, 18, 17] ∧
      s.checkPlan plan plan.length = .ok () ∧ ∃ fine coarse, s.Economical 24 2 plan fine coarse := by
  intro s
  have hmade : (s.halvingPlan 24 2).map (·.map (·.plen)) = .ok [24, 24, 24, 23, 21, 20, 19, 18, 17] := by cbv
  obtain ⟨plan, hplan, hplens⟩ := map_eq_ok_iff.1 hmade
  obtain ⟨-, -, hcheck, heconomical⟩ := (halvingPlan_correct s 24 2).2 plan hplan
  exact ⟨plan, hplan, hplens, hcheck, heconomical⟩

end AddressSpace.Span
