import Mathlib.Data.List.Perm.Subperm
import AddressSpace.Proofs.Span.Partition
import AddressSpace.Span.Halving
/-!
# Halving plans

Halving the lowest piece of a span one bit at a time does not fail, and gives stairs: a partition in which the lowest piece has the
length aimed at and the pieces above it get larger one by one (`Stairs`, `halved_stairs`). A halving plan cuts the lowest piece of
such stairs into subnets, or the lowest pieces of two (`IsHalvingPlan`), and is made for every span that has room for the target
(`exists_halvingPieces`). It is a partition of the span therefore (`IsHalvingPlan.partition`), so that putting its entries in order
at the end changes nothing, and its entries are no more than the subnets that the depth can tell apart and one for each step
(`IsHalvingPlan.length_le`).
-/

namespace AddressSpace.Span

variable {F : Family} {s x y : Span F} {target : UInt8} {depth : Nat}

/-! ## Pieces that are clipped by the span alone -/

/-- The number of addresses of a network of the span's length. -/
def networkSize (s : Span F) : Nat := 1 <<< (F.width - s.plen.toNat)

/-- The part `x` begins where the span or a network of the length of `x` does, and ends where the span or such a network does. -/
structure Clipped (s x : Span F) : Prop where
  start : x.start = s.start ∨ x.networkSize ∣ x.start.bits
  stop : x.stop = s.stop ∨ x.networkSize ∣ x.stop.bits + 1

/-- A span is clipped by itself. -/
theorem Clipped.refl (s : Span F) : s.Clipped s := ⟨.inl rfl, .inl rfl⟩

/-- A network consists of networks of every longer length. -/
theorem networkSize_dvd (h : x.plen.toNat ≤ y.plen.toNat) : y.networkSize ∣ x.networkSize := by
  rw [networkSize, networkSize, Nat.one_shiftLeft, Nat.one_shiftLeft]
  exact Nat.pow_dvd_pow 2 (Nat.sub_le_sub_left h F.width)

/-- A part of a part that is no shorter in length is a part. -/
theorem Clipped.trans (h : s.Clipped x) (h' : x.Clipped y) (hle : x.plen.toNat ≤ y.plen.toNat) : s.Clipped y where
  start := by
    rcases h'.start with he | hd
    · rw [he]
      exact h.start.imp_right fun hd => Nat.dvd_trans (networkSize_dvd hle) hd
    · exact .inr hd
  stop := by
    rcases h'.stop with he | hd
    · rw [he]
      exact h.stop.imp_right fun hd => Nat.dvd_trans (networkSize_dvd hle) hd
    · exact .inr hd

/-- A subnet is a whole network, or is clipped by the span. -/
theorem clipped_of_mem_pieces (hle : s.start ≤ s.stop) (hx : x ∈ s.pieces target) : s.Clipped x := by
  obtain ⟨n, hn, rfl⟩ := List.mem_map.1 hx
  have hsize : 0 < 1 <<< (F.width - target.toNat) := Nat.pos_of_neZero _
  have hrange := List.mem_range'_1.1 hn
  have hlast : n * (1 <<< (F.width - target.toNat)) ≤ s.stop.bits := (Nat.le_div_iff_mul_le hsize).1 (by omega)
  obtain ⟨hstart, hstop⟩ := Interval.mk.inj (piece_interval hle hlast)
  constructor
  · rcases Nat.le_total (n * (1 <<< (F.width - target.toNat))) s.start.bits with h | h
    · rw [Nat.max_eq_right h] at hstart
      exact .inl (Address.ext_bits hstart)
    · rw [Nat.max_eq_left h] at hstart
      exact .inr (hstart ▸ Nat.dvd_mul_left ..)
  · rcases Nat.le_total s.stop.bits (n * (1 <<< (F.width - target.toNat)) + (1 <<< (F.width - target.toNat) - 1)) with h | h
    · rw [Nat.min_eq_right h] at hstop
      exact .inl (Address.ext_bits hstop)
    · rw [Nat.min_eq_left h] at hstop
      refine .inr ?_
      rw [hstop, Nat.add_assoc, Nat.sub_add_cancel hsize]
      exact Nat.dvd_add (Nat.dvd_mul_left ..) (Nat.dvd_refl _)

/-! ## Stairs -/

/-- The lowest piece of the span has length `q`, and the lengths of the other pieces, which lie between that of the span and `q`, get
shorter. -/
structure Stairs (s : Span F) (q : Nat) (lowest : Span F) (others : List (Span F)) : Prop where
  partition : s.Partition (lowest :: others)
  clipped : ∀ x ∈ lowest :: others, s.Clipped x
  lowest_plen : lowest.plen.toNat = q
  descending : others.Pairwise fun x y => y.plen.toNat < x.plen.toNat
  between : ∀ x ∈ others, s.plen.toNat < x.plen.toNat ∧ x.plen.toNat ≤ q

/-- A span that is not cut at all is stairs of one step. -/
theorem Stairs.refl (h : s.Shaped) : s.Stairs s.plen.toNat s [] where
  partition := .refl h
  clipped := fun _ hx => List.mem_singleton.1 hx ▸ .refl s
  lowest_plen := rfl
  descending := .nil
  between := nofun

/-- The lowest piece of stairs has the right shape. -/
theorem Stairs.lowest_shaped {q : Nat} {lowest : Span F} {others : List (Span F)} (h : s.Stairs q lowest others) : lowest.Shaped :=
  h.partition.shaped lowest List.mem_cons_self

/-- Pieces of different lengths between two bounds are no more than the lengths between these. -/
theorem length_le_of_descending {pieces : List (Span F)} (h : pieces.Pairwise fun x y => y.plen.toNat < x.plen.toNat)
    {p q : Nat} (hpq : ∀ x ∈ pieces, p < x.plen.toNat ∧ x.plen.toNat ≤ q) : pieces.length ≤ q - p := by
  have hnodup : (pieces.map (·.plen.toNat)).Nodup := List.pairwise_map.2 (h.imp fun hlt => (Nat.ne_of_lt hlt).symm)
  have hsub : pieces.map (·.plen.toNat) ⊆ List.range' (p + 1) (q - p) := by
    intro n hn
    obtain ⟨x, hx, rfl⟩ := List.mem_map.1 hn
    have := hpq x hx
    rw [List.mem_range'_1]
    omega
  have hlength := (hnodup.subperm hsub).length_le
  rwa [List.length_map, List.length_range'] at hlength

/-- The pieces above the lowest one are no more than the steps. -/
theorem Stairs.length_le {q : Nat} {lowest : Span F} {others : List (Span F)} (h : s.Stairs q lowest others) :
    others.length ≤ q - s.plen.toNat := length_le_of_descending h.descending h.between

/-- One more bit of length cuts a span in two, unless it lies in one half of its network. -/
theorem subnets_next (h : s.Shaped) (hwidth : s.plen.toNat + 1 ≤ F.width) :
    ∃ first rest, s.subnets (UInt8.ofNat (s.plen.toNat + 1)) = .ok (first :: rest) ∧ rest.length ≤ 1 ∧
      s.Partition (first :: rest) ∧ (∀ x ∈ first :: rest, s.Clipped x) ∧ ∀ x ∈ first :: rest, x.plen.toNat = s.plen.toNat + 1 := by
  have hnext : (UInt8.ofNat (s.plen.toNat + 1)).toNat = s.plen.toNat + 1 := by
    have := F.width_le
    exact Nat.mod_eq_of_lt (by omega)
  have hlonger : s.plen ≤ UInt8.ofNat (s.plen.toNat + 1) := by
    rw [UInt8.le_iff_toNat_le, hnext]
    omega
  rw [← hnext] at hwidth
  have hpieces := partition_pieces h.start_le hlonger hwidth
  have hlength := length_pieces_le h (UInt8.le_iff_toNat_le.1 hlonger) hwidth
  have hclipped : ∀ x ∈ s.pieces (UInt8.ofNat (s.plen.toNat + 1)), s.Clipped x := fun x hx => clipped_of_mem_pieces h.start_le hx
  have hplen : ∀ x ∈ s.pieces (UInt8.ofNat (s.plen.toNat + 1)), x.plen.toNat = s.plen.toNat + 1 :=
    fun x hx => (congrArg UInt8.toNat (plen_of_mem_pieces hx)).trans hnext
  have hsubnets := subnets_eq_pieces hlonger hwidth h.start_le
  obtain ⟨first, rest, hcut⟩ := List.exists_cons_of_ne_nil (hpieces.ne_nil h.start_le)
  rw [hnext, Nat.add_sub_cancel_left, hcut] at hlength
  rw [hcut] at hpieces hclipped hplen hsubnets
  exact ⟨first, rest, hsubnets, Nat.le_of_succ_le_succ hlength, hpieces, hclipped, hplen⟩

/-- Where a span is cut in two at most, one bit further, the stairs of the first part are stairs of the span together with the second
part, which is larger than all others. -/
theorem Stairs.below {q : Nat} {first lowest : Span F} {rest others : List (Span F)} (h : first.Stairs q lowest others)
    (hcut : s.Partition (first :: rest)) (hlength : rest.length ≤ 1) (hclipped : ∀ x ∈ first :: rest, s.Clipped x)
    (hplen : ∀ x ∈ first :: rest, x.plen.toNat = s.plen.toNat + 1) (hq : s.plen.toNat < q) :
    s.Stairs q lowest (others ++ rest) where
  partition := (show s.Partition ([] ++ first :: rest) from hcut).cut h.partition
  clipped := by
    intro x hx
    rcases List.mem_append.1 (show x ∈ (lowest :: others) ++ rest from hx) with hx | hx
    · have hfiner := UInt8.le_iff_toNat_le.1 (h.partition.finer x hx)
      exact (hclipped first List.mem_cons_self).trans (h.clipped x hx) hfiner
    · exact hclipped x (List.mem_cons_of_mem _ hx)
  lowest_plen := h.lowest_plen
  descending := by
    refine List.pairwise_append.2 ⟨h.descending, ?_, fun x hx y hy => ?_⟩
    · cases rest with
      | nil => exact .nil
      | cons second more =>
        rw [List.eq_nil_of_length_eq_zero (Nat.le_zero.1 (Nat.le_of_succ_le_succ hlength))]
        exact List.pairwise_singleton _ _
    · rw [hplen y (List.mem_cons_of_mem _ hy), ← hplen first List.mem_cons_self]
      exact (h.between x hx).1
  between := by
    intro x hx
    rcases List.mem_append.1 hx with hx | hx
    · have := h.between x hx
      have := hplen first List.mem_cons_self
      omega
    · have := hplen x (List.mem_cons_of_mem _ hx)
      omega

/-- Cutting the lowest piece bit by bit does not fail, gives stairs of it, and leaves the pieces behind it as they are. -/
theorem foldlM_cutLowest (h : s.Shaped) {steps : Nat} (hwidth : s.plen.toNat + steps ≤ F.width) (behind : List (Span F)) :
    ∃ lowest others,
      (List.range' (s.plen.toNat + 1) steps).foldlM (fun pieces n => cutLowest (.ofNat n) pieces) (s :: behind) =
          .ok (lowest :: (others ++ behind)) ∧
        s.Stairs (s.plen.toNat + steps) lowest others := by
  induction steps generalizing s behind with
  | zero => exact ⟨s, [], rfl, .refl h⟩
  | succ steps ih =>
    obtain ⟨first, rest, hsubnets, hlength, hcut, hclipped, hplen⟩ := subnets_next h (by omega)
    have hfirst := hplen first List.mem_cons_self
    obtain ⟨lowest, others, hrun, hstairs⟩ := ih (hcut.shaped first List.mem_cons_self) (by omega) (rest ++ behind)
    have hstep : cutLowest (.ofNat (s.plen.toNat + 1)) (s :: behind) = .ok (first :: (rest ++ behind)) := by
      rw [cutLowest, hsubnets]
      rfl
    have hsteps : first.plen.toNat + steps = s.plen.toNat + (steps + 1) := by omega
    rw [hsteps] at hstairs
    refine ⟨lowest, others ++ rest, ?_, hstairs.below hcut hlength hclipped hplen (by omega)⟩
    rw [List.range'_succ, List.foldlM_cons, hstep, ok_bind, ← hfirst, hrun, List.append_assoc]

/-- Halving up to `depth` bits before a longer length gives stairs. -/
theorem halved_stairs (h : s.Shaped) (hwidth : target.toNat ≤ F.width) (depth : Nat) :
    ∃ lowest others, s.halved target depth = .ok (lowest :: others) ∧
      s.Stairs (s.plen.toNat + (target.toNat - depth - s.plen.toNat)) lowest others := by
  have hroom : s.plen.toNat + (target.toNat - depth - s.plen.toNat) ≤ F.width := by
    have := h.plen_le
    omega
  obtain ⟨lowest, others, hrun, hstairs⟩ := foldlM_cutLowest h hroom []
  rw [List.append_nil] at hrun
  exact ⟨lowest, others, hrun, hstairs⟩

/-! ## Plans -/

/-- The plan cuts the lowest piece of stairs into subnets. When these are few and there is a next piece, it cuts that one into stairs
of its own, and the lowest piece of these into subnets. -/
inductive IsHalvingPlan (s : Span F) (target : UInt8) (depth : Nat) : List (Span F) → Prop where
  | single {lowest : Span F} {others : List (Span F)} :
      s.Stairs (s.plen.toNat + (target.toNat - depth - s.plen.toNat)) lowest others →
      (others = [] ∨ 1 <<< (depth - 1) ≤ (lowest.pieces target).length) →
      IsHalvingPlan s target depth (lowest.pieces target ++ others)
  | double {first second next : Span F} {rest more : List (Span F)} :
      s.Stairs (s.plen.toNat + (target.toNat - depth - s.plen.toNat)) first (second :: rest) →
      second.Stairs (second.plen.toNat + (target.toNat - (depth - 1) - second.plen.toNat)) next more →
      (first.pieces target).length < 1 <<< (depth - 1) → 1 < depth →
      IsHalvingPlan s target depth (first.pieces target ++ next.pieces target ++ more ++ rest)

/-- The lowest piece of stairs is cut into subnets of a length that is no shorter. -/
theorem Stairs.subnets_lowest {q : Nat} {lowest : Span F} {others : List (Span F)} (h : s.Stairs q lowest others)
    (hq : q ≤ target.toNat) (hwidth : target.toNat ≤ F.width) : lowest.subnets target = .ok (lowest.pieces target) :=
  subnets_eq_pieces (UInt8.le_iff_toNat_le.2 (h.lowest_plen ▸ hq)) hwidth h.lowest_shaped.start_le

/-- These are a partition of it. -/
theorem Stairs.partition_lowest {q : Nat} {lowest : Span F} {others : List (Span F)} (h : s.Stairs q lowest others)
    (hq : q ≤ target.toNat) (hwidth : target.toNat ≤ F.width) : lowest.Partition (lowest.pieces target) :=
  partition_pieces h.lowest_shaped.start_le (UInt8.le_iff_toNat_le.2 (h.lowest_plen ▸ hq)) hwidth

/-- The lowest piece has no more subnets than the bits that are left can tell apart. -/
theorem Stairs.length_lowest_le {q : Nat} {lowest : Span F} {others : List (Span F)} (h : s.Stairs q lowest others)
    (hq : q ≤ target.toNat) (hwidth : target.toNat ≤ F.width) {d : Nat} (hd : target.toNat - q ≤ d) :
    (lowest.pieces target).length ≤ 1 <<< d := by
  have hlength := length_pieces_le h.lowest_shaped (h.lowest_plen ▸ hq) hwidth
  rw [h.lowest_plen] at hlength
  exact Nat.le_trans hlength (Mask.size_le_size hd)

/-- The subnets of the lowest pieces of two stairs, the second of which stand on the next piece of the first, and what is left aside
on the way are a partition. -/
theorem Stairs.partition_two {q r : Nat} {first second next : Span F} {rest more : List (Span F)}
    (h : s.Stairs q first (second :: rest)) (h' : second.Stairs r next more) (hq : q ≤ target.toNat) (hr : r ≤ target.toNat)
    (hwidth : target.toNat ≤ F.width) : s.Partition (first.pieces target ++ next.pieces target ++ more ++ rest) := by
  have hall : s.Partition ([first] ++ (next :: more) ++ rest) :=
    (show s.Partition ([first] ++ second :: rest) from h.partition).cut h'.partition
  have hnext : s.Partition ([first] ++ next.pieces target ++ (more ++ rest)) :=
    (show s.Partition ([first] ++ next :: (more ++ rest)) by simpa using hall).cut (h'.partition_lowest hr hwidth)
  have hfirst : s.Partition ([] ++ first.pieces target ++ (next.pieces target ++ (more ++ rest))) :=
    (show s.Partition ([] ++ first :: (next.pieces target ++ (more ++ rest))) by simpa using hnext).cut
      (h.partition_lowest hq hwidth)
  simpa using hfirst

/-- A partition is in order. -/
theorem Partition.mergeSort_eq {parts : List (Span F)} (h : s.Partition parts) :
    parts.mergeSort (fun x y => x.start ≤ y.start) = parts := by
  have happart : parts.Pairwise fun x y => x.interval.last < y.interval.first := List.pairwise_map.1 h.tiles.pairwise
  refine List.mergeSort_of_pairwise (happart.imp_of_mem fun {x y} hx _ hlt => ?_)
  have hle : x.start.bits ≤ x.stop.bits := (h.shaped x hx).start_le
  exact decide_eq_true (Nat.le_trans hle (Nat.le_of_lt hlt))

/-- The lowest piece is cut into subnets, and the others stay when they are enough, or when there are no others. -/
theorem Stairs.cutToTarget_single {q : Nat} {lowest : Span F} {others : List (Span F)} (h : s.Stairs q lowest others)
    (hq : q ≤ target.toNat) (hwidth : target.toNat ≤ F.width)
    (henough : others = [] ∨ 1 <<< (depth - 1) ≤ (lowest.pieces target).length) :
    cutToTarget target depth (lowest :: others) = .ok (lowest.pieces target ++ others) := by
  have hlowest := h.subnets_lowest hq hwidth
  cases others with
  | nil => rw [cutToTarget, hlowest, List.append_nil]
  | cons second rest =>
    have hmany := henough.resolve_left (List.cons_ne_nil second rest)
    rw [cutToTarget, hlowest, ok_bind, if_pos hmany]
    rfl

/-- Subnets of the lowest piece that are too few are followed by those of the lowest part of the next piece. The entries are found in
order, so that sorting them leaves them as they are. -/
theorem Stairs.cutToTarget_double {q r : Nat} {first second next : Span F} {rest more : List (Span F)}
    (h : s.Stairs q first (second :: rest)) (h' : second.Stairs r next more)
    (hhalved : second.halved target (depth - 1) = .ok (next :: more)) (hq : q ≤ target.toNat) (hr : r ≤ target.toNat)
    (hwidth : target.toNat ≤ F.width) (hfew : (first.pieces target).length < 1 <<< (depth - 1)) (hdeep : 1 < depth) :
    cutToTarget target depth (first :: second :: rest) = .ok (first.pieces target ++ next.pieces target ++ more ++ rest) := by
  have htop : cutLowest target (next :: more) = .ok (next.pieces target ++ more) := by
    rw [cutLowest, h'.subnets_lowest hr hwidth]
    rfl
  have hpartition := h.partition_two h' hq hr hwidth
  rw [List.append_assoc (first.pieces target)] at hpartition ⊢
  rw [cutToTarget, h.subnets_lowest hq hwidth, ok_bind, if_neg (Nat.not_le.2 hfew), Nat.max_eq_left (Nat.le_sub_one_of_lt hdeep),
    hhalved, ok_bind, htop, ok_bind, hpartition.mergeSort_eq]
  rfl

/-- A piece has a subnet, so that these are too few only when the depth tells apart more than two. -/
theorem one_lt_of_few (h : s.start ≤ s.stop) (hfew : (s.pieces target).length < 1 <<< (depth - 1)) : 1 < depth := by
  have hone : 0 < (s.pieces target).length := List.length_pos_of_ne_nil (pieces_ne_nil h)
  refine Nat.lt_of_not_le fun hle => ?_
  rw [Nat.sub_eq_zero_of_le hle] at hfew
  exact Nat.lt_irrefl _ (Nat.lt_of_lt_of_le hfew hone)

/-- A halving plan is made for every span of the right shape and every length of the family that is not shorter. -/
theorem exists_halvingPieces (h : s.Shaped) (hle : s.plen ≤ target) (hwidth : target.toNat ≤ F.width) (depth : Nat) :
    ∃ plan, s.halvingPieces target depth = .ok plan ∧ s.IsHalvingPlan target depth plan := by
  have hle' := UInt8.le_iff_toNat_le.1 hle
  have hq : s.plen.toNat + (target.toNat - depth - s.plen.toNat) ≤ target.toNat := by omega
  obtain ⟨lowest, others, hhalved, hstairs⟩ := halved_stairs h hwidth depth
  unfold halvingPieces
  rw [hhalved, ok_bind]
  by_cases henough : others = [] ∨ 1 <<< (depth - 1) ≤ (lowest.pieces target).length
  · exact ⟨_, hstairs.cutToTarget_single hq hwidth henough, .single hstairs henough⟩
  · obtain ⟨hsome, hfew⟩ := not_or.1 henough
    obtain ⟨second, rest, rfl⟩ := List.exists_cons_of_ne_nil hsome
    have hfew := Nat.not_le.1 hfew
    have hdeep := one_lt_of_few hstairs.lowest_shaped.start_le hfew
    have hsecond := (hstairs.between second List.mem_cons_self).2
    obtain ⟨next, more, hhalved', hstairs'⟩ := halved_stairs (hstairs.partition.shaped second (by simp)) hwidth (depth - 1)
    have hr : second.plen.toNat + (target.toNat - (depth - 1) - second.plen.toNat) ≤ target.toNat := by omega
    exact ⟨_, hstairs.cutToTarget_double hstairs' hhalved' hq hr hwidth hfew hdeep, .double hstairs hstairs' hfew hdeep⟩

/-- A plan that is made is a halving plan. -/
theorem isHalvingPlan_of_eq_ok (h : s.Shaped) (hle : s.plen ≤ target) (hwidth : target.toNat ≤ F.width) {plan : List (Span F)}
    (hplan : s.halvingPieces target depth = .ok plan) : s.IsHalvingPlan target depth plan := by
  obtain ⟨made, hmade, his⟩ := exists_halvingPieces h hle hwidth depth
  rwa [Except.ok.inj (hplan.symm.trans hmade)]

/-- A halving plan is given for a span of the right shape, a longer length of the family and a depth of the family. -/
theorem halvingPlan_eq_ok_iff {depth : UInt8} {plan : List (Span F)} : s.halvingPlan target depth = .ok plan ↔
    (s.Shaped ∧ s.plen < target ∧ target.toNat ≤ F.width ∧ 1 ≤ depth.toNat ∧ depth.toNat ≤ F.maxHalvingDepth) ∧
      s.halvingPieces target depth.toNat = .ok plan := by
  have hzero : ¬depth = 0 ↔ 1 ≤ depth.toNat := by
    rw [← UInt8.toNat_inj]
    exact Nat.one_le_iff_ne_zero.symm
  unfold halvingPlan
  simp only [check_bind_eq_ok_iff, refuse_bind_eq_ok_iff, Mask.require_eq_ok_iff, checkShape_eq_ok_iff, not_or,
    UInt8.not_le, Nat.not_lt, hzero]
  constructor
  · rintro ⟨hwidth, hlonger, ⟨hpos, hmost⟩, hshaped, hplan⟩
    exact ⟨⟨hshaped, hlonger, hwidth, hpos, hmost⟩, hplan⟩
  · rintro ⟨⟨hshaped, hlonger, hwidth, hpos, hmost⟩, hplan⟩
    exact ⟨hwidth, hlonger, ⟨hpos, hmost⟩, hshaped, hplan⟩

/-- A halving plan is a partition of its span. -/
theorem IsHalvingPlan.partition {plan : List (Span F)} (h : s.IsHalvingPlan target depth plan) (hle : s.plen ≤ target)
    (hwidth : target.toNat ≤ F.width) : s.Partition plan := by
  have hle' := UInt8.le_iff_toNat_le.1 hle
  cases h with
  | @single lowest others hstairs _ =>
    exact (show s.Partition ([] ++ lowest :: others) from hstairs.partition).cut (hstairs.partition_lowest (by omega) hwidth)
  | @double first second next rest more hstairs hstairs' _ _ =>
    have hsecond := (hstairs.between second List.mem_cons_self).2
    exact hstairs.partition_two hstairs' (by omega) (by omega) hwidth

/-- One bit more tells apart twice as many subnets. -/
theorem shift_depth (hdepth : 0 < depth) : 1 <<< depth = 1 <<< (depth - 1) + 1 <<< (depth - 1) := by
  obtain ⟨d, rfl⟩ := Nat.exists_eq_succ_of_ne_zero (Nat.ne_of_gt hdepth)
  rw [Nat.one_shiftLeft, Nat.one_shiftLeft, Nat.pow_succ, Nat.succ_sub_one]
  omega

/-- A halving plan has no more entries than the depth can tell apart subnets, and one for each step. -/
theorem IsHalvingPlan.length_le {plan : List (Span F)} (h : s.IsHalvingPlan target depth plan) (hle : s.plen ≤ target)
    (hwidth : target.toNat ≤ F.width) (hdepth : 0 < depth) :
    plan.length ≤ 1 <<< depth + (target.toNat - depth - s.plen.toNat) := by
  have hle' := UInt8.le_iff_toNat_le.1 hle
  cases h with
  | single hstairs _ =>
    have hlowest := hstairs.length_lowest_le (by omega) hwidth (d := depth) (by omega)
    have hothers := hstairs.length_le
    rw [List.length_append]
    omega
  | @double first second next rest more hstairs hstairs' hfew _ =>
    obtain ⟨hsecond, hrest⟩ := List.forall_mem_cons.1 hstairs.between
    obtain ⟨hlower, hdescending⟩ := List.pairwise_cons.1 hstairs.descending
    have hnext := hstairs'.length_lowest_le (by omega) hwidth (d := depth - 1) (by omega)
    have hmore := hstairs'.length_le
    have hrest := length_le_of_descending (q := second.plen.toNat - 1) hdescending fun x hx => ⟨(hrest x hx).1, by
      have := hlower x hx
      omega⟩
    rw [List.length_append, List.length_append, List.length_append, shift_depth hdepth]
    omega

end AddressSpace.Span
