import Mathlib.Data.List.Forall2
import AddressSpace.Proofs.Cidr
import AddressSpace.Proofs.Span.Partition
/-!
# The subnets of a span and the networks that meet it

`s.Meeting plen cs` says that the networks `cs` are those of length `plen` that share an address with the span `s`. Each subnet
of a span stands in one of these networks (`pieces_meeting`) and is what it has in common with the span (`piece_clipped`), also at
the two ends, where a network may begin before the span or end behind it. Where a subnet ends thus depends on where it starts, and
cutting the subnets of one length again gives the subnets of a longer one (`flatMap_pieces`). The search for subnets finds all of
them wherever the span lies, and wherever it ends (`subnets_clipped`).
-/

namespace AddressSpace

variable {F : Family} {target : UInt8}

namespace Span

variable {s x : Span F} {a : Address F}

/-- The networks of length `plen` that share an address with the span, in ascending order. -/
structure Meeting (s : Span F) (plen : Nat) (cs : List (Cidr F)) : Prop where
  ascending : cs.Pairwise fun c d => c.hi < d.lo
  mem_iff : ∀ c, c ∈ cs ↔ c.network = c ∧ c.plen = plen ∧ ∃ a, c.contains a = true ∧ s.contains a = true

/-- The network that a subnet of the span stands in. -/
theorem holding_piece {n : Nat} (hle : s.start ≤ s.stop) (hwidth : target.toNat ≤ F.width)
    (hn : n ∈ List.range' (s.start.bits / (1 <<< (F.width - target.toNat)))
      (s.stop.bits / (1 <<< (F.width - target.toNat)) + 1 - s.start.bits / (1 <<< (F.width - target.toNat)))) :
    (Cidr.holding (s.piece target n).start target.toNat hwidth).lo.bits = n * (1 <<< (F.width - target.toNat)) ∧
      (s.piece target n).interval =
        ⟨max (Cidr.holding (s.piece target n).start target.toNat hwidth).lo.bits s.start.bits,
          min (Cidr.holding (s.piece target n).start target.toNat hwidth).hi.bits s.stop.bits⟩ := by
  have hrange := List.mem_range'_1.1 hn
  have hlo : (Cidr.holding (s.piece target n).start target.toNat hwidth).lo.bits = n * (1 <<< (F.width - target.toNat)) := by
    rw [Cidr.holding_lo_bits, (piece_div hle hrange.1 (by omega)).1]
  refine ⟨hlo, ?_⟩
  have hstop : n * (1 <<< (F.width - target.toNat)) ≤ s.stop.bits :=
    (Nat.le_div_iff_mul_le (Nat.pos_of_neZero _)).1 (by omega)
  rw [Cidr.hi_bits, hlo]
  exact piece_interval hle hstop

/-- A subnet is what the network that it stands in has in common with the span. -/
theorem piece_clipped (hle : s.start ≤ s.stop) (hwidth : target.toNat ≤ F.width) (hx : x ∈ s.pieces target) :
    x.interval = ⟨max (Cidr.holding x.start target.toNat hwidth).lo.bits s.start.bits,
      min (Cidr.holding x.start target.toNat hwidth).hi.bits s.stop.bits⟩ := by
  obtain ⟨n, hn, rfl⟩ := List.mem_map.1 hx
  exact (holding_piece hle hwidth hn).2

/-- The subnets of a span stand in the networks that meet it, one in each. -/
theorem pieces_meeting (hle : s.start ≤ s.stop) (hwidth : target.toNat ≤ F.width) :
    s.Meeting target.toNat ((s.pieces target).map fun x => .holding x.start target.toNat hwidth) where
  ascending := by
    rw [pieces, List.map_map, List.pairwise_map]
    refine List.Pairwise.imp_of_mem (fun {n m} hn hm hlt => ?_) List.pairwise_lt_range'
    show Address.bits _ < Address.bits _
    rw [Cidr.hi_bits, Function.comp_apply, Function.comp_apply, (holding_piece hle hwidth hn).1, (holding_piece hle hwidth hm).1]
    have hnext := Nat.mul_le_mul_right (1 <<< (F.width - target.toNat)) (Nat.succ_le_of_lt hlt)
    have hsize : 0 < 1 <<< (F.width - target.toNat) := Nat.pos_of_neZero _
    rw [Nat.succ_mul] at hnext
    show _ + (1 <<< (F.width - target.toNat) - 1) < _
    omega
  mem_iff := by
    intro c
    have htile := pieces_tile hle target
    constructor
    · intro hc
      obtain ⟨x, hx, rfl⟩ := List.mem_map.1 hc
      obtain ⟨hfirst, hordered, hlast⟩ := htile.bounds (List.mem_map_of_mem hx)
      refine ⟨Cidr.network_holding .., rfl, x.start, Cidr.contains_holding .., contains_iff.2 ⟨hfirst, ?_⟩⟩
      exact Nat.le_of_lt_succ (Nat.lt_of_le_of_lt hordered hlast)
    · rintro ⟨hnetwork, hplen, a, hca, hsa⟩
      -- the subnet that holds the common address stands in the network
      obtain ⟨hstart, hstop⟩ := contains_iff.1 hsa
      obtain ⟨i, hi, hin⟩ := (htile.exists_contains_iff a.bits).2 ⟨hstart, Nat.lt_succ_of_le hstop⟩
      obtain ⟨x, hx, rfl⟩ := List.mem_map.1 hi
      have hxa : x.start ≤ a ∧ a ≤ x.stop := contains_iff.1 hin
      have hcut : x.start.cut target.toNat = a.cut target.toNat := by
        have := (shaped_of_mem_pieces hle hwidth hx).cut_eq_of_between hxa.1 hxa.2
        rwa [plen_of_mem_pieces hx] at this
      have hholding : (Cidr.holding x.start target.toNat hwidth).contains a = true := by
        rw [Cidr.holding, Cidr.contains_network, Cidr.contains_iff]
        exact hcut.symm
      refine List.mem_map.2 ⟨x, hx, Cidr.eq_of_contains (Cidr.network_holding ..) hnetwork hplen.symm hholding hca⟩

/-- The subnets of a span are what the networks that meet it have in common with it. -/
theorem exists_meeting (hle : s.start ≤ s.stop) (hwidth : target.toNat ≤ F.width) :
    ∃ cs, s.Meeting target.toNat cs ∧
      List.Forall₂ (fun x c => x.interval = ⟨max c.lo.bits s.start.bits, min c.hi.bits s.stop.bits⟩) (s.pieces target) cs := by
  refine ⟨_, pieces_meeting hle hwidth, ?_⟩
  rw [List.forall₂_map_right_iff, List.forall₂_same]
  exact fun x hx => piece_clipped hle hwidth hx

/-! ## Subnets of subnets -/

/-- A subnet starts where its network does, or where the span does. -/
theorem start_of_mem_pieces (hle : s.start ≤ s.stop) (hwidth : target.toNat ≤ F.width) (hx : x ∈ s.pieces target) :
    x.start.bits = max (x.start.cut target.toNat).bits s.start.bits := by
  rw [← Cidr.holding_lo x.start target.toNat hwidth]
  exact congrArg Interval.first (piece_clipped hle hwidth hx)

/-- It ends where its network does, or where the span does. -/
theorem stop_of_mem_pieces (hle : s.start ≤ s.stop) (hwidth : target.toNat ≤ F.width) (hx : x ∈ s.pieces target) :
    x.stop.bits = min (x.start.last target.toNat).bits s.stop.bits := by
  rw [← Cidr.holding_hi x.start target.toNat hwidth]
  exact congrArg Interval.last (piece_clipped hle hwidth hx)

/-- Spans of one length are known by their bounds. -/
theorem eq_of_map_interval {xs ys : List (Span F)} (h : xs.map interval = ys.map interval) (hxs : ∀ x ∈ xs, x.plen = target)
    (hys : ∀ y ∈ ys, y.plen = target) : xs = ys := by
  have hback : ∀ zs : List (Span F), (∀ z ∈ zs, z.plen = target) →
      (zs.map interval).map (fun i => ⟨.ofBits F i.first, .ofBits F i.last, target⟩) = zs := by
    intro zs hzs
    rw [List.map_map]
    refine (List.map_congr_left fun z hz => ?_).trans (List.map_id zs)
    rw [← hzs z hz]
    show (⟨.ofBits F z.start.bits, .ofBits F z.stop.bits, z.plen⟩ : Span F) = z
    rw [Address.ofBits_bits, Address.ofBits_bits]
  rw [← hback xs hxs, h, hback ys hys]

/-- Of spans of one length that tile a span and stand in different networks, each ends where its network does or where the span
does. -/
theorem stop_of_tiles {xs : List (Span F)} (htile : Interval.Tiles s.start.bits (s.stop.bits + 1) (xs.map interval))
    (hplen : ∀ x ∈ xs, x.plen = target) (hshaped : ∀ x ∈ xs, x.Shaped)
    (hapart : ∀ x ∈ xs, ∀ y ∈ xs, x.start.sameNetwork y.start target.toNat = true → x = y) (hx : x ∈ xs) :
    x.stop.bits = min (x.start.last target.toNat).bits s.stop.bits := by
  have hwidth : target.toNat ≤ F.width := hplen x hx ▸ (hshaped x hx).plen_le
  have hcut : ∀ y ∈ xs, ∀ a, y.start ≤ a → a ≤ y.stop → y.start.cut target.toNat = a.cut target.toNat := by
    intro y hy a hstart hstop
    have := (hshaped y hy).cut_eq_of_between hstart hstop
    rwa [hplen y hy] at this
  let c : Cidr F := .holding x.start target.toNat hwidth
  have hlo : c.lo = x.start.cut target.toNat := Cidr.holding_lo ..
  have hhi : c.hi = x.start.last target.toNat := Cidr.holding_hi ..
  have hstop : c.contains x.stop = true :=
    Cidr.contains_iff.2 ((hcut x hx _ (hshaped x hx).start_le (Nat.le_refl _)).symm.trans hlo.symm)
  obtain ⟨hfirst, hnetwork⟩ := Cidr.contains_eq_true.1 hstop
  have hspan : x.stop.bits < s.stop.bits + 1 := (htile.bounds (List.mem_map_of_mem hx)).2.2
  rw [← hhi]
  have hle : x.stop.bits ≤ c.hi.bits := hnetwork
  by_contra hne
  -- otherwise the next address stands in the same network, and so does the span that holds it
  have hmore : x.stop < c.hi := show x.stop.bits < c.hi.bits by omega
  have hnext : c.contains (.next hmore) = true :=
    Cidr.contains_eq_true.2 ⟨Nat.le_trans hfirst (Nat.le_succ _), Nat.succ_le_of_lt hmore⟩
  have hin : s.start.bits ≤ x.stop.bits + 1 ∧ x.stop.bits + 1 < s.stop.bits + 1 := by
    have := htile.bounds (List.mem_map_of_mem hx)
    have hbounds : s.start.bits ≤ x.start.bits ∧ x.start.bits ≤ x.stop.bits := ⟨this.1, this.2.1⟩
    omega
  obtain ⟨i, hi, hholds⟩ := (htile.exists_contains_iff _).2 hin
  obtain ⟨y, hy, rfl⟩ := List.mem_map.1 hi
  obtain ⟨hystart, hystop⟩ := contains_iff.1 (show y.contains (.next hmore) = true from hholds)
  have hsame : x.start.cut target.toNat = y.start.cut target.toNat :=
    hlo.symm.trans ((Cidr.contains_iff.1 hnext).symm.trans (hcut y hy _ hystart hystop).symm)
  obtain rfl := hapart x hx y hy (Address.sameNetwork_iff.2 hsame)
  exact Nat.not_succ_le_self _ hystop

/-- Spans of one length that tile a span and stand in different networks are its subnets. -/
theorem eq_pieces_of_tiles {xs : List (Span F)} (hle : s.start ≤ s.stop) (hwidth : target.toNat ≤ F.width)
    (htile : Interval.Tiles s.start.bits (s.stop.bits + 1) (xs.map interval)) (hplen : ∀ x ∈ xs, x.plen = target)
    (hshaped : ∀ x ∈ xs, x.Shaped)
    (hapart : ∀ x ∈ xs, ∀ y ∈ xs, x.start.sameNetwork y.start target.toNat = true → x = y) : xs = s.pieces target := by
  refine eq_of_map_interval (htile.eq_of_last (f := fun n => min (Mask.last n F.width target.toNat) s.stop.bits)
    (pieces_tile hle target) (List.forall_mem_map.2 fun x hx => ?_) (List.forall_mem_map.2 fun x hx => ?_)) hplen fun x hx =>
    plen_of_mem_pieces hx
  · exact stop_of_tiles htile hplen hshaped hapart hx
  · exact stop_of_mem_pieces hle hwidth hx

/-- A subnet of a subnet ends where its own network does, or where the span does. -/
theorem stop_of_mem_pieces_pieces {mid : UInt8} {y : Span F} (hle : s.start ≤ s.stop) (hmid : mid.toNat ≤ target.toNat)
    (hwidth : target.toNat ≤ F.width) (hx : x ∈ s.pieces mid) (hy : y ∈ x.pieces target) :
    y.stop.bits = min (y.start.last target.toNat).bits s.stop.bits := by
  have hshaped : x.Shaped := shaped_of_mem_pieces hle (Nat.le_trans hmid hwidth) hx
  obtain ⟨hstart, hordered, hstop⟩ := (pieces_tile hshaped.start_le target).bounds (List.mem_map_of_mem hy)
  -- the network of the inner subnet lies in that of the outer one
  have hholds : (Cidr.holding x.start mid.toNat (Nat.le_trans hmid hwidth)).contains y.start = true := by
    have hcut := hshaped.cut_eq_of_between hstart (Nat.le_trans hordered (Nat.le_of_lt_succ hstop))
    rw [plen_of_mem_pieces hx] at hcut
    rw [Cidr.contains_iff, Cidr.holding_lo]
    exact hcut.symm
  have hnested : (y.start.last target.toNat).bits ≤ (x.start.last mid.toNat).bits := by
    rw [← Cidr.holding_hi y.start _ hwidth, ← Cidr.holding_hi x.start _ (Nat.le_trans hmid hwidth)]
    exact Cidr.hi_le_hi hmid (Cidr.contains_holding ..) hholds
  rw [stop_of_mem_pieces hshaped.start_le hwidth hy, stop_of_mem_pieces hle (Nat.le_trans hmid hwidth) hx]
  omega

/-- Cutting the subnets of one length gives the subnets of a longer one. -/
theorem flatMap_pieces {mid : UInt8} (hle : s.start ≤ s.stop) (hmid : mid ≤ target) (hwidth : target.toNat ≤ F.width) :
    (s.pieces mid).flatMap (·.pieces target) = s.pieces target := by
  have hmid' : mid.toNat ≤ target.toNat := UInt8.le_iff_toNat_le.1 hmid
  have htiles : Interval.Tiles s.start.bits (s.stop.bits + 1) (((s.pieces mid).flatMap (·.pieces target)).map interval) := by
    rw [List.map_flatMap]
    refine Interval.tiles_flatMap (pieces_tile hle mid) fun x hx => pieces_tile ?_ target
    exact (shaped_of_mem_pieces hle (Nat.le_trans hmid' hwidth) hx).start_le
  refine eq_of_map_interval (htiles.eq_of_last (f := fun n => min (Mask.last n F.width target.toNat) s.stop.bits)
    (pieces_tile hle target) (List.forall_mem_map.2 fun y hy => ?_) (List.forall_mem_map.2 fun y hy => ?_))
    (fun y hy => ?_) fun y hy => plen_of_mem_pieces hy
  · obtain ⟨x, hx, hyx⟩ := List.mem_flatMap.1 hy
    exact stop_of_mem_pieces_pieces hle hmid' hwidth hx hyx
  · exact stop_of_mem_pieces hle hwidth hy
  · obtain ⟨x, -, hyx⟩ := List.mem_flatMap.1 hy
    exact plen_of_mem_pieces hyx

/-! ## What a span is cut into -/

/-- The spans are what a span is cut into: one for each network of the length that meets it, which is clipped to it, in ascending
order. Only the first of them may start inside its network, and only the last may end inside it. -/
structure CutInto (s : Span F) (target : UInt8) (spans : List (Span F)) : Prop where
  networks : ∃ cs, s.Meeting target.toNat cs ∧
    List.Forall₂ (fun x c => x.interval = ⟨max c.lo.bits s.start.bits, min c.hi.bits s.stop.bits⟩) spans cs
  plen : ∀ x ∈ spans, x.plen = target
  tiles : Interval.Tiles s.start.bits (s.stop.bits + 1) (spans.map interval)
  length : spans.length = (s.stop.bits >>> (F.width - target.toNat)) - (s.start.bits >>> (F.width - target.toNat)) + 1
  whole : ∀ before x after, spans = before ++ x :: after →
    (before ≠ [] → x.start.cut target.toNat = x.start) ∧ (after ≠ [] → x.start.last target.toNat = x.stop)

/-- The subnets of a span cut it into the networks of their length. -/
theorem cutInto_pieces (hle : s.start ≤ s.stop) (hwidth : target.toNat ≤ F.width) : s.CutInto target (s.pieces target) where
  networks := exists_meeting hle hwidth
  plen := fun _ hx => plen_of_mem_pieces hx
  tiles := pieces_tile hle target
  length := by
    have hdiv : s.start.bits / 1 <<< (F.width - target.toNat) ≤ s.stop.bits / 1 <<< (F.width - target.toNat) :=
      Nat.div_le_div_right hle
    rw [length_pieces, Nat.shiftRight_eq_div_pow, Nat.shiftRight_eq_div_pow, ← Nat.one_shiftLeft]
    omega
  whole := by
    intro before x after hpieces
    have hx : x ∈ s.pieces target := by simp [hpieces]
    have htiles := pieces_tile hle target
    rw [hpieces, List.map_append, Interval.tiles_append] at htiles
    obtain ⟨m, hbefore, hfirst, -, hafter⟩ := htiles
    constructor
    · intro hne
      have hlt : s.start.bits < m := hbefore.lt (by simpa using hne)
      have hm : x.start.bits = m := hfirst
      have hstart := start_of_mem_pieces hle hwidth hx
      exact Address.ext_bits (by omega)
    · intro hne
      have hlt : x.stop.bits + 1 < s.stop.bits + 1 := hafter.lt (by simpa using hne)
      have hstop := stop_of_mem_pieces hle hwidth hx
      exact Address.ext_bits (by omega)

/-- For every span with its bounds in order, inside a network of its length or not, and every length from its own up to the width,
the search for subnets ends and gives what the span is cut into. Cutting what is found for a length in between comes to the
same. -/
theorem subnets_clipped (hle : s.start ≤ s.stop) (hlonger : s.plen ≤ target) (hwidth : target.toNat ≤ F.width) :
    ∃ spans, s.subnets target = .ok spans ∧ s.CutInto target spans ∧
      ∀ mid, s.plen ≤ mid → mid ≤ target →
        (do
          let parts ← s.subnets mid
          let cuts ← parts.mapM fun x : Span F => x.subnets target
          return cuts.flatten) = .ok spans := by
  refine ⟨_, subnets_eq_ok_iff.2 ⟨hlonger, hwidth, hle, rfl⟩, cutInto_pieces hle hwidth, fun mid hmid hmid' => ?_⟩
  have hmidWidth : mid.toNat ≤ F.width := Nat.le_trans (UInt8.le_iff_toNat_le.1 hmid') hwidth
  have hcuts : (s.pieces mid).mapM (fun x : Span F => x.subnets target) = .ok ((s.pieces mid).map (·.pieces target)) := by
    refine mapM_eq_ok_iff.2 ((List.forall₂_map_right_iff.2 (List.forall₂_same.2 fun x hx => ?_)))
    have hordered := (shaped_of_mem_pieces hle hmidWidth hx).start_le
    exact subnets_eq_ok_iff.2 ⟨plen_of_mem_pieces hx ▸ hmid', hwidth, hordered, rfl⟩
  rw [subnets_eq_ok_iff.2 ⟨hmid, hmidWidth, hle, rfl⟩, ok_bind, hcuts, ok_bind, ← List.flatMap_def,
    flatMap_pieces hle hmid' hwidth]
  rfl

/-- A span that goes from inside one network of its length to the last address of the space, and lies in two such networks. -/
theorem subnets_clipped_top :
    let s : Span .v6 :=
      ⟨.ofBits .v6 0xfffffffffffffffe0000000000000005, .ofBits .v6 0xffffffffffffffffffffffffffffffff, 64⟩
    s.start.cut 64 ≠ s.stop.cut 64 ∧ s.start ≤ s.stop ∧ s.plen ≤ 65 ∧ (65 : UInt8).toNat ≤ Family.v6.width ∧
      ∃ spans, s.subnets 65 = .ok spans ∧ s.CutInto 65 spans ∧ spans.map interval =
        [⟨0xfffffffffffffffe0000000000000005, 0xfffffffffffffffe7fffffffffffffff⟩,
          ⟨0xfffffffffffffffe8000000000000000, 0xfffffffffffffffeffffffffffffffff⟩,
          ⟨0xffffffffffffffff0000000000000000, 0xffffffffffffffff7fffffffffffffff⟩,
          ⟨0xffffffffffffffff8000000000000000, 0xffffffffffffffffffffffffffffffff⟩] := by
  intro s
  have hle : s.start ≤ s.stop := by decide +kernel
  obtain ⟨spans, hspans, hcut, -⟩ := subnets_clipped hle (by decide : s.plen ≤ 65) (by decide)
  refine ⟨by decide +kernel, hle, by decide, by decide, spans, hspans, hcut, ?_⟩
  obtain ⟨-, -, -, rfl⟩ := subnets_eq_ok_iff.1 hspans
  decide +kernel

end Span

end AddressSpace
