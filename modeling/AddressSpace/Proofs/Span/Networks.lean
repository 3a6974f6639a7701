import AddressSpace.Proofs.Mask
import AddressSpace.Proofs.Span.Shape
import AddressSpace.Proofs.Span.Tiling
/-!
# Spans inside networks

The search for the subnets of a span goes from network to network and finds its pieces (`subnets_eq_ok_iff`). These have the right
shape, since each lies in a network of its own length (`shaped_of_mem_pieces`), and a span of the right shape lies in a network of
every length up to its own (`Shaped.cut_eq`).
-/

namespace AddressSpace

namespace Span

variable {F : Family} {s t : Span F} {target : UInt8}

/-! ## The search for subnets -/

/-- A network that starts at a multiple of its size ends right before the next one. -/
theorem last_bits_of_multiple {cursor : Address F} {plen n : Nat} (h : cursor.bits = n * 1 <<< (F.width - plen)) :
    (cursor.last plen).bits = n * 1 <<< (F.width - plen) + (1 <<< (F.width - plen) - 1) := by
  rw [Address.last_bits, Address.cut_bits, h, Nat.mul_div_cancel _ (Nat.pos_of_neZero _)]

/-- What is found at the start of the `n`-th network is the `n`-th piece. -/
theorem subnetAt_eq_piece {cursor : Address F} {n : Nat} (h : cursor.bits = n * 1 <<< (F.width - target.toNat)) :
    s.subnetAt target cursor = s.piece target n := by
  rw [subnetAt, last_bits_of_multiple h, h]
  rfl

/-- From the start of the `n`-th network on, the search finds the pieces with the numbers from `n` on. -/
theorem toList_subnetsFrom (found : Array (Span F)) {cursor : Address F} {n : Nat}
    (hcursor : cursor.bits = n * 1 <<< (F.width - target.toNat)) (hn : n ≤ s.stop.bits / 1 <<< (F.width - target.toNat)) :
    (s.subnetsFrom target found cursor).toList = found.toList ++
      (List.range' n (s.stop.bits / 1 <<< (F.width - target.toNat) + 1 - n)).map (s.piece target) := by
  have hsize : 0 < 1 <<< (F.width - target.toNat) := Nat.pos_of_neZero _
  fun_induction subnetsFrom s target found cursor generalizing n with
  | case1 found cursor hbefore ih =>
    have hlast : n * 1 <<< (F.width - target.toNat) + (1 <<< (F.width - target.toNat) - 1) < s.stop.bits :=
      last_bits_of_multiple hcursor ▸ hbefore
    have hnext : (Address.next hbefore).bits = (n + 1) * 1 <<< (F.width - target.toNat) := by
      rw [Address.next_bits, last_bits_of_multiple hcursor, Nat.succ_mul]
      omega
    have hmore : n + 1 ≤ s.stop.bits / 1 <<< (F.width - target.toNat) := by
      rw [Nat.le_div_iff_mul_le hsize, Nat.succ_mul]
      omega
    have hcount : s.stop.bits / 1 <<< (F.width - target.toNat) + 1 - n =
        s.stop.bits / 1 <<< (F.width - target.toNat) + 1 - (n + 1) + 1 := by omega
    rw [ih hnext hmore, Array.toList_push, subnetAt_eq_piece hcursor, List.append_assoc, hcount, List.range'_succ]
    rfl
  | case2 found cursor hend =>
    have hlast : s.stop.bits ≤ n * 1 <<< (F.width - target.toNat) + (1 <<< (F.width - target.toNat) - 1) :=
      last_bits_of_multiple hcursor ▸ Nat.not_lt.1 hend
    have honly : s.stop.bits / 1 <<< (F.width - target.toNat) = n := by
      refine Nat.le_antisymm (Nat.lt_succ_iff.1 ((Nat.div_lt_iff_lt_mul hsize).2 ?_)) hn
      rw [Nat.succ_mul]
      omega
    rw [Array.toList_push, subnetAt_eq_piece hcursor, honly, Nat.add_sub_cancel_left]
    rfl

/-- Subnets are given for a span with its bounds in order and a length that is no shorter than its own. They are its pieces. -/
theorem subnets_eq_ok_iff {spans : List (Span F)} :
    s.subnets target = .ok spans ↔
      s.plen ≤ target ∧ target.toNat ≤ F.width ∧ s.start ≤ s.stop ∧ spans = s.pieces target := by
  have hpieces : s.start ≤ s.stop → (s.subnetsFrom target #[] (s.start.cut target.toNat)).toList = s.pieces target := by
    intro hle
    rw [toList_subnetsFrom #[] (Address.cut_bits ..) (Nat.div_le_div_right hle)]
    rfl
  unfold subnets
  simp only [refuse_bind_eq_ok_iff, check_bind_eq_ok_iff, pure_eq_ok_iff, Mask.require_eq_ok_iff, UInt8.not_lt]
  constructor
  · rintro ⟨-, hwidth, hlonger, hle, rfl⟩
    exact ⟨hlonger, hwidth, Nat.not_lt.1 hle, hpieces (Nat.not_lt.1 hle)⟩
  · rintro ⟨hlonger, hwidth, hle, rfl⟩
    exact ⟨Nat.le_trans (UInt8.le_iff_toNat_le.1 hlonger) hwidth, hwidth, hlonger, Nat.not_lt.2 hle, hpieces hle⟩

/-- The subnets of a span with its bounds in order are its pieces. -/
theorem subnets_eq_pieces (hlonger : s.plen ≤ target) (hwidth : target.toNat ≤ F.width) (hle : s.start ≤ s.stop) :
    s.subnets target = .ok (s.pieces target) := subnets_eq_ok_iff.2 ⟨hlonger, hwidth, hle, rfl⟩

/-! ## The shape of subnets -/

/-- The first and the last address of a piece stand in the network that the piece is cut from. -/
theorem piece_div {n : Nat} (hle : s.start ≤ s.stop) (hfirst : s.start.bits / (1 <<< (F.width - target.toNat)) ≤ n)
    (hlast : n ≤ s.stop.bits / (1 <<< (F.width - target.toNat))) :
    (s.piece target n).start.bits / (1 <<< (F.width - target.toNat)) = n ∧
      (s.piece target n).stop.bits / (1 <<< (F.width - target.toNat)) = n := by
  have hsize : 0 < 1 <<< (F.width - target.toNat) := Nat.pos_of_neZero _
  have hstop : n * (1 <<< (F.width - target.toNat)) ≤ s.stop.bits := (Nat.le_div_iff_mul_le hsize).1 hlast
  have hstart : s.start.bits < (n + 1) * (1 <<< (F.width - target.toNat)) :=
    (Nat.div_lt_iff_lt_mul hsize).1 (Nat.lt_succ_of_le hfirst)
  obtain ⟨hpstart, hpstop⟩ := Interval.mk.inj (piece_interval hle hstop)
  rw [hpstart, hpstop]
  generalize 1 <<< (F.width - target.toNat) = size at *
  rw [Nat.succ_mul] at hstart
  have hle' : s.start.bits ≤ s.stop.bits := hle
  constructor
  · refine Nat.div_eq_of_lt_le ?_ ?_
    · omega
    · rw [Nat.succ_mul]
      omega
  · refine Nat.div_eq_of_lt_le ?_ ?_
    · omega
    · rw [Nat.succ_mul]
      omega

/-- The pieces of a span have the right shape. -/
theorem shaped_of_mem_pieces (hle : s.start ≤ s.stop) (htarget : target.toNat ≤ F.width) {x : Span F}
    (hx : x ∈ s.pieces target) : x.Shaped := by
  have hordered := ((pieces_tile hle target).bounds (List.mem_map_of_mem hx)).2.1
  obtain ⟨n, hn, rfl⟩ := List.mem_map.1 hx
  have hrange := List.mem_range'_1.1 hn
  obtain ⟨hstart, hstop⟩ := piece_div hle hrange.1 (show n ≤ _ by omega)
  refine ⟨htarget, hordered, ?_⟩
  show (s.piece target n).start.cut target.toNat = (s.piece target n).stop.cut target.toNat
  rw [Address.cut_eq_cut_iff, hstart, hstop]

/-- The ends of a span stand in one network of every length up to its own. -/
theorem Shaped.cut_eq (h : s.Shaped) {plen : Nat} (hle : plen ≤ s.plen.toNat) : s.start.cut plen = s.stop.cut plen :=
  Address.cut_eq_cut_of_le hle h.same_network

/-- So do all addresses in between. -/
theorem Shaped.cut_eq_of_between (h : s.Shaped) {a : Address F} (hstart : s.start ≤ a) (hstop : a ≤ s.stop) :
    s.start.cut s.plen.toNat = a.cut s.plen.toNat := by
  have hends := Address.cut_eq_cut_iff.1 h.same_network
  rw [Address.cut_eq_cut_iff]
  refine Nat.le_antisymm (Nat.div_le_div_right hstart) ?_
  rw [hends]
  exact Nat.div_le_div_right hstop

end Span

end AddressSpace
