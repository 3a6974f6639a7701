import AddressSpace.Proofs.Span.Networks
/-!
# Partitions

A partition of a span consists of spans of the right shape that tile it and are no shorter in length than it is. Cutting one of its
parts gives a partition again (`Partition.cut`), and the check of plans refuses a partition for its number of entries alone
(`Partition.checkPlan_eq`). The plans that are accepted and have entries of the right shape are just the partitions with no more
entries than a plan may have (`partition_iff_checkPlan`).
-/

namespace AddressSpace.Span

variable {F : Family} {s x : Span F} {target : UInt8}

/-- The spans tile `s`, have the right shape and lengths no shorter than that of `s`. -/
structure Partition (s : Span F) (parts : List (Span F)) : Prop where
  tiles : Interval.Tiles s.start.bits (s.stop.bits + 1) (parts.map interval)
  shaped : ∀ x ∈ parts, x.Shaped
  finer : ∀ x ∈ parts, s.plen ≤ x.plen

theorem Partition.refl (h : s.Shaped) : s.Partition [s] where
  tiles := ⟨rfl, h.first_le, rfl⟩
  shaped := fun _ hx => List.mem_singleton.1 hx ▸ h
  finer := fun _ hx => List.mem_singleton.1 hx ▸ UInt8.le_refl s.plen

/-- A part is replaced by its own parts. -/
theorem Partition.cut {before after parts : List (Span F)} (h : s.Partition (before ++ x :: after)) (hx : x.Partition parts) :
    s.Partition (before ++ parts ++ after) where
  tiles := by
    have htiles := h.tiles
    rw [List.map_append, Interval.tiles_append, List.map_cons] at htiles
    obtain ⟨m, hbefore, hfirst, hle, hafter⟩ := htiles
    have hparts : Interval.Tiles m (x.interval.last + 1) (parts.map interval) := hfirst ▸ hx.tiles
    rw [List.map_append, List.map_append]
    exact Interval.tiles_append.2 ⟨_, Interval.tiles_append.2 ⟨m, hbefore, hparts⟩, hafter⟩
  shaped := by
    intro y hy
    rcases List.mem_append.1 hy with hy | hy
    · rcases List.mem_append.1 hy with hy | hy
      · exact h.shaped y (by simp [hy])
      · exact hx.shaped y hy
    · exact h.shaped y (by simp [hy])
  finer := by
    intro y hy
    rcases List.mem_append.1 hy with hy | hy
    · rcases List.mem_append.1 hy with hy | hy
      · exact h.finer y (by simp [hy])
      · exact UInt8.le_trans (h.finer x (by simp)) (hx.finer y hy)
    · exact h.finer y (by simp [hy])

/-- A span in order has a part. -/
theorem Partition.ne_nil {parts : List (Span F)} (h : s.Partition parts) (hle : s.start ≤ s.stop) : parts ≠ [] := by
  rintro rfl
  have hbits : s.start.bits = s.stop.bits + 1 := h.tiles
  have hle' : s.start.bits ≤ s.stop.bits := hle
  omega

/-! ## Subnets -/

theorem plen_of_mem_pieces (h : x ∈ s.pieces target) : x.plen = target := by
  obtain ⟨n, -, rfl⟩ := List.mem_map.1 h
  rfl

/-- A span in order has a subnet of every length. -/
theorem pieces_ne_nil (h : s.start ≤ s.stop) : s.pieces target ≠ [] := by
  intro hnil
  have htile := pieces_tile h target
  rw [hnil] at htile
  have hbits : s.start.bits = s.stop.bits + 1 := htile
  have hle : s.start.bits ≤ s.stop.bits := h
  omega

/-- The subnets of a span are a partition of it. -/
theorem partition_pieces (h : s.start ≤ s.stop) (hle : s.plen ≤ target) (hwidth : target.toNat ≤ F.width) :
    s.Partition (s.pieces target) where
  tiles := pieces_tile h target
  shaped := fun _ hx => shaped_of_mem_pieces h hwidth hx
  finer := fun _ hx => plen_of_mem_pieces hx ▸ hle

/-- There is one subnet for each network from that of the first address to that of the last. -/
theorem length_pieces (s : Span F) (target : UInt8) : (s.pieces target).length =
    s.stop.bits / (1 <<< (F.width - target.toNat)) + 1 - s.start.bits / (1 <<< (F.width - target.toNat)) := by
  simp only [pieces, List.length_map, List.length_range']

/-- A span inside one network has no more subnets than the network has. -/
theorem length_pieces_le (h : s.Shaped) (hle : s.plen.toNat ≤ target.toNat) (hwidth : target.toNat ≤ F.width) :
    (s.pieces target).length ≤ 1 <<< (target.toNat - s.plen.toNat) := by
  have hnetwork := Address.cut_eq_cut_iff.1 h.same_network
  -- a network of the span's length consists of so many networks of the target length
  have hsize : 1 <<< (F.width - s.plen.toNat) = 1 <<< (F.width - target.toNat) * 1 <<< (target.toNat - s.plen.toNat) :=
    Mask.size_eq_mul (by omega)
  rw [hsize, ← Nat.div_div_eq_div_mul, ← Nat.div_div_eq_div_mul] at hnetwork
  have hcount : 0 < 1 <<< (target.toNat - s.plen.toNat) := Nat.pos_of_neZero _
  rw [length_pieces]
  generalize 1 <<< (target.toNat - s.plen.toNat) = count at hnetwork hcount ⊢
  generalize s.start.bits / 1 <<< (F.width - target.toNat) = first at hnetwork ⊢
  generalize s.stop.bits / 1 <<< (F.width - target.toNat) = last at hnetwork ⊢
  have hfirst := Nat.div_mul_le_self first count
  have hlast := Nat.lt_mul_div_succ last hcount
  rw [hnetwork, Nat.mul_comm] at hfirst
  rw [Nat.mul_succ] at hlast
  omega

/-! ## Plans -/

/-- A plan that tiles the span with entries of accepted lengths is accepted unless it has too many entries. -/
theorem checkPlan_of_tiles {plan : List (Span F)} (hle : s.start ≤ s.stop)
    (hplen : ∀ x ∈ plan, s.plen ≤ x.plen ∧ x.plen.toNat ≤ F.width)
    (htiles : Interval.Tiles s.start.bits (s.stop.bits + 1) (plan.map interval)) (most : Nat) :
    s.checkPlan plan most = if most < plan.length then .error (.planTooLong plan.length most) else .ok () := by
  have hentries : checkEntries s none plan = .ok () := by
    refine checkEntries_eq_ok_iff.2 ⟨fun x hx => ⟨(hplen x hx).1, (hplen x hx).2, ?_⟩, chain_of_tiles htiles⟩
    exact (htiles.bounds (List.mem_map_of_mem hx)).2.1
  cases plan with
  | nil => exact absurd (htiles : s.start.bits = s.stop.bits + 1) (Nat.ne_of_lt (Nat.lt_succ_of_le hle))
  | cons first rest =>
    obtain ⟨last, hlast⟩ : ∃ last, (first :: rest).getLast? = some last := ⟨_, List.getLast?_eq_some_getLast (by simp)⟩
    obtain ⟨hstart, hstop⟩ := ends_of_tiles htiles rfl hlast
    unfold checkPlan
    simp only [List.head?_cons, hlast, hstart, hstop, hentries]
    by_cases hlong : most < (first :: rest).length
    · rw [if_pos hlong, if_pos hlong]
      rfl
    · rw [if_neg hlong, if_neg hlong, if_neg (by simp), if_neg (by simp)]

/-- A partition is accepted as a plan unless it has too many entries. -/
theorem Partition.checkPlan_eq {plan : List (Span F)} (h : s.Partition plan) (hle : s.start ≤ s.stop) (most : Nat) :
    s.checkPlan plan most = if most < plan.length then .error (.planTooLong plan.length most) else .ok () :=
  checkPlan_of_tiles hle (fun x hx => ⟨h.finer x hx, (h.shaped x hx).plen_le⟩) h.tiles most

/-- The partitions with no more entries than a plan may have are the plans that are accepted and have entries of the right shape. -/
theorem partition_iff_checkPlan {plan : List (Span F)} {most : Nat} (hle : s.start ≤ s.stop) :
    s.Partition plan ∧ plan.length ≤ most ↔ s.checkPlan plan most = .ok () ∧ ∀ x ∈ plan, x.Shaped := by
  constructor
  · rintro ⟨h, hmost⟩
    refine ⟨?_, h.shaped⟩
    rw [h.checkPlan_eq hle, if_neg (Nat.not_lt.2 hmost)]
  · rintro ⟨h, hshaped⟩
    obtain ⟨hmost, -, -, -, -, -, -, hentries⟩ := entries_of_checkPlan h
    exact ⟨⟨tiles_of_checkPlan h, hshaped, fun x hx => ((checkEntries_eq_ok_iff.1 hentries).1 x hx).1⟩, hmost⟩

end AddressSpace.Span
