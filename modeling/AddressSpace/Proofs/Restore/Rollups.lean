import AddressSpace.Proofs.Restore.Accepted
import AddressSpace.Proofs.Supernet.Accurate
/-!
# Restored rollups

Restoring derives the rollup and the used addresses of a saved supernet anew, but takes its total as it is saved, and it is this
total that the rollup is told by. A restored supernet is therefore accurate just when its saved total is the number of its
addresses (`restored_rollups`); with another total it can say that one range covers it which covers only a part
(`restored_not_always_accurate`).
-/

namespace AddressSpace

namespace Warehouse

variable {ranges : Store .v4} {s : Supernet}

/-- A supernet whose rollup is derived is accurate just when its total is the number of its addresses. -/
theorem accurate_iff_total (ht : ranges.table.Valid) (hs : s.span.Shaped) (h : rolledUp ranges s = s) :
    s.Accurate ranges ↔ s.total.toNat = s.span.stop.bits - s.span.start.bits + 1 := by
  refine ⟨Supernet.Accurate.total, fun htotal => Current.accurate ⟨h, ?_⟩ ht hs⟩
  rw [← UInt64.toNat_inj, toNat_countWord_size, htotal, Span.size]
  have hle : s.span.start.bits ≤ s.span.stop.bits := hs.start_le
  omega

end Warehouse

namespace Engine

variable {e : Engine} {s : Snapshot} {limits : Limits}

/-- The supernets of a restored engine are the saved ones with their rollups derived anew. What each says of the ranges inside it
is derived from the restored ranges, and all that it says is true when, and only when, the total that it was saved with is. -/
theorem restored_rollups (h : restore s limits = .ok e) :
    e.supernets.toList.Perm (s.supernets.map (Warehouse.rolledUp e.v4.store)) ∧
      ∀ t ∈ e.supernets, t.Derived e.v4.store ∧
        (t.Accurate e.v4.store ↔ t.total.toNat = t.span.stop.bits - t.span.start.bits + 1) := by
  have hsound := restore_sound h
  obtain ⟨hs, rfl⟩ := restore_eq_ok_iff.1 h
  have hlisted := (hs.supernets.admits_supernets (Snapshot.store s.v4Ranges)).toList_perm
  refine ⟨hlisted, fun t ht => ?_⟩
  obtain ⟨u, -, rfl⟩ := List.mem_map.1 (hlisted.mem_iff.1 ((Table.mem_toList hsound.supernets).2 ht))
  exact ⟨Warehouse.derived_of_rolledUp hsound.v4.valid rfl,
    Warehouse.accurate_iff_total hsound.v4.valid (hsound.supernets_shaped _ ht) rfl⟩

/-- Two ranges inside a supernet that was saved as one with none: one of them is assigned. -/
theorem restored_rollups_sample :
    let row (id n : Nat) (status : Status) : Range .v4 :=
      ⟨.ofBits id, "", ⟨.ofBits .v4 (n * 256), .ofBits .v4 (n * 256 + 255), 24⟩, status, ⟨1, 64512, "AS64512"⟩, none, none, "", "",
        default, default⟩
    let block (rollup : Rollup) (used : UInt64) : Supernet :=
      ⟨.ofBits 3, "", ⟨.ofBits .v4 0, .ofBits .v4 1023, 22⟩, rollup, 64512, "", "", used, 1024, default, default⟩
    let s : Snapshot :=
      { Snapshot.empty with v4Ranges := [row 1 1 .assigned, row 2 2 .wait], supernets := [block .outOfWarehouse 7] }
    ∃ e, restore s .standard = .ok e ∧ e.supernets.toList = [block .divided 256] ∧
      (block .divided 256).Accurate e.v4.store := by
  intro row block s
  have hs : restore s .standard = .ok (s.engine .standard) := restore_eq_ok_iff.2 ⟨by decide +kernel, rfl⟩
  have hlisted : (s.engine .standard).supernets.toList = [block .divided 256] := by decide +kernel
  have hmem : block .divided 256 ∈ (s.engine .standard).supernets := by
    rw [← Table.mem_toList (restore_sound hs).supernets, hlisted]
    exact List.mem_singleton.2 rfl
  exact ⟨_, hs, hlisted, ((restored_rollups hs).2 _ hmem).2.2 (by decide +kernel)⟩

/-- A supernet that was saved with a total of one says after it is restored that the range inside covers it, which is half as
large. -/
theorem restored_not_always_accurate :
    ¬∀ (s : Snapshot) (limits : Limits) (e : Engine), restore s limits = .ok e →
      ∀ t ∈ e.supernets, t.Accurate e.v4.store := by
  intro hclaim
  let row : Range .v4 :=
    ⟨.ofBits 1, "lab", ⟨.ofBits .v4 256, .ofBits .v4 383, 25⟩, .wait, ⟨1, 64512, "AS64512"⟩, none, none, "", "", default, default⟩
  let block (rollup : Rollup) : Supernet :=
    ⟨.ofBits 2, "", ⟨.ofBits .v4 256, .ofBits .v4 511, 24⟩, rollup, 64512, "", "", 0, 1, default, default⟩
  let s : Snapshot := { Snapshot.empty with v4Ranges := [row], supernets := [block .divided] }
  have hs : restore s .standard = .ok (s.engine .standard) := restore_eq_ok_iff.2 ⟨by decide +kernel, rfl⟩
  have hlisted : (s.engine .standard).supernets.toList = [block .inWarehouse] := by decide +kernel
  have hmem : block .inWarehouse ∈ (s.engine .standard).supernets := by
    rw [← Table.mem_toList (restore_sound hs).supernets, hlisted]
    exact List.mem_singleton.2 rfl
  have haccurate := hclaim s .standard _ hs _ hmem
  obtain ⟨r, hwithin, -, hstop⟩ := haccurate.inWarehouse.1 rfl
  have hrow : (s.engine .standard).v4.store.within (block .inWarehouse).span = [row] := by decide +kernel
  cases List.head_eq_of_cons_eq (hrow.symm.trans hwithin)
  exact absurd hstop (by decide)

end Engine

end AddressSpace
