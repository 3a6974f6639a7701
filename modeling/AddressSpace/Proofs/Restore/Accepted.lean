import AddressSpace.Proofs.Engine.Sound
import AddressSpace.Proofs.Table.Fill
/-!
# Which snapshots are accepted

Restoring puts the rows of a snapshot into tables one by one, and refuses the snapshot when one of them does not fit. It accepts
just the consistent ones, whose rows all have the right shape and in whose lists no two rows share an identifier or an address,
in whatever order they are listed (`restore_iff`). The engine that is made of a consistent snapshot is `Snapshot.engine`.
-/

namespace AddressSpace

open AddressSpace.Action

/-! ## Consistent snapshots -/

/-- Rows that can stand in one table: each passes the check of its shape, and no two share an identifier or an address. -/
structure Tabular {R : Type} [Row R] {F : Family} (span : R → Span F) (rows : List R) : Prop where
  shaped : ∀ r ∈ rows, (span r).checkShape = .ok ()
  ids : rows.Pairwise fun r s => Row.id r ≠ Row.id s
  disjoint : rows.Pairwise fun r s => (span r).interval.meets (span s).interval = false

instance {R : Type} [Row R] {F : Family} (span : R → Span F) (rows : List R) : Decidable (Tabular span rows) :=
  decidable_of_iff
    ((∀ r ∈ rows, (span r).checkShape = .ok ()) ∧ (rows.Pairwise fun r s => Row.id r ≠ Row.id s) ∧
      rows.Pairwise fun r s => (span r).interval.meets (span s).interval = false)
    ⟨fun h => ⟨h.1, h.2.1, h.2.2⟩, fun h => ⟨h.shaped, h.ids, h.disjoint⟩⟩

namespace Snapshot

/-- The rows of each of the four tables can stand in it. -/
structure Consistent (s : Snapshot) : Prop where
  v4Ranges : Tabular Range.span s.v4Ranges
  v6Ranges : Tabular Range.span s.v6Ranges
  supernets : Tabular Supernet.span s.supernets
  externals : Tabular ExternalRange.span s.externals

instance (s : Snapshot) : Decidable s.Consistent :=
  decidable_of_iff
    (Tabular Range.span s.v4Ranges ∧ Tabular Range.span s.v6Ranges ∧ Tabular Supernet.span s.supernets ∧
      Tabular ExternalRange.span s.externals)
    ⟨fun h => ⟨h.1, h.2.1, h.2.2.1, h.2.2.2⟩, fun h => ⟨h.v4Ranges, h.v6Ranges, h.supernets, h.externals⟩⟩

/-- The snapshots differ in the order of the rows of the four tables only. -/
structure Reordered (s s' : Snapshot) : Prop where
  v4Ranges : s.v4Ranges.Perm s'.v4Ranges
  v6Ranges : s.v6Ranges.Perm s'.v6Ranges
  supernets : s.supernets.Perm s'.supernets
  externals : s.externals.Perm s'.externals
  rest : s' = { s with
    v4Ranges := s'.v4Ranges, v6Ranges := s'.v6Ranges, supernets := s'.supernets, externals := s'.externals }

/-- The store of ranges with settled names. -/
def store {F : Family} (ranges : List (Range F)) : Store F := ⟨Table.empty.putBack (ranges.map Range.named), .empty⟩

/-- The engine that a consistent snapshot describes. -/
def engine (s : Snapshot) (limits : Limits) : Engine where
  v4 := ⟨store s.v4Ranges, .ofRecords s.v4Records, limits⟩
  v6 := ⟨store s.v6Ranges, .ofRecords s.v6Records, limits⟩
  supernets := Table.empty.putBack (s.supernets.map (Warehouse.rolledUp (store s.v4Ranges)))
  externals := Table.empty.putBack s.externals
  v4Notes := .ofList s.v4Notes
  v6Notes := .ofList s.v6Notes
  registry := .ofList s.asns

end Snapshot

/-! ## Rows that fit -/

section Fit

variable {R : Type} [Row R] {F : Family} {span : R → Span F} {rows : List R}

/-- Rows that are stored with their identifiers and bounds can stand in one table just when an empty one admits them. -/
theorem tabular_iff (stored : R → R) (hid : ∀ r, Row.id (stored r) = Row.id r)
    (hspan : ∀ r, Row.span (stored r) = (span r).interval) :
    Tabular span rows ↔ (∀ r ∈ rows, (span r).Shaped) ∧ (Table.empty : Table R).Admits (rows.map stored) := by
  have hapart : ∀ r s, Row.Apart (stored r) (stored s) ↔
      Row.id r ≠ Row.id s ∧ (span r).interval.meets (span s).interval = false := by
    intro r s
    rw [Row.Apart, hid, hid, hspan, hspan]
  constructor
  · intro h
    have hshaped : ∀ r ∈ rows, (span r).Shaped := fun r hr => Span.checkShape_eq_ok_iff.1 (h.shaped r hr)
    refine ⟨hshaped, List.forall_mem_map.2 fun r hr => ?_, List.pairwise_map.2 ?_, fun _ hs => nomatch hs⟩
    · rw [Row.Ordered, hspan]
      exact (hshaped r hr).first_le
    · exact (h.ids.and h.disjoint).imp fun h => (hapart _ _).2 h
  · rintro ⟨hshaped, h⟩
    have hpairs := (List.pairwise_map.1 h.apart).imp fun h => (hapart _ _).1 h
    exact ⟨fun r hr => Span.checkShape_eq_ok_iff.2 (hshaped r hr), hpairs.imp And.left, hpairs.imp And.right⟩

/-- Ranges that can stand in one table are admitted with their names settled. -/
theorem Tabular.admits_ranges {ranges : List (Range F)} (h : Tabular Range.span ranges) :
    (Table.empty : Table (Range F)).Admits (ranges.map Range.named) :=
  ((tabular_iff Range.named Range.named_id fun r => congrArg Span.interval r.named_span).1 h).2

/-- Supernets that can stand in one table are admitted with their rollups derived anew. -/
theorem Tabular.admits_supernets {supernets : List Supernet} (h : Tabular Supernet.span supernets) (ranges : Store .v4) :
    Table.empty.Admits (supernets.map (Warehouse.rolledUp ranges)) :=
  ((tabular_iff (Warehouse.rolledUp ranges) (fun _ => rfl) fun _ => rfl).1 h).2

/-- External ranges that can stand in one table are admitted as they are. -/
theorem Tabular.admits_externals {externals : List ExternalRange} (h : Tabular ExternalRange.span externals) :
    Table.empty.Admits externals := by
  rw [← List.map_id externals]
  exact ((tabular_iff id (fun _ => rfl) fun _ => rfl).1 h).2

/-- In which order the rows are listed does not matter. -/
theorem Tabular.perm {rows' : List R} (h : Tabular span rows) (hp : rows.Perm rows') : Tabular span rows' where
  shaped := fun r hr => h.shaped r (hp.mem_iff.2 hr)
  ids := (hp.pairwise_iff fun hab => hab.symm).1 h.ids
  disjoint := (hp.pairwise_iff fun hab => by rw [Interval.meets_comm]; exact hab).1 h.disjoint

end Fit

/-- Rows that can stand in the tables can do so in any order. -/
theorem Snapshot.Consistent.reordered {s s' : Snapshot} (h : s.Consistent) (hr : s.Reordered s') : s'.Consistent where
  v4Ranges := h.v4Ranges.perm hr.v4Ranges
  v6Ranges := h.v6Ranges.perm hr.v6Ranges
  supernets := h.supernets.perm hr.supernets
  externals := h.externals.perm hr.externals

/-- A shape that is refused is not the right one. -/
theorem Span.not_shaped {F : Family} {s : Span F} {f : Failure} (h : s.checkShape = .error f) : ¬s.Shaped := by
  intro hs
  cases (checkShape_eq_ok_iff (u := ())).2 hs ▸ h

/-- A row that is refused is not apart from all others. -/
theorem Table.not_apart {R : Type} [Row R] {t : Table R} (ht : t.Valid) {r : R} {f : Failure} (h : t.insert r = .error f) :
    ¬∀ s ∈ t, Row.Apart s r := by
  intro hs
  rw [(insert_eq_ok_iff ht).2 ⟨hs, rfl⟩] at h
  cases h

/-- A range is put in when its shape is right and it is apart from the others, and only then. -/
theorem Store.insert_fit {F : Family} (r : Range F) {t : Table (Range F)} (ht : t.Valid) :
    (discard (Store.insert r)).Ends ⟨t, .empty⟩
      (fun _ s => r.span.Shaped ∧ ∃ t', t.Swapped [] [r.named] t' ∧ s = ⟨t', .empty⟩)
      (fun _ _ => ¬(r.span.Shaped ∧ Row.Ordered r.named ∧ ∀ x ∈ t, Row.Apart x r.named)) := by
  refine ends_map .. |>.2 ?_
  unfold Store.insert
  simp only [ends_bind, ends_liftM, ends_get, ends_set, ends_pure]
  refine ⟨fun r' hr' => ?_, fun f hf h => ?_⟩
  · obtain ⟨hshaped, rfl⟩ := Range.prepare_eq_ok_iff.1 hr'
    refine ⟨fun t' ht' => ⟨hshaped, t', ?_, rfl⟩, fun f hf h => Table.not_apart ht hf h.2.2⟩
    exact Table.swapped_of_insert ht (Range.ordered_named hshaped) ht'
  · rw [Range.prepare_eq_ok_iff.2 ⟨h.1, rfl⟩] at hf
    cases hf

/-- A supernet is put in, with its rollup derived anew, when its shape is right and it is apart from the others, and only then. -/
theorem Warehouse.restore_fit (ranges : Store .v4) (s : Supernet) {t : Table Supernet} (ht : t.Valid) :
    (Warehouse.restore ranges s).Ends t
      (fun _ u => s.span.Shaped ∧ ∃ t', t.Swapped [] [Warehouse.rolledUp ranges s] t' ∧ u = t')
      (fun _ _ => ¬(s.span.Shaped ∧ Row.Ordered (Warehouse.rolledUp ranges s) ∧
        ∀ x ∈ t, Row.Apart x (Warehouse.rolledUp ranges s))) := by
  have hfails : (Warehouse.restore ranges s).Ends t (fun _ _ => True)
      (fun _ _ => ¬(s.span.Shaped ∧ ∀ x ∈ t, Row.Apart x s)) := by
    unfold Warehouse.restore
    simp only [ends_bind, ends_liftM, ends_get, ends_set, implies_true, true_and]
    exact ⟨fun _ _ f hf h => Table.not_apart ht hf h.2, fun f hf h => Span.not_shaped hf h.1⟩
  refine ((Warehouse.restore_ends ht s).and hfails).imp ?_ fun _ _ hf h => hf.2 ⟨h.1, h.2.2⟩
  rintro _ u ⟨⟨hshaped, hsw⟩, -⟩
  exact ⟨hshaped, u, hsw, rfl⟩

/-- An external range is put in when its shape is right and it is apart from the others, and only then. -/
theorem External.restore_fit (r : ExternalRange) {t : Table ExternalRange} (ht : t.Valid) :
    (External.restore r).Ends t (fun _ u => r.span.Shaped ∧ ∃ t', t.Swapped [] [r] t' ∧ u = t')
      (fun _ _ => ¬(r.span.Shaped ∧ Row.Ordered r ∧ ∀ x ∈ t, Row.Apart x r)) := by
  unfold External.restore
  simp only [ends_bind, ends_liftM, ends_get, ends_set]
  refine ⟨fun _ hcheck => ⟨fun t' ht' => ?_, fun f hf h => Table.not_apart ht hf h.2.2⟩, fun f hf h => Span.not_shaped hf h.1⟩
  have hshaped := Span.checkShape_eq_ok_iff.1 hcheck
  exact ⟨hshaped, t', Table.swapped_of_insert ht (External.ordered_of_shaped hshaped) ht', rfl⟩

/-! ## Restoring -/

namespace Engine

variable {e : Engine} {s : Snapshot} {limits : Limits}

/-- Saved ranges make the store of an empty pool when they can stand in one table, and are refused otherwise. -/
theorem restoreRanges_fit {F : Family} {start : Engine} (hstart : (start.pool F).store = .empty) (ranges : List (Range F)) :
    (restoreRanges F ranges).Ends start
      (fun _ e => Tabular Range.span ranges ∧ e = withPool F start { start.pool F with store := Snapshot.store ranges })
      (fun _ _ => ¬Tabular Range.span ranges) := by
  unfold restoreRanges onPool Pool.onStore
  have hfits := @tabular_iff _ _ _ _ ranges Range.named Range.named_id fun r => congrArg Span.interval r.named_span
  simp only [ends_on, hstart, hfits]
  have hrows := Table.forM_fill (fun t => (⟨t, .empty⟩ : Store F)) Range.named (fun r _ ht => Store.insert_fit r ht) ranges
    Table.empty .empty
  refine hrows.imp ?_ fun _ _ hf => hf
  rintro _ _ ⟨hfit, rfl⟩
  exact ⟨hfit, rfl⟩

/-- Saved supernets make their table, with their rollups derived anew, when they can stand in one, and are refused otherwise. -/
theorem restoreSupernets_fit (ranges : Store .v4) {start : Engine} (hstart : start.supernets = .empty)
    (supernets : List Supernet) :
    (onSupernets (supernets.forM (Warehouse.restore ranges))).Ends start
      (fun _ e => Tabular Supernet.span supernets ∧
        e = { start with supernets := Table.empty.putBack (supernets.map (Warehouse.rolledUp ranges)) })
      (fun _ _ => ¬Tabular Supernet.span supernets) := by
  have hfits := @tabular_iff _ _ _ Supernet.span supernets (Warehouse.rolledUp ranges) (fun _ => rfl) fun _ => rfl
  unfold onSupernets
  simp only [ends_on, hstart, hfits]
  have hrows := Table.forM_fill (fun t : Table Supernet => t) (Warehouse.rolledUp ranges)
    (fun s _ ht => Warehouse.restore_fit ranges s ht) supernets Table.empty .empty
  refine hrows.imp ?_ fun _ _ hf => hf
  rintro _ _ ⟨hfit, rfl⟩
  exact ⟨hfit, rfl⟩

/-- Saved external ranges make their table when they can stand in one, and are refused otherwise. -/
theorem restoreExternals_fit {start : Engine} (hstart : start.externals = .empty) (externals : List ExternalRange) :
    (onExternals (externals.forM External.restore)).Ends start
      (fun _ e => Tabular ExternalRange.span externals ∧ e = { start with externals := Table.empty.putBack externals })
      (fun _ _ => ¬Tabular ExternalRange.span externals) := by
  have hfits := @tabular_iff _ _ _ ExternalRange.span externals id (fun _ => rfl) fun _ => rfl
  unfold onExternals
  simp only [ends_on, hstart, hfits]
  have hrows := Table.forM_fill (fun t : Table ExternalRange => t) id (fun r _ ht => External.restore_fit r ht) externals
    Table.empty .empty
  refine hrows.imp ?_ fun _ _ hf => hf
  rintro _ _ ⟨hfit, rfl⟩
  exact ⟨hfit, by rw [List.map_id]⟩

/-- The rows of a snapshot are restored when the snapshot is consistent, and refused otherwise. -/
theorem restoreRows_fit (s : Snapshot) {start : Engine} (hv4 : start.v4.store = .empty) (hv6 : start.v6.store = .empty)
    (hsupernets : start.supernets = .empty) (hexternals : start.externals = .empty) :
    (restoreRows s).Ends start
      (fun _ e => s.Consistent ∧ e = { start with
        v4 := { start.v4 with store := Snapshot.store s.v4Ranges }
        v6 := { start.v6 with store := Snapshot.store s.v6Ranges }
        supernets := Table.empty.putBack (s.supernets.map (Warehouse.rolledUp (Snapshot.store s.v4Ranges)))
        externals := Table.empty.putBack s.externals })
      (fun _ _ => ¬s.Consistent) := by
  unfold restoreRows
  simp only [ends_bind, ends_get]
  refine (restoreRanges_fit (F := .v4) hv4 s.v4Ranges).imp ?_ fun _ _ hf h => hf (Snapshot.Consistent.v4Ranges h)
  rintro _ _ ⟨h4, rfl⟩
  refine (restoreRanges_fit (F := .v6) (by exact hv6) s.v6Ranges).imp ?_ fun _ _ hf h => hf (Snapshot.Consistent.v6Ranges h)
  rintro _ _ ⟨h6, rfl⟩
  refine (restoreSupernets_fit _ (by exact hsupernets) s.supernets).imp ?_ fun _ _ hf h => hf (Snapshot.Consistent.supernets h)
  rintro _ _ ⟨hs, rfl⟩
  refine (restoreExternals_fit (by exact hexternals) s.externals).imp ?_ fun _ _ hf h => hf (Snapshot.Consistent.externals h)
  rintro _ _ ⟨he, rfl⟩
  exact ⟨⟨h4, h6, hs, he⟩, rfl⟩

/-- A consistent snapshot is restored to the engine that it describes, and any other one is refused. -/
theorem restore_eq_ok_iff : restore s limits = .ok e ↔ s.Consistent ∧ e = s.engine limits := by
  let start : Engine :=
    { empty limits with
      v4 := { (empty limits).v4 with journal := .ofRecords s.v4Records }
      v6 := { (empty limits).v6 with journal := .ofRecords s.v6Records }
      registry := .ofList s.asns
      v4Notes := .ofList s.v4Notes
      v6Notes := .ofList s.v6Notes }
  have hrows := @restoreRows_fit s start rfl rfl rfl rfl
  unfold restore
  dsimp only
  split
  · next e' hrun =>
    obtain ⟨hs, rfl⟩ := hrows.ok_of_run hrun
    exact ⟨fun h => ⟨hs, (Except.ok.inj h).symm⟩, fun h => congrArg Except.ok h.2.symm⟩
  · next f e' hrun =>
    have hnot := hrows.fail_of_run (congrArg Prod.fst hrun)
    refine ⟨fun h => ?_, fun h => absurd h.1 hnot⟩
    cases h

/-- The same rows in another order make the same tables. -/
theorem engine_reordered {s' : Snapshot} (h : s.Consistent) (hr : s.Reordered s') (limits : Limits) :
    s'.engine limits = s.engine limits := by
  have hstore : ∀ {F : Family} {rs rs' : List (Range F)}, Tabular Range.span rs → rs.Perm rs' →
      Snapshot.store rs' = Snapshot.store rs := by
    intro F rs rs' htab hp
    exact congrArg (Store.mk · .empty) (Table.putBack_perm .empty htab.admits_ranges (hp.map _))
  have hv4 := hstore h.v4Ranges hr.v4Ranges
  have hv6 := hstore h.v6Ranges hr.v6Ranges
  have hsupernets : ∀ ranges, Table.empty.putBack (s'.supernets.map (Warehouse.rolledUp ranges)) =
      Table.empty.putBack (s.supernets.map (Warehouse.rolledUp ranges)) :=
    fun ranges => Table.putBack_perm .empty (h.supernets.admits_supernets ranges) (hr.supernets.map _)
  have hexternals : Table.empty.putBack s'.externals = Table.empty.putBack s.externals :=
    Table.putBack_perm .empty h.externals.admits_externals hr.externals
  rw [Snapshot.engine, hv4, hv6, hsupernets, hexternals, hr.rest]
  rfl

/-- A snapshot is accepted just when it is consistent. The engine then holds the listed ranges, of which only the names have been
trimmed or taken from their networks, and the listed external ranges as they are; and from the same rows in another order the same
engine is made. -/
theorem restore_iff (s : Snapshot) (limits : Limits) :
    ((∃ e, restore s limits = .ok e) ↔ s.Consistent) ∧
      ∀ e, restore s limits = .ok e →
        e.v4.store.toList.Perm (s.v4Ranges.map Range.named) ∧ e.v6.store.toList.Perm (s.v6Ranges.map Range.named) ∧
          e.externals.toList.Perm s.externals ∧ ∀ s', s.Reordered s' → restore s' limits = .ok e := by
  refine ⟨⟨fun ⟨e, h⟩ => (restore_eq_ok_iff.1 h).1, fun h => ⟨_, restore_eq_ok_iff.2 ⟨h, rfl⟩⟩⟩, fun e he => ?_⟩
  obtain ⟨h, rfl⟩ := restore_eq_ok_iff.1 he
  refine ⟨h.v4Ranges.admits_ranges.toList_perm, h.v6Ranges.admits_ranges.toList_perm,
    h.externals.admits_externals.toList_perm, fun s' hr => ?_⟩
  exact restore_eq_ok_iff.2 ⟨h.reordered hr, (engine_reordered h hr limits).symm⟩

/-- Two ranges in descending order, of which the first has no name and the second has one with spaces around it, and an external
range, in either order of the ranges. -/
theorem restore_iff_sample :
    let row (id n : Nat) (name : String) : Range .v4 :=
      ⟨.ofBits id, name, ⟨.ofBits .v4 (n * 256), .ofBits .v4 (n * 256 + 255), 24⟩, .wait, ⟨1, 64512, "AS64512"⟩, none, none, "", "",
        default, default⟩
    let block : ExternalRange :=
      ⟨.ofBits 3, "", ⟨.ofBits .v4 0, .ofBits .v4 255, 24⟩, 64512, "", "", "", "", "", default, default⟩
    let s : Snapshot := { Snapshot.empty with v4Ranges := [row 1 9 " ", row 2 8 " web "], externals := [block] }
    let s' : Snapshot := { s with v4Ranges := s.v4Ranges.reverse }
    s.Consistent ∧ ∃ e, restore s .standard = .ok e ∧ restore s' .standard = .ok e ∧
      e.v4.store.toList = [row 2 8 "web", row 1 9 "0.0.9.0/24"] ∧
      e.v4.store.toList.Perm [row 1 9 "0.0.9.0/24", row 2 8 "web"] := by
  intro row block s s'
  have hs : s.Consistent := by decide +kernel
  obtain ⟨e, he⟩ := (restore_iff s .standard).1.2 hs
  obtain ⟨hv4, -, -, hsame⟩ := (restore_iff s .standard).2 e he
  have hnames : s.v4Ranges.map Range.named = [row 1 9 "0.0.9.0/24", row 2 8 "web"] := by decide +kernel
  have hreordered : s.Reordered s' := ⟨(List.reverse_perm _).symm, .refl _, .refl _, .refl _, rfl⟩
  have hlisted : e.v4.store.toList = [row 2 8 "web", row 1 9 "0.0.9.0/24"] := by
    obtain ⟨-, rfl⟩ := restore_eq_ok_iff.1 he
    decide +kernel
  exact ⟨hs, e, he, hsame s' hreordered, hlisted, hnames ▸ hv4⟩

end Engine

end AddressSpace
