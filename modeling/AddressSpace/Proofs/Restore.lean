import AddressSpace.Proofs.Engine.Books
import AddressSpace.Proofs.Engine.Rollups
/-!
# Saving and restoring loses nothing

The rows of a valid table, put one by one into an empty one, make the table again (`Table.putBack_toList`). Every stored range has
a name that stays, every supernet is current and the registry and the notes are kept under their own keys, so that what restoring
checks, normalizes and derives anew is what was saved: the snapshot of an engine is restored to that engine, with its journals
open again (`restore_snapshot`).
-/

namespace AddressSpace

open AddressSpace.Action

/-! ## Tables -/

namespace Table

variable {R σ : Type} [Row R]

/-- A table is made again from its rows. -/
theorem putBack_toList {t : Table R} (h : t.Valid) : Table.empty.putBack t.toList = t := by
  have hmem : ∀ r, r ∈ t.toList ↔ r ∈ t := fun r => mem_toList h
  have hadmits : (Table.empty : Table R).Admits t.toList :=
    h.admits (fun _ hr => nomatch hr) (fun r hr => ⟨(hmem r).1 hr, fun hr => nomatch hr⟩) (nodup_toList h)
  obtain ⟨hvalid, hrows⟩ := putBack_of_admits t.toList Table.empty .empty hadmits
  refine hvalid.ext h fun r => ?_
  rw [hrows, hmem]
  exact ⟨fun hr => hr.elim (fun hr => nomatch hr) id, .inr⟩

/-- An action that adds any missing row of a valid table to a part of it adds all of them, one by one. -/
theorem forM_put {t₀ : Table R} (h₀ : t₀.Valid) {make : Table R → σ} {f : R → Action σ PUnit}
    (hf : ∀ r ∈ t₀, ∀ t : Table R, t.Valid → (∀ s ∈ t, s ∈ t₀ ∧ s ≠ r) →
      (f r).Ends (make t) (fun _ s => s = make (t.put r)) fun _ _ => False) {rows : List R} (hrows : ∀ r ∈ rows, r ∈ t₀)
    (hn : rows.Nodup) :
    ∀ t : Table R, t.Valid → (∀ s ∈ t, s ∈ t₀ ∧ s ∉ rows) →
      (rows.forM f).Ends (make t) (fun _ s => s = make (t.putBack rows)) fun _ _ => False := by
  induction rows with
  | nil => exact fun t _ _ => rfl
  | cons r rows ih =>
    intro t ht hsub
    obtain ⟨hr, hrows⟩ := List.forall_mem_cons.1 hrows
    obtain ⟨hnr, hn⟩ := List.nodup_cons.1 hn
    have hne : ∀ s ∈ t, s ∈ t₀ ∧ s ≠ r := fun s hs => ⟨(hsub s hs).1, fun he => (hsub s hs).2 (he ▸ List.mem_cons_self)⟩
    have hapart : ∀ s ∈ t, Row.Apart s r := fun s hs => h₀.apart (hne s hs).1 hr (hne s hs).2
    refine ends_bind .. |>.2 ((hf r hr t ht hne).imp ?_ fun _ _ h => h)
    rintro _ _ rfl
    refine ih hrows hn (t.put r) (valid_put ht (h₀.ordered r hr) hapart) fun s hs => ?_
    rcases (mem_put_of_apart hapart s).1 hs with rfl | hs
    · exact ⟨hr, hnr⟩
    · exact ⟨(hsub s hs).1, fun hmem => (hsub s hs).2 (List.mem_cons_of_mem _ hmem)⟩

/-- Adding all rows of a valid table to an empty one makes the table. -/
theorem forM_toList {t : Table R} (h : t.Valid) {make : Table R → σ} {f : R → Action σ PUnit}
    (hf : ∀ r ∈ t, ∀ u : Table R, u.Valid → (∀ s ∈ u, s ∈ t ∧ s ≠ r) →
      (f r).Ends (make u) (fun _ s => s = make (u.put r)) fun _ _ => False) :
    (t.toList.forM f).Ends (make Table.empty) (fun _ s => s = make t) fun _ _ => False := by
  have hall := forM_put h hf (fun r hr => (mem_toList h).1 hr) (nodup_toList h) Table.empty .empty fun _ hs => nomatch hs
  rwa [putBack_toList h] at hall

end Table

/-! ## Rows -/

/-- A row of a sound store is added to a part of the store as it is. -/
theorem Store.insert_back {F : Family} {s : Store F} (h : s.Sound) {r : Range F} (hr : r ∈ s.table) {t : Table (Range F)}
    (ht : t.Valid) (hsub : ∀ x ∈ t, x ∈ s.table ∧ x ≠ r) :
    (Store.insert r).Ends ⟨t, .empty⟩ (fun _ u => u = ⟨t.put r, .empty⟩) fun _ _ => False := by
  have hprepare : r.prepare = .ok r := Range.prepare_eq_ok_iff.2 ⟨h.shaped r hr, (h.settled r hr).symm⟩
  have hinsert : t.insert r = .ok (t.put r) :=
    (Table.insert_eq_ok_iff ht).2 ⟨fun x hx => h.valid.apart (hsub x hx).1 hr (hsub x hx).2, rfl⟩
  unfold Store.insert
  simp [hprepare, hinsert]

/-- A current supernet is added to a part of its table as it is. -/
theorem Warehouse.restore_back {ranges : Store .v4} {t₀ : Table Supernet} (h₀ : t₀.Valid)
    (hcurrent : ∀ s ∈ t₀, Warehouse.rolledUp ranges s = s) {s : Supernet} (hs : s ∈ t₀) (hshape : s.span.Shaped)
    {t : Table Supernet} (ht : t.Valid) (hsub : ∀ x ∈ t, x ∈ t₀ ∧ x ≠ s) :
    (Warehouse.restore ranges s).Ends t (fun _ u => u = t.put s) fun _ _ => False := by
  have hapart : ∀ x ∈ t, Row.Apart x s := fun x hx => h₀.apart (hsub x hx).1 hs (hsub x hx).2
  have hinsert : t.insert s = .ok (t.put s) := (Table.insert_eq_ok_iff ht).2 ⟨hapart, rfl⟩
  have hput : ∀ x ∈ t.put s, Warehouse.rolledUp ranges x = x := by
    intro x hx
    rcases (Table.mem_put_of_apart hapart x).1 hx with rfl | hx
    · exact hcurrent x hs
    · exact hcurrent x (hsub x hx).1
  have hnothing := Warehouse.refreshIds_of_current hput (Table.valid_put ht (h₀.ordered s hs) hapart) [s.id]
  have hcheck : s.span.checkShape = .ok () := Span.checkShape_eq_ok_iff.2 hshape
  unfold Warehouse.restore
  simp [hcheck, hinsert, hnothing]

/-- An external range is added to a part of its table as it is. -/
theorem External.restore_back {t₀ : Table ExternalRange} (h₀ : t₀.Valid) {r : ExternalRange} (hr : r ∈ t₀)
    (hshape : r.span.Shaped) {t : Table ExternalRange} (ht : t.Valid) (hsub : ∀ x ∈ t, x ∈ t₀ ∧ x ≠ r) :
    (External.restore r).Ends t (fun _ u => u = t.put r) fun _ _ => False := by
  have hinsert : t.insert r = .ok (t.put r) :=
    (Table.insert_eq_ok_iff ht).2 ⟨fun x hx => h₀.apart (hsub x hx).1 hr (hsub x hx).2, rfl⟩
  have hcheck : r.span.checkShape = .ok () := Span.checkShape_eq_ok_iff.2 hshape
  unfold External.restore
  simp [hcheck, hinsert]

/-! ## Engines -/

namespace Engine

variable {e : Engine} {limits : Limits}

/-- The engine with its journals open and under other limits. -/
def reopened (e : Engine) (limits : Limits) : Engine :=
  { e with v4 := ⟨e.v4.store, .ofRecords e.v4.journal.records, limits⟩
           v6 := ⟨e.v6.store, .ofRecords e.v6.journal.records, limits⟩ }

/-- The ranges of a pool are added to an engine whose pool is empty. -/
theorem restoreRanges_back {F : Family} {s : Store F} (h : s.Sound) {start : Engine} (hstart : (start.pool F).store = .empty) :
    (restoreRanges F s.toList).Ends start (fun _ e' => e' = withPool F start { start.pool F with store := s })
      fun _ _ => False := by
  have hs : s = ⟨s.table, .empty⟩ := h.toAtRest.eq_mk
  unfold restoreRanges onPool Pool.onStore
  simp only [ends_on, hstart]
  have hrows := Table.forM_toList (f := fun r => discard (Store.insert r)) h.valid
    fun r hr t ht hsub => ends_map .. |>.2 (Store.insert_back h hr ht hsub)
  refine hrows.imp ?_ fun _ _ hf => hf
  rintro _ _ rfl
  rw [← hs]

/-- An engine whose rows are all such as restoring makes of them is restored from its snapshot. -/
theorem restore_back (h : e.Sound) (hcurrent : e.Current) (hkeyed : e.Keyed) (limits : Limits) :
    restore e.snapshot limits = .ok (e.reopened limits) := by
  -- only the tables are left to be filled when the journals, the registry and the notes are there
  let start : Engine :=
    { e.reopened limits with
      v4 := ⟨.empty, .ofRecords e.v4.journal.records, limits⟩
      v6 := ⟨.empty, .ofRecords e.v6.journal.records, limits⟩
      supernets := .empty
      externals := .empty }
  have hrows : (restoreRows e.snapshot).Ends start (fun _ e' => e' = e.reopened limits) fun _ _ => False := by
    unfold restoreRows
    simp only [ends_bind, ends_get]
    refine (restoreRanges_back (F := .v4) h.v4 rfl).imp ?_ fun _ _ hf => hf
    rintro _ _ rfl
    refine (restoreRanges_back (F := .v6) h.v6 rfl).imp ?_ fun _ _ hf => hf
    rintro _ _ rfl
    unfold onSupernets onExternals
    simp only [ends_on]
    have hsupernets := Table.forM_toList (f := Warehouse.restore e.v4.store) h.supernets fun s hs t ht hsub =>
      Warehouse.restore_back h.supernets (fun s hs => (hcurrent s hs).rolledUp) hs (h.supernets_shaped s hs) ht hsub
    refine hsupernets.imp ?_ fun _ _ hf => hf
    rintro _ _ rfl
    have hexternals := Table.forM_toList (f := External.restore) h.externals fun r hr t ht hsub =>
      External.restore_back h.externals hr (h.externals_shaped r hr) ht hsub
    refine hexternals.imp ?_ fun _ _ hf => hf
    rintro _ _ rfl
    rfl
  have hregistry : Registry.ofList e.registry.values = e.registry := KeyMap.ofList_values hkeyed.registry
  have hv4Notes : Notes.ofList e.v4Notes.values = e.v4Notes := KeyMap.ofList_values hkeyed.v4Notes
  have hv6Notes : Notes.ofList e.v6Notes.values = e.v6Notes := KeyMap.ofList_values hkeyed.v6Notes
  unfold restore
  simp only [snapshot, hregistry, hv4Notes, hv6Notes]
  split
  · next e' hrun => rw [hrows.ok_of_run hrun]
  · next f e' hrun => exact (hrows.fail_of_run (congrArg Prod.fst hrun)).elim

/-- In every engine that ordinary operations lead to from an empty one, the snapshot is accepted, under any limits, and what is
restored from it is the engine with its journals open. The snapshot of that engine is the same again, in every field and in the
same order. -/
theorem restore_snapshot (hr : Reached Operation.ordinary (empty limits) e) (limits' : Limits) :
    restore e.snapshot limits' = .ok (e.reopened limits') ∧ (e.reopened limits').snapshot = e.snapshot :=
  ⟨restore_back (reached_ordinary_sound hr) (reached_current hr) (reached_keyed hr) limits', rfl⟩

/-- Two ranges, a supernet, a note and an AS, with four records. -/
theorem restore_snapshot_sample :
    let e := Operation.afterAll (Operation.sample ++ [.register 64512,
      .annotate .v6 (.counting 32) (.ofBits .v6 1) (some "gateway") none]) (empty .standard)
    (e.snapshot.v4Ranges.length = 2 ∧ e.snapshot.supernets.length = 1 ∧ e.snapshot.v6Notes.length = 1 ∧
      e.snapshot.asns.length = 1 ∧ e.snapshot.v4Records.length = 4) ∧
      restore e.snapshot .standard = .ok (e.reopened .standard) :=
  ⟨by decide +kernel, (restore_snapshot (reached_afterAll _ rfl) .standard).1⟩

end Engine

end AddressSpace
