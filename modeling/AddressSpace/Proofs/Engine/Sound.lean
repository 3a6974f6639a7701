import AddressSpace.Proofs.Engine.Change
/-!
# Engines stay sound

An empty engine is sound, and so is one that is restored from a snapshot (`restore_sound`). Every change keeps an engine sound,
those that go past the pools included, so that in every engine that a run leads to, all four tables are valid and their rows
have the right shape (`tables_of_reached`).
-/

namespace AddressSpace.Engine

open AddressSpace.Action

variable {e e' : Engine} {F : Family}

/-- An empty engine is sound. -/
theorem sound_empty (limits : Limits) : (empty limits).Sound where
  v4 := ⟨.empty, fun _ h => (nomatch h), fun _ h => (nomatch h)⟩
  v6 := ⟨.empty, fun _ h => (nomatch h), fun _ h => (nomatch h)⟩
  supernets := .empty
  supernets_shaped := fun _ h => nomatch h
  externals := .empty
  externals_shaped := fun _ h => nomatch h

/-! ## One change -/

/-- A sound pool may be put into a sound engine. -/
theorem Sound.withPool {q : Pool F} (h : e.Sound) (hq : q.store.Sound) : (withPool F e q).Sound := by
  cases F with
  | v4 => exact { h with v4 := hq }
  | v6 => exact { h with v6 := hq }

/-- Supernets whose rollups are derived anew keep their bounds. -/
theorem Sound.refreshed (h : e.Sound) (ranges : Store .v4) (ids : List Identifier) :
    ({ e with supernets := (Warehouse.refreshIds ranges ids e.supernets).2 } : Engine).Sound := by
  obtain ⟨hvalid, hmem⟩ := Warehouse.refreshIds_spec ranges ids e.supernets h.supernets
  refine { h with supernets := hvalid, supernets_shaped := fun s hs => ?_ }
  obtain ⟨r, hr, rfl⟩ := (hmem s).1 hs
  have hspan : (Warehouse.rolledUpIf ranges ids r).span = r.span := by
    unfold Warehouse.rolledUpIf
    split
    · exact Warehouse.rolledUp_span ranges r
    · rfl
  rw [hspan]
  exact h.supernets_shaped r hr

/-- That supernets follow the ranges keeps an engine sound. -/
theorem Sound.rangesChanged (h : e.Sound) (spans : List (Span F)) : (rangesChanged F spans e).Sound := by
  cases F with
  | v4 => exact h.refreshed e.v4.store _
  | v6 => exact h

/-- A step of a pool keeps its store sound. -/
theorem store_sound_of_step {p q : Pool F} {stamp : Stamp} {user : Option String} {spans : List (Span F)}
    (h : p.store.Sound) (hstep : Pool.Step stamp user p spans q) : q.store.Sound := by
  obtain ⟨event, old, new, htr, hb⟩ := hstep
  exact ⟨hb.atRest, hb.table.all h.shaped hb.shaped, hb.table.all h.settled htr.settled⟩

/-- A step of a pool that supernets follow keeps an engine sound. -/
theorem Sound.followed {q : Pool F} {stamp : Stamp} {user : Option String} {spans : List (Span F)} (h : e.Sound)
    (hstep : Pool.Step stamp user (e.pool F) spans q) : (followed F e q spans).Sound :=
  (h.withPool (store_sound_of_step (h.pool F) hstep)).rangesChanged spans

/-- A change keeps an engine sound. -/
theorem Change.sound (hc : Change e e') (h : e.Sound) : e'.Sound := by
  cases hc with
  | ranges hstep => exact h.followed hstep
  | stocked hs =>
    obtain ⟨stamp, user, spans, q, ids, hq, rfl⟩ := hs
    have hrefreshed := (h.followed (F := .v4) hq.step).refreshed q.store ids
    exact { hrefreshed with }
  | supernets hsw hnew =>
    exact { h with
      supernets := hsw.valid
      supernets_shaped := hsw.all h.supernets_shaped fun s hs => (hnew s hs).1 }
  | refreshed ids => exact h.refreshed _ ids
  | externals hsw hnew =>
    exact { h with externals := hsw.valid, externals_shaped := hsw.all h.externals_shaped hnew }
  | aside v4Notes v6Notes registry => exact { h with }

/-- A bypass keeps an engine sound. -/
theorem Bypass.sound (hb : Bypass e e') (h : e.Sound) : e'.Sound := by
  cases hb with
  | @stored F _ _ _ hsw hnew hnames =>
    exact h.withPool ⟨⟨hsw.valid, rfl⟩, hsw.all (h.pool F).shaped hnew, hsw.all (h.pool F).settled hnames⟩
  | journals v4 v6 => exact { h with v4 := { h.v4 with }, v6 := { h.v6 with } }

/-! ## Runs -/

/-- Every operation keeps an engine sound, whether it succeeds or not. -/
theorem after_sound (h : e.Sound) (op : Operation) : (op.after e).Sound := by
  cases ho : op.ordinary with
  | true => exact (ordinary_change h ho).sound h
  | false => exact (bypass_change h ho).sound h

/-- All that operations lead to from a sound engine is sound. -/
theorem reached_sound {allowed : Operation → Bool} {start : Engine} (h : start.Sound) (hr : Reached allowed start e) :
    e.Sound := by
  induction hr with
  | start => exact h
  | step op _ _ ih => exact after_sound ih op

/-! ## Restored engines -/

/-- Ranges that are put back leave a sound engine. -/
theorem restoreRanges_ends (ranges : List (Range F)) (h : e.Sound) :
    (restoreRanges F ranges).Ends e (fun _ e' => e'.Sound) fun _ _ => True := by
  unfold restoreRanges onPool Pool.onStore
  simp only [ends_on]
  refine Ends.imp (ends_forM (q := Store.Sound) (fun r s hs => ?_) _ (h.pool F)) (fun _ s hs => h.withPool hs)
    fun _ _ _ => trivial
  refine ends_map .. |>.2 ((Store.insert_ends hs.valid r).imp ?_ fun _ _ _ => trivial)
  rintro _ t ⟨hshape, rfl, hlocks, hsw⟩
  have hspan : r.named.span.Shaped := (Range.named_span r).symm ▸ hshape
  exact ⟨⟨hsw.valid, hlocks.trans hs.unlocked⟩, hsw.all hs.shaped (List.forall_mem_singleton.2 hspan),
    hsw.all hs.settled (List.forall_mem_singleton.2 r.named_named)⟩

/-- Supernets that are put back leave a sound engine. -/
theorem restoreSupernets_ends (ranges : Store .v4) (supernets : List Supernet) (h : e.Sound) :
    (onSupernets (supernets.forM (Warehouse.restore ranges))).Ends e (fun _ e' => e'.Sound) fun _ _ => True := by
  unfold onSupernets
  rw [ends_on]
  refine Ends.imp (ends_forM (q := fun t : Table Supernet => t.Valid ∧ ∀ s ∈ t, s.span.Shaped) (fun s t ht => ?_) _
    ⟨h.supernets, h.supernets_shaped⟩) (fun _ t ht => { h with supernets := ht.1, supernets_shaped := ht.2 })
    fun _ _ _ => trivial
  refine (Warehouse.restore_ends ht.1 s).imp ?_ fun _ _ _ => trivial
  rintro _ t' ⟨hshape, hsw⟩
  exact ⟨hsw.valid, hsw.all ht.2 (List.forall_mem_singleton.2 hshape)⟩

/-- External ranges that are put back leave a sound engine. -/
theorem restoreExternals_ends (externals : List ExternalRange) (h : e.Sound) :
    (onExternals (externals.forM External.restore)).Ends e (fun _ e' => e'.Sound) fun _ _ => True := by
  unfold onExternals
  rw [ends_on]
  refine Ends.imp (ends_forM (q := fun t : Table ExternalRange => t.Valid ∧ ∀ r ∈ t, r.span.Shaped) (fun r t ht => ?_) _
    ⟨h.externals, h.externals_shaped⟩) (fun _ t ht => { h with externals := ht.1, externals_shaped := ht.2 })
    fun _ _ _ => trivial
  refine (External.restore_ends ht.1 r).imp ?_ fun _ _ _ => trivial
  rintro _ t' ⟨hshape, hsw⟩
  exact ⟨hsw.valid, hsw.all ht.2 (List.forall_mem_singleton.2 hshape)⟩

/-- An engine that is restored from a snapshot is sound, whatever the snapshot holds. -/
theorem restore_sound {s : Snapshot} {limits : Limits} (h : restore s limits = .ok e) : e.Sound := by
  have hrows : ∀ start : Engine, start.Sound → (restoreRows s).Ends start (fun _ e' => e'.Sound) fun _ _ => True := by
    intro start hstart
    unfold restoreRows
    simp only [ends_bind, ends_get]
    refine (restoreRanges_ends s.v4Ranges hstart).imp (fun _ e₁ h₁ => ?_) fun _ _ _ => trivial
    refine (restoreRanges_ends s.v6Ranges h₁).imp (fun _ e₂ h₂ => ?_) fun _ _ _ => trivial
    refine (restoreSupernets_ends e₂.v4.store s.supernets h₂).imp (fun _ e₃ h₃ => ?_) fun _ _ _ => trivial
    exact restoreExternals_ends s.externals h₃
  have hempty := sound_empty limits
  simp only [restore] at h
  split at h
  · rename_i hrun
    cases h
    refine (hrows _ ?_).ok_of_run hrun
    exact ⟨hempty.v4, hempty.v6, hempty.supernets, hempty.supernets_shaped, hempty.externals, hempty.externals_shaped⟩
  · cases h

/-- Both kinds of engine that runs start from are sound. -/
theorem sound_of_start {start : Engine}
    (h : (∃ limits, start = empty limits) ∨ ∃ snapshot limits, restore snapshot limits = .ok start) : start.Sound := by
  rcases h with ⟨limits, rfl⟩ | ⟨snapshot, limits, h⟩
  · exact sound_empty limits
  · exact restore_sound h

/-! ## All runs -/

/-- In every engine that operations lead to from an empty or a restored one, whether they succeed or fail, the two maps of each
table agree, its rows are disjoint, and every row passes the check of its shape. -/
theorem tables_of_reached {start e : Engine}
    (hs : (∃ limits, start = empty limits) ∨ ∃ snapshot limits, restore snapshot limits = .ok start)
    (hr : Reached (fun _ => true) start e) :
    (e.v4.store.table.Valid ∧ ∀ r ∈ e.v4.store.table, r.span.checkShape = .ok ()) ∧
      (e.v6.store.table.Valid ∧ ∀ r ∈ e.v6.store.table, r.span.checkShape = .ok ()) ∧
      (e.supernets.Valid ∧ ∀ s ∈ e.supernets, s.span.checkShape = .ok ()) ∧
      (e.externals.Valid ∧ ∀ r ∈ e.externals, r.span.checkShape = .ok ()) := by
  have h := reached_sound (sound_of_start hs) hr
  exact ⟨⟨h.v4.valid, fun r hr => Span.checkShape_eq_ok_iff.2 (h.v4.shaped r hr)⟩,
    ⟨h.v6.valid, fun r hr => Span.checkShape_eq_ok_iff.2 (h.v6.shaped r hr)⟩,
    ⟨h.supernets, fun s hs => Span.checkShape_eq_ok_iff.2 (h.supernets_shaped s hs)⟩,
    ⟨h.externals, fun r hr => Span.checkShape_eq_ok_iff.2 (h.externals_shaped r hr)⟩⟩

/-- A run that ends with a stored range being taken out by hand. -/
theorem tables_of_reached_sample :
    let e := Operation.afterAll (Operation.sample ++ [.transact .v4 [.ofBits 16] [.ofBits 16] []]) (empty .standard)
    (e.v4.store.table.Valid ∧ ∀ r ∈ e.v4.store.table, r.span.checkShape = .ok ()) ∧
      (e.v6.store.table.Valid ∧ ∀ r ∈ e.v6.store.table, r.span.checkShape = .ok ()) ∧
      (e.supernets.Valid ∧ ∀ s ∈ e.supernets, s.span.checkShape = .ok ()) ∧
      (e.externals.Valid ∧ ∀ r ∈ e.externals, r.span.checkShape = .ok ()) :=
  tables_of_reached (.inl ⟨.standard, rfl⟩) (reached_afterAll _ rfl)

end AddressSpace.Engine
