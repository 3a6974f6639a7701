import AddressSpace.Proofs.Engine.Sound
import AddressSpace.Proofs.Pool.Coherent
/-!
# Runs as a pool sees them

An ordinary operation on an engine is one step of each of its pools (`Change.pool_step`), so that what holds of an empty pool
and is kept by every step holds of the pools of all engines that ordinary operations lead to (`reached_pool`).
-/

namespace AddressSpace.Engine

open AddressSpace.Action

variable {e e' : Engine} {F : Family} {limits : Limits}

@[simp] theorem rangesChanged_pool (F G : Family) (spans : List (Span F)) (e : Engine) :
    (rangesChanged F spans e).pool G = e.pool G := by
  cases F <;> cases G <;> rfl

theorem pool_withPool_of_ne {F G : Family} (h : G ≠ F) (e : Engine) (p : Pool F) : (withPool F e p).pool G = e.pool G := by
  cases F <;> cases G <;> first | rfl | exact absurd rfl h

/-- The operations on supernets and external ranges leave everything else alone. -/
theorem aside_after (e : Engine) {op : Operation} (ho : op.aside = true) :
    ∃ supernets externals, op.after e = { e with supernets, externals } := by
  have hsupernets : ∀ {β : Type} (a : Action (Table Supernet) β),
      (onSupernets a).Ends e (fun _ e' => ∃ supernets externals, e' = { e with supernets, externals })
        (fun _ e' => ∃ supernets externals, e' = { e with supernets, externals }) :=
    fun a => ends_on .. |>.2 (Ends.of_forall (fun _ t => ⟨t, e.externals, rfl⟩) fun _ t => ⟨t, e.externals, rfl⟩)
  have hexternals : ∀ {β : Type} (a : Action (Table ExternalRange) β),
      (onExternals a).Ends e (fun _ e' => ∃ supernets externals, e' = { e with supernets, externals })
        (fun _ e' => ∃ supernets externals, e' = { e with supernets, externals }) :=
    fun a => ends_on .. |>.2 (Ends.of_forall (fun _ t => ⟨e.supernets, t, rfl⟩) fun _ t => ⟨e.supernets, t, rfl⟩)
  refine Ends.state (q := fun e' => ∃ supernets externals, e' = { e with supernets, externals }) ?_
  cases op with
  | createSupernet stamp input operator => exact ends_map .. |>.2 (ends_bind .. |>.2 (hsupernets _))
  | updateSupernet stamp id input operator => exact ends_map .. |>.2 (ends_bind .. |>.2 (hsupernets _))
  | deleteSupernet id => exact ends_map .. |>.2 (hsupernets _)
  | refreshSupernets spans => exact ⟨_, e.externals, rfl⟩
  | createExternal stamp input operator => exact ends_map .. |>.2 (hexternals _)
  | updateExternal stamp id input operator => exact ends_map .. |>.2 (hexternals _)
  | deleteExternal id => exact ends_map .. |>.2 (hexternals _)
  | _ => cases ho

/-- A change of the engine is a step of each pool. -/
theorem Change.pool_step (hc : Change e e') (h : e.Sound) (G : Family) :
    ∃ stamp user spans, Pool.Step stamp user (e.pool G) spans (e'.pool G) := by
  have hstay : ∃ stamp user spans, Pool.Step stamp user (e.pool G) spans (e.pool G) :=
    ⟨⟨default, fun _ => default, default⟩, none, [], .refl (h.pool G).toAtRest⟩
  cases hc with
  | @ranges F stamp user spans q hstep =>
    rw [followed, rangesChanged_pool]
    by_cases hG : G = F
    · subst hG
      rw [pool_withPool]
      exact ⟨stamp, user, spans, hstep⟩
    · rwa [pool_withPool_of_ne hG]
  | stocked hs =>
    obtain ⟨stamp, user, spans, q, ids, hq, rfl⟩ := hs
    cases G with
    | v4 => exact ⟨stamp, user, spans, hq.step⟩
    | v6 => exact hstay
  | supernets => cases G <;> exact hstay
  | refreshed => cases G <;> exact hstay
  | externals => cases G <;> exact hstay
  | aside => cases G <;> exact hstay

/-- An ordinary operation on a sound engine is a step of each pool. -/
theorem pool_step (h : e.Sound) {op : Operation} (ho : op.ordinary = true) (F : Family) :
    ∃ stamp user spans, Pool.Step stamp user (e.pool F) spans ((op.after e).pool F) :=
  (ordinary_change h ho).pool_step h F

/-! ## Limits -/

theorem Change.limits_eq (hc : Change e e') (h : e.Sound) (F : Family) : (e'.pool F).limits = (e.pool F).limits := by
  obtain ⟨_, _, _, _, _, _, -, hb⟩ := hc.pool_step h F
  exact hb.limits

theorem Bypass.limits_eq (hb : Bypass e e') (F : Family) : (e'.pool F).limits = (e.pool F).limits := by
  cases hb with
  | @stored G old new t hsw hs hn => cases F <;> cases G <;> rfl
  | journals v4 v6 => cases F <;> rfl

/-- No operation changes the limits. -/
theorem limits_after (h : e.Sound) (op : Operation) (F : Family) : ((op.after e).pool F).limits = (e.pool F).limits := by
  cases ho : op.ordinary with
  | true => exact (ordinary_change h ho).limits_eq h F
  | false => exact (bypass_change h ho).limits_eq F

/-- No operation changes the limits. -/
theorem reached_limits {allowed : Operation → Bool} {start : Engine} (h : start.Sound) (hr : Reached allowed start e)
    (F : Family) : (e.pool F).limits = (start.pool F).limits := by
  induction hr with
  | start => rfl
  | step op hr _ ih => exact (limits_after (reached_sound h hr) op F).trans ih

/-- A restored engine has the limits that it is restored under. -/
theorem restore_limits {s : Snapshot} (h : restore s limits = .ok e) (F : Family) : (e.pool F).limits = limits := by
  have hranges : ∀ (G : Family) (ranges : List (Range G)) (e : Engine), (∀ F, (e.pool F).limits = limits) →
      (restoreRanges G ranges).Ends e (fun _ e' => ∀ F, (e'.pool F).limits = limits) fun _ _ => True := by
    intro G ranges e he
    unfold restoreRanges onPool Pool.onStore
    simp only [ends_on]
    refine Ends.of_forall (fun _ t F => ?_) fun _ _ => trivial
    rw [← he F]
    cases F <;> cases G <;> rfl
  have hrows : ∀ e : Engine, (∀ F, (e.pool F).limits = limits) →
      (restoreRows s).Ends e (fun _ e' => ∀ F, (e'.pool F).limits = limits) fun _ _ => True := by
    intro e he
    unfold restoreRows onSupernets onExternals
    simp only [ends_bind, ends_get, ends_on]
    refine (hranges .v4 s.v4Ranges e he).imp (fun _ e₁ h₁ => ?_) fun _ _ _ => trivial
    refine (hranges .v6 s.v6Ranges e₁ h₁).imp (fun _ e₂ h₂ => ?_) fun _ _ _ => trivial
    refine Ends.of_forall (fun _ t => Ends.of_forall (fun _ u F => ?_) fun _ _ => trivial) fun _ _ => trivial
    rw [← h₂ F]
    cases F <;> rfl
  simp only [restore] at h
  split at h
  · rename_i hrun
    cases h
    exact (hrows _ fun F => by cases F <;> rfl).ok_of_run hrun F
  · cases h

/-! ## Runs -/

/-- What ordinary operations lead to from an empty engine is sound. -/
theorem reached_ordinary_sound (hr : Reached Operation.ordinary (empty limits) e) : e.Sound :=
  reached_sound (sound_empty limits) hr

@[simp] theorem pool_empty (F : Family) (limits : Limits) : (empty limits).pool F = .empty F limits := by cases F <;> rfl

/-- What holds of an empty pool and is kept by steps holds of every pool that is reached. -/
theorem reached_pool (keeps : Pool F → Prop) (hempty : keeps (.empty F limits))
    (hstep : ∀ (p q : Pool F) stamp user spans, p.store.Sound → keeps p → Pool.Step stamp user p spans q → keeps q)
    (hr : Reached Operation.ordinary (empty limits) e) : keeps (e.pool F) := by
  induction hr with
  | start => rwa [pool_empty]
  | @step e op hr ho ih =>
    have hsound := reached_ordinary_sound hr
    obtain ⟨stamp, user, spans, hq⟩ := pool_step hsound ho F
    exact hstep _ _ stamp user spans (hsound.pool F) ih hq

/-- In every pool that is reached, statuses and consumers belong together. -/
theorem reached_coherent (hr : Reached Operation.ordinary (empty limits) e) (F : Family) :
    ∀ r ∈ (e.pool F).store.table, r.Coherent :=
  reached_pool (fun p => ∀ r ∈ p.store.table, r.Coherent) (fun _ h => nomatch h) (fun _ _ _ _ _ _ hp hstep => hstep.coherent hp) hr

end AddressSpace.Engine
