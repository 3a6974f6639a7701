import AddressSpace.Proofs.Engine.Pools
import AddressSpace.Proofs.Supernet.Accurate
import AddressSpace.Proofs.Supernet.Follow
/-!
# Rollups never go stale

Every change of an engine by an ordinary operation keeps all its supernets current (`Change.current`). What they say of their
addresses and of the ranges inside them is therefore true in every engine that ordinary operations lead to, and deriving all
rollups anew does nothing there (`rollups_of_reached`).
-/

namespace AddressSpace.Engine

variable {e e' : Engine} {F : Family} {limits : Limits}

/-- All supernets are current. -/
def Current (e : Engine) : Prop := ∀ s ∈ e.supernets, Warehouse.Current e.v4.store s

theorem current_empty (limits : Limits) : (empty limits).Current := fun _ h => nomatch h

/-- Where all supernets are current, nothing is derived anew. -/
theorem Current.refreshIds (hc : e.Current) (h : e.Sound) (ids : List Identifier) :
    Warehouse.refreshIds e.v4.store ids e.supernets = (0, e.supernets) :=
  Warehouse.refreshIds_of_current (fun s hs => (hc s hs).rolledUp) h.supernets ids

/-- The supernets follow a step of a pool. -/
theorem Current.followed {stamp : Stamp} {user : Option String} {spans : List (Span F)} {q : Pool F} (hc : e.Current)
    (h : e.Sound) (hstep : Pool.Step stamp user (e.pool F) spans q) : (followed F e q spans).Current := by
  cases F with
  | v4 =>
    obtain ⟨event, old, new, htr, hb⟩ := hstep
    exact Warehouse.refresh_current h.supernets hc h.v4.valid hb.table htr
  | v6 => exact hc

/-- Once the supernets have followed a step of the 32-bit pool, there is nothing left to derive anew. -/
theorem Current.refreshIds_followed {stamp : Stamp} {user : Option String} {spans : List (Span .v4)} {q : Pool .v4}
    (hc : e.Current) (h : e.Sound) (hstep : Pool.Step stamp user e.v4 spans q) (ids : List Identifier) :
    Warehouse.refreshIds q.store ids (Engine.followed .v4 e q spans).supernets =
      (0, (Engine.followed .v4 e q spans).supernets) :=
  have hfollowed : (Engine.followed .v4 e q spans).Current := hc.followed (F := .v4) h hstep
  hfollowed.refreshIds (h.followed (F := .v4) hstep) ids

/-- A change keeps all supernets current. -/
theorem Change.current (hchange : Change e e') (h : e.Sound) (hc : e.Current) : e'.Current := by
  cases hchange with
  | ranges hstep => exact hc.followed h hstep
  | stocked hs =>
    obtain ⟨stamp, user, spans, q, ids, hq, rfl⟩ := hs
    rw [hc.refreshIds_followed h hq.step]
    exact hc.followed (F := .v4) h hq.step
  | supernets hsw hnew => exact hsw.all hc fun s hs => (hnew s hs).2
  | refreshed ids =>
    rw [hc.refreshIds h ids]
    exact hc
  | externals => exact hc
  | aside => exact hc

/-- Ordinary operations from an empty engine keep all supernets current. -/
theorem reached_current (hr : Reached Operation.ordinary (empty limits) e) : e.Current := by
  induction hr with
  | start => exact current_empty limits
  | step op hr ho ih =>
    have hsound := reached_ordinary_sound hr
    exact (ordinary_change hsound ho).current hsound ih

/-- In every engine that ordinary operations lead to from an empty one, the numbers and the rollup of each supernet are true of
the stored ranges, and deriving all rollups anew tells that none has changed and changes nothing. -/
theorem rollups_of_reached (hr : Reached Operation.ordinary (empty limits) e) :
    (∀ s ∈ e.supernets, s.Accurate e.v4.store) ∧ (refreshSupernets none).run e = (.ok 0, e) := by
  have hsound := reached_ordinary_sound hr
  have hcurrent := reached_current hr
  refine ⟨fun s hs => ?_, ?_⟩
  · exact (hcurrent s hs).accurate hsound.v4.valid (hsound.supernets_shaped s hs)
  · have hnothing : Warehouse.refreshAll e.v4.store e.supernets = (0, e.supernets) := hcurrent.refreshIds hsound _
    change (Except.ok (Warehouse.refreshAll e.v4.store e.supernets).1,
      { e with supernets := (Warehouse.refreshAll e.v4.store e.supernets).2 }) = (Except.ok 0, e)
    rw [hnothing]

/-- One supernet, with two ranges inside of which one is assigned. -/
theorem rollups_of_reached_sample :
    let e := Operation.afterAll Operation.sample (empty .standard)
    (e.supernets.toList.map fun s => (s.total, s.used, s.rollup)) = [(1024, 256, .divided)] ∧
      ∀ s ∈ e.supernets, s.Accurate e.v4.store :=
  ⟨by decide +kernel, (rollups_of_reached (reached_afterAll Operation.sample rfl)).1⟩

end AddressSpace.Engine
