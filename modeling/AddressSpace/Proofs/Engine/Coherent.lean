import AddressSpace.Proofs.Engine.Pools
/-!
# Statuses, consumers and times of assignment in all engines

Whether a range has a consumer and a time of assignment is told by its status, in every engine that operations lead to from one in
which it is so, as long as none of them goes past the pools to the stored rows (`coherent_after`, `Coherent.of_run`). From an empty
engine on it holds of all ranges (`consumers_of_reached`).
-/

namespace AddressSpace.Engine

open AddressSpace.Action

variable {e : Engine} {limits : Limits}

/-- All ranges of both families are coherent. -/
def Coherent (e : Engine) : Prop := ∀ F, ∀ r ∈ (e.pool F).store.table, r.Coherent

/-- The operations that write to a journal alone leave the stored ranges as they are, and all others that go through the pools
make a step of each. -/
theorem managed_step (h : e.Sound) {op : Operation} (ho : op.managed = true) (F : Family) :
    ((op.after e).pool F).store = (e.pool F).store ∨
      ∃ stamp user spans, Pool.Step stamp user (e.pool F) spans ((op.after e).pool F) := by
  cases hordinary : op.ordinary with
  | true => exact .inr (pool_step h hordinary F)
  | false =>
    left
    cases op with
    | insertRow G r => cases ho
    | transact G lock remove add => cases ho
    | closeJournal G => cases F <;> cases G <;> rfl
    | forget user => cases F <;> rfl
    | _ => cases hordinary

/-- A managed operation keeps all ranges coherent. -/
theorem coherent_after (h : e.Sound) (hc : e.Coherent) {op : Operation} (ho : op.managed = true) : (op.after e).Coherent := by
  intro F
  rcases managed_step h ho F with hsame | ⟨stamp, user, spans, hstep⟩
  · rw [hsame]
    exact hc F
  · exact hstep.coherent (hc F)

/-- Managed operations keep all ranges coherent, one after the other. -/
theorem Coherent.of_run {start : Engine} (h : start.Sound) (hc : start.Coherent) (hr : Reached Operation.managed start e) :
    e.Coherent := by
  induction hr with
  | start => exact hc
  | step op hr ho ih => exact coherent_after (reached_sound h hr) ih ho

theorem coherent_empty (limits : Limits) : (empty limits).Coherent := by
  intro F r hr
  rw [pool_empty] at hr
  cases hr

/-- In every engine that operations which leave the stored rows to the pools lead to from an empty one, whether they succeed or
fail, a range that waits has neither a consumer nor a time of assignment, a reserved one has a consumer but no such time, and an
assigned one has both. -/
theorem consumers_of_reached (hr : Reached Operation.managed (empty limits) e) (F : Family) :
    ∀ r ∈ (e.pool F).store.table,
      (r.status = .wait → r.org = none ∧ r.assignedAt = none) ∧
        (r.status = .reserved → r.org.isSome = true ∧ r.assignedAt = none) ∧
        (r.status = .assigned → r.org.isSome = true ∧ r.assignedAt.isSome = true) := by
  intro r hmem
  have hcoherent : r.Coherent := (coherent_empty limits).of_run (sound_empty limits) hr F r hmem
  unfold Range.Coherent at hcoherent
  refine ⟨fun hs => ?_, fun hs => ?_, fun hs => ?_⟩
  · rwa [hs] at hcoherent
  · rwa [hs] at hcoherent
  · rwa [hs] at hcoherent

/-- A reserved network is split, one half is assigned, and the other is taken back and put under a shorter length. -/
theorem consumers_of_reached_sample :
    let e := Operation.afterAll (Operation.sample ++ [.onRanges .v4 (.counting 32) none (.split (.ofBits 17) 25),
      .onRanges .v4 (.counting 48) none (.assign (.ofBits 32) ⟨"object", "org"⟩),
      .onRanges .v4 (.counting 49) none (.recover (.ofBits 33)),
      .onRanges .v4 (.counting 50) none (.merge [.ofBits 33] 24)]) (empty .standard)
    (e.v4.store.toList.map fun r => (r.span.plen, r.status, r.org.isSome, r.assignedAt.isSome)) =
        [(24, .assigned, true, true), (25, .assigned, true, true), (24, .wait, false, false)] ∧
      ∀ r ∈ (e.pool .v4).store.table, r.status = .wait → r.org = none ∧ r.assignedAt = none := by
  intro e
  have hreached : Reached Operation.managed (empty .standard) e := reached_afterAll _ rfl
  exact ⟨by decide +kernel, fun r hr => (consumers_of_reached hreached .v4 r hr).1⟩

end AddressSpace.Engine
