import AddressSpace.Proofs.Engine.Sound
/-!
# All or nothing

An operation that fails has done nothing. Most fail before they have changed anything; a swap of rows that fails on one of the rows
that it puts in has changed the table by then, and undoes what it has done. Only the operation that registers an AS number on its
way may fail with the number registered, and is left out (`Operation.atomic`).
-/

namespace AddressSpace.Engine

open AddressSpace.Action

variable {e : Engine}

/-- When an operation on a sound engine fails, the engine is what it was. -/
theorem fails_unchanged (h : e.Sound) {op : Operation} (ha : op.atomic = true) :
    op.perform.Ends e (fun _ _ => True) (fun _ e' => e' = e) := by
  cases ho : op.ordinary with
  | true => exact (atomic_ends h ho ha).imp (fun _ _ _ => trivial) fun _ _ he => he
  | false => exact (bypass_ends h ho).imp (fun _ _ _ => trivial) fun _ _ he => he

/-- In every engine that operations lead to from an empty or a restored one, an operation that fails leaves the engine as it is,
and so its snapshot. This holds of the operations on ranges, supernets and external ranges, and of transactions that take out and
put in any stored rows. -/
theorem unchanged_of_error {start : Engine}
    (hs : (∃ limits, start = empty limits) ∨ ∃ snapshot limits, restore snapshot limits = .ok start)
    (hr : Reached (fun _ => true) start e) {op : Operation} (ha : op.atomic = true) {f : Failure}
    (hf : (op.perform.run e).1 = .error f) : op.after e = e ∧ (op.after e).snapshot = e.snapshot := by
  have hsame : op.after e = e := (fails_unchanged (reached_sound (sound_of_start hs) hr) ha).fail_of_run hf
  exact ⟨hsame, congrArg snapshot hsame⟩

/-- A transaction takes out a range and puts in two, of which the second overlaps the range next to it. -/
theorem unchanged_of_error_sample :
    let e := Operation.afterAll Operation.sample (empty .standard)
    let row (id n : Nat) : Range .v4 :=
      .build (.ofBits id) "" ⟨.ofBits .v4 (n * 256), .ofBits .v4 (n * 256 + 255), 24⟩ ⟨1, 64512, "AS64512"⟩ default
    let op := Operation.transact .v4 [.ofBits 16] [.ofBits 16] [row 32 1, row 33 2]
    (op.perform.run e).1 = .error (.overlap (.ofBits 17)) ∧ op.after e = e ∧ (op.after e).snapshot = e.snapshot := by
  intro e row op
  have hf : (op.perform.run e).1 = .error (.overlap (.ofBits 17)) := by decide +kernel
  exact ⟨hf, unchanged_of_error (.inl ⟨.standard, rfl⟩) (reached_afterAll Operation.sample rfl) rfl hf⟩

end AddressSpace.Engine
