import Mathlib.Data.List.Forall2
import AddressSpace.Failure
/-!
# Outcomes that are values

A check is a chain of refusals, and it gives a value just when none of them applies. The rules here take such a chain apart,
one refusal at a time; rewriting with them turns "the check accepts" into the conjunction of what it has checked.
-/

namespace AddressSpace

variable {ε α β : Type}

/-- An outcome that is used has a value, from which the rest goes on. -/
theorem bind_eq_ok_iff {x : Except ε α} {f : α → Except ε β} {y : β} :
    (x >>= f) = .ok y ↔ ∃ a, x = .ok a ∧ f a = .ok y := by
  cases x with
  | error e => exact ⟨nofun, fun ⟨_, h, _⟩ => nomatch h⟩
  | ok a => exact ⟨fun h => ⟨a, rfl, h⟩, fun ⟨_, h, hf⟩ => Except.ok.inj h ▸ hf⟩

/-- A value is handed on. -/
theorem ok_bind (x : α) (f : α → Except Failure β) : (Except.ok x >>= f) = f x := rfl

/-- A check that is made on the way accepts. -/
theorem check_bind_eq_ok_iff {x : Except Failure Unit} {f : Unit → Except Failure β} {y : β} :
    (x >>= f) = .ok y ↔ x = .ok () ∧ f () = .ok y := by
  rw [bind_eq_ok_iff]
  exact ⟨fun ⟨_, h, hf⟩ => ⟨h, hf⟩, fun ⟨h, hf⟩ => ⟨(), h, hf⟩⟩

/-- A refusal that is made on the way does not apply. -/
theorem refuse_bind_eq_ok_iff {c : Prop} [Decidable c] {e : Failure} {k : PUnit → Except Failure α} {x : α} :
    (if c then throw e >>= k else k ()) = .ok x ↔ ¬c ∧ k () = .ok x := by
  by_cases hc : c
  · rw [if_pos hc]
    exact ⟨nofun, fun h => absurd hc h.1⟩
  · rw [if_neg hc]
    exact ⟨fun h => ⟨hc, h⟩, And.right⟩

/-- A last refusal does not apply. -/
theorem refuse_eq_ok_iff {c : Prop} [Decidable c] {e : Failure} {x : PUnit} :
    (if c then throw e else pure () : Except Failure PUnit) = .ok x ↔ ¬c := by
  by_cases hc : c
  · rw [if_pos hc]
    exact ⟨nofun, fun h => absurd hc h⟩
  · rw [if_neg hc]
    exact ⟨fun _ => hc, fun _ => rfl⟩

theorem pure_eq_ok_iff {x y : α} : (pure x : Except Failure α) = .ok y ↔ x = y :=
  ⟨fun h => Except.ok.inj h, fun h => h ▸ rfl⟩

/-- The image of a computation is a value when the computation gives one with that image. -/
theorem map_eq_ok_iff {x : Except Failure α} {f : α → β} {y : β} : x.map f = .ok y ↔ ∃ a, x = .ok a ∧ f a = y := by
  cases x <;> simp [Except.map]

/-- A failure with another wording is still none. -/
theorem mapError_eq_ok_iff {x : Except Failure α} {f : Failure → Failure} {y : α} :
    x.mapError f = .ok y ↔ x = .ok y := by
  cases x with
  | error e => exact ⟨nofun, nofun⟩
  | ok a => exact Iff.rfl

/-- A list of outcomes is a value when all of them are, with their values in order. -/
theorem mapM_eq_ok_iff {f : α → Except Failure β} {xs : List α} {ys : List β} :
    xs.mapM f = .ok ys ↔ List.Forall₂ (fun x y => f x = .ok y) xs ys := by
  induction xs generalizing ys with
  | nil =>
    rw [List.mapM_nil, pure_eq_ok_iff, List.forall₂_nil_left_iff, eq_comm]
  | cons x xs ih =>
    simp only [List.mapM_cons, bind_eq_ok_iff, pure_eq_ok_iff, ih, List.forall₂_cons_left_iff]
    constructor
    · rintro ⟨y, hy, zs, hzs, rfl⟩
      exact ⟨y, zs, hy, hzs, rfl⟩
    · rintro ⟨y, zs, hy, hzs, rfl⟩
      exact ⟨y, hy, zs, hzs, rfl⟩

/-- The outcome for a list depends on the outcomes for its members. -/
theorem mapM_congr {f g : α → Except Failure β} {xs : List α} (h : ∀ x ∈ xs, f x = g x) : xs.mapM f = xs.mapM g := by
  induction xs with
  | nil => rfl
  | cons x xs ih =>
    obtain ⟨hx, hxs⟩ := List.forall_mem_cons.1 h
    rw [List.mapM_cons, List.mapM_cons, hx, ih hxs]

/-- When all outcomes of a list are values, they make a list of values. -/
theorem exists_mapM_eq_ok {f : α → Except Failure β} {xs : List α} (h : ∀ x ∈ xs, ∃ y, f x = .ok y) :
    ∃ ys, xs.mapM f = .ok ys := by
  induction xs with
  | nil => exact ⟨[], rfl⟩
  | cons x xs ih =>
    obtain ⟨⟨y, hy⟩, hxs⟩ := List.forall_mem_cons.1 h
    obtain ⟨ys, hys⟩ := ih hxs
    exact ⟨y :: ys, mapM_eq_ok_iff.2 (.cons hy (mapM_eq_ok_iff.1 hys))⟩

/-- Checks of all members of a list accept when each of them does. -/
theorem forM_eq_ok_iff {f : α → Except Failure PUnit} {xs : List α} {u : PUnit} :
    xs.forM f = .ok u ↔ ∀ x ∈ xs, f x = .ok () := by
  induction xs with
  | nil => exact ⟨fun _ => by simp, fun _ => rfl⟩
  | cons x xs ih =>
    rw [List.forall_mem_cons, ← ih]
    exact check_bind_eq_ok_iff

end AddressSpace
