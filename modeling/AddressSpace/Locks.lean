import AddressSpace.Identifier
/-!
# Row locks

A caller names all rows it is going to read and write, and gets them together once none of them is held; it gives them
back together. Nobody holds some rows while waiting for others.
-/

namespace AddressSpace

/-- The rows that are held by somebody. -/
structure Locks where
  held : List Identifier
  deriving DecidableEq

/-- The rows that one caller holds. -/
structure Guard where
  ids : List Identifier
  deriving DecidableEq

namespace Locks

/-- No row is locked. -/
def empty : Locks := ⟨[]⟩

instance : Inhabited Locks := ⟨empty⟩

/-- Whether a row is locked. -/
def isLocked (l : Locks) (id : Identifier) : Bool := l.held.contains id

/-- Whether none of the rows is held, so that they can be acquired. -/
def areFree (l : Locks) (ids : List Identifier) : Bool := ids.all (!l.isLocked ·)

/-- Each member once, where it occurs first. -/
def distinct : List Identifier → List Identifier
  | [] => []
  | id :: ids => id :: (distinct ids).filter (· != id)

/-- Holds rows, to be called when they are free. A row named twice is held once. -/
def acquire (l : Locks) (ids : List Identifier) : Guard × Locks := (⟨distinct ids⟩, ⟨l.held ++ distinct ids⟩)

/-- Gives rows back. -/
def release (l : Locks) (g : Guard) : Locks := ⟨l.held.filter (!g.ids.contains ·)⟩

/-- Leaving out repetitions loses nobody. -/
theorem mem_distinct {id : Identifier} {ids : List Identifier} : id ∈ distinct ids ↔ id ∈ ids := by
  induction ids with
  | nil => simp [distinct]
  | cons d ds ih =>
    rw [distinct, List.mem_cons, List.mem_cons, List.mem_filter, ih]
    by_cases h : id = d <;> simp [h]

/-- Without repetitions everybody is named once. -/
theorem nodup_distinct (ids : List Identifier) : (distinct ids).Nodup := by
  induction ids with
  | nil => simp [distinct]
  | cons d ds ih =>
    rw [distinct, List.nodup_cons]
    exact ⟨by simp, ih.filter _⟩

/-- A row is held if it was held before, or is one of those acquired. -/
theorem isLocked_acquire (l : Locks) (ids : List Identifier) (id : Identifier) :
    (l.acquire ids).2.isLocked id = true ↔ l.isLocked id = true ∨ id ∈ ids := by
  simp [acquire, isLocked, mem_distinct]

/-- A row is held still unless it is one of those given back. -/
theorem isLocked_release (l : Locks) (g : Guard) (id : Identifier) :
    (l.release g).isLocked id = true ↔ l.isLocked id = true ∧ id ∉ g.ids := by
  simp [release, isLocked]

end Locks

/-- Locks with their callers, who are numbered from zero in the order in which they came; a caller who has given the
rows back has no guard any more. -/
structure LockRoom where
  locks : Locks
  guards : List (Option Guard)
  deriving DecidableEq

namespace LockRoom

/-- Nobody is inside, and no row is locked. -/
def empty : LockRoom := ⟨.empty, []⟩

/-- A new caller holds rows. -/
def enter (r : LockRoom) (ids : List Identifier) : Guard × LockRoom :=
  let (g, locks) := r.locks.acquire ids
  (g, ⟨locks, r.guards ++ [some g]⟩)

/-- The `n`-th caller gives the rows back, unless that has been done before. -/
def leave? (r : LockRoom) (n : Nat) : Option LockRoom :=
  match r.guards[n]? with
  | some (some g) => some ⟨r.locks.release g, r.guards.set n none⟩
  | _ => none

end LockRoom

end AddressSpace
