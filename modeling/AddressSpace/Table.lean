import AddressSpace.Action
import AddressSpace.KeyMap
/-!
# Interval tables

Rows with an identifier and a span of numbers. A table keeps its rows by identifier and an index from the number at
which a row starts to its identifier. As no two rows overlap, starts are unique, and the nearest row that starts at or
below a number is the only one that can reach it: one look into the index answers what overlaps a span and what holds
a number.
-/

namespace AddressSpace

/-- What a table needs to know of a row. -/
class Row (R : Type) where
  id : R → Identifier
  span : R → Interval

/-- Rows by identifier, and identifiers by the start of their rows. -/
structure Table (R : Type) where
  rows : KeyMap R
  index : KeyMap Identifier
  deriving DecidableEq

namespace Table

variable {R : Type}

/-- The table without rows. -/
def empty : Table R := ⟨.empty, .empty⟩

instance : Inhabited (Table R) := ⟨empty⟩

/-- The number of rows. -/
def size (t : Table R) : Nat := t.rows.size

/-- Whether there are no rows. -/
def isEmpty (t : Table R) : Bool := t.size == 0

/-- The row with the identifier. -/
def get? (t : Table R) (id : Identifier) : Option R := t.rows.get? id.bits

/-- The rows in ascending order of their starts. -/
def toList (t : Table R) : List R := t.index.values.filterMap t.get?

variable [Row R]

/-! ## Queries -/

/-- A row that overlaps the span, those with the identifiers `exclude` aside. -/
def overlapping? (t : Table R) (i : Interval) (exclude : List Identifier) : Option R :=
  match (t.index.downFrom i.last).find? (!exclude.contains ·) with
  | none => none
  | some id => (t.get? id).filter fun r => i.first ≤ (Row.span r).last

/-- The row whose span holds the number. -/
def containing? (t : Table R) (n : Nat) : Option R :=
  match (t.index.downFrom n).head? with
  | none => none
  | some id => (t.get? id).filter fun r => n ≤ (Row.span r).last

/-- The rows that lie inside the span, in ascending order. -/
def inside (t : Table R) (i : Interval) : List R :=
  ((t.index.between i.first i.last).filterMap t.get?).filter fun r => (Row.span r).last ≤ i.last

/-- Refuses a span that overlaps a row, those with the identifiers `exclude` aside. -/
def checkFree (t : Table R) (i : Interval) (exclude : List Identifier) : Except Failure Unit :=
  match t.overlapping? i exclude with
  | some r => .error (.overlap (Row.id r))
  | none => .ok ()

/-! ## Changes -/

/-- Puts a row in, whatever was there. -/
def put (t : Table R) (r : R) : Table R :=
  ⟨t.rows.insert (Row.id r).bits r, t.index.insert (Row.span r).first (Row.id r)⟩

/-- Takes a row out. -/
def remove? (t : Table R) (id : Identifier) : Option (R × Table R) :=
  (t.get? id).map fun r => (r, ⟨t.rows.erase id.bits, t.index.erase (Row.span r).first⟩)

/-- A row that was put is found under its identifier, and other identifiers find what they found before. -/
theorem get?_put (t : Table R) (r : R) (id : Identifier) :
    (t.put r).get? id = if id = Row.id r then some r else t.get? id := by
  have h : id.bits = (Row.id r).bits ↔ id = Row.id r := ⟨Identifier.ext_bits, fun h => h ▸ rfl⟩
  simp only [get?, put, KeyMap.get?_insert, h]

/-- Taking a row out gives that row, and leaves the others. -/
theorem get?_of_remove? {t t' : Table R} {id : Identifier} {r : R} (h : t.remove? id = some (r, t'))
    (j : Identifier) : t.get? id = some r ∧ t'.get? j = if j = id then none else t.get? j := by
  obtain ⟨s, hs, he⟩ := Option.map_eq_some_iff.1 h
  rw [Prod.mk.injEq] at he
  obtain ⟨rfl, rfl⟩ := he
  have hj : j.bits = id.bits ↔ j = id := ⟨Identifier.ext_bits, fun h => h ▸ rfl⟩
  exact ⟨hs, by simp only [get?, KeyMap.get?_erase, hj]⟩

/-- Adds a row with a new identifier, in free space. -/
def insert (t : Table R) (r : R) : Except Failure (Table R) := do
  if (t.get? (Row.id r)).isSome then
    throw (.rowExists (Row.id r))
  t.checkFree (Row.span r) []
  return t.put r

/-- Replaces the row with the same identifier, which is given back; the new row may reach into the old one's space. -/
def replace (t : Table R) (r : R) : Except Failure (R × Table R) := do
  t.checkFree (Row.span r) [Row.id r]
  match t.remove? (Row.id r) with
  | none => throw (.noRow (Row.id r))
  | some (old, t) => return (old, t.put r)

/-- Puts rows back that were taken out. -/
def putBack (t : Table R) (rows : List R) : Table R := rows.foldl put t

/-- Takes out rows that were put in. -/
def takeBack (t : Table R) (ids : List Identifier) : Table R :=
  ids.foldl (fun t id => match t.remove? id with
    | some (_, t) => t
    | none => t) t

/-- Takes out rows on top of those taken out before, all of which are put back when one is missing. -/
def takeOut (taken : List R) : List Identifier → Action (Table R) (List R)
  | [] => pure taken
  | id :: ids => do
    match (← get).remove? id with
    | some (r, t) =>
      set t
      takeOut (r :: taken) ids
    | none =>
      modify (·.putBack taken)
      throw (.noRow id)

/-- Puts in rows on top of those with the identifiers `added`. When one does not fit, these are taken out again and the
rows `taken` are put back. -/
def putIn (taken : List R) (added : List Identifier) : List R → Action (Table R) Unit
  | [] => pure ()
  | r :: rs => do
    match (← get).insert r with
    | .ok t =>
      set t
      putIn taken (Row.id r :: added) rs
    | .error e =>
      modify fun t => (t.takeBack added).putBack taken
      throw e

/-- Takes out the rows with the identifiers `remove`, then puts in the rows `add`: all of it or nothing. -/
def swap (remove : List Identifier) (add : List R) : Action (Table R) Unit := do
  let taken ← takeOut [] remove
  putIn taken [] add

end Table

end AddressSpace
