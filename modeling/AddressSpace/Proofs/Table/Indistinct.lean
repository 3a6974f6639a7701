import AddressSpace.Proofs.Paired
import AddressSpace.Proofs.Table.Swap
/-!
# Tables that look the same

A reader who sees a row through a view, which shows its identifier and its span but not all the rest, cannot tell two tables apart
when both have the same index and rows that look the same under each identifier (`Table.Indistinct`). As every question to a
table and every change of it is about identifiers and spans, the answers look the same as well, and so do the tables after a
change by rows that look the same (`swap_paired`), a change that is refused included.
-/

namespace AddressSpace

open AddressSpace.Action

variable {R S : Type} {view : R → S}

namespace Table

/-- The tables have one index, and look the same under each identifier. -/
structure Indistinct (view : R → S) (t u : Table R) : Prop where
  rows : ∀ id, (t.get? id).map view = (u.get? id).map view
  index : t.index = u.index

variable {t u : Table R} {r s : R} {id : Identifier}

namespace Indistinct

theorem refl (t : Table R) : t.Indistinct view t := ⟨fun _ => rfl, rfl⟩

theorem symm (h : t.Indistinct view u) : u.Indistinct view t := ⟨fun id => (h.rows id).symm, h.index.symm⟩

theorem trans {v : Table R} (h : t.Indistinct view u) (h' : u.Indistinct view v) : t.Indistinct view v :=
  ⟨fun id => (h.rows id).trans (h'.rows id), h.index.trans h'.index⟩

/-- Under one identifier, both tables have no row, or rows that look the same. -/
theorem get?_cases (h : t.Indistinct view u) (id : Identifier) :
    (t.get? id = none ∧ u.get? id = none) ∨ ∃ r s, t.get? id = some r ∧ u.get? id = some s ∧ view r = view s := by
  have hrows := rel_of_map_eq (h.rows id)
  generalize t.get? id = x, u.get? id = y at hrows
  cases hrows with
  | none => exact .inl ⟨rfl, rfl⟩
  | some hrs => exact .inr ⟨_, _, rfl, rfl, hrs⟩

/-- The rows with given identifiers look the same one by one, as far as they are there. -/
theorem map_filterMap (h : t.Indistinct view u) (ids : List Identifier) :
    (ids.filterMap t.get?).map view = (ids.filterMap u.get?).map view := by
  rw [List.map_filterMap, List.map_filterMap]
  exact congrArg (List.filterMap · ids) (funext h.rows)

/-- Tables that look the same show the same rows, in order. -/
theorem map_toList (h : t.Indistinct view u) : t.toList.map view = u.toList.map view := by
  unfold toList
  rw [h.index]
  exact h.map_filterMap _

end Indistinct

end Table

variable [Row R]

/-- Rows that look the same have one identifier and one span. -/
def Row.Shown (view : R → S) : Prop := ∀ r s : R, view r = view s → Row.id r = Row.id s ∧ Row.span r = Row.span s

namespace Table

variable {t u : Table R} {r s : R}

namespace Indistinct

/-! ## Questions -/

/-- Tables that look the same show the same rows inside every interval. -/
theorem map_inside (hview : Row.Shown view) (h : t.Indistinct view u) (i : Interval) :
    (t.inside i).map view = (u.inside i).map view := by
  unfold inside
  rw [h.index, map_eq_map_iff_forall₂]
  refine List.rel_filter (fun r s hrs => ?_) (map_eq_map_iff_forall₂.1 (h.map_filterMap _))
  simp only [(hview r s hrs).2]

/-- Whether a span is free, and which row is in the way, does not depend on what is not shown. -/
theorem checkFree_eq (hview : Row.Shown view) (h : t.Indistinct view u) (i : Interval) (exclude : List Identifier) :
    t.checkFree i exclude = u.checkFree i exclude := by
  unfold checkFree overlapping?
  rw [h.index]
  cases (u.index.downFrom i.last).find? (!exclude.contains ·) with
  | none => rfl
  | some id =>
    rcases h.get?_cases id with ⟨ht, hu⟩ | ⟨r, s, ht, hu, hrs⟩
    · simp only [ht, hu]
    · obtain ⟨hid, hspan⟩ := hview r s hrs
      simp only [ht, hu, Option.filter_some, hspan]
      by_cases hle : i.first ≤ (Row.span s).last
      · simp only [hle, decide_true, if_true, hid]
      · simp only [hle, decide_false, Bool.false_eq_true, if_false]

/-! ## Changes -/

/-- Rows that look the same may be put into tables that look the same. -/
theorem put (hview : Row.Shown view) (h : t.Indistinct view u) (hrs : view r = view s) :
    (t.put r).Indistinct view (u.put s) where
  rows := fun id => by
    rw [get?_put, get?_put, (hview r s hrs).1]
    split
    · exact congrArg some hrs
    · exact h.rows id
  index := by
    obtain ⟨hid, hspan⟩ := hview r s hrs
    show t.index.insert _ _ = u.index.insert _ _
    rw [h.index, hid, hspan]

/-- A row that is there is taken out of both tables. -/
theorem remove?_cases (hview : Row.Shown view) (h : t.Indistinct view u) (id : Identifier) :
    (t.remove? id = none ∧ u.remove? id = none) ∨
      ∃ r s t' u', t.remove? id = some (r, t') ∧ u.remove? id = some (s, u') ∧ view r = view s ∧ t'.Indistinct view u' := by
  rcases h.get?_cases id with ⟨ht, hu⟩ | ⟨r, s, ht, hu, hrs⟩
  · exact .inl ⟨by rw [remove?, ht]; rfl, by rw [remove?, hu]; rfl⟩
  · have hr : t.remove? id = some (r, ⟨t.rows.erase id.bits, t.index.erase (Row.span r).first⟩) := by
      rw [remove?, ht]
      rfl
    have hs : u.remove? id = some (s, ⟨u.rows.erase id.bits, u.index.erase (Row.span s).first⟩) := by
      rw [remove?, hu]
      rfl
    refine .inr ⟨r, s, _, _, hr, hs, hrs, fun j => ?_, ?_⟩
    · rw [(get?_of_remove? hr j).2, (get?_of_remove? hs j).2]
      split
      · rfl
      · exact h.rows j
    · show t.index.erase _ = u.index.erase _
      rw [h.index, (hview r s hrs).2]

/-- Rows that look the same may be inserted into tables that look the same. -/
theorem insert (hview : Row.Shown view) (h : t.Indistinct view u) (hrs : view r = view s) :
    Agree (Indistinct view) (t.insert r) (u.insert s) := by
  obtain ⟨hid, hspan⟩ := hview r s hrs
  have hsome : (t.get? (Row.id s)).isSome = (u.get? (Row.id s)).isSome := by
    rw [← Option.isSome_map (f := view), h.rows, Option.isSome_map]
  unfold Table.insert
  rw [hid, hspan, hsome, h.checkFree_eq hview]
  split
  · exact .error _
  · exact (Agree.of_eq rfl).bind fun _ _ _ => .ok (h.put hview hrs)

/-- Rows that look the same may be put back into tables that look the same. -/
theorem putBack (hview : Row.Shown view) (h : t.Indistinct view u) {rs ss : List R} (hrows : rs.map view = ss.map view) :
    (t.putBack rs).Indistinct view (u.putBack ss) := by
  replace hrows := map_eq_map_iff_forall₂.1 hrows
  induction hrows generalizing t u with
  | nil => exact h
  | cons hrs _ ih => exact ih (h.put hview hrs)

/-- The same rows may be taken back from tables that look the same. -/
theorem takeBack (hview : Row.Shown view) (h : t.Indistinct view u) (ids : List Identifier) :
    (t.takeBack ids).Indistinct view (u.takeBack ids) := by
  induction ids generalizing t u with
  | nil => exact h
  | cons id ids ih =>
    refine ih ?_
    rcases h.remove?_cases hview id with ⟨ht, hu⟩ | ⟨r, s, t', u', ht, hu, -, h'⟩
    · simp only [ht, hu]
      exact h
    · simp only [ht, hu]
      exact h'

end Indistinct

/-! ## Changes of many rows -/

variable {rs ss taken taken' : List R}

/-- Taking the same rows out of tables that look the same is paired. -/
theorem takeOut_paired (hview : Row.Shown view) (ids : List Identifier) (h : t.Indistinct view u)
    (htaken : taken.map view = taken'.map view) :
    (takeOut taken ids).Paired (takeOut taken' ids) t u (Indistinct view) fun rs ss => rs.map view = ss.map view := by
  induction ids generalizing t u taken taken' with
  | nil => exact paired_pure h htaken
  | cons id ids ih =>
    unfold takeOut
    refine paired_get_bind ?_
    rcases h.remove?_cases hview id with ⟨ht, hu⟩ | ⟨r, s, t', u', ht, hu, hrs, h'⟩
    · rw [ht, hu]
      exact (paired_modify (h.putBack hview htaken)).bind fun _ _ _ _ _ h' => paired_throw _ h'
    · rw [ht, hu]
      refine (paired_set h').bind fun _ _ _ _ _ h' => ih h' ?_
      rw [List.map_cons, List.map_cons, hrs, htaken]

/-- Putting rows that look the same into tables that look the same is paired. -/
theorem putIn_paired (hview : Row.Shown view) {added : List Identifier} (htaken : taken.map view = taken'.map view)
    (hrows : rs.map view = ss.map view) (h : t.Indistinct view u) :
    (putIn taken added rs).Paired (putIn taken' added ss) t u (Indistinct view) fun _ _ => True := by
  replace hrows := map_eq_map_iff_forall₂.1 hrows
  induction hrows generalizing t u added with
  | nil => exact paired_pure h trivial
  | @cons r s rs ss hrs _ ih =>
    unfold putIn
    refine paired_get_bind ?_
    have hinsert := h.insert hview hrs
    generalize t.insert r = x, u.insert s = y at hinsert
    cases hinsert with
    | ok h' =>
      refine (paired_set h').bind fun _ _ _ _ _ h' => ?_
      rw [(hview r s hrs).1]
      exact ih h'
    | error e =>
      exact (paired_modify ((h.takeBack hview added).putBack hview htaken)).bind fun _ _ _ _ _ h' => paired_throw e h'

/-- Rows that look the same are swapped in tables that do, in both or in neither. -/
theorem swap_paired (hview : Row.Shown view) (remove : List Identifier) (hrows : rs.map view = ss.map view)
    (h : t.Indistinct view u) : (swap remove rs).Paired (swap remove ss) t u (Indistinct view) fun _ _ => True :=
  (takeOut_paired hview remove h rfl).bind fun _ _ _ _ htaken h' => putIn_paired hview htaken hrows h'

/-- A table looks the same after a row has been replaced by one that looks the same. -/
theorem Swapped.indistinct (hview : Row.Shown view) (ht : t.Valid) (h : t.Swapped [r] [s] u) (hrs : view r = view s) :
    t.Indistinct view u := by
  obtain ⟨hid, hspan⟩ := hview r s hrs
  have hold : t.get? (Row.id s) = some r := by
    rw [← hid]
    exact h.old_mem r (by simp)
  have hnew : u.get? (Row.id s) = some s := h.new_mem (by simp)
  have hother : ∀ {id}, id ≠ Row.id s → u.get? id = t.get? id := by
    intro id hne
    refine h.get?_eq ht (fun r' hr' he => hne ?_) fun s' hs' he => hne ?_
    · rw [← he, List.mem_singleton.1 hr', hid]
    · rw [← he, List.mem_singleton.1 hs']
  refine ⟨fun id => ?_, KeyMap.ext_get? fun n => Option.ext fun id => ?_⟩
  · by_cases hne : id = Row.id s
    · rw [hne, hold, hnew, Option.map_some, Option.map_some, hrs]
    · rw [hother hne]
  · rw [ht.indexed, h.valid.indexed]
    by_cases hne : id = Row.id s
    · simp only [hne, hold, hnew, Option.some.injEq, exists_eq_left', hspan]
    · simp only [hother hne]

end Table

end AddressSpace
