import AddressSpace.Range
import AddressSpace.Proofs.Table.Swap
/-!
# Tables built by changes, and scans of them

A table that starts empty and is changed by insertions, replacements, removals and swaps alone, of which any may fail, is valid
all the time (`valid_built`). The queries of a valid table look at a few entries of the index, and still give what a scan of all
its rows would give (`Valid.scanned`). Any table that is built in this way thus answers as a scan does (`scanned_built`).
-/

namespace AddressSpace.Table

variable {R : Type} [Row R] {t : Table R}

/-! ## Changes one after another -/

/-- A change of a table that may fail. -/
inductive Update (R : Type) where
  | insert (r : R)
  | replace (r : R)
  | remove (id : Identifier)
  | swap (ids : List Identifier) (add : List R)

namespace Update

/-- The rows that the change brings in. -/
def rows : Update R → List R
  | insert r => [r]
  | replace r => [r]
  | remove _ => []
  | swap _ add => add

/-- The table after the change, whether it has failed or not. -/
def apply (t : Table R) : Update R → Table R
  | insert r => match t.insert r with
    | .ok t' => t'
    | .error _ => t
  | replace r => match t.replace r with
    | .ok (_, t') => t'
    | .error _ => t
  | remove id => match t.remove? id with
    | some (_, t') => t'
    | none => t
  | swap ids add => ((Table.swap ids add).run t).2

/-- A change keeps a table valid when the rows that it brings in are in order. -/
theorem valid_apply (ht : t.Valid) {u : Update R} (ho : ∀ r ∈ u.rows, Row.Ordered r) : (u.apply t).Valid := by
  cases u with
  | insert r =>
    rw [apply]
    split
    · rename_i hins
      exact (swapped_of_insert ht (ho r List.mem_cons_self) hins).valid
    · exact ht
  | replace r =>
    rw [apply]
    split
    · rename_i hrep
      exact (replace_ok ht (ho r List.mem_cons_self) hrep).2.2.valid
    · exact ht
  | remove id =>
    rw [apply]
    split
    · rename_i hrem
      exact valid_of_remove? ht hrem
    · exact ht
  | swap ids add =>
    refine ((swap_ends ht ids ho).imp (fun _ t' h => ?_) fun _ t' h => ?_).state
    · obtain ⟨_, -, -, hsw⟩ := h
      exact hsw.valid
    · exact h ▸ ht

end Update

/-- The table that changes make of an empty one. -/
def built (updates : List (Update R)) : Table R := updates.foldl Update.apply empty

/-- A table is valid after any changes that bring in rows in order. -/
theorem valid_built {updates : List (Update R)} (ho : ∀ u ∈ updates, ∀ r ∈ u.rows, Row.Ordered r) : (built updates).Valid := by
  have hrun : ∀ t : Table R, t.Valid → (updates.foldl Update.apply t).Valid := by
    induction updates with
    | nil => exact fun t ht => ht
    | cons u updates ih =>
      obtain ⟨hu, ho⟩ := List.forall_mem_cons.1 ho
      exact fun t ht => ih ho _ (Update.valid_apply ht hu)
  exact hrun empty .empty

/-! ## Answers of a scan -/

/-- The queries of the table give what a scan of all its rows gives. -/
structure Scanned (t : Table R) : Prop where
  /-- No row is found to overlap a span when each row that is not left out ends before it or starts after it. -/
  overlapping_none : ∀ (i : Interval) (exclude : List Identifier),
    t.overlapping? i exclude = none ↔ ∀ r ∈ t, Row.id r ∉ exclude → (Row.span r).meets i = false
  /-- Otherwise it is the one among them that starts last. -/
  overlapping_some : ∀ (i : Interval) (exclude : List Identifier) (r : R),
    t.overlapping? i exclude = some r ↔ (r ∈ t ∧ Row.id r ∉ exclude ∧ (Row.span r).meets i = true) ∧
      ∀ s ∈ t, Row.id s ∉ exclude → (Row.span s).meets i = true → s ≠ r → (Row.span s).first < (Row.span r).first
  containing_none : ∀ n : Nat, t.containing? n = none ↔ ∀ r ∈ t, (Row.span r).contains n = false
  containing_some : ∀ (n : Nat) (r : R), t.containing? n = some r ↔ r ∈ t ∧ (Row.span r).contains n = true
  mem_inside : ∀ (i : Interval) (r : R), r ∈ t.inside i ↔ r ∈ t ∧ i.covers (Row.span r) = true
  inside_ascending : ∀ i : Interval, (t.inside i).Pairwise fun r s => (Row.span r).first < (Row.span s).first
  toList_perm : t.toList.Perm t.rows.values
  toList_ascending : t.toList.Pairwise fun r s => (Row.span r).first < (Row.span s).first

namespace Valid

variable {r : R}

/-- The rows are the values that are kept under their identifiers. -/
theorem mem_values (ht : t.Valid) : r ∈ t.rows.values ↔ r ∈ t := by
  rw [KeyMap.mem_values]
  constructor
  · rintro ⟨k, hk⟩
    rw [mem_def, get?, ← ht.keyed k r hk, hk]
  · exact fun hr => ⟨_, hr⟩

/-- Each row is kept once. -/
theorem nodup_values (ht : t.Valid) : t.rows.values.Nodup := by
  refine List.pairwise_map.2 (t.rows.sorted.imp_of_mem fun {d e} hd he hlt heq => ?_)
  have hkey : d.1 = e.1 := by
    rw [ht.keyed d.1 d.2 ((KeyMap.get?_eq_some_iff _ _ _).2 hd), ht.keyed e.1 e.2 ((KeyMap.get?_eq_some_iff _ _ _).2 he), heq]
  omega

/-- A row that starts no later than another one starts before it. -/
theorem first_lt (ht : t.Valid) {s : R} (hr : r ∈ t) (hs : s ∈ t) (hle : (Row.span s).first ≤ (Row.span r).first) (hne : s ≠ r) :
    (Row.span s).first < (Row.span r).first :=
  Nat.lt_of_le_of_ne hle (ht.first_ne (ht.ordered r hr) hs (ht.disjoint s hs r hr hne))

/-- One look into the index finds what a scan of all rows finds. -/
theorem scanned (ht : t.Valid) : t.Scanned where
  overlapping_none := by
    intro i exclude
    constructor
    · intro h r hr hex
      exact overlapping?_eq_none ht h hr hex
    · intro h
      by_contra hne
      obtain ⟨r, hfind⟩ := Option.ne_none_iff_exists'.1 hne
      obtain ⟨hr, hex, hmeets, -⟩ := overlapping?_eq_some ht hfind
      exact Bool.false_ne_true ((h r hr hex).symm.trans hmeets)
  overlapping_some := by
    intro i exclude r
    constructor
    · intro h
      obtain ⟨hr, hex, hmeets, hlast⟩ := overlapping?_eq_some ht h
      exact ⟨⟨hr, hex, hmeets⟩, fun s hs hsex hsm hne => ht.first_lt hr hs (hlast s hs hsex hsm) hne⟩
    · rintro ⟨⟨hr, hex, hmeets⟩, hlast⟩
      cases hfind : t.overlapping? i exclude with
      | none => exact absurd ((overlapping?_eq_none ht hfind hr hex).symm.trans hmeets) Bool.false_ne_true
      | some s =>
        obtain ⟨hs, hsex, hsm, hmax⟩ := overlapping?_eq_some ht hfind
        by_cases hne : s = r
        · rw [hne]
        · exact absurd (hmax r hr hex hmeets) (Nat.not_le.2 (hlast s hs hsex hsm hne))
  containing_none := fun n => containing?_eq_none_iff ht
  containing_some := fun n r => containing?_eq_some_iff ht
  mem_inside := fun i r => by rw [inside_eq_filter ht, List.mem_filter, mem_toList ht]
  inside_ascending := fun i => by
    rw [inside_eq_filter ht]
    exact (pairwise_first_toList ht).filter _
  toList_perm := by
    refine (List.perm_ext_iff_of_nodup (nodup_toList ht) ht.nodup_values).2 fun r => ?_
    rw [mem_toList ht, ht.mem_values]
  toList_ascending := pairwise_first_toList ht

end Valid

/-- Any table that is built by changes which bring in rows in order answers as a scan of all its rows does. -/
theorem scanned_built {updates : List (Update R)} (ho : ∀ u ∈ updates, ∀ r ∈ u.rows, Row.Ordered r) : (built updates).Scanned :=
  (valid_built ho).scanned

/-- A range to look at, of which nothing but the identifier and the ends matters. -/
def rowOf (id first last : Nat) : Range .v4 :=
  ⟨.ofBits id, "", ⟨.ofBits .v4 first, .ofBits .v4 last, 24⟩, .wait, ⟨1, 64512, ""⟩, none, none, "", "", default, default⟩

/-- Changes of all four kinds, of which the last fails. -/
theorem scanned_built_six :
    let updates : List (Update (Range .v4)) :=
      [.insert (rowOf 1 0 255), .insert (rowOf 2 256 511), .swap [.ofBits 1] [rowOf 3 0 100, rowOf 4 101 255],
        .replace (rowOf 3 0 90), .remove (.ofBits 4), .insert (rowOf 5 80 100)]
    (∀ u ∈ updates, ∀ r ∈ u.rows, Row.Ordered r) ∧ (built updates).Scanned ∧
      (built updates).toList = [rowOf 3 0 90, rowOf 2 256 511] := by
  intro updates
  have ho : ∀ u ∈ updates, ∀ r ∈ u.rows, Row.Ordered r := by decide +kernel
  exact ⟨ho, scanned_built ho, by decide +kernel⟩

end AddressSpace.Table
