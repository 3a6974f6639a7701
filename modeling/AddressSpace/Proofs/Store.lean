import AddressSpace.Proofs.Range.Names
import AddressSpace.Pool
/-!
# What the range store does

How the operations of the store end when nothing else is under way (`Store.AtRest`): an added range is the prepared one in
free space (`insert_ends`), a transaction reads exactly the rows that it locks (`lock_ends`), and a write takes out the rows
named and puts in the prepared ones, or changes nothing (`write_ends`). A body that runs on locked rows gives them back
however it ends (`locking_ends`).
-/

namespace AddressSpace

variable {F : Family} {α : Type}

/-- Ranges are prepared together when each of their spans has the right shape. -/
theorem Range.mapM_prepare_eq_ok {rs rs' : List (Range F)} (h : rs.mapM Range.prepare = .ok rs') :
    (∀ r ∈ rs, r.span.Shaped) ∧ rs' = rs.map Range.named := by
  replace h := mapM_eq_ok_iff.1 h
  induction h with
  | nil => exact ⟨by simp, rfl⟩
  | cons hx _ ih =>
    obtain ⟨hshape, rfl⟩ := Range.prepare_eq_ok_iff.1 hx
    obtain ⟨hall, rfl⟩ := ih
    refine ⟨fun r hr => ?_, rfl⟩
    rcases List.mem_cons.1 hr with rfl | hr
    · exact hshape
    · exact hall r hr

namespace Store

open AddressSpace.Action

variable {s : Store F}

/-- No operation is under way: the table is valid and nothing is locked. -/
structure AtRest (s : Store F) : Prop where
  valid : s.table.Valid
  unlocked : s.locks = .empty

theorem AtRest.empty : (Store.empty : Store F).AtRest := ⟨.empty, rfl⟩

/-- A store is determined by its table when nothing is locked. -/
theorem AtRest.eq_mk (h : s.AtRest) : s = ⟨s.table, .empty⟩ := by
  obtain ⟨table, locks⟩ := s
  obtain rfl : locks = .empty := h.unlocked
  rfl

/-! ## Adding a range -/

/-- A range is added as it is prepared, or nothing changes. -/
theorem insert_ends (h : s.table.Valid) (r : Range F) :
    (insert r).Ends s
      (fun r' t => r.span.Shaped ∧ r' = r.named ∧ t.locks = s.locks ∧ Table.Swapped s.table [] [r'] t.table)
      (fun _ t => t = s) := by
  unfold insert
  simp only [ends_bind, ends_liftM, ends_get, ends_set, ends_pure, implies_true, and_true]
  intro r' hr'
  obtain ⟨hshape, rfl⟩ := Range.prepare_eq_ok_iff.1 hr'
  intro table htable
  exact ⟨hshape, rfl, trivial, Table.swapped_of_insert h (Range.ordered_named hshape) htable⟩

/-- It is added just when its span has the right shape and it is apart from all others. -/
theorem insert_decides (h : s.table.Valid) (r : Range F) :
    (insert r).Ends s (fun _ _ => r.span.Shaped ∧ ∀ o ∈ s.table, Row.Apart o r.named)
      (fun _ _ => ¬(r.span.Shaped ∧ ∀ o ∈ s.table, Row.Apart o r.named)) := by
  unfold insert
  simp only [ends_bind, ends_liftM, ends_get, ends_set, ends_pure]
  refine ⟨fun r' hr' => ?_, fun _ hrefused hgood => ?_⟩
  · obtain ⟨hshape, rfl⟩ := Range.prepare_eq_ok_iff.1 hr'
    refine ⟨fun _ htable => ⟨hshape, ((Table.insert_eq_ok_iff h).1 htable).1⟩, fun _ hrefused hgood => ?_⟩
    cases hrefused.symm.trans ((Table.insert_eq_ok_iff h).2 ⟨hgood.2, rfl⟩)
  · cases hrefused.symm.trans (Range.prepare_eq_ok_iff.2 ⟨hgood.1, rfl⟩)

/-! ## Locking rows -/

/-- The transaction has read the rows of the table with the identifiers, and holds them. -/
structure Reads (tx : Transaction F) (t : Table (Range F)) (ids : List Identifier) : Prop where
  mem_iff : ∀ r, r ∈ tx.rows ↔ r ∈ t ∧ r.id ∈ ids
  found : ∀ id ∈ ids, ∃ r ∈ tx.rows, r.id = id
  ascending : tx.rows.Pairwise fun r s => r.span.interval.last < s.span.interval.first
  guards : ∀ id, id ∈ tx.guard.ids ↔ id ∈ ids

/-- A row is found just when the table has it under its identifier. -/
theorem row_eq_ok_iff {id : Identifier} {r : Range F} : s.row id = .ok r ↔ s.table.get? id = some r := by
  unfold row
  cases s.table.get? id <;> simp

/-- A row is found at an address just when the table has one that contains it. -/
theorem rowAt_eq_ok_iff {a : Address F} {r : Range F} : s.rowAt a = .ok r ↔ s.table.containing? a.bits = some r := by
  unfold rowAt
  cases s.table.containing? a.bits <;> simp

/-- No row is found at an address just when the table has none that contains it. -/
theorem exists_rowAt_eq_error_iff {a : Address F} : (∃ f, s.rowAt a = .error f) ↔ s.table.containing? a.bits = none := by
  unfold rowAt
  cases s.table.containing? a.bits <;> simp

/-- Reading rows gives those of the table with the identifiers. -/
theorem rows_of_mapM (h : s.table.Valid) {ids : List Identifier} {rows : List (Range F)}
    (hr : ids.mapM s.row = .ok rows) : rows.map (·.id) = ids ∧ ∀ r ∈ rows, r ∈ s.table := by
  replace hr := mapM_eq_ok_iff.1 hr
  induction hr with
  | nil => exact ⟨rfl, by simp⟩
  | cons hx _ ih =>
    obtain ⟨hmem, hid⟩ := h.get?_eq_some_iff.1 (row_eq_ok_iff.1 hx)
    rw [List.map_cons, ih.1]
    refine ⟨congrArg (· :: _) hid, fun r hr => ?_⟩
    rcases List.mem_cons.1 hr with rfl | hr
    · exact hmem
    · exact ih.2 r hr

theorem lockOrder_trans (a b c : Range F) (hab : lockOrder a b = true) (hbc : lockOrder b c = true) :
    lockOrder a c = true := by
  simp only [lockOrder, Bool.or_eq_true, Bool.and_eq_true, decide_eq_true_eq, beq_iff_eq] at *
  omega

theorem lockOrder_total (a b : Range F) : (lockOrder a b || lockOrder b a) = true := by
  simp only [lockOrder, Bool.or_eq_true, Bool.and_eq_true, decide_eq_true_eq, beq_iff_eq] at *
  omega

/-- Different rows of a table in the order of locking are in ascending order. -/
theorem ascending_mergeSort {t : Table (Range F)} (h : t.Valid) {rows : List (Range F)} (hrows : ∀ r ∈ rows, r ∈ t)
    (hn : rows.Nodup) :
    (rows.mergeSort lockOrder).Pairwise fun r s => r.span.interval.last < s.span.interval.first := by
  have hsorted := List.pairwise_mergeSort lockOrder_trans lockOrder_total rows
  have hnodup := (List.mergeSort_perm rows lockOrder).nodup_iff.2 hn
  refine (hsorted.and hnodup).imp_of_mem fun {r s} hr hs hrs => ?_
  refine h.last_lt_first (hrows s (List.mem_mergeSort.1 hs)) (hrows r (List.mem_mergeSort.1 hr)) ?_ hrs.2
  have hle := hrs.1
  simp only [lockOrder, Bool.or_eq_true, Bool.and_eq_true, decide_eq_true_eq, beq_iff_eq] at hle
  simp only [Range.row_span, Span.interval]
  omega

/-- Locked rows are read in ascending order and held beside those held before; when one is missing, nothing is locked. -/
theorem lock_holds (h : s.table.Valid) (ids : List Identifier) :
    (lock ids).Ends s
      (fun tx t => Reads tx s.table ids ∧ t.table = s.table ∧ t.locks = ⟨s.locks.held ++ tx.guard.ids⟩) (fun _ t => t = s) := by
  unfold lock
  simp only [ends_bind, ends_get, ends_ofExcept, Locks.acquire, ends_set, ends_pure, implies_true, and_true]
  intro rows hrows
  obtain ⟨hids, hmem⟩ := rows_of_mapM h hrows
  have hn : rows.Nodup := List.Nodup.of_map (·.id) (hids ▸ Locks.nodup_distinct ids)
  refine ⟨fun r => ?_, fun id hid => ?_, ascending_mergeSort h hmem hn, fun id => ?_⟩
  · rw [List.mem_mergeSort]
    constructor
    · intro hr
      exact ⟨hmem r hr, Locks.mem_distinct.1 (hids ▸ List.mem_map_of_mem hr)⟩
    · rintro ⟨hr, hid⟩
      rw [← Locks.mem_distinct, ← hids, List.mem_map] at hid
      obtain ⟨r', hr', he⟩ := hid
      rwa [← Table.eq_of_id (hmem r' hr') hr he]
  · rw [← Locks.mem_distinct, ← hids, List.mem_map] at hid
    obtain ⟨r, hr, he⟩ := hid
    exact ⟨r, List.mem_mergeSort.2 hr, he⟩
  · have hid : id ∈ ids ↔ id ∈ rows.map (·.id) := by rw [hids, Locks.mem_distinct]
    rw [hid, Locks.mem_distinct, List.mem_map, List.mem_map]
    simp only [List.mem_mergeSort]

/-- Where nothing is held before, nothing is held once locked rows are given back. -/
theorem lock_ends (h : s.AtRest) (ids : List Identifier) :
    (lock ids).Ends s
      (fun tx t => Reads tx s.table ids ∧ t.table = s.table ∧ t.locks.release tx.guard = .empty) (fun _ t => t = s) := by
  refine (lock_holds h.valid ids).imp ?_ fun _ _ ht => ht
  rintro tx t ⟨hreads, htable, hlocks⟩
  exact ⟨hreads, htable, by simp [hlocks, h.unlocked, Locks.release, Locks.empty]⟩

/-- A row that a transaction has read. -/
theorem Reads.row {tx : Transaction F} {t : Table (Range F)} {ids : List Identifier} (h : Reads tx t ids)
    {id : Identifier} {r : Range F} (hr : tx.row id = .ok r) : r ∈ t ∧ r.id = id := by
  unfold Transaction.row at hr
  split at hr
  · rename_i r' hfind
    cases hr
    exact ⟨((h.mem_iff r).1 (List.mem_of_find?_eq_some hfind)).1, by simpa using List.find?_some hfind⟩
  · cases hr

/-! ## Writing -/

/-- The rows named are taken out and the prepared ones put in, or nothing changes. -/
theorem write_ends (h : s.table.Valid) (tx : Transaction F) (remove : List Identifier) (add : List (Range F)) :
    (write tx remove add).Ends s
      (fun added t => (∀ r ∈ add, r.span.Shaped) ∧ added = add.map Range.named ∧ t.locks = s.locks ∧
        ∃ old : List (Range F), old.map (·.id) = remove ∧ old.Nodup ∧ Table.Swapped s.table old added t.table)
      (fun _ t => t = s) := by
  unfold write
  split
  · simp
  · simp only [ends_bind, ends_ofExcept, ends_on, ends_pure, implies_true, and_true]
    intro added hadded
    obtain ⟨hshape, rfl⟩ := Range.mapM_prepare_eq_ok hadded
    have ho : ∀ r ∈ add.map Range.named, Row.Ordered r := by
      intro r hr
      obtain ⟨r', hr', rfl⟩ := List.mem_map.1 hr
      exact Range.ordered_named (hshape r' hr')
    refine (Table.swap_ends h remove ho).imp (fun _ t ht => ?_) fun _ t ht => by rw [ht]
    exact ⟨hshape, rfl, trivial, ht⟩

/-- A write that names a row that is not locked fails for that reason, and one that goes through names locked rows only. -/
theorem write_guarded (tx : Transaction F) (remove : List Identifier) (add : List (Range F)) :
    (write tx remove add).Ends s (fun _ _ => ∀ id ∈ remove, id ∈ tx.guard.ids)
      (fun f _ => (∃ id ∈ remove, id ∉ tx.guard.ids) → ∃ id ∈ remove, id ∉ tx.guard.ids ∧ f = .notLocked F id) := by
  unfold write
  cases hfind : remove.find? (!tx.guard.ids.contains ·) with
  | some id =>
    have hid : id ∉ tx.guard.ids := by simpa using List.find?_some hfind
    simp only [ends_bind, ends_throw]
    exact fun _ => ⟨id, List.mem_of_find?_eq_some hfind, hid, rfl⟩
  | none =>
    have hlocked : ∀ id ∈ remove, id ∈ tx.guard.ids := by simpa using hfind
    have hnone : ¬∃ id ∈ remove, id ∉ tx.guard.ids := by
      rintro ⟨id, hid, hnot⟩
      exact hnot (hlocked id hid)
    exact Ends.of_forall (fun _ _ => hlocked) fun _ _ h => absurd h hnone

/-- An action that finishes a transaction ends as it does on its own, and gives the locks back either way. -/
@[simp] theorem ends_finishing (tx : Transaction F) (a : Action (Store F) α) {ok : α → Store F → Prop}
    {fail : Failure → Store F → Prop} :
    (finishing tx a).Ends s ok fail ↔ a.Ends s (fun x t => ok x (t.release tx)) (fun e t => fail e (t.release tx)) := by
  unfold Ends finishing
  cases a s <;> rfl

/-- A body that runs on locked rows ends as it does on its own, with the rows given back. -/
theorem locking_ends (h : s.AtRest) {ids : List Identifier} {body : Transaction F → Action (Store F) α}
    {ok : α → Store F → Prop} {fail : Failure → Store F → Prop} (hfail : ∀ e, fail e s)
    (hbody : ∀ tx t, Reads tx s.table ids → t.table = s.table →
      (body tx).Ends t (fun x u => u.locks = t.locks ∧ ok x ⟨u.table, .empty⟩)
        (fun e u => u.locks = t.locks ∧ fail e ⟨u.table, .empty⟩)) :
    (locking ids body).Ends s ok fail := by
  unfold locking
  rw [ends_bind]
  refine (lock_ends h ids).imp ?_ fun e t ht => ht ▸ hfail e
  rintro tx t ⟨hreads, htable, hlocks⟩
  rw [ends_finishing]
  refine (hbody tx t hreads htable).imp ?_ ?_
  · rintro x u ⟨hu, hok⟩
    rwa [release, hu, hlocks]
  · rintro e u ⟨hu, hfail⟩
    rwa [release, hu, hlocks]

end Store

/-- A new version of a row takes its place, or nothing changes. -/
theorem Pool.renew_ends {s : Store F} (h : s.table.Valid) (tx : Transaction F) {old r : Range F} (hold : old ∈ s.table)
    (hid : old.id = r.id) :
    (Pool.renew tx r).Ends s
      (fun r' t => r.span.Shaped ∧ r' = r.named ∧ t.locks = s.locks ∧ Table.Swapped s.table [old] [r'] t.table)
      (fun _ t => t = s) := by
  unfold Pool.renew
  simp only [Action.ends_bind, Action.ends_demand]
  refine (Store.write_ends h tx [r.id] [r]).imp ?_ fun _ _ ht => ht
  rintro added t ⟨hshape, rfl, hlocks, old', hold', -, hsw⟩
  obtain ⟨o, rfl, ho⟩ := List.map_eq_singleton_iff.1 hold'
  obtain rfl := Table.eq_of_id (hsw.old_mem o (by simp)) hold (ho.trans hid.symm)
  refine ⟨?_, fun hnone => absurd hnone (by simp)⟩
  rintro r' ⟨⟩
  exact ⟨hshape r (by simp), rfl, hlocks, hsw⟩

end AddressSpace
