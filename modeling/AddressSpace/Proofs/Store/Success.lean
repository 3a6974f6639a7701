import AddressSpace.Proofs.Store
import AddressSpace.Proofs.Table.Room
/-!
# Store operations that go through

When a row is stored, an operation that locks it runs on it and on nothing else (`locking_row_of_mem`), and when it is not, the
operation fails for that reason (`locking_row_missing`). A write of prepared rows goes through where the table has room for them
(`write_succeeds`).
-/

namespace AddressSpace

variable {F : Family} {α : Type}

/-- Ranges of the right shape are prepared. -/
theorem Range.mapM_prepare_of_shaped {rs : List (Range F)} (h : ∀ r ∈ rs, r.span.Shaped) :
    rs.mapM Range.prepare = .ok (rs.map Range.named) := by
  obtain ⟨rs', hrs⟩ := exists_mapM_eq_ok fun r hr => ⟨r.named, Range.prepare_eq_ok_iff.2 ⟨h r hr, rfl⟩⟩
  rw [hrs, (Range.mapM_prepare_eq_ok hrs).2]

/-- Identifiers that differ are left as they are. -/
theorem Locks.distinct_of_nodup {ids : List Identifier} (h : ids.Nodup) : Locks.distinct ids = ids := by
  induction ids with
  | nil => rfl
  | cons id ids ih =>
    obtain ⟨hid, hids⟩ := List.nodup_cons.1 h
    rw [distinct, ih hids, List.filter_eq_self.2 fun j hj => by simpa using fun he : j = id => hid (he ▸ hj)]

namespace Store

open AddressSpace.Action

variable {s : Store F} {tx : Transaction F}

/-! ## Locking -/

/-- Rows that are stored can be locked. -/
theorem lock_succeeds {ids : List Identifier} (h : ∀ id ∈ ids, (s.table.get? id).isSome = true) : (lock ids).Succeeds s := by
  have hrows : ∃ rows, (Locks.distinct ids).mapM s.row = .ok rows := by
    refine exists_mapM_eq_ok fun id hid => ?_
    obtain ⟨r, hr⟩ := Option.isSome_iff_exists.1 (h id (Locks.mem_distinct.1 hid))
    exact ⟨r, row_eq_ok_iff.2 hr⟩
  obtain ⟨rows, hrows⟩ := hrows
  unfold Succeeds lock
  simp only [ends_bind, ends_get, ends_ofExcept, hrows, ends_set, ends_pure, implies_true, true_and]
  exact fun _ h => by cases h

/-- What is locked are the rows that are read, in the order of locking, and locking fails as reading them does. -/
theorem lock_reads (ids : List Identifier) :
    (lock ids).Ends s (fun tx _ => ∃ rows, (Locks.distinct ids).mapM s.row = .ok rows ∧ tx.rows = rows.mergeSort lockOrder)
      (fun f _ => (Locks.distinct ids).mapM s.row = .error f) := by
  unfold lock
  simp only [ends_bind, ends_get, ends_ofExcept, ends_set, ends_pure, imp_self, implies_true, and_true]
  exact fun rows hrows => ⟨rows, hrows, rfl⟩

/-- A row that was locked is found in the transaction. -/
theorem Reads.row_of_mem {t : Table (Range F)} {ids : List Identifier} (h : Reads tx t ids) {r : Range F} (hr : r ∈ t)
    (hid : r.id ∈ ids) : tx.row r.id = .ok r := by
  obtain ⟨r', hr', he⟩ := h.found r.id hid
  unfold Transaction.row
  cases hfind : tx.rows.find? (·.id == r.id) with
  | none => exact absurd he (by simpa using List.find?_eq_none.1 hfind r' hr')
  | some x =>
    have hx : x ∈ t := ((h.mem_iff x).1 (List.mem_of_find?_eq_some hfind)).1
    have hxid : x.id = r.id := by simpa using List.find?_some hfind
    obtain rfl : x = r := Table.eq_of_id hx hr hxid
    rfl

/-- An operation on a row that is stored ends as its body does on that row, with the row given back. -/
theorem locking_row_of_mem (h : s.AtRest) {r : Range F} (hr : r ∈ s.table)
    {body : Transaction F → Range F → Action (Store F) α} {ok : α → Store F → Prop} {fail : Failure → Store F → Prop}
    (hbody : ∀ tx t, r.id ∈ tx.guard.ids → t.table = s.table →
      (body tx r).Ends t (fun x u => u.locks = t.locks ∧ ok x ⟨u.table, .empty⟩)
        (fun f u => u.locks = t.locks ∧ fail f ⟨u.table, .empty⟩)) :
    (Store.locking [r.id] fun tx => do
      let r ← tx.row r.id
      body tx r).Ends s ok fail := by
  have hlock : (lock [r.id]).Succeeds s := lock_succeeds (by simp [Table.mem_def.1 hr, ← Range.row_id])
  unfold locking
  rw [ends_bind]
  refine ((lock_ends h [r.id]).succeeded hlock).imp ?_ fun _ _ hf => hf
  rintro tx t ⟨hreads, htable, hlocks⟩
  have hrow : tx.row r.id = .ok r := hreads.row_of_mem hr (by simp)
  have hguard : r.id ∈ tx.guard.ids := (hreads.guards r.id).2 (by simp)
  simp only [ends_finishing, ends_bind, ends_liftM, hrow, Except.ok.injEq, reduceCtorEq, false_implies, implies_true, and_true]
  rintro _ rfl
  refine (hbody tx t hguard htable).imp ?_ ?_
  · rintro x u ⟨hu, hok⟩
    rwa [release, hu, hlocks]
  · rintro f u ⟨hu, hfail⟩
    rwa [release, hu, hlocks]

/-- An operation on a row that is not stored says so, and changes nothing. -/
theorem locking_row_missing {id : Identifier} (h : s.table.get? id = none) {body : Transaction F → Action (Store F) α} :
    (Store.locking [id] body).Ends s (fun _ _ => False) (fun f t => f = .unknown (.ranges F) id ∧ t = s) := by
  have hrow : s.row id = .error (.unknown (.ranges F) id) := by
    unfold row
    rw [h]
  have hrows : (Locks.distinct [id]).mapM s.row = .error (.unknown (.ranges F) id) := by
    simp only [Locks.distinct, List.filter_nil, List.mapM_cons, hrow]
    rfl
  unfold locking lock
  simp only [ends_bind, ends_get, ends_ofExcept, hrows]
  exact ⟨nofun, fun f hf => ⟨(Except.error.inj hf).symm, trivial⟩⟩

/-! ## Writing -/

/-- A write goes through that takes out locked rows and puts in rows of the right shape for which there is room. -/
theorem write_succeeds (h : s.table.Valid) {old add : List (Range F)} (hguard : ∀ r ∈ old, r.id ∈ tx.guard.ids)
    (hshape : ∀ r ∈ add, r.span.Shaped) (hroom : s.table.Room old (add.map Range.named)) :
    (write tx (old.map (·.id)) add).Succeeds s := by
  have hlocked : (old.map (·.id)).find? (!tx.guard.ids.contains ·) = none := by
    refine List.find?_eq_none.2 (List.forall_mem_map.2 fun r hr => ?_)
    simp [hguard r hr]
  unfold Succeeds write
  rw [hlocked]
  simp only [ends_bind, ends_ofExcept, Range.mapM_prepare_of_shaped hshape, ends_on, ends_pure, Except.ok.injEq,
    reduceCtorEq, false_implies, implies_true, and_true]
  rintro _ rfl
  exact Table.swap_succeeds h hroom

end Store

/-- A new version of a locked row that keeps its name and its bounds is written. -/
theorem Pool.renew_succeeds {s : Store F} (h : s.table.Valid) {tx : Transaction F} {old r : Range F} (hold : old ∈ s.table)
    (hid : r.id = old.id) (hspan : r.span = old.span) (hshape : old.span.Shaped) (hguard : old.id ∈ tx.guard.ids) :
    (Pool.renew tx r).Succeeds s := by
  have htile : ∀ x : Range F, x.span = old.span →
      Interval.Tiles old.span.interval.first (old.span.interval.last + 1) ([x].map Row.span) := by
    intro x hx
    rw [List.map_singleton, Range.row_span, hx]
    exact ⟨rfl, hshape.first_le, rfl⟩
  have hroom : s.table.Room [old] ([r].map Range.named) := by
    refine Table.room_of_tiles h (by simpa using hold) (htile old rfl) (htile r.named (by simpa using hspan)) (by simp) ?_
    intro x hx hxo r' hr' he
    rw [List.mem_singleton.1 hr', Range.row_id, Range.row_id, Range.named_id, hid] at he
    exact hxo (List.mem_singleton.2 (Table.eq_of_id hx hold he))
  have hwrite : (Store.write tx ([old].map (·.id)) [r]).Succeeds s :=
    Store.write_succeeds h (by simpa using hguard) (by simpa [hspan] using hshape) hroom
  rw [List.map_singleton, ← hid] at hwrite
  unfold Action.Succeeds Pool.renew
  simp only [Action.ends_bind, Action.ends_demand, implies_true, true_and]
  refine ((Store.write_ends h tx [r.id] [r]).succeeded hwrite).imp ?_ fun _ _ hf => hf
  rintro added t ⟨-, rfl, -⟩
  exact fun h => by cases h

end AddressSpace
