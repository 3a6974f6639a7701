import AddressSpace.Proofs.Table.Indistinct
import AddressSpace.Proofs.Store
/-!
# Stores that look the same

A range is redacted when its admin remark and the time of its last change are left out, which an edit of the admin remark may
change. Two stores whose ranges look the same when they are redacted (`Store.Indistinct`) are locked, read and written alike, and a
filter of an unprivileged reader selects the same ranges from both (`Store.Indistinct.map_filter`).
-/

namespace AddressSpace

open AddressSpace.Action

variable {F : Family} {α : Type}

namespace Range

/-- The range without its admin remark and the time of its last change. -/
def redacted (r : Range F) : Range F := { r with adminRemark := "", updatedAt := default }

variable {r s : Range F}

/-- Ranges that look the same when redacted differ in the parts that are left out only. -/
theorem exists_of_redacted (h : r.redacted = s.redacted) :
    ∃ adminRemark updatedAt, s = { r with adminRemark, updatedAt } := by
  refine ⟨s.adminRemark, s.updatedAt, ?_⟩
  have hs : s = { s.redacted with adminRemark := s.adminRemark, updatedAt := s.updatedAt } := rfl
  rw [hs, ← h]
  rfl

/-- Redacting a row leaves its identifier and its span to be seen. -/
theorem shown_redacted : Row.Shown (redacted : Range F → Range F) := fun _ _ h =>
  ⟨congrArg (·.id) h, congrArg (·.span.interval) h⟩

/-- What does not look at the parts that are left out is the same of ranges that look the same. -/
theorem map_congr_of_redacted {f : Range F → α} (hf : ∀ r, f r.redacted = f r) {rs ss : List (Range F)}
    (h : rs.map redacted = ss.map redacted) : rs.map f = ss.map f := by
  have hmap : ∀ rs : List (Range F), rs.map f = (rs.map redacted).map f := fun rs => by
    rw [List.map_map]
    exact List.map_congr_left fun r _ => (hf r).symm
  rw [hmap rs, h, ← hmap ss]

/-- Settling a name depends on nothing that is hidden. -/
theorem redacted_named (h : r.redacted = s.redacted) : r.named.redacted = s.named.redacted := by
  obtain ⟨adminRemark, updatedAt, rfl⟩ := exists_of_redacted h
  rfl

/-- Ranges that look the same are refused for the same reason, or stored as ranges that look the same. -/
theorem agree_prepare (h : r.redacted = s.redacted) : Agree (fun r s => r.redacted = s.redacted) r.prepare s.prepare := by
  have hnamed := redacted_named h
  obtain ⟨adminRemark, updatedAt, rfl⟩ := exists_of_redacted h
  exact (Agree.of_eq rfl).bind fun _ _ _ => .ok hnamed

end Range

/-- What an unprivileged reader asks for does not depend on what is left out. -/
theorem RangeFilter.accepts_redacted {f : RangeFilter F} (hf : f.privileged = false) (r : Range F) :
    f.accepts r.redacted = f.accepts r := by
  unfold accepts searched
  simp only [hf, Bool.false_eq_true, if_false]
  rfl

/-- Both transactions hold the same rows, and have read rows that look the same. -/
structure Transaction.Indistinct (tx ty : Transaction F) : Prop where
  rows : tx.rows.map Range.redacted = ty.rows.map Range.redacted
  guard : tx.guard = ty.guard

/-- Transactions that look the same find rows that look the same. -/
theorem Transaction.Indistinct.row {tx ty : Transaction F} (h : tx.Indistinct ty) (id : Identifier) :
    Agree (fun r s => r.redacted = s.redacted) (tx.row id) (ty.row id) := by
  have hfind : (tx.rows.find? (·.id == id)).map Range.redacted = (ty.rows.find? (·.id == id)).map Range.redacted := by
    have hmap : ∀ rows : List (Range F),
        (rows.find? (·.id == id)).map Range.redacted = (rows.map Range.redacted).find? (·.id == id) := fun rows => by
      rw [List.find?_map]
      rfl
    rw [hmap, hmap, h.rows]
  replace hfind := rel_of_map_eq hfind
  unfold Transaction.row
  generalize tx.rows.find? (·.id == id) = x, ty.rows.find? (·.id == id) = y at hfind
  cases hfind with
  | none => exact .error _
  | some h => exact .ok h

namespace Store

/-- The same rows are locked, and the tables look the same when their rows are redacted. -/
structure Indistinct (s t : Store F) : Prop where
  table : s.table.Indistinct Range.redacted t.table
  locks : s.locks = t.locks

variable {s t : Store F} {tx ty : Transaction F}

namespace Indistinct

theorem refl (s : Store F) : s.Indistinct s := ⟨.refl _, rfl⟩

theorem symm (h : s.Indistinct t) : t.Indistinct s := ⟨h.table.symm, h.locks.symm⟩

theorem trans {u : Store F} (h : s.Indistinct t) (h' : t.Indistinct u) : s.Indistinct u :=
  ⟨h.table.trans h'.table, h.locks.trans h'.locks⟩

/-! ## Questions -/

/-- Stores that look the same find rows that look the same. -/
theorem row (h : s.Indistinct t) (id : Identifier) :
    Agree (fun r s => r.redacted = s.redacted) (s.row id) (t.row id) := by
  unfold Store.row
  rcases h.table.get?_cases id with ⟨hs, ht⟩ | ⟨r, r', hs, ht, hr⟩
  · rw [hs, ht]
    exact .error _
  · rw [hs, ht]
    exact .ok hr

/-- Stores that look the same find lists of rows that look the same. -/
theorem rows (h : s.Indistinct t) (ids : List Identifier) :
    Agree (fun rs ss => rs.map Range.redacted = ss.map Range.redacted) (ids.mapM s.row) (ids.mapM t.row) := by
  have hrows := Agree.mapM (List.forall₂_same.2 fun id (_ : id ∈ ids) => h.row id)
  generalize ids.mapM s.row = x, ids.mapM t.row = y at hrows
  cases hrows with
  | ok hrows => exact .ok (map_eq_map_iff_forall₂.2 hrows)
  | error e => exact .error e

/-- Whether a span is free depends on nothing that is hidden. -/
theorem checkFree_eq (h : s.Indistinct t) (span : Span F) (exclude : List Identifier) :
    s.checkFree span exclude = t.checkFree span exclude := h.table.checkFree_eq Range.shown_redacted _ _

/-- An unprivileged reader is shown ranges that look the same, in the same order. -/
theorem map_filter (h : s.Indistinct t) {f : RangeFilter F} (hf : f.privileged = false) :
    (s.filter f).map Range.redacted = (t.filter f).map Range.redacted := by
  have hfilter : ∀ rows : List (Range F),
      (rows.filter f.accepts).map Range.redacted = (rows.map Range.redacted).filter f.accepts := fun rows => by
    rw [List.filter_map]
    exact congrArg (List.map _) (congrArg (List.filter · rows) (funext fun r => (RangeFilter.accepts_redacted hf r).symm))
  unfold filter toList
  rw [hfilter, hfilter, h.table.map_toList]

end Indistinct

/-! ## Changes -/

/-- Rows that look the same may be inserted into stores that look the same. -/
theorem insert_paired (h : s.Indistinct t) {r r' : Range F} (hr : r.redacted = r'.redacted) :
    (insert r).Paired (insert r') s t Indistinct fun r r' => r.redacted = r'.redacted := by
  unfold insert
  refine paired_liftM_bind h (Range.agree_prepare hr) fun r r' _ _ hr => paired_get_bind ?_
  refine paired_liftM_bind h (h.table.insert Range.shown_redacted hr) fun table table' _ _ htable => ?_
  exact (paired_set ⟨htable, h.locks⟩).bind fun _ _ _ _ _ h => paired_pure h hr

/-- Rows that look the same are put in the same order. -/
theorem map_redacted_mergeSort (rows : List (Range F)) :
    (rows.mergeSort lockOrder).map Range.redacted = (rows.map Range.redacted).mergeSort lockOrder :=
  List.map_mergeSort fun _ _ _ _ => rfl

/-- Locking the same rows in stores that look the same is paired. -/
theorem lock_paired (h : s.Indistinct t) (ids : List Identifier) :
    (lock ids).Paired (lock ids) s t Indistinct Transaction.Indistinct := by
  unfold lock
  refine paired_get_bind ?_
  refine paired_ofExcept_bind h (h.rows _) fun rows rows' _ _ hrows => ?_
  have hsorted : (rows.mergeSort lockOrder).map Range.redacted = (rows'.mergeSort lockOrder).map Range.redacted := by
    rw [map_redacted_mergeSort, map_redacted_mergeSort, hrows]
  have hids := Range.map_congr_of_redacted (f := (·.id)) (fun _ => rfl) hsorted
  simp only [Locks.acquire, hids, h.locks]
  exact (paired_set ⟨h.table, rfl⟩).bind fun _ _ _ _ _ h => paired_pure h ⟨hsorted, rfl⟩

/-- Rows that look the same may be written to stores that look the same. -/
theorem write_paired (h : s.Indistinct t) (hx : tx.guard = ty.guard) (remove : List Identifier) {add add' : List (Range F)}
    (hadd : add.map Range.redacted = add'.map Range.redacted) :
    (write tx remove add).Paired (write ty remove add') s t Indistinct
      fun rs ss => rs.map Range.redacted = ss.map Range.redacted := by
  unfold write
  rw [hx]
  cases remove.find? (!ty.guard.ids.contains ·) with
  | some id => exact paired_throw _ h
  | none =>
    have hprepare := Agree.mapM ((map_eq_map_iff_forall₂.1 hadd).imp fun _ _ => Range.agree_prepare)
    refine paired_ofExcept_bind h hprepare fun rows rows' _ _ hrows => ?_
    replace hrows := map_eq_map_iff_forall₂.2 hrows
    have hswap := Table.swap_paired Range.shown_redacted remove hrows h.table
    exact (Paired.on hswap fun _ _ htable => ⟨htable, h.locks⟩).bind fun _ _ _ _ _ h => paired_pure h hrows

/-- Finishing two transactions with the same locks is paired when the actions are. -/
theorem finishing_paired {a b : Action (Store F) α} {same : α → α → Prop} (hx : tx.guard = ty.guard)
    (h : a.Paired b s t Indistinct same) : (finishing tx a).Paired (finishing ty b) s t Indistinct same := by
  have hrelease : ∀ {s t : Store F}, s.Indistinct t → (s.release tx).Indistinct (t.release ty) := fun h =>
    ⟨h.table, by rw [release, release, h.locks, hx]⟩
  unfold Paired finishing at *
  generalize a s = x, b t = y at *
  cases h with
  | ok h hrel => exact .ok h (hrelease hrel)
  | error e hrel => exact .error e (hrelease hrel)

/-- Bodies that end alike on locked rows that look the same. -/
theorem locking_paired {ids : List Identifier} {f g : Transaction F → Action (Store F) α} {same : α → α → Prop}
    (h : s.Indistinct t)
    (hbody : ∀ tx ty s' t', lock ids s = .ok tx s' → lock ids t = .ok ty t' → tx.Indistinct ty → s'.Indistinct t' →
      (f tx).Paired (g ty) s' t' Indistinct same) :
    (locking ids f).Paired (locking ids g) s t Indistinct same :=
  (lock_paired h ids).bind_of_eq fun tx ty s' t' hs ht hx h' => finishing_paired hx.guard (hbody tx ty s' t' hs ht hx h')

/-- A body that ends alike on one locked row, whatever is left out of it. -/
theorem locking_row_paired {id : Identifier} {f : Transaction F → Range F → Action (Store F) α} {same : α → α → Prop}
    (h : s.Indistinct t)
    (hbody : ∀ tx ty s t r adminRemark updatedAt, tx.Indistinct ty → s.Indistinct t →
      (f tx r).Paired (f ty { r with adminRemark, updatedAt }) s t Indistinct same) :
    (locking [id] fun tx => do
      let r ← tx.row id
      f tx r).Paired (locking [id] fun tx => do
      let r ← tx.row id
      f tx r) s t Indistinct same := by
  refine locking_paired h fun tx ty s t _ _ hx h => paired_liftM_bind h (hx.row id) fun r r' _ _ hr => ?_
  obtain ⟨adminRemark, updatedAt, rfl⟩ := Range.exists_of_redacted hr
  exact hbody tx ty s t r adminRemark updatedAt hx h

end Store

/-- Writing back two rows that look the same is paired. -/
theorem Pool.renew_paired {s t : Store F} {tx ty : Transaction F} (h : s.Indistinct t) (hx : tx.Indistinct ty)
    {r r' : Range F} (hr : r.redacted = r'.redacted) :
    (Pool.renew tx r).Paired (Pool.renew ty r') s t Store.Indistinct fun r r' => r.redacted = r'.redacted := by
  obtain ⟨adminRemark, updatedAt, rfl⟩ := Range.exists_of_redacted hr
  unfold Pool.renew
  refine (Store.write_paired h hx.guard _ (by simpa using hr)).bind fun rows rows' s t hrows h => paired_demand _ h ?_
  refine rel_of_map_eq ?_
  rw [← List.getLast?_map, ← List.getLast?_map, hrows]

end AddressSpace
