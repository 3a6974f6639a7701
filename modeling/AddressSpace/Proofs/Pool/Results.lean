import AddressSpace.Proofs.Pool.Commit
import AddressSpace.Proofs.Pool.Regroup
/-!
# What a merge comes to

Which rows a merge is about and what becomes of them is decided before anything is written, by the stored rows alone
(`mergeOutcome`). Where the identifier of the new row is new to the table, the merge then ends as decided: it fails for the reason
given there, leaves the single row alone, or puts the one row in the place of the others (`merge_becomes`).
-/

namespace AddressSpace.Pool

open AddressSpace.Action

variable {F : Family} {p : Pool F} {stamp : Stamp} {user : Option String} {target : UInt8} {ids : List Identifier}

/-- The rows that a merge is about, in ascending order, and what becomes of them. -/
def mergeOutcome (p : Pool F) (stamp : Stamp) (ids : List Identifier) (target : UInt8) :
    Except Failure (List (Range F) × Merger F) := do
  checkMergeRequest (F := F) p.limits (Locks.distinct ids) target
  let rows ← ((Locks.distinct ids).mapM p.store.row).mapError (Failure.rewrap .targetNotExist .memberMissing)
  let m ← merger stamp.now (stamp.rowId 0) target (rows.mergeSort Store.lockOrder)
  return (rows.mergeSort Store.lockOrder, m)

variable {rows read : List (Range F)} {row : Range F}

/-- With an accepted request and all rows stored, the checks on members decide. -/
theorem mergeOutcome_of_rows (hrequest : checkMergeRequest (F := F) p.limits (Locks.distinct ids) target = .ok ())
    (hread : (Locks.distinct ids).mapM p.store.row = .ok read) (hrows : rows = read.mergeSort Store.lockOrder) :
    p.mergeOutcome stamp ids target = (merger stamp.now (stamp.rowId 0) target rows).map (rows, ·) := by
  subst hrows
  unfold mergeOutcome
  rw [hrequest, hread]
  change (merger stamp.now (stamp.rowId 0) target (read.mergeSort Store.lockOrder) >>= fun m =>
    pure (read.mergeSort Store.lockOrder, m)) = _
  cases merger stamp.now (stamp.rowId 0) target (read.mergeSort Store.lockOrder) <;> rfl

/-- A merge gives an outcome when its request is accepted, the members are found, and they can be merged in ascending order. -/
theorem mergeOutcome_eq_ok {m : Merger F} (h : p.mergeOutcome stamp ids target = .ok (rows, m)) :
    checkMergeRequest (F := F) p.limits (Locks.distinct ids) target = .ok () ∧
      ∃ read, (Locks.distinct ids).mapM p.store.row = .ok read ∧ rows = read.mergeSort Store.lockOrder ∧
        merger stamp.now (stamp.rowId 0) target rows = .ok m := by
  unfold mergeOutcome at h
  simp only [bind_eq_ok_iff, mapError_eq_ok_iff, pure_eq_ok_iff] at h
  obtain ⟨_, hrequest, read, hread, m', hm', he⟩ := h
  cases he
  exact ⟨hrequest, read, hread, rfl, hm'⟩

/-- There is room for the range that is to take the place of its members, and it has the right shape. -/
theorem room_of_mergeOutcome (h : p.store.AtRest) (hshaped : ∀ r ∈ p.store.table, r.span.Shaped)
    (hfresh : stamp.Fresh p.store.table 1) (ho : p.mergeOutcome stamp ids target = .ok (rows, .merged row)) :
    row.named = row ∧ row.span.Shaped ∧ p.store.table.Room rows [row] := by
  obtain ⟨hrequest, read, hread, hrows, hm⟩ := mergeOutcome_eq_ok ho
  have hmem : ∀ r ∈ rows, r ∈ p.store.table := by
    intro r hr
    rw [hrows, List.mem_mergeSort] at hr
    exact (Store.rows_of_mapM h.valid hread).2 r hr
  have hshapes : ∀ r ∈ rows, r.span.Shaped := fun r hr => hshaped r (hmem r hr)
  have hwidth := checkMergeRequest_eq_ok hrequest
  obtain ⟨first, last, hf, hl, hc, ⟨he, -⟩ | ⟨he, -⟩⟩ := merger_eq_ok hm
  · cases he
  · cases he
    refine ⟨named_mergedRange .., ?_, room_of_members h.valid hmem hf hl hc hshapes hwidth hfresh stamp.now⟩
    rw [mergedRange_span]
    exact shaped_over hf hl hc hshapes hwidth

/-- The range that is to take the place of its members overlaps no other row. -/
theorem checkFree_of_mergeOutcome (h : p.store.AtRest) (hshaped : ∀ r ∈ p.store.table, r.span.Shaped)
    (hfresh : stamp.Fresh p.store.table 1) (ho : p.mergeOutcome stamp ids target = .ok (rows, .merged row)) :
    p.store.checkFree row.span (Locks.distinct ids) = .ok () := by
  obtain ⟨-, -, hroom⟩ := room_of_mergeOutcome h hshaped hfresh ho
  obtain ⟨-, read, hread, hrows, -⟩ := mergeOutcome_eq_ok ho
  refine (Table.checkFree_eq_ok_iff h.valid).2 fun s hs hsid => ?_
  have hout : s ∉ rows := by
    intro hr
    rw [hrows, List.mem_mergeSort] at hr
    exact hsid ((Store.rows_of_mapM h.valid hread).1 ▸ List.mem_map_of_mem hr)
  exact (hroom.free s hs hout row (List.mem_singleton.2 rfl)).2

/-- A merge ends as is decided beforehand: nothing changes, or the new row takes the place of its members, and this is written
down and announced. -/
theorem merge_becomes (h : p.store.AtRest) (hshaped : ∀ r ∈ p.store.table, r.span.Shaped)
    (hfresh : stamp.Fresh p.store.table 1) (ids : List Identifier) (target : UInt8) :
    (merge stamp ids target user).Ends p
      (fun out q => ∃ rows,
        p.mergeOutcome stamp ids target = .ok (rows, .unchanged out.value) ∧ out.spans = [] ∧ q = p ∨
          p.mergeOutcome stamp ids target = .ok (rows, .merged out.value) ∧ out.spans = [out.value.span] ∧
            Became stamp user p (some (.merge out.value.span (rows.map (·.span)))) rows [out.value] q)
      (fun f q => p.mergeOutcome stamp ids target = .error f ∧ q = p) := by
  have hlocked := (Store.lock_ends h (Locks.distinct ids)).and (Store.lock_reads (Locks.distinct ids))
  rw [Locks.distinct_of_nodup (Locks.nodup_distinct ids)] at hlocked
  unfold merge
  simp only [ends_bind, ends_get, ends_liftM, onStore, ends_on, ends_rewording]
  refine ⟨fun _ hrequest => hlocked.imp ?_ ?_, fun f hf => ⟨?_, trivial⟩⟩
  · rintro tx t ⟨⟨hreads, htable, hlocks⟩, read, hread, htx⟩
    have houtcome : p.mergeOutcome stamp ids target = _ := mergeOutcome_of_rows hrequest hread htx
    have hback : ({ p with store := t.release tx } : Pool F) = p := by
      rw [Store.release, htable, hlocks, ← h.eq_mk]
    simp only [Store.ends_finishing, ends_bind, ends_ofExcept]
    refine ⟨fun m hm => ?_, fun f hf => ⟨by rw [houtcome, hf]; rfl, hback⟩⟩
    have hout : p.mergeOutcome stamp ids target = .ok (tx.rows, m) := by rw [houtcome, hm]; rfl
    cases m with
    | unchanged row =>
      rw [ends_pure, hback]
      exact ⟨tx.rows, .inl ⟨hout, rfl, rfl⟩⟩
    | merged row =>
      obtain ⟨hnamed, hshape, hroom⟩ := room_of_mergeOutcome h hshaped hfresh hout
      have hperm : read.Perm tx.rows := htx ▸ (List.mergeSort_perm read Store.lockOrder).symm
      obtain ⟨hids, -⟩ := Store.rows_of_mapM h.valid hread
      have hguard : ∀ r ∈ read, r.id ∈ tx.guard.ids := by
        intro r hr
        exact (hreads.guards r.id).2 (hids ▸ List.mem_map_of_mem hr)
      have hwrite : (Store.write tx (Locks.distinct ids) [row]).Succeeds t := by
        rw [← hids]
        refine Store.write_succeeds (htable ▸ h.valid) hguard (List.forall_mem_singleton.2 hshape) ?_
        rw [htable, List.map_singleton, hnamed]
        exact hroom.perm hperm
      simp only [ends_bind, ends_demand, ends_pure]
      refine ((Store.write_ends (htable ▸ h.valid) tx _ _).succeeded hwrite).imp ?_ fun _ _ hf => hf
      rintro added u ⟨-, rfl, hulocks, old, hold, -, hsw⟩
      refine ⟨fun row' hadded => ?_, fun hnone => by cases hnone⟩
      cases hadded
      rw [htable, List.map_singleton, hnamed] at hsw
      rw [if_pos trivial, ends_bind, ends_record, ends_pure, hnamed]
      have hswapped := hsw.congr (mem_locked_iff hreads hold hsw) fun _ => Iff.rfl
      have hreleased : (u.release tx).locks = .empty := by rw [Store.release, hulocks, hlocks]
      exact ⟨tx.rows, .inr ⟨hout, rfl, hswapped, hreleased, List.forall_mem_singleton.2 hshape, rfl, rfl⟩⟩
  · rintro f t ⟨rfl, hf⟩
    refine ⟨?_, rfl⟩
    unfold mergeOutcome
    rw [hrequest, hf]
    rfl
  · unfold mergeOutcome
    rw [hf]
    rfl

/-- A merge gives what is decided beforehand, and fails for the reason given there. -/
theorem merge_ends_outcome (h : p.store.AtRest) (hshaped : ∀ r ∈ p.store.table, r.span.Shaped)
    (hfresh : stamp.Fresh p.store.table 1) (ids : List Identifier) (target : UInt8) :
    (merge stamp ids target user).Ends p
      (fun out q => ∃ rows,
        p.mergeOutcome stamp ids target = .ok (rows, .unchanged out.value) ∧ q = p ∨
          p.mergeOutcome stamp ids target = .ok (rows, .merged out.value) ∧
            p.store.table.Swapped rows [out.value] q.store.table)
      (fun f _ => p.mergeOutcome stamp ids target = .error f) := by
  refine (merge_becomes h hshaped hfresh ids target).imp ?_ fun _ _ hf => hf.1
  rintro out q ⟨rows, ⟨hout, -, hq⟩ | ⟨hout, -, hb⟩⟩
  · exact ⟨rows, .inl ⟨hout, hq⟩⟩
  · exact ⟨rows, .inr ⟨hout, hb.table⟩⟩

/-! ## Members that become one range -/

variable {members : List (Range F)} {first last : Range F}

/-- Rows of a valid table that are in ascending order are determined by which rows they are. -/
theorem eq_of_ascending {t : Table (Range F)} (h : t.Valid) {rs ss : List (Range F)} (hmem : ∀ r ∈ rs, r ∈ t)
    (hr : rs.Pairwise fun r s => r.span.interval.last < s.span.interval.first)
    (hs : ss.Pairwise fun r s => r.span.interval.last < s.span.interval.first) (hp : rs.Perm ss) : rs = ss := by
  refine hp.eq_of_pairwise (fun a b ha hb hab hba => ?_) hr hs
  have hordered : ∀ r ∈ rs, r.span.interval.first ≤ r.span.interval.last := fun r hr => h.ordered r (hmem r hr)
  have hale := hordered a ha
  have hble := hordered b (hp.mem_iff.2 hb)
  omega

/-- Stored members in ascending order, named in any order, become one range when they are accepted. -/
theorem mergeOutcome_of_members (h : p.store.AtRest) (hmem : ∀ m ∈ members, m ∈ p.store.table)
    (hasc : members.Pairwise fun r s => r.span.interval.last < s.span.interval.first)
    (hids : ids.Perm (members.map (·.id))) (hrequest : checkMergeRequest (F := F) p.limits ids target = .ok ())
    (hf : members.head? = some first) (hl : members.getLast? = some last) (hc : checkMembers target members = .ok ())
    (hne : ¬(members.length = 1 ∧ first.span.plen = target)) :
    p.mergeOutcome stamp ids target = .ok (members, .merged (mergedRange stamp.now (stamp.rowId 0) target first last)) := by
  have hordered : ∀ m ∈ members, m.span.interval.first ≤ m.span.interval.last := fun m hm => h.valid.ordered m (hmem m hm)
  have hnodup : members.Nodup := hasc.imp_of_mem fun {r s} hr hs hlt he => by
    have := hordered r hr
    rw [he] at this hlt
    omega
  have hidsNodup : ids.Nodup := hids.nodup_iff.2 <| hnodup.map_on fun r hr s hs he => Table.eq_of_id (hmem r hr) (hmem s hs) he
  -- reading the rows finds the members, and sorting what is read puts them in their order again
  obtain ⟨read, hread⟩ : ∃ read, ids.mapM p.store.row = .ok read := by
    refine exists_mapM_eq_ok fun id hid => ?_
    obtain ⟨m, hm, rfl⟩ := List.mem_map.1 (hids.mem_iff.1 hid)
    exact ⟨m, Store.row_eq_ok_iff.2 (hmem m hm)⟩
  obtain ⟨hreadIds, hreadMem⟩ := Store.rows_of_mapM h.valid hread
  have hreadNodup : read.Nodup := List.Nodup.of_map (·.id) (hreadIds ▸ hidsNodup)
  have hperm : read.Perm members := by
    refine (List.perm_ext_iff_of_nodup hreadNodup hnodup).2 fun r => ⟨fun hr => ?_, fun hr => ?_⟩
    · obtain ⟨m, hm, he⟩ := List.mem_map.1 (hids.mem_iff.1 (hreadIds ▸ List.mem_map_of_mem hr))
      rwa [← Table.eq_of_id (hmem m hm) (hreadMem r hr) he]
    · obtain ⟨m, hm, he⟩ := List.mem_map.1 (hreadIds.symm ▸ hids.mem_iff.2 (List.mem_map_of_mem hr))
      rwa [← Table.eq_of_id (hreadMem m hm) (hmem r hr) he]
  have hsorted : members = read.mergeSort Store.lockOrder :=
    eq_of_ascending h.valid hmem hasc (Store.ascending_mergeSort h.valid hreadMem hreadNodup)
      ((List.mergeSort_perm read Store.lockOrder).trans hperm).symm
  rw [← Locks.distinct_of_nodup hidsNodup] at hrequest hread
  rw [mergeOutcome_of_rows hrequest hread hsorted]
  unfold merger
  rw [hc, hf, hl]
  change (if _ then _ else _ : Except Failure (Merger F)).map _ = _
  rw [if_neg hne]
  rfl

end AddressSpace.Pool
