import AddressSpace.Proofs.Engine.Sound
import AddressSpace.Proofs.Pool.Results
/-!
# Previews tell what will happen

The preview of a split or a merge and the operation itself take different ways: the operation locks rows, prepares the new ones
and swaps them in, the preview does nothing of the kind. They agree because a split or a merge that has passed its checks can
always be written (`Pool.split_ends_preview`, `Pool.merge_ends_preview`). What the preview gives, a failure included, is what the
operation gives, up to identifiers and times (`preview_exact`).
-/

namespace AddressSpace

open AddressSpace.Action

variable {F : Family}

/-- The range without what a stamp gives to a new one: its identifier and its times. -/
def Range.unstamped (r : Range F) : Range F := { r with id := .nil, createdAt := default, updatedAt := default }

namespace Pool

variable {p : Pool F} {stamp stamp' : Stamp} {user : Option String} {target : UInt8}

/-! ## Splits -/

/-- Two lists of parts differ in identifiers and times only. -/
theorem map_unstamped_parts (source : Range F) (now now' : Instant) (ids ids' : Nat → Identifier) (spans : List (Span F)) :
    (parts source now ids spans).map Range.unstamped = (parts source now' ids' spans).map Range.unstamped := by
  have hpart : ∀ (id id' : Identifier) (x : Span F), (part source now id x).unstamped = (part source now' id' x).unstamped :=
    fun _ _ _ => rfl
  rw [parts, parts, List.map_map, List.map_map]
  exact List.map_congr_left fun s _ => hpart (ids s.2) (ids' s.2) s.1

/-- The preview of a stored range's split gives the parts that the plan says, or fails as the plan does. -/
theorem splitPreview_of_row {source : Range F} {id : Identifier} (h : p.store.row id = .ok source) :
    p.splitPreview stamp id target =
      (uniformPlan p.limits source target).map (parts source stamp.now fun _ => .nil) := by
  unfold splitPreview
  rw [h]
  change (uniformPlan p.limits source target >>= fun spans => pure (parts source stamp.now (fun _ => .nil) spans)) = _
  cases uniformPlan p.limits source target <;> rfl

/-- A split ends as its preview says. -/
theorem split_ends_preview (h : p.store.AtRest) (stamp : Stamp) (id : Identifier)
    (hfresh : ∀ rows, p.splitPreview stamp id target = .ok rows → stamp'.Fresh p.store.table rows.length) :
    (split stamp' id target user).Ends p
      (fun out _ => ∃ rows, p.splitPreview stamp id target = .ok rows ∧
        out.value.map Range.unstamped = rows.map Range.unstamped)
      (fun f _ => p.splitPreview stamp id target = .error f) := by
  unfold split
  simp only [ends_bind, ends_get, onStore, ends_on, ends_record, ends_pure]
  cases hget : p.store.table.get? id with
  | none =>
    have hrow : p.store.row id = .error (.unknown (.ranges F) id) := by
      unfold Store.row
      rw [hget]
    refine (Store.locking_row_missing hget).imp (fun _ _ hf => hf.elim) ?_
    rintro f t ⟨rfl, -⟩
    unfold splitPreview
    rw [hrow]
    rfl
  | some source =>
    obtain ⟨hsource, rfl⟩ := h.valid.get?_eq_some_iff.1 hget
    have hpreview : p.splitPreview stamp (Row.id source) target = _ := splitPreview_of_row (Store.row_eq_ok_iff.2 hget)
    refine Store.locking_row_of_mem h hsource fun tx t hguard htable => ?_
    simp only [ends_bind, ends_liftM, ends_pure]
    refine ⟨fun spans hplan => ?_, fun f hf => ⟨trivial, ?_⟩⟩
    · rw [hplan] at hpreview
      obtain ⟨hshaped, htile⟩ := shaped_of_uniformPlan hplan
      obtain ⟨-, -, -, -, hle, -⟩ := uniformPlan_eq_ok_iff.1 hplan
      have hids : stamp'.Fresh t.table spans.length := by
        have hrows := hfresh _ hpreview
        rwa [length_parts, ← htable] at hrows
      have hwrite := writeParts_succeeds (htable ▸ h.valid) (htable ▸ hsource) hguard hle hshaped htile hids
      refine hwrite.imp ?_ fun _ _ hf => hf.elim
      rintro rows u ⟨rfl, hlocks⟩
      exact ⟨hlocks, _, hpreview, map_unstamped_parts ..⟩
    · rw [hpreview, hf]
      rfl

/-! ## Merges -/

/-- Which members stay or become one, and which fail to, does not depend on the stamp. -/
theorem merger_cases (now now' : Instant) (id id' : Identifier) (members : List (Range F)) :
    (∃ f, merger now id target members = .error f ∧ merger now' id' target members = .error f) ∨
      (∃ row, merger now id target members = .ok (.unchanged row) ∧
        merger now' id' target members = .ok (.unchanged row)) ∨
      ∃ first last, members.head? = some first ∧ members.getLast? = some last ∧ checkMembers target members = .ok () ∧
        merger now id target members = .ok (.merged (mergedRange now id target first last)) ∧
        merger now' id' target members = .ok (.merged (mergedRange now' id' target first last)) := by
  unfold merger
  cases hcheck : checkMembers target members with
  | error f => exact .inl ⟨f, rfl, rfl⟩
  | ok _ =>
    cases hf : members.head? with
    | none => exact .inl ⟨.mergeEmpty, rfl, rfl⟩
    | some first =>
      cases hl : members.getLast? with
      | none => exact .inl ⟨.mergeEmpty, rfl, rfl⟩
      | some last =>
        by_cases hone : members.length = 1 ∧ first.span.plen = target
        · exact .inr (.inl ⟨first, if_pos hone, if_pos hone⟩)
        · exact .inr (.inr ⟨first, last, rfl, rfl, rfl, if_neg hone, if_neg hone⟩)

/-- The preview of an accepted request to merge stored rows says what becomes of them, in ascending order. -/
theorem mergePreview_of_rows {ids : List Identifier} {rows : List (Range F)}
    (hrequest : checkMergeRequest (F := F) p.limits (Locks.distinct ids) target = .ok ())
    (hrows : (Locks.distinct ids).mapM p.store.row = .ok rows) :
    p.mergePreview stamp ids target = do
      match ← merger stamp.now .nil target (rows.mergeSort Store.lockOrder) with
      | .unchanged row => return row
      | .merged row =>
        p.store.checkFree row.span (Locks.distinct ids)
        return row := by
  unfold mergePreview
  simp only [hrequest, hrows]
  rfl

/-- What makes a merge fail makes its preview fail. -/
theorem mergePreview_of_outcome_error {ids : List Identifier} {f : Failure} (hf : p.mergeOutcome stamp' ids target = .error f) :
    p.mergePreview stamp ids target = .error f := by
  cases hrequest : checkMergeRequest (F := F) p.limits (Locks.distinct ids) target with
  | error g =>
    unfold mergeOutcome at hf
    unfold mergePreview
    simp only [hrequest] at hf ⊢
    cases hf
    rfl
  | ok _ =>
    cases hread : (Locks.distinct ids).mapM p.store.row with
    | error g =>
      unfold mergeOutcome at hf
      unfold mergePreview
      simp only [hrequest, hread] at hf ⊢
      cases hf
      rfl
    | ok read =>
      rw [mergeOutcome_of_rows hrequest hread rfl] at hf
      rw [mergePreview_of_rows hrequest hread]
      rcases merger_cases stamp.now stamp'.now .nil (stamp'.rowId 0) (read.mergeSort Store.lockOrder) with
        ⟨g, hg, hg'⟩ | ⟨row, -, hrow'⟩ | ⟨first, last, -, -, -, -, hrow'⟩
      · rw [hg'] at hf
        cases hf
        rw [hg]
        rfl
      · rw [hrow'] at hf
        cases hf
      · rw [hrow'] at hf
        cases hf

/-- A merge ends as its preview says. -/
theorem merge_ends_preview (h : p.store.AtRest) (hshaped : ∀ r ∈ p.store.table, r.span.Shaped) (stamp : Stamp)
    (ids : List Identifier) (hfresh : stamp'.Fresh p.store.table 1) :
    (merge stamp' ids target user).Ends p
      (fun out _ => ∃ row, p.mergePreview stamp ids target = .ok row ∧ out.value.unstamped = row.unstamped)
      (fun f _ => p.mergePreview stamp ids target = .error f) := by
  refine (merge_ends_outcome h hshaped hfresh ids target).imp ?_ fun f _ hf => mergePreview_of_outcome_error hf
  -- the members stay a single row or become one range, and on either way the preview says the same of them
  rintro out q ⟨rows, ⟨hout, -⟩ | ⟨hout, -⟩⟩
  · obtain ⟨hrequest, read, hread, rfl, hm⟩ := mergeOutcome_eq_ok hout
    have hpreview : p.mergePreview stamp ids target = _ := mergePreview_of_rows hrequest hread
    rcases merger_cases stamp.now stamp'.now .nil (stamp'.rowId 0) (read.mergeSort Store.lockOrder) with
      ⟨f, -, hf'⟩ | ⟨row, hrow, hrow'⟩ | ⟨first, last, -, -, -, -, hrow'⟩
    · rw [hf'] at hm
      cases hm
    · rw [hrow'] at hm
      cases hm
      rw [hrow] at hpreview
      exact ⟨out.value, hpreview, rfl⟩
    · rw [hrow'] at hm
      cases hm
  · have hfree := checkFree_of_mergeOutcome h hshaped hfresh hout
    obtain ⟨hrequest, read, hread, rfl, hm⟩ := mergeOutcome_eq_ok hout
    have hpreview : p.mergePreview stamp ids target = _ := mergePreview_of_rows hrequest hread
    rcases merger_cases stamp.now stamp'.now .nil (stamp'.rowId 0) (read.mergeSort Store.lockOrder) with
      ⟨f, -, hf'⟩ | ⟨row, -, hrow'⟩ | ⟨first, last, -, -, -, hrow, hrow'⟩
    · rw [hf'] at hm
      cases hm
    · rw [hrow'] at hm
      cases hm
    · rw [hrow'] at hm
      have hvalue : mergedRange stamp'.now (stamp'.rowId 0) target first last = out.value :=
        Merger.merged.inj (Except.ok.inj hm)
      rw [hrow] at hpreview
      refine ⟨mergedRange stamp.now .nil target first last, ?_, by rw [← hvalue]; rfl⟩
      rw [hpreview, bind_eq_ok_iff]
      refine ⟨_, rfl, ?_⟩
      rw [← hvalue, mergedRange_span] at hfree
      rw [check_bind_eq_ok_iff, mergedRange_span]
      exact ⟨hfree, rfl⟩

end Pool

namespace Engine

variable {e : Engine} {stamp : Stamp} {α β : Type}

/-- An operation on a pool that ends as a pure computation says gives the same outcome through the engine. -/
theorem run_manage_eq {x : Except Failure α} {view : α → β} {a : Action (Pool F) (Announced F α)}
    (ha : a.Ends (e.pool F) (fun out _ => ∃ y, x = .ok y ∧ view out.value = view y) (fun f _ => x = .error f)) :
    ((manage F a).run e).1.map view = x.map view := by
  have hmanage : (manage F a).Ends e (fun y _ => ∃ z, x = .ok z ∧ view y = view z) (fun f _ => x = .error f) :=
    (ends_manage a).2 ha
  unfold Action.run
  unfold Ends at hmanage
  cases hrun : manage F a e with
  | ok y t =>
    rw [hrun] at hmanage
    obtain ⟨z, rfl, hview⟩ := hmanage
    exact congrArg Except.ok hview
  | error f t =>
    rw [hrun] at hmanage
    subst hmanage
    rfl

/-- In every engine that operations lead to from an empty or a restored one, the preview of a split and that of a merge leave the
engine as it is. If the identifiers given to the operation itself are new, the operation gives what the preview gives: the same
failure, or the same rows in the same order, apart from their identifiers and times. -/
theorem preview_exact {start : Engine}
    (hs : (∃ limits, start = empty limits) ∨ ∃ snapshot limits, restore snapshot limits = .ok start)
    (hr : Reached (fun _ => true) start e) (F : Family) (stamp stamp' : Stamp) (user : Option String) (target : UInt8) :
    (∀ id, (Operation.onRanges F stamp user (.splitPreview id target)).after e = e ∧
      ((∀ rows, (e.pool F).splitPreview stamp id target = .ok rows →
          stamp'.Fresh (e.pool F).store.table rows.length) →
        ((split F stamp' id target user).run e).1.map (·.map Range.unstamped) =
          ((e.pool F).splitPreview stamp id target).map (·.map Range.unstamped))) ∧
      ∀ ids, (Operation.onRanges F stamp user (.mergePreview ids target)).after e = e ∧
        (stamp'.Fresh (e.pool F).store.table 1 →
          ((merge F stamp' ids target user).run e).1.map Range.unstamped =
            ((e.pool F).mergePreview stamp ids target).map Range.unstamped) := by
  have hsound : ((e.pool F).store).Sound := (reached_sound (sound_of_start hs) hr).pool F
  refine ⟨fun id => ⟨?_, fun hfresh => ?_⟩, fun ids => ⟨?_, fun hfresh => ?_⟩⟩
  · exact Ends.state (q := fun e' => e' = e) (ends_map .. |>.2 (preview_ends _))
  · exact run_manage_eq (Pool.split_ends_preview hsound.toAtRest stamp id hfresh)
  · exact Ends.state (q := fun e' => e' = e) (ends_map .. |>.2 (preview_ends _))
  · exact run_manage_eq (Pool.merge_ends_preview hsound.toAtRest hsound.shaped stamp ids hfresh)

/-- A reserved network of length 24 is split into two of length 25, and put under one of length 23. -/
theorem preview_exact_sample :
    let e := Operation.afterAll Operation.sample (empty .standard)
    ((e.pool .v4).splitPreview (.counting 32) (.ofBits 17) 25).map List.length = .ok 2 ∧
      ((split .v4 (.counting 64) (.ofBits 17) 25 none).run e).1.map (·.map Range.unstamped) =
        ((e.pool .v4).splitPreview (.counting 32) (.ofBits 17) 25).map (·.map Range.unstamped) ∧
      ((e.pool .v4).mergePreview (.counting 32) [.ofBits 17] 23).isOk = true ∧
      ((merge .v4 (.counting 64) [.ofBits 17] 23 none).run e).1.map Range.unstamped =
        ((e.pool .v4).mergePreview (.counting 32) [.ofBits 17] 23).map Range.unstamped := by
  intro e
  have hreached : Reached (fun _ => true) (empty .standard) e := reached_afterAll _ rfl
  have hrows : ((e.pool .v4).splitPreview (.counting 32) (.ofBits 17) 25).map List.length = .ok 2 := by decide +kernel
  have hfresh : (Stamp.counting 64).Fresh (e.pool .v4).store.table 2 := ⟨by decide, by decide +kernel⟩
  refine ⟨hrows, ?_, by decide +kernel, ?_⟩
  · refine ((preview_exact (.inl ⟨.standard, rfl⟩) hreached .v4 (.counting 32) (.counting 64) none 25).1 _).2 ?_
    intro rows h
    rw [h] at hrows
    rwa [Except.ok.inj hrows]
  · refine ((preview_exact (.inl ⟨.standard, rfl⟩) hreached .v4 (.counting 32) (.counting 64) none 23).2 _).2 ?_
    exact ⟨by decide, fun i hi => hfresh.unused i (Nat.lt_of_lt_of_le hi (by decide))⟩

end Engine

end AddressSpace
