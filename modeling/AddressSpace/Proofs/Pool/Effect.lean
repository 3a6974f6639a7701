import AddressSpace.Proofs.Engine.Change
import AddressSpace.Proofs.Pool.Results
/-!
# What an operation makes of the rows that it names

The operations of `RowOperation` stay within the space of the rows that they name. What becomes of these rows is decided by the rows
and the limits alone (`RowOperation.effect`): whether the operation fails and why, and else which rows give way to which. Nothing in
the rest of the table can stand in the way, as long as the identifiers of new rows are new (`Pool.delete_decided` and those after
it).
-/

namespace AddressSpace

open AddressSpace.Action

variable {F : Family} {α : Type}

/-! ## Effects -/

/-- What becomes of the rows that an operation names. The rows that it puts in and those that it answers with take their new
identifiers and the time from a stamp. -/
structure Effect (F : Family) where
  event : Option (Event F)
  spans : List (Span F)
  old : List (Range F)
  new : Stamp → List (Range F)
  answer : Stamp → List (Range F)

namespace Effect

/-- All rows stay, and some of them are the answer. -/
def stay (rows : List (Range F)) : Effect F := ⟨none, [], [], fun _ => [], fun _ => rows⟩

/-- Rows give way to others, which are the answer. -/
def replace (event : Option (Event F)) (spans : List (Span F)) (old : List (Range F)) (new : Stamp → List (Range F)) : Effect F :=
  ⟨event, spans, old, new, new⟩

/-- The range is deleted, and is the answer as it was. -/
def delete (r : Range F) : Except Failure (Effect F) := do
  Pool.requireMutable r .deleted
  return ⟨some (.delete r.span r.org), [r.span], [r], fun _ => [], fun _ => [r]⟩

/-- The range is reserved for the consumer, if it waits. -/
def reserve (org : Consumer) (r : Range F) : Except Failure (Effect F) := do
  if r.status ≠ .wait then
    throw (.notWaiting r.span r.status)
  return replace (some (.reserve r.span org r.status)) [r.span] [r] fun σ => [r.heldBy .reserved (some org) none σ.now]

/-- The range is assigned to the consumer, if it waits or is reserved for the same organization object. -/
def assign (org : Consumer) (r : Range F) : Except Failure (Effect F) := do
  Pool.requireAssignable r org
  return replace (some (.assign r.span org r.status)) [r.span] [r] fun σ => [r.heldBy .assigned (some org) (some σ.now) σ.now]

/-- The range is taken back, unless it waits. -/
def recover (r : Range F) : Except Failure (Effect F) := do
  if r.status = .wait then
    return stay [r]
  return replace (some (.recover r.span r.org r.status)) [r.span] [r] fun σ => [r.heldBy .wait none none σ.now]

/-- The range gets other remarks, one of the user only when it is assigned. -/
def remark (userRemark adminRemark : Option String) (r : Range F) : Except Failure (Effect F) := do
  if userRemark.isSome && r.status ≠ .assigned then
    throw (.remarkUnassigned r.span r.status)
  return replace none [] [r] fun σ => [r.remarked userRemark adminRemark σ.now]

/-- The range gives way to its parts. -/
def parts (source : Range F) (spans : List (Span F)) : Effect F :=
  replace (some (.split source.span spans)) [source.span] [source] fun σ => Pool.parts source σ.now σ.rowId spans

/-- The range gives way to its subnets of the length given. -/
def split (limits : Limits) (target : UInt8) (source : Range F) : Except Failure (Effect F) := do
  let spans ← Pool.uniformPlan limits source target
  return parts source spans

/-- Refuses spans of which one has not the right shape, as they are refused in rows that are stored. -/
def checkShapes (spans : List (Span F)) : Except Failure Unit := spans.forM fun s => s.checkShape.mapError .invalidRow

/-- The range gives way to the parts of an accepted plan. The shapes of its entries are looked at when they are written. -/
def splitAlong (limits : Limits) (plan : List (Span F)) (source : Range F) : Except Failure (Effect F) := do
  Pool.requireMutable source .split
  source.span.checkPlan plan (limits.planEntries F)
  if plan = [source.span] then
    return stay [source]
  (checkShapes plan).mapError (Failure.rewrap .validation (.splitBreaksTable source.span))
  return parts source plan

/-- Members give way to the range from the start of the first to the end of the last. -/
def combine (target : UInt8) (members : List (Range F)) (first last : Range F) : Effect F :=
  let span : Span F := ⟨first.span.start, last.span.stop, target⟩
  replace (some (.merge span (members.map (·.span)))) [span] members fun σ =>
    [Pool.mergedRange σ.now (σ.rowId 0) target first last]

/-- Checked members in ascending order give way to the range over them, unless it is one of the right length. -/
def merge (target : UInt8) (members : List (Range F)) : Except Failure (Effect F) := do
  Pool.checkMembers target members
  match members.head?, members.getLast? with
  | some first, some last =>
    return if members.length = 1 ∧ first.span.plen = target then stay [first] else combine target members first last
  | _, _ => throw .mergeEmpty

/-- The effect makes the pool `q` of `p`, with a stamp. -/
structure Made (d : Effect F) (stamp : Stamp) (user : Option String) (p q : Pool F) : Prop where
  transition : Transition stamp d.event d.spans d.old (d.new stamp)
  became : Pool.Became stamp user p d.event d.old (d.new stamp) q

/-- Rows that stay make nothing of a pool. -/
theorem made_stay {p : Pool F} (h : p.store.AtRest) (rows : List (Range F)) (stamp : Stamp) (user : Option String) :
    (stay rows).Made stamp user p p := ⟨.stay, .refl h⟩

end Effect

/-! ## Operations -/

/-- An operation on ranges that stays within the space of the rows that it names. -/
inductive RowOperation (F : Family) where
  | delete (id : Identifier)
  | reserve (id : Identifier) (org : Consumer)
  | assign (id : Identifier) (org : Consumer)
  | recover (id : Identifier)
  | remark (id : Identifier) (userRemark adminRemark : Option String) (privileged : Bool)
  | split (id : Identifier) (target : UInt8)
  | splitAlong (id : Identifier) (plan : List (Span F))
  | merge (ids : List Identifier) (target : UInt8)

namespace RowOperation

/-- The rows that the operation names. -/
def names : RowOperation F → List Identifier
  | delete id | reserve id _ | assign id _ | recover id | remark id .. | split id _ | splitAlong id _ => [id]
  | merge ids _ => ids

/-- How many rows the operation may add. -/
def adds (p : Pool F) : RowOperation F → Nat
  | delete _ | reserve .. | assign .. | recover _ | remark .. => 0
  | split id target =>
    match p.store.row id >>= fun source => Pool.uniformPlan p.limits source target with
    | .ok spans => spans.length
    | .error _ => 0
  | splitAlong _ plan => plan.length
  | merge .. => 1

/-- What becomes of the rows named. -/
def effect (p : Pool F) : RowOperation F → Except Failure (Effect F)
  | delete id => p.store.row id >>= Effect.delete
  | reserve id org => p.store.row id >>= Effect.reserve org
  | assign id org => p.store.row id >>= Effect.assign org
  | recover id => p.store.row id >>= Effect.recover
  | remark id userRemark adminRemark privileged => do
    if userRemark.isNone && adminRemark.isNone then
      throw .noRemark
    if adminRemark.isSome && !privileged then
      throw .notPrivileged
    p.store.row id >>= Effect.remark userRemark adminRemark
  | split id target => p.store.row id >>= Effect.split p.limits target
  | splitAlong id plan => p.store.row id >>= Effect.splitAlong p.limits plan
  | merge ids target => do
    Pool.checkMergeRequest (F := F) p.limits (Locks.distinct ids) target
    let rows ← ((Locks.distinct ids).mapM p.store.row).mapError (Failure.rewrap .targetNotExist .memberMissing)
    Effect.merge target (rows.mergeSort Store.lockOrder)

end RowOperation

/-! ## Operations end as decided -/

/-- What is decided by a row that is stored. -/
theorem Store.bind_of_row {β : Type} {s : Store F} {id : Identifier} {r : Range F} (h : s.row id = .ok r)
    (x : Range F → Except Failure β) : s.row id >>= x = x r := by
  rw [h]
  rfl

/-- An operation on one row fails when it is not stored, and ends as its body does on the row when it is. -/
theorem Store.locking_row_cases {s : Store F} (h : s.AtRest) {id : Identifier}
    {body : Transaction F → Range F → Action (Store F) α} {ok : α → Store F → Prop} {fail : Failure → Store F → Prop}
    (hmissing : s.row id = .error (.unknown (.ranges F) id) → fail (.unknown (.ranges F) id) s)
    (hbody : ∀ r ∈ s.table, s.row r.id = .ok r → r.id = id → ∀ tx t, r.id ∈ tx.guard.ids → t.table = s.table →
      (body tx r).Ends t (fun x u => u.locks = t.locks ∧ ok x ⟨u.table, .empty⟩)
        (fun f u => u.locks = t.locks ∧ fail f ⟨u.table, .empty⟩)) :
    (Store.locking [id] fun tx => do
      let r ← tx.row id
      body tx r).Ends s ok fail := by
  cases hget : s.table.get? id with
  | none =>
    refine (Store.locking_row_missing hget).imp (fun _ _ hf => hf.elim) ?_
    rintro f t ⟨rfl, rfl⟩
    refine hmissing ?_
    unfold Store.row
    rw [hget]
  | some r =>
    obtain ⟨hr, rfl⟩ := h.valid.get?_eq_some_iff.1 hget
    exact Store.locking_row_of_mem h hr (hbody r hr (Store.row_eq_ok_iff.2 hget) rfl)

namespace Pool

variable {p : Pool F} {stamp : Stamp} {user : Option String} {target : UInt8}

/-- The operation ends as is decided: it makes the effect of the pool, announces its spans and answers with its rows, or it fails
with the pool as it was. -/
def Decided (p : Pool F) (stamp : Stamp) (user : Option String) (x : Except Failure (Effect F)) (rows : α → List (Range F))
    (a : Action (Pool F) (Announced F α)) : Prop :=
  a.Ends p
    (fun out q => ∃ d, x = .ok d ∧ rows out.value = d.answer stamp ∧ out.spans = d.spans ∧ d.Made stamp user p q)
    (fun f q => x = .error f ∧ q = p)

/-- A locked row is written anew under its identifier and in its place, and an event written down. -/
theorem renew_made (h : p.store.Sound) (stamp : Stamp) (user : Option String) {tx : Transaction F} {t : Store F}
    (htable : t.table = p.store.table) {old r : Range F}
    (hold : old ∈ p.store.table) (hid : r.id = old.id) (hspan : r.span = old.span) (hguard : old.id ∈ tx.guard.ids)
    (event : Option (Event F)) :
    (renew tx r).Ends t
      (fun r' u => r' = r.named ∧ u.locks = t.locks ∧ Became stamp user p event [old] [r.named]
        { p with store := ⟨u.table, .empty⟩, journal := p.journal.enter stamp user event })
      (fun _ _ => False) :=
  (renew_became h.toAtRest stamp user htable hold hid.symm event).succeeded
    (renew_succeeds (htable ▸ h.valid) (htable ▸ hold) hid hspan (h.shaped old hold) hguard)

/-- Deleting does what its effect says. -/
theorem delete_decided (h : p.store.Sound) (id : Identifier) :
    p.Decided stamp user ((RowOperation.delete id).effect p) ([·]) (delete stamp id user) := by
  unfold Decided delete RowOperation.effect
  simp only [ends_bind, onStore, ends_on]
  refine Store.locking_row_cases h.toAtRest (fun hrow => by rw [hrow]; exact ⟨rfl, rfl⟩) ?_
  rintro old hold hrow rfl tx t hguard htable
  simp only [ends_bind, ends_liftM, ends_pure, ends_record, Store.bind_of_row hrow, Effect.delete]
  refine ⟨fun _ hm => ?_, fun f hf => ⟨trivial, by rw [hf]; rfl, back h.toAtRest htable⟩⟩
  have hwrite : (Store.write tx ([old].map (·.id)) []).Succeeds t :=
    Store.write_succeeds (htable ▸ h.valid) (by simpa using hguard) (List.forall_mem_nil _)
      ⟨by simpa [htable] using hold, by simp, by simp, by simp, by simp⟩
  refine ((Store.write_ends (htable ▸ h.valid) tx [old.id] []).succeeded hwrite).imp ?_ fun _ _ hf => hf
  rintro added u ⟨-, rfl, hlocks, old', hold', -, hsw⟩
  rw [htable] at hsw
  obtain ⟨o, rfl, ho⟩ := List.map_eq_singleton_iff.1 hold'
  obtain rfl := Table.eq_of_id (hsw.old_mem o (by simp)) hold ho
  exact ⟨hlocks, _, by rw [hm]; rfl, rfl, rfl, .deleted (requireMutable_eq_ok_iff.1 hm), hsw, rfl, by simp, rfl, rfl⟩

/-- Reserving does what its effect says. -/
theorem reserve_decided (h : p.store.Sound) (id : Identifier) (org : Consumer) :
    p.Decided stamp user ((RowOperation.reserve id org).effect p) ([·]) (reserve stamp id org user) := by
  unfold Decided reserve RowOperation.effect
  simp only [ends_bind, onStore, ends_on]
  refine Store.locking_row_cases h.toAtRest (fun hrow => by rw [hrow]; exact ⟨rfl, rfl⟩) ?_
  rintro old hold hrow rfl tx t hguard htable
  simp only [ends_bind, ends_ite, ends_throw, ends_pure, ends_record, Store.bind_of_row hrow, Effect.reserve]
  refine ⟨fun hw => ⟨trivial, by rw [if_pos hw]; rfl, back h.toAtRest htable⟩, fun hw => ?_⟩
  refine (renew_made h stamp user htable hold (by rfl) (by rfl) hguard (some (.reserve old.span org old.status))).imp ?_
    fun _ _ hf => hf.elim
  rintro _ u ⟨rfl, hlocks, hb⟩
  rw [Range.named_span]
  exact ⟨hlocks, _, by rw [if_neg hw]; rfl, rfl, rfl, .reserved org (Classical.not_not.1 hw), hb⟩

/-- Assigning does what its effect says. -/
theorem assign_decided (h : p.store.Sound) (id : Identifier) (org : Consumer) :
    p.Decided stamp user ((RowOperation.assign id org).effect p) ([·]) (assign stamp id org user) := by
  unfold Decided assign RowOperation.effect
  simp only [ends_bind, onStore, ends_on]
  refine Store.locking_row_cases h.toAtRest (fun hrow => by rw [hrow]; exact ⟨rfl, rfl⟩) ?_
  rintro old hold hrow rfl tx t hguard htable
  simp only [ends_bind, ends_liftM, ends_pure, ends_record, Store.bind_of_row hrow, Effect.assign]
  refine ⟨fun _ ha => ?_, fun f hf => ⟨trivial, by rw [hf]; rfl, back h.toAtRest htable⟩⟩
  refine (renew_made h stamp user htable hold (by rfl) (by rfl) hguard (some (.assign old.span org old.status))).imp ?_
    fun _ _ hf => hf.elim
  rintro _ u ⟨rfl, hlocks, hb⟩
  rw [Range.named_span]
  exact ⟨hlocks, _, by rw [ha]; rfl, rfl, rfl, .assigned org ha, hb⟩

/-- Recovering does what its effect says. -/
theorem recover_decided (h : p.store.Sound) (id : Identifier) :
    p.Decided stamp user ((RowOperation.recover id).effect p) ([·]) (recover stamp id user) := by
  unfold Decided recover RowOperation.effect
  simp only [ends_bind, onStore, ends_on]
  refine Store.locking_row_cases h.toAtRest (fun hrow => by rw [hrow]; exact ⟨rfl, rfl⟩) ?_
  rintro old hold hrow rfl tx t hguard htable
  simp only [ends_bind, ends_ite, ends_pure, ends_record, Store.bind_of_row hrow, Effect.recover]
  refine ⟨fun hw => ⟨trivial, fun _ => ?_, fun hne => absurd hw hne⟩, fun hw => ?_⟩
  · rw [back h.toAtRest htable]
    exact ⟨_, by rw [if_pos hw]; rfl, rfl, rfl, Effect.made_stay h.toAtRest ..⟩
  · refine (renew_made h stamp user htable hold (by rfl) (by rfl) hguard (some (.recover old.span old.org old.status))).imp ?_
      fun _ _ hf => hf.elim
    rintro _ u ⟨rfl, hlocks, hb⟩
    rw [Range.named_span]
    exact ⟨hlocks, fun he => absurd he hw, fun _ => ⟨_, by rw [if_neg hw]; rfl, rfl, rfl, .recovered hw, hb⟩⟩

/-- Remarking does what its effect says, and touches no span. -/
theorem remark_decided (h : p.store.Sound) (id : Identifier) (userRemark adminRemark : Option String) (privileged : Bool) :
    (remark stamp id userRemark adminRemark privileged).Ends p
      (fun r q => ∃ d, (RowOperation.remark id userRemark adminRemark privileged).effect p = .ok d ∧ [r] = d.answer stamp ∧
        d.spans = [] ∧ d.Made stamp user p q)
      (fun f q => (RowOperation.remark id userRemark adminRemark privileged).effect p = .error f ∧ q = p) := by
  unfold remark RowOperation.effect
  simp only [ends_bind, ends_ite, ends_throw, onStore, ends_on]
  refine ⟨fun hnone => ⟨by rw [if_pos hnone]; rfl, trivial⟩, fun hsome => ?_⟩
  rw [if_neg hsome]
  refine ⟨fun hweak => ⟨by rw [if_pos hweak]; rfl, trivial⟩, fun hstrong => ?_⟩
  rw [if_neg hstrong]
  refine Store.locking_row_cases h.toAtRest (fun hrow => by rw [hrow]; exact ⟨rfl, rfl⟩) ?_
  rintro old hold hrow rfl tx t hguard htable
  simp only [ends_bind, ends_ite, ends_throw, Store.bind_of_row hrow, Effect.remark]
  refine ⟨fun hfree => ⟨trivial, by rw [if_pos hfree]; rfl, back h.toAtRest htable⟩, fun hfree => ?_⟩
  refine (renew_made h stamp user htable hold (by rfl) (by rfl) hguard none).imp ?_ fun _ _ hf => hf.elim
  rintro _ u ⟨rfl, hlocks, hb⟩
  exact ⟨hlocks, _, by rw [if_neg hfree]; rfl, rfl, rfl, .remarked userRemark adminRemark, hb⟩

/-- Where ranges are refused when they are prepared, their spans are when they are checked alone, for the same reason. -/
theorem checkShapes_of_mapM {rs : List (Range F)} {f : Failure} (h : rs.mapM Range.prepare = .error f) :
    Effect.checkShapes (rs.map (·.span)) = .error f := by
  induction rs with
  | nil => cases h
  | cons r rs ih =>
    rw [List.mapM_cons] at h
    change (r.span.checkShape.mapError Failure.invalidRow >>= fun _ => Effect.checkShapes (rs.map (·.span))) = _
    unfold Range.prepare at h ih
    cases hcheck : r.span.checkShape.mapError Failure.invalidRow with
    | error g =>
      rw [hcheck] at h
      cases h
      rfl
    | ok _ =>
      rw [hcheck] at h
      cases hrest : rs.mapM Range.prepare with
      | error g =>
        unfold Range.prepare at hrest
        rw [hrest] at h
        cases h
        exact ih hrest
      | ok _ =>
        unfold Range.prepare at hrest
        rw [hrest] at h
        cases h

/-- Spans of the right shape pass the check. -/
theorem checkShapes_of_shaped {spans : List (Span F)} (h : ∀ x ∈ spans, x.Shaped) :
    Effect.checkShapes spans = .ok () := by
  refine forM_eq_ok_iff.2 fun x hx => ?_
  rw [mapError_eq_ok_iff, Span.checkShape_eq_ok_iff]
  exact h x hx

/-- A locked range gives way to the parts of an accepted plan, unless one of them has not the right shape. -/
theorem writeParts_made (h : p.store.Sound) (stamp : Stamp) (user : Option String) {tx : Transaction F} {t : Store F}
    (htable : t.table = p.store.table) {source : Range F} (hold : source ∈ p.store.table) (hguard : source.id ∈ tx.guard.ids)
    (hm : source.status.mutable = true) {spans : List (Span F)}
    (htile : Interval.Tiles source.span.start.bits (source.span.stop.bits + 1) (spans.map Span.interval))
    (hne : spans ≠ [source.span]) (hfresh : stamp.Fresh p.store.table spans.length) :
    (writeParts stamp tx source spans).Ends t
      (fun rows u => (∀ x ∈ spans, x.Shaped) ∧ rows = parts source stamp.now stamp.rowId spans ∧ u.locks = t.locks ∧
        (Effect.parts source spans).Made stamp user p
          { p with
            store := ⟨u.table, .empty⟩
            journal := p.journal.enter stamp user (some (.split source.span spans)) })
      (fun f u => (Effect.checkShapes spans).mapError (Failure.rewrap .validation (.splitBreaksTable source.span)) = .error f ∧
        u = t) := by
  by_cases hshaped : ∀ x ∈ spans, x.Shaped
  · have hsucceeds := writeParts_succeeds (htable ▸ h.valid) (htable ▸ hold) hguard (h.shaped source hold).start_le hshaped htile
      (htable ▸ hfresh)
    refine ((writeParts_ends h.toAtRest user htable hold spans).and hsucceeds).imp ?_ fun _ _ hf => hf.2.elim
    rintro rows u ⟨⟨rfl, hlocks, hb⟩, hrows, -⟩
    have htransition : Transition stamp _ _ _ _ := .split hm htile hne
    rw [map_named_parts] at hb htransition
    exact ⟨hshaped, hrows, hlocks, htransition, hb⟩
  · have hlocked : ([source.id] : List Identifier).find? (!tx.guard.ids.contains ·) = none := by simpa using hguard
    unfold writeParts Store.write
    simp only [ends_rewording, hlocked, ends_bind, ends_ofExcept]
    refine ⟨fun rows hrows => absurd (fun x hx => ?_) hshaped, fun f hf => ⟨?_, trivial⟩⟩
    · rw [← map_span_parts source stamp.now stamp.rowId spans, List.mem_map] at hx
      obtain ⟨r, hr, rfl⟩ := hx
      exact (Range.mapM_prepare_eq_ok hrows).1 r hr
    · have hspans := checkShapes_of_mapM hf
      rw [map_span_parts] at hspans
      rw [hspans]
      rfl

/-- Splitting does what its effect says. -/
theorem split_decided (h : p.store.Sound) (id : Identifier) (target : UInt8)
    (hfresh : stamp.Fresh p.store.table ((RowOperation.split id target).adds p)) :
    p.Decided stamp user ((RowOperation.split id target).effect p) (fun rows => rows) (split stamp id target user) := by
  unfold Decided split RowOperation.effect
  simp only [ends_bind, ends_get, onStore, ends_on]
  refine Store.locking_row_cases h.toAtRest (fun hrow => by rw [hrow]; exact ⟨rfl, rfl⟩) ?_
  rintro source hold hrow rfl tx t hguard htable
  simp only [ends_bind, ends_liftM, ends_pure, ends_record, Store.bind_of_row hrow, Effect.split]
  refine ⟨fun spans hplan => ?_, fun f hf => ⟨trivial, by rw [hf]; rfl, back h.toAtRest htable⟩⟩
  obtain ⟨hm, hlonger, -, -, -, hspans⟩ := uniformPlan_eq_ok_iff.1 hplan
  obtain ⟨hshaped, htile⟩ := shaped_of_uniformPlan hplan
  have hids : stamp.Fresh p.store.table spans.length := by
    simpa only [RowOperation.adds, Store.bind_of_row hrow, hplan] using hfresh
  refine (writeParts_made h stamp user htable hold hguard hm htile (hspans ▸ pieces_ne_self hlonger) hids).imp ?_ ?_
  · rintro rows u ⟨-, rfl, hlocks, hmade⟩
    exact ⟨hlocks, _, by rw [hplan]; rfl, rfl, rfl, hmade⟩
  · rintro f u ⟨hf, -⟩
    rw [checkShapes_of_shaped hshaped] at hf
    cases hf

/-- Splitting along a plan does what its effect says. -/
theorem splitAlong_decided (h : p.store.Sound) (id : Identifier) (plan : List (Span F))
    (hfresh : stamp.Fresh p.store.table plan.length) :
    p.Decided stamp user ((RowOperation.splitAlong id plan).effect p) (fun rows => rows) (splitAlong stamp id plan user) := by
  unfold Decided splitAlong RowOperation.effect
  simp only [ends_bind, ends_get, onStore, ends_on]
  refine Store.locking_row_cases h.toAtRest (fun hrow => by rw [hrow]; exact ⟨rfl, rfl⟩) ?_
  rintro source hold hrow rfl tx t hguard htable
  simp only [ends_bind, ends_liftM, ends_ite, ends_pure, Store.bind_of_row hrow, Effect.splitAlong]
  refine ⟨fun _ hm => ?_, fun f hf => ⟨trivial, by rw [hf]; rfl, back h.toAtRest htable⟩⟩
  rw [hm]
  refine ⟨fun _ hplan => ?_, fun f hf => ⟨trivial, by rw [hf]; rfl, back h.toAtRest htable⟩⟩
  rw [hplan]
  refine ⟨fun hself => ⟨trivial, ?_⟩, fun hne => ?_⟩
  · rw [back h.toAtRest htable]
    exact ⟨_, by rw [if_pos hself]; rfl, rfl, rfl, Effect.made_stay h.toAtRest ..⟩
  · rw [if_neg hne]
    refine (writeParts_made h stamp user htable hold hguard (requireMutable_eq_ok_iff.1 hm) (Span.tiles_of_checkPlan hplan) hne
      hfresh).imp ?_ ?_
    · rintro rows u ⟨hshaped, rfl, hlocks, hmade⟩
      rw [checkShapes_of_shaped hshaped]
      exact ⟨hlocks, _, rfl, rfl, rfl, hmade⟩
    · rintro f u ⟨hf, rfl⟩
      rw [hf]
      exact ⟨rfl, rfl, back h.toAtRest htable⟩

section Merge

variable {ids : List Identifier} {rows read : List (Range F)} {first last : Range F}

/-- Members that pass the check are merged, unless there is one of that length, which stays. -/
theorem merge_eq_ok (hcheck : checkMembers target rows = .ok ()) (hf : rows.head? = some first) (hl : rows.getLast? = some last) :
    Effect.merge target rows =
      .ok (if rows.length = 1 ∧ first.span.plen = target then .stay [first] else .combine target rows first last) := by
  unfold Effect.merge
  rw [hcheck, hf, hl]
  rfl

/-- With an accepted request and all rows stored, the members decide. -/
theorem effect_merge_of_rows (hrequest : checkMergeRequest (F := F) p.limits (Locks.distinct ids) target = .ok ())
    (hread : (Locks.distinct ids).mapM p.store.row = .ok read) (hrows : rows = read.mergeSort Store.lockOrder) :
    (RowOperation.merge ids target).effect p = Effect.merge target rows := by
  subst hrows
  rw [RowOperation.effect, hrequest, hread]
  rfl

/-- Members that do not become one range are refused as they are then. -/
theorem merge_of_merger_error {now : Instant} {id : Identifier} {f : Failure} (h : merger now id target rows = .error f) :
    Effect.merge target rows = .error f := by
  unfold merger at h
  unfold Effect.merge
  cases hcheck : checkMembers target rows with
  | error g =>
    rw [hcheck] at h
    cases h
    rfl
  | ok _ =>
    rw [hcheck] at h
    cases hf : rows.head? with
    | none =>
      rw [hf] at h
      cases h
      rfl
    | some first =>
      cases hl : rows.getLast? with
      | none =>
        rw [hf, hl] at h
        cases h
        rfl
      | some last =>
        -- accepted members are refused only when there are none
        rw [hf, hl] at h
        change (if _ then Except.ok _ else Except.ok _) = _ at h
        split at h <;> cases h

/-- What makes a merge fail makes its effect a failure. -/
theorem effect_merge_of_error {f : Failure} (h : p.mergeOutcome stamp ids target = .error f) :
    (RowOperation.merge ids target).effect p = .error f := by
  cases hrequest : checkMergeRequest (F := F) p.limits (Locks.distinct ids) target with
  | error g =>
    unfold mergeOutcome at h
    rw [hrequest] at h
    cases h
    rw [RowOperation.effect, hrequest]
    rfl
  | ok _ =>
    cases hread : (Locks.distinct ids).mapM p.store.row with
    | error g =>
      unfold mergeOutcome at h
      rw [hrequest, hread] at h
      cases h
      rw [RowOperation.effect, hrequest, hread]
      rfl
    | ok read =>
      rw [mergeOutcome_of_rows hrequest hread rfl] at h
      rw [effect_merge_of_rows hrequest hread rfl]
      cases hm : merger stamp.now (stamp.rowId 0) target (read.mergeSort Store.lockOrder) with
      | error g =>
        rw [hm] at h
        cases h
        exact merge_of_merger_error hm
      | ok m =>
        rw [hm] at h
        cases h

/-- Merging does what its effect says. -/
theorem merge_decided (h : p.store.Sound) (ids : List Identifier) (target : UInt8) (hfresh : stamp.Fresh p.store.table 1) :
    p.Decided stamp user ((RowOperation.merge ids target).effect p) ([·]) (merge stamp ids target user) := by
  refine (merge_becomes h.toAtRest h.shaped hfresh ids target).imp ?_ ?_
  · rintro out q ⟨rows, hq⟩
    rcases hq with ⟨hout, hspans, rfl⟩ | ⟨hout, hspans, hb⟩
    · obtain ⟨hrequest, read, hread, hrows, hm⟩ := mergeOutcome_eq_ok hout
      obtain ⟨first, last, hf, hl, hcheck, ⟨he, hone⟩ | ⟨he, -⟩⟩ := merger_eq_ok hm
      · cases he
        rw [effect_merge_of_rows hrequest hread hrows, merge_eq_ok hcheck hf hl, if_pos hone]
        exact ⟨_, rfl, rfl, hspans, Effect.made_stay h.toAtRest ..⟩
      · cases he
    · obtain ⟨hrequest, read, hread, hrows, hm⟩ := mergeOutcome_eq_ok hout
      obtain ⟨first, last, hf, hl, hcheck, ⟨he, -⟩ | ⟨he, hne⟩⟩ := merger_eq_ok hm
      · cases he
      · have hvalue : out.value = mergedRange stamp.now (stamp.rowId 0) target first last := Merger.merged.inj he
        rw [effect_merge_of_rows hrequest hread hrows, merge_eq_ok hcheck hf hl, if_neg hne]
        have htransition : Transition stamp _ _ _ _ := .merged hf hl hcheck hne
        rw [named_mergedRange] at htransition
        rw [hvalue, mergedRange_span] at hb
        rw [hvalue, mergedRange_span] at hspans
        exact ⟨_, rfl, congrArg ([·]) hvalue, hspans, htransition, hb⟩
  · rintro f q ⟨hout, rfl⟩
    exact ⟨effect_merge_of_error hout, rfl⟩

end Merge

end Pool

end AddressSpace
