import AddressSpace.Proofs.Engine.Change
import AddressSpace.Proofs.Store.Indistinct
import AddressSpace.Proofs.Store.Success
/-!
# Pools that look the same

An operation on two pools that look the same when their ranges are redacted ends alike on both: with the same failure, or with the
same spans announced and pools that look the same again. The operations that set an admin remark may set different ones. An edit
that changes nothing but the admin remark is the one place where the two runs part: it is a change in the one pool and none in
the other when the remark was there before (`Store.edit_paired`).
-/

namespace AddressSpace

open AddressSpace.Action

variable {F : Family} {α β : Type}

/-- An edit with another admin remark makes ranges that look the same of ranges that do. -/
theorem RangeEdit.redacted_apply (edit : RangeEdit F) (adminRemark : Option String) {r s : Range F}
    (h : r.redacted = s.redacted) :
    (edit.apply r).redacted = (({ edit with adminRemark } : RangeEdit F).apply s).redacted := by
  obtain ⟨_, _, rfl⟩ := Range.exists_of_redacted h
  rfl

/-- A locked range may be written anew with another admin remark and time of change, and the store looks the same after it. -/
theorem Pool.renew_unseen {s : Store F} (h : s.table.Valid) {tx : Transaction F} {old r : Range F} (hold : old ∈ s.table)
    (hshape : old.span.Shaped) (hsettled : old.named = old) (hguard : old.id ∈ tx.guard.ids)
    (hr : old.redacted = r.redacted) :
    (Pool.renew tx r).Ends s (fun r' t => old.redacted = r'.redacted ∧ s.Indistinct t) fun _ _ => False := by
  have hnamed : old.redacted = r.named.redacted := by
    rw [← Range.redacted_named hr, hsettled]
  obtain ⟨_, _, rfl⟩ := Range.exists_of_redacted hr
  refine Ends.imp ((Pool.renew_ends h tx hold (by rfl)).succeeded (Pool.renew_succeeds h hold (by rfl) (by rfl) hshape hguard))
    ?_ fun _ _ hf => hf
  rintro r' t ⟨-, rfl, hlocks, hsw⟩
  exact ⟨hnamed, hsw.indistinct Range.shown_redacted h hnamed, hlocks.symm⟩

namespace Store

variable {s t : Store F} {stamp : Stamp} {id : Identifier}

/-- Two rows, as they were and as they are, look the same in both runs. -/
def PairIndistinct (x y : Range F × Range F) : Prop := x.1.redacted = y.1.redacted ∧ x.2.redacted = y.2.redacted

/-- A locked range is written anew, and given back with what it was. -/
theorem renew_pair_paired {tx ty : Transaction F} (h : s.Indistinct t) (hx : tx.Indistinct ty) {old old' r r' : Range F}
    (hold : old.redacted = old'.redacted) (hr : r.redacted = r'.redacted) :
    (do let r ← Pool.renew tx r; return (old, r) : Action (Store F) (Range F × Range F)).Paired
      (do let r ← Pool.renew ty r'; return (old', r)) s t Indistinct PairIndistinct :=
  (Pool.renew_paired h hx hr).bind fun _ _ _ _ hnew h => paired_pure h ⟨hold, hnew⟩

/-- What is read of a range under its lock: it is one of the store's, has the right shape, and its name is settled. -/
theorem row_of_lock (hs : s.Sound) {tx : Transaction F} {s' : Store F} {r : Range F} (hlock : lock [id] s = .ok tx s')
    (hr : tx.row id = .ok r) : s'.table.Valid ∧ r ∈ s'.table ∧ r.span.Shaped ∧ r.named = r ∧ r.id ∈ tx.guard.ids := by
  obtain ⟨hreads, htable, -⟩ := (lock_ends hs.toAtRest [id]).ok_of_eq hlock
  obtain ⟨hmem, hid⟩ := hreads.row hr
  exact ⟨htable ▸ hs.valid, htable ▸ hmem, hs.shaped r hmem, hs.settled r hmem, (hreads.guards _).2 (by simp [hid])⟩

/-- An edit ends alike whatever admin remark it gives. Where one run writes the range anew and the other leaves it as it is, the
remark and the time of the change are all that is written. -/
theorem edit_paired (hs : s.Sound) (ht : t.Sound) (h : s.Indistinct t) (edit : RangeEdit F) (adminRemark : Option String) :
    (locking [id] fun tx => do
      let old ← tx.row id
      Pool.requireMutable old .edited
      let r := edit.apply old
      if r = old then
        return (old, old)
      let r ← Pool.renew tx { r with updatedAt := stamp.now }
      return (old, r)).Paired (locking [id] fun tx => do
      let old ← tx.row id
      Pool.requireMutable old .edited
      let r := ({ edit with adminRemark } : RangeEdit F).apply old
      if r = old then
        return (old, old)
      let r ← Pool.renew tx { r with updatedAt := stamp.now }
      return (old, r)) s t Indistinct PairIndistinct := by
  refine locking_paired h fun tx ty s' t' hlock hlock' hx h => ?_
  refine paired_liftM_bind h (hx.row id) fun old old' hrow hrow' hold => ?_
  obtain ⟨hvalid, hmem, hshape, hsettled, hguard⟩ := row_of_lock hs hlock hrow
  obtain ⟨hvalid', hmem', hshape', hsettled', hguard'⟩ := row_of_lock ht hlock' hrow'
  have hmutable : Pool.requireMutable old .edited = Pool.requireMutable old' .edited := by
    obtain ⟨_, _, rfl⟩ := Range.exists_of_redacted hold
    rfl
  have hedit := edit.redacted_apply adminRemark hold
  refine paired_liftM_bind h (Agree.of_eq hmutable) fun _ _ _ _ _ => ?_
  by_cases hsame : edit.apply old = old
  · by_cases hsame' : ({ edit with adminRemark } : RangeEdit F).apply old' = old'
    · simp only [hsame, hsame', if_true]
      exact paired_pure h ⟨hold, hold⟩
    · simp only [hsame, hsame', if_true, if_false]
      refine Ends.paired_pure_left ?_
      simp only [ends_bind, ends_pure]
      refine (Pool.renew_unseen hvalid' hmem' hshape' hsettled' hguard' ?_).imp ?_ fun _ _ hf => hf
      · rw [← hold, ← hsame, hedit]
        rfl
      · rintro r u ⟨hr, hu⟩
        exact ⟨⟨hold, hold.trans hr⟩, h.trans hu⟩
  · by_cases hsame' : ({ edit with adminRemark } : RangeEdit F).apply old' = old'
    · simp only [hsame, hsame', if_true, if_false]
      refine Ends.paired_pure_right ?_
      simp only [ends_bind, ends_pure]
      refine (Pool.renew_unseen hvalid hmem hshape hsettled hguard ?_).imp ?_ fun _ _ hf => hf
      · rw [hold, ← hsame', ← hedit]
        rfl
      · rintro r u ⟨hr, hu⟩
        exact ⟨⟨hold, hr.symm.trans hold⟩, hu.symm.trans h⟩
    · simp only [hsame, hsame', if_false]
      exact renew_pair_paired h hx hold hedit

end Store

namespace Pool

/-- The journals and the limits are the same, and the stores look the same when their ranges are redacted. -/
structure Indistinct (p q : Pool F) : Prop where
  store : p.store.Indistinct q.store
  journal : p.journal = q.journal
  limits : p.limits = q.limits

variable {p q : Pool F} {stamp : Stamp} {user : Option String} {id : Identifier} {target : UInt8}

/-- The same spans are announced. -/
def SameSpans (x y : Announced F α) : Prop := x.spans = y.spans

/-- Paired actions on stores are paired actions on pools. -/
theorem onStore_paired {a b : Action (Store F) β} (same : β → β → Prop) (h : p.Indistinct q)
    (hab : a.Paired b p.store q.store Store.Indistinct same) : (onStore a).Paired (onStore b) p q Indistinct same :=
  hab.on fun _ _ hstore => ⟨hstore, h.journal, h.limits⟩

/-- A body that ends alike on one locked row, and what follows it on the pool. -/
theorem onRow_paired {f : Transaction F → Range F → Action (Store F) β} {k : β → Action (Pool F) (Announced F α)}
    (same : β → β → Prop) (h : p.Indistinct q)
    (hbody : ∀ tx ty s t r adminRemark updatedAt, tx.Indistinct ty → s.Indistinct t →
      (f tx r).Paired (f ty { r with adminRemark, updatedAt }) s t Store.Indistinct same)
    (hrest : ∀ x y p q, same x y → p.Indistinct q → (k x).Paired (k y) p q Indistinct SameSpans) :
    (onStore (Store.locking [id] fun tx => do
      let r ← tx.row id
      f tx r) >>= k).Paired (onStore (Store.locking [id] fun tx => do
      let r ← tx.row id
      f tx r) >>= k) p q Indistinct SameSpans :=
  (onStore_paired same h (Store.locking_row_paired h.store hbody)).bind hrest

/-- A record of the same event is written, and the same is announced. -/
theorem record_paired {event : Event F} {x y : Announced F α} (h : p.Indistinct q) (hxy : x.spans = y.spans) :
    (do record stamp user event; return x : Action (Pool F) (Announced F α)).Paired
      (do record stamp user event; return y) p q Indistinct SameSpans := by
  refine Paired.bind (paired_modify ?_) fun _ _ _ _ _ h => paired_pure h hxy
  exact ⟨h.store, by rw [h.journal], h.limits⟩

/-! ## Single ranges -/

/-- Creating a range is paired with creating it with any admin remark. -/
theorem create_paired (h : p.Indistinct q) (new : NewRange F) (adminRemark : String) :
    (create stamp new user).Paired (create stamp { new with adminRemark } user) p q Indistinct SameSpans := by
  unfold create
  refine Paired.bind (onStore_paired _ h (Store.insert_paired h.store (by rfl))) fun r r' p q hr h => ?_
  obtain ⟨_, _, rfl⟩ := Range.exists_of_redacted hr
  exact record_paired h rfl

/-- Changing a range is paired with changing it with any admin remark. -/
theorem update_paired (hp : p.store.Sound) (hq : q.store.Sound) (h : p.Indistinct q) (edit : RangeEdit F)
    (adminRemark : Option String) :
    (update stamp id edit user).Paired (update stamp id { edit with adminRemark } user) p q Indistinct SameSpans := by
  unfold update
  refine (onStore_paired _ h (Store.edit_paired hp hq h.store edit adminRemark)).bind ?_
  rintro ⟨old, new⟩ ⟨old', new'⟩ p q ⟨hold, hnew⟩ h
  obtain ⟨_, _, rfl⟩ := Range.exists_of_redacted hold
  obtain ⟨_, _, rfl⟩ := Range.exists_of_redacted hnew
  exact paired_ite .rfl (fun _ => paired_pure h rfl) fun _ => record_paired h rfl

/-- Deleting a range is paired with itself. -/
theorem delete_paired (h : p.Indistinct q) :
    (delete stamp id user).Paired (delete stamp id user) p q Indistinct SameSpans := by
  unfold delete
  refine onRow_paired (fun r s => r.redacted = s.redacted) h ?_ ?_
  · intro tx ty s t r adminRemark updatedAt hx h
    refine paired_liftM_bind h (Agree.of_eq rfl) fun _ _ _ _ _ => ?_
    exact (Store.write_paired h hx.guard _ rfl).bind fun _ _ _ _ _ h => paired_pure h rfl
  · intro r r' p q hr h
    obtain ⟨_, _, rfl⟩ := Range.exists_of_redacted hr
    exact record_paired h rfl

/-- Reserving a range is paired with itself. -/
theorem reserve_paired (h : p.Indistinct q) (org : Consumer) :
    (reserve stamp id org user).Paired (reserve stamp id org user) p q Indistinct SameSpans := by
  unfold reserve
  refine onRow_paired Store.PairIndistinct h ?_ ?_
  · intro tx ty s t r adminRemark updatedAt hx h
    exact paired_ite .rfl (fun _ => .error _ h) fun _ => Store.renew_pair_paired h hx rfl (by rfl)
  · rintro ⟨old, r⟩ ⟨old', r'⟩ p q ⟨hold, hr⟩ h
    obtain ⟨_, _, rfl⟩ := Range.exists_of_redacted hold
    obtain ⟨_, _, rfl⟩ := Range.exists_of_redacted hr
    exact record_paired h rfl

/-- Assigning a range is paired with itself. -/
theorem assign_paired (h : p.Indistinct q) (org : Consumer) :
    (assign stamp id org user).Paired (assign stamp id org user) p q Indistinct SameSpans := by
  unfold assign
  refine onRow_paired Store.PairIndistinct h ?_ ?_
  · intro tx ty s t r adminRemark updatedAt hx h
    exact paired_liftM_bind h (Agree.of_eq rfl) fun _ _ _ _ _ => Store.renew_pair_paired h hx rfl (by rfl)
  · rintro ⟨old, r⟩ ⟨old', r'⟩ p q ⟨hold, hr⟩ h
    obtain ⟨_, _, rfl⟩ := Range.exists_of_redacted hold
    obtain ⟨_, _, rfl⟩ := Range.exists_of_redacted hr
    exact record_paired h rfl

/-- Recovering a range is paired with itself. -/
theorem recover_paired (h : p.Indistinct q) :
    (recover stamp id user).Paired (recover stamp id user) p q Indistinct SameSpans := by
  unfold recover
  refine onRow_paired Store.PairIndistinct h ?_ ?_
  · intro tx ty s t r adminRemark updatedAt hx h
    exact paired_ite .rfl (fun _ => paired_pure h ⟨rfl, rfl⟩) fun _ => Store.renew_pair_paired h hx rfl (by rfl)
  · rintro ⟨old, r⟩ ⟨old', r'⟩ p q ⟨hold, hr⟩ h
    obtain ⟨_, _, rfl⟩ := Range.exists_of_redacted hold
    obtain ⟨_, _, rfl⟩ := Range.exists_of_redacted hr
    exact paired_ite .rfl (fun _ => paired_pure h rfl) fun _ => record_paired h rfl

/-- Whether an admin remark is set matters to who may set it, but not which one it is. -/
theorem remark_paired (h : p.Indistinct q) (userRemark : Option String) {adminRemark adminRemark' : Option String}
    (hsome : adminRemark.isSome = adminRemark'.isSome) (privileged : Bool) :
    (remark stamp id userRemark adminRemark privileged).Paired (remark stamp id userRemark adminRemark' privileged) p q
      Indistinct fun r s => r.redacted = s.redacted := by
  have hnone : adminRemark.isNone = adminRemark'.isNone := by
    rw [← Option.not_isSome, ← Option.not_isSome, hsome]
  unfold remark
  rw [hnone, hsome]
  refine paired_ite .rfl (fun _ => .error _ h) fun _ => paired_ite .rfl (fun _ => .error _ h) fun _ => ?_
  refine onStore_paired _ h (Store.locking_paired h.store fun tx ty s t _ _ hx h => ?_)
  refine paired_liftM_bind h (hx.row id) fun r r' _ _ hr => ?_
  obtain ⟨_, _, rfl⟩ := Range.exists_of_redacted hr
  exact paired_ite .rfl (fun _ => .error _ h) fun _ => renew_paired h hx (by rfl)

/-! ## Splits -/

/-- The subnets of a range do not depend on its admin remark. -/
theorem uniformPlan_redacted (limits : Limits) (target : UInt8) {r s : Range F} (h : r.redacted = s.redacted) :
    uniformPlan limits r target = uniformPlan limits s target := by
  obtain ⟨_, _, rfl⟩ := Range.exists_of_redacted h
  rfl

/-- Parts take over the admin remark of their source, and nothing else that is left out. -/
theorem map_redacted_parts (now : Instant) (ids : Nat → Identifier) (spans : List (Span F)) {r s : Range F}
    (h : r.redacted = s.redacted) :
    (parts r now ids spans).map Range.redacted = (parts s now ids spans).map Range.redacted := by
  obtain ⟨_, _, rfl⟩ := Range.exists_of_redacted h
  rw [parts, parts, List.map_map, List.map_map]
  rfl

/-- Writing the parts of two ranges that look the same is paired. -/
theorem writeParts_paired {s t : Store F} {tx ty : Transaction F} (h : s.Indistinct t) (hx : tx.Indistinct ty) {r r' : Range F}
    (hr : r.redacted = r'.redacted) (spans : List (Span F)) :
    (writeParts stamp tx r spans).Paired (writeParts stamp ty r' spans) s t Store.Indistinct fun _ _ => True := by
  have hparts := map_redacted_parts stamp.now stamp.rowId spans hr
  obtain ⟨_, _, rfl⟩ := Range.exists_of_redacted hr
  exact ((Store.write_paired h hx.guard _ hparts).imp fun _ _ _ => trivial).rewording _

/-- Splitting a range is paired with itself. -/
theorem split_paired (h : p.Indistinct q) :
    (split stamp id target user).Paired (split stamp id target user) p q Indistinct SameSpans := by
  unfold split
  refine paired_get_bind ?_
  rw [h.limits]
  refine onRow_paired (fun x y => x.1.redacted = y.1.redacted ∧ x.2.1 = y.2.1) h ?_ ?_
  · intro tx ty s t r adminRemark updatedAt hx h
    refine paired_liftM_bind h (Agree.of_eq rfl) fun spans _ _ _ hspans => ?_
    subst hspans
    exact Paired.bind (writeParts_paired h hx (by rfl) spans) fun _ _ _ _ _ h => paired_pure h ⟨rfl, rfl⟩
  · rintro ⟨r, spans, rows⟩ ⟨r', spans', rows'⟩ p q ⟨hr, rfl⟩ h
    obtain ⟨_, _, rfl⟩ := Range.exists_of_redacted hr
    exact record_paired h rfl

/-- Splitting a range along a plan is paired with itself. -/
theorem splitAlong_paired (h : p.Indistinct q) (plan : List (Span F)) :
    (splitAlong stamp id plan user).Paired (splitAlong stamp id plan user) p q Indistinct SameSpans := by
  unfold splitAlong
  refine paired_get_bind ?_
  rw [h.limits]
  refine onRow_paired (fun x y => x.1.redacted = y.1.redacted ∧ Option.Rel (fun _ _ => True) x.2 y.2) h ?_ ?_
  · intro tx ty s t r adminRemark updatedAt hx h
    refine paired_liftM_bind h (Agree.of_eq rfl) fun _ _ _ _ _ => ?_
    refine paired_liftM_bind h (Agree.of_eq rfl) fun _ _ _ _ _ => ?_
    refine paired_ite .rfl (fun _ => paired_pure h ⟨rfl, .none⟩) fun _ => ?_
    exact Paired.bind (writeParts_paired h hx (by rfl) plan) fun _ _ _ _ _ h => paired_pure h ⟨rfl, .some trivial⟩
  · rintro ⟨r, rows⟩ ⟨r', rows'⟩ p q ⟨hr, hrows⟩ h
    obtain ⟨_, _, rfl⟩ := Range.exists_of_redacted hr
    cases hrows with
    | none => exact paired_pure h rfl
    | some _ => exact record_paired h rfl

/-! ## Merges -/

/-- The check of members does not depend on their admin remarks. -/
theorem checkMembers_redacted (rows : List (Range F)) : checkMembers target (rows.map Range.redacted) = checkMembers target rows := by
  have hmembers : (rows.map Range.redacted).forM (checkMember target) = rows.forM (checkMember target) := by
    induction rows with
    | nil => rfl
    | cons r rows ih => exact congrArg (checkMember target r >>= fun _ => ·) ih
  have hneighbours : ∀ rows : List (Range F),
      checkAllNeighbours target (rows.map Range.redacted) = checkAllNeighbours target rows := by
    intro rows
    induction rows with
    | nil => rfl
    | cons r rows ih =>
      cases rows with
      | nil => rfl
      | cons r' rows => exact congrArg (checkNeighbours target r r' >>= fun _ => ·) ih
  unfold checkMembers
  rw [hmembers, hneighbours]

/-- Both mergers leave a row as it is or both make one, and the rows look the same. -/
inductive Merger.Indistinct : Merger F → Merger F → Prop where
  | unchanged {r s : Range F} (h : r.redacted = s.redacted) : Indistinct (.unchanged r) (.unchanged s)
  | merged {r s : Range F} (h : r.redacted = s.redacted) : Indistinct (.merged r) (.merged s)

/-- What members become does not depend on what is left out. -/
theorem agree_merger (now : Instant) (new : Identifier) {rows rows' : List (Range F)}
    (h : rows.map Range.redacted = rows'.map Range.redacted) :
    Agree Merger.Indistinct (merger now new target rows) (merger now new target rows') := by
  have hcheck : checkMembers target rows = checkMembers target rows' := by
    rw [← checkMembers_redacted, h, checkMembers_redacted]
  have hlength : rows.length = rows'.length := by simpa using congrArg List.length h
  have hfirst : Option.Rel (fun r s => r.redacted = s.redacted) rows.head? rows'.head? :=
    rel_of_map_eq (by rw [← List.head?_map, ← List.head?_map, h])
  have hlast : Option.Rel (fun r s => r.redacted = s.redacted) rows.getLast? rows'.getLast? :=
    rel_of_map_eq (by rw [← List.getLast?_map, ← List.getLast?_map, h])
  unfold merger
  rw [hcheck, hlength]
  refine (Agree.of_eq rfl).bind fun _ _ _ => ?_
  generalize rows.head? = x, rows'.head? = y at hfirst
  generalize rows.getLast? = z, rows'.getLast? = w at hlast
  cases hfirst with
  | none => exact .error _
  | some hfirst =>
    cases hlast with
    | none => exact .error _
    | some hlast =>
      obtain ⟨_, _, rfl⟩ := Range.exists_of_redacted hfirst
      obtain ⟨_, _, rfl⟩ := Range.exists_of_redacted hlast
      dsimp only
      split
      · exact .ok (.unchanged hfirst)
      · exact .ok (.merged rfl)

/-- Members that were merged, with what they have become and whether that is new, look the same in both runs. -/
def MergeIndistinct (x y : List (Range F) × Range F × Bool) : Prop :=
  x.1.map Range.redacted = y.1.map Range.redacted ∧ x.2.1.redacted = y.2.1.redacted ∧ x.2.2 = y.2.2

/-- Merging ranges is paired with itself. -/
theorem merge_paired (h : p.Indistinct q) (ids : List Identifier) :
    (merge stamp ids target user).Paired (merge stamp ids target user) p q Indistinct SameSpans := by
  unfold merge
  refine paired_get_bind ?_
  rw [h.limits]
  refine paired_liftM_bind h (Agree.of_eq rfl) fun _ _ _ _ _ => ?_
  refine (onStore_paired MergeIndistinct h ?_).bind ?_
  · refine ((Store.lock_paired h.store _).rewording _).bind fun tx ty s t hx h => Store.finishing_paired hx.guard ?_
    refine paired_ofExcept_bind h (agree_merger _ _ hx.rows) fun m m' _ _ hm => ?_
    cases hm with
    | unchanged hr => exact paired_pure h ⟨hx.rows, hr, rfl⟩
    | merged hr =>
      refine (Store.write_paired h hx.guard _ (by simpa using hr)).bind fun rows rows' s t hrows h => ?_
      have hhead : rows.head?.map Range.redacted = rows'.head?.map Range.redacted := by
        rw [← List.head?_map, ← List.head?_map, hrows]
      exact (paired_demand _ h (rel_of_map_eq hhead)).bind fun _ _ _ _ hr h => paired_pure h ⟨hx.rows, hr, rfl⟩
  · rintro ⟨rows, r, changed⟩ ⟨rows', r', changed'⟩ p q ⟨hrows, hr, rfl⟩ h
    have hspans : rows.map (·.span) = rows'.map (·.span) := Range.map_congr_of_redacted (fun _ => rfl) hrows
    obtain ⟨_, _, rfl⟩ := Range.exists_of_redacted hr
    refine paired_ite .rfl (fun _ => ?_) fun _ => paired_pure h rfl
    rw [hspans]
    exact record_paired h rfl

/-! ## Previews -/

/-- Previews of one split agree in pools that look the same. -/
theorem agree_splitPreview (h : p.Indistinct q) (stamp : Stamp) (id : Identifier) (target : UInt8) :
    Agree (fun _ _ => True) (p.splitPreview stamp id target) (q.splitPreview stamp id target) := by
  unfold splitPreview
  refine (h.store.row id).bind fun r r' hr => ?_
  rw [h.limits]
  exact (Agree.of_eq (uniformPlan_redacted _ _ hr)).bind fun _ _ _ => .ok trivial

/-- Previews of one merge agree in pools that look the same. -/
theorem agree_mergePreview (h : p.Indistinct q) (stamp : Stamp) (ids : List Identifier) (target : UInt8) :
    Agree (fun _ _ => True) (p.mergePreview stamp ids target) (q.mergePreview stamp ids target) := by
  unfold mergePreview
  rw [h.limits]
  refine (Agree.of_eq rfl).bind fun _ _ _ => ((h.store.rows _).mapError _).bind fun rows rows' hrows => ?_
  have hsorted : (rows.mergeSort Store.lockOrder).map Range.redacted = (rows'.mergeSort Store.lockOrder).map Range.redacted := by
    rw [Store.map_redacted_mergeSort, Store.map_redacted_mergeSort, hrows]
  refine (agree_merger _ _ hsorted).bind fun m m' hm => ?_
  cases hm with
  | unchanged hr => exact .ok trivial
  | merged hr =>
    obtain ⟨_, _, rfl⟩ := Range.exists_of_redacted hr
    exact (Agree.of_eq (h.store.checkFree_eq _ _)).bind fun _ _ _ => .ok trivial

end Pool

end AddressSpace
