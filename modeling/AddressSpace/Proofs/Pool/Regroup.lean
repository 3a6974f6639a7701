import AddressSpace.Proofs.Pool.Steps
/-!
# Splits and merges are transitions

A split, uniform or along a plan, and a merge end as the operations on one row do: in a transition, or with the pool as it was.
`Regrouped` says which transitions these are, and that they take out none but the rows named is said as for the other operations.
-/

namespace AddressSpace.Pool

open AddressSpace.Action

variable {F : Family} {p : Pool F} {stamp : Stamp} {user : Option String}

/-- What a split or a merge can do to a pool: nothing at all, one split or one merge. -/
inductive Regrouped (stamp : Stamp) (user : Option String) (p : Pool F) : List (Span F) → Pool F → Prop where
  | same : Regrouped stamp user p [] p
  | split {source : Range F} {spans : List (Span F)} {q : Pool F} (hm : source.status.mutable = true)
      (ht : Interval.Tiles source.span.start.bits (source.span.stop.bits + 1) (spans.map Span.interval))
      (hne : spans ≠ [source.span])
      (hb : Became stamp user p (some (.split source.span spans)) [source]
        ((parts source stamp.now stamp.rowId spans).map Range.named) q) : Regrouped stamp user p [source.span] q
  | merged {members : List (Range F)} {first last : Range F} {target : UInt8} {q : Pool F}
      (hf : members.head? = some first) (hl : members.getLast? = some last)
      (hc : checkMembers target members = .ok ()) (hne : ¬(members.length = 1 ∧ first.span.plen = target))
      (hb : Became stamp user p
        (some (.merge ⟨first.span.start, last.span.stop, target⟩ (members.map (·.span)))) members
        [(mergedRange stamp.now (stamp.rowId 0) target first last).named] q) :
      Regrouped stamp user p [⟨first.span.start, last.span.stop, target⟩] q

/-! ## Splits -/

/-- A row is replaced by the rows of its parts. -/
theorem writeParts_ends (h : p.store.AtRest) (user : Option String) {tx : Transaction F} {t : Store F}
    (htable : t.table = p.store.table) {source : Range F} (hold : source ∈ p.store.table) (spans : List (Span F)) :
    (writeParts stamp tx source spans).Ends t
      (fun rows u => rows = (parts source stamp.now stamp.rowId spans).map Range.named ∧ u.locks = t.locks ∧
        Became stamp user p (some (.split source.span spans)) [source] rows
          { p with
            store := ⟨u.table, .empty⟩
            journal := p.journal.enter stamp user (some (.split source.span spans)) })
      (fun _ u => u = t) := by
  unfold writeParts
  rw [ends_rewording]
  refine (Store.write_ends (htable ▸ h.valid) tx [source.id] _).imp ?_ fun _ _ hu => hu
  rintro rows u ⟨hshape, rfl, hlocks, old, hold', -, hsw⟩
  obtain ⟨o, rfl, ho⟩ := List.map_eq_singleton_iff.1 hold'
  rw [htable] at hsw
  obtain rfl := Table.eq_of_id (hsw.old_mem o (by simp)) hold ho
  refine ⟨rfl, hlocks, hsw, rfl, fun r hr => ?_, rfl, rfl⟩
  obtain ⟨r', hr', rfl⟩ := List.mem_map.1 hr
  rw [Range.named_span]
  exact hshape r' hr'

/-- A split replaces the range by a row for each entry of the accepted plan, and gives these rows. -/
theorem split_exact (h : p.store.AtRest) (id : Identifier) (target : UInt8) :
    (split stamp id target user).Ends p
      (fun out q => ∃ source ∈ p.store.table, source.id = id ∧ ∃ spans, uniformPlan p.limits source target = .ok spans ∧
        out = ⟨(parts source stamp.now stamp.rowId spans).map Range.named, [source.span]⟩ ∧
        Became stamp user p (some (.split source.span spans)) [source]
          ((parts source stamp.now stamp.rowId spans).map Range.named) q)
      (fun _ q => q = p) := by
  unfold split
  simp only [ends_bind, ends_get, onStore, ends_on]
  refine Store.locking_row_ends h (fun _ => rfl) fun tx t source hold hid htable => ?_
  simp only [ends_bind, ends_liftM, ends_pure, ends_record]
  refine ⟨fun spans hplan => ?_, fun _ _ => trivial⟩
  refine (writeParts_ends h user htable hold spans).imp ?_ fun _ _ hu => hu
  rintro rows u ⟨rfl, hlocks, hb⟩
  exact ⟨hlocks, source, hold, hid, spans, hplan, rfl, hb⟩

/-- A source is split into spans that tile it. -/
theorem split_regrouped {source : Range F} {spans : List (Span F)} {id : Identifier} {q : Pool F} (hid : source.id = id)
    (hm : source.status.mutable = true)
    (ht : Interval.Tiles source.span.start.bits (source.span.stop.bits + 1) (spans.map Span.interval))
    (hne : spans ≠ [source.span])
    (hb : Became stamp user p (some (.split source.span spans)) [source]
      ((parts source stamp.now stamp.rowId spans).map Range.named) q) :
    Regrouped stamp user p [source.span] q ∧ Deed [id] (some .split) stamp user p [source.span] q :=
  ⟨.split hm ht hne hb, _, _, _, .split hm ht hne, hb, by simpa using hid, by simp [Event.kind]⟩

/-- A split regroups the space of the range, and takes out no other row. -/
theorem split_ends (h : p.store.AtRest) (id : Identifier) (target : UInt8) :
    (split stamp id target user).Ends p
      (fun out q => Regrouped stamp user p out.spans q ∧ Deed [id] (some .split) stamp user p out.spans q)
      (fun _ q => q = p) := by
  refine (split_exact h id target).imp ?_ fun _ _ hq => hq
  rintro out q ⟨source, -, hid, spans, hplan, rfl, hb⟩
  obtain ⟨hm, hlonger, -, -, hle, rfl⟩ := uniformPlan_eq_ok_iff.1 hplan
  exact split_regrouped hid hm (Span.pieces_tile hle target) (pieces_ne_self hlonger) hb

/-- A split along a plan leaves a range alone that is the whole plan. Otherwise it replaces the range by a row for each entry of the
accepted plan, and gives these rows. -/
theorem splitAlong_exact (h : p.store.AtRest) (id : Identifier) (plan : List (Span F)) :
    (splitAlong stamp id plan user).Ends p
      (fun out q => ∃ source ∈ p.store.table, source.id = id ∧ source.status.mutable = true ∧
        source.span.checkPlan plan (p.limits.planEntries F) = .ok () ∧
        (plan = [source.span] ∧ out = ⟨[source], []⟩ ∧ q = p ∨
          plan ≠ [source.span] ∧ out = ⟨(parts source stamp.now stamp.rowId plan).map Range.named, [source.span]⟩ ∧
            Became stamp user p (some (.split source.span plan)) [source]
              ((parts source stamp.now stamp.rowId plan).map Range.named) q))
      (fun _ q => q = p) := by
  unfold splitAlong
  simp only [ends_bind, ends_get, onStore, ends_on]
  refine Store.locking_row_ends h (fun _ => rfl) fun tx t source hold hid htable => ?_
  simp only [ends_bind, ends_liftM, ends_ite, ends_pure, ends_record]
  refine ⟨fun _ hm => ⟨fun _ hplan => ⟨fun hself => ⟨trivial, ?_⟩, fun hne => ?_⟩, fun _ _ => trivial⟩, fun _ _ => trivial⟩
  · exact ⟨source, hold, hid, requireMutable_eq_ok_iff.1 hm, hplan, .inl ⟨hself, rfl, back h htable⟩⟩
  · refine (writeParts_ends h user htable hold plan).imp ?_ fun _ _ hu => hu
    rintro rows u ⟨rfl, hlocks, hb⟩
    exact ⟨hlocks, source, hold, hid, requireMutable_eq_ok_iff.1 hm, hplan, .inr ⟨hne, rfl, hb⟩⟩

/-- A split along a plan regroups the space of the range, and takes out no other row. -/
theorem splitAlong_ends (h : p.store.AtRest) (id : Identifier) (plan : List (Span F)) :
    (splitAlong stamp id plan user).Ends p
      (fun out q => Regrouped stamp user p out.spans q ∧ Deed [id] (some .split) stamp user p out.spans q)
      (fun _ q => q = p) := by
  refine (splitAlong_exact h id plan).imp ?_ fun _ _ hq => hq
  rintro out q ⟨source, -, hid, hm, hplan, ⟨-, rfl, rfl⟩ | ⟨hne, rfl, hb⟩⟩
  · exact ⟨.same, .refl h⟩
  · exact split_regrouped hid hm (Span.tiles_of_checkPlan hplan) hne hb

/-! ## Merges -/

/-- The rows that are taken out by their identifiers are those that were locked with them. -/
theorem mem_locked_iff {t t' : Table (Range F)} {ids : List Identifier} {tx : Transaction F} {old new : List (Range F)}
    (hreads : Store.Reads tx t ids) (hold : old.map (·.id) = ids) (hsw : t.Swapped old new t') (r : Range F) :
    r ∈ old ↔ r ∈ tx.rows := by
  rw [hreads.mem_iff, ← hold]
  exact ⟨fun hr => ⟨hsw.old_mem r hr, List.mem_map_of_mem hr⟩,
    fun ⟨hr, hid⟩ => (Table.mem_iff_id_mem hsw.old_mem hr).2 hid⟩

/-- A merge regroups the space of the members, and takes out no other rows. -/
theorem merge_ends (h : p.store.AtRest) (ids : List Identifier) (target : UInt8) :
    (merge stamp ids target user).Ends p
      (fun out q => Regrouped stamp user p out.spans q ∧ Deed ids (some .merge) stamp user p out.spans q)
      (fun _ q => q = p) := by
  unfold merge
  simp only [ends_bind, ends_get, ends_liftM, onStore, ends_on, ends_rewording]
  refine ⟨fun _ _ => (Store.lock_ends h _).imp ?_ fun _ t ht => by rw [ht], fun _ _ => trivial⟩
  rintro tx t ⟨hreads, htable, hlocks⟩
  have hback : ({ p with store := t.release tx } : Pool F) = p := by
    rw [Store.release, htable, hlocks, ← h.eq_mk]
  simp only [Store.ends_finishing, ends_bind, ends_ofExcept]
  refine ⟨fun m hm => ?_, fun _ _ => hback⟩
  obtain ⟨first, last, hf, hl, hcheck, ⟨rfl, -⟩ | ⟨rfl, hne⟩⟩ := merger_eq_ok hm
  · rw [ends_pure, hback]
    exact ⟨.same, .refl h⟩
  · simp only [ends_bind, ends_demand, ends_pure]
    refine (Store.write_ends (htable ▸ h.valid) tx _ _).imp ?_ fun _ u hu => by rw [hu]; exact hback
    rintro rows u ⟨hshape, rfl, hulocks, old, hold, -, hsw⟩
    rw [htable] at hsw
    refine ⟨fun row hrow => ?_, fun hnone => absurd hnone (by simp)⟩
    cases hrow
    rw [if_pos trivial, ends_bind, ends_record, ends_pure, Range.named_span, mergedRange_span]
    have hnamed : ∀ r ∈ tx.rows, r.id ∈ ids := fun r hr => Locks.mem_distinct.1 ((hreads.mem_iff r).1 hr).2
    have hb : Became stamp user p
        (some (.merge ⟨first.span.start, last.span.stop, target⟩ (tx.rows.map (·.span)))) tx.rows
        [(mergedRange stamp.now (stamp.rowId 0) target first last).named]
        { p with
          store := u.release tx
          journal := p.journal.enter stamp user
            (some (.merge ⟨first.span.start, last.span.stop, target⟩ (tx.rows.map (·.span)))) } := by
      refine ⟨hsw.congr (mem_locked_iff hreads hold hsw) fun _ => Iff.rfl, ?_, ?_, rfl, rfl⟩
      · rw [Store.release, hulocks]
        exact hlocks
      · intro r hr
        rw [List.mem_singleton.1 hr, Range.named_span]
        exact hshape _ (List.mem_singleton.2 rfl)
    exact ⟨.merged hf hl hcheck hne hb, _, _, _, .merged hf hl hcheck hne, hb, hnamed, by simp [Event.kind]⟩

end AddressSpace.Pool
