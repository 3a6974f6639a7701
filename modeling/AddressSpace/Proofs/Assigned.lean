import AddressSpace.Proofs.Engine.Pools
import AddressSpace.Proofs.Store.Success
/-!
# Assigned space is protected

What is assigned stays assigned until it is taken back. An operation leaves an assigned range in its place, under its identifier
and with its consumer, and may only remark on it; what is reserved for one consumer is not assigned to another
(`assigned_protected`). Taking a range back is the one exception, and always succeeds (`Pool.recover_row_ends`).
-/

namespace AddressSpace

open AddressSpace.Action

variable {F : Family}

/-! ## One transition -/

namespace Range

/-- The second range is the first one still, whatever has been remarked on it. -/
structure Endures (r s : Range F) : Prop where
  id : s.id = r.id
  span : s.span = r.span
  name : s.name = r.name
  asn : s.asn = r.asn
  org : s.org = r.org
  assignedAt : s.assignedAt = r.assignedAt
  status : s.status = r.status

theorem Endures.refl (r : Range F) : r.Endures r := ⟨rfl, rfl, rfl, rfl, rfl, rfl, rfl⟩

/-- What endures twice endures. -/
theorem Endures.trans {r s t : Range F} (h : r.Endures s) (h' : s.Endures t) : r.Endures t where
  id := h'.id.trans h.id
  span := h'.span.trans h.span
  name := h'.name.trans h.name
  asn := h'.asn.trans h.asn
  org := h'.org.trans h.org
  assignedAt := h'.assignedAt.trans h.assignedAt
  status := h'.status.trans h.status

/-- A range whose name is settled keeps it through a change of anything else but its bounds. -/
theorem name_of_settled {r s : Range F} (h : r.named = r) (hname : s.name = r.name) (hspan : s.span = r.span) :
    s.named.name = r.name := by
  have hr : r.named.name = r.name := by rw [h]
  rw [named_name, hname, hspan, ← named_name, hr]

/-- New remarks leave the range what it is. -/
theorem endures_remarked {r : Range F} (h : r.named = r) (userRemark adminRemark : Option String) (now : Instant) :
    r.Endures (r.remarked userRemark adminRemark now) where
  id := named_id _
  span := named_span _
  name := name_of_settled h rfl rfl
  asn := named_asn _
  org := named_org _
  assignedAt := named_assignedAt _
  status := named_status _

end Range

/-- Of an assigned range a transition leaves all but its remarks, unless it takes the range back. -/
theorem Transition.eq_remarked {stamp : Stamp} {event : Option (Event F)} {spans : List (Span F)} {old new : List (Range F)}
    (h : Transition stamp event spans old new) (he : event.map Event.kind ≠ some .recover) {r : Range F} (hr : r ∈ old)
    (ha : r.status = .assigned) :
    ∃ userRemark adminRemark, new = [r.remarked userRemark adminRemark stamp.now] := by
  have hfixed : ∀ o : Range F, r ∈ [o] → o.status.mutable = true → False := by
    intro o ho hm
    rw [← List.mem_singleton.1 ho, ha] at hm
    cases hm
  cases h with
  | stay => cases hr
  | added new => cases hr
  | edited edit hm hs => exact (hfixed _ hr hm).elim
  | moved edit hm hs => exact (hfixed _ hr hm).elim
  | deleted hm => exact (hfixed _ hr hm).elim
  | reserved org hw =>
    rw [← List.mem_singleton.1 hr, ha] at hw
    cases hw
  | assigned org ho =>
    rw [← List.mem_singleton.1 hr, Pool.requireAssignable, ha] at ho
    cases ho
  | recovered hw => exact absurd rfl he
  | remarked userRemark adminRemark => exact ⟨userRemark, adminRemark, by rw [List.mem_singleton.1 hr]⟩
  | split hm ht hne => exact (hfixed _ hr hm).elim
  | merged hf hl hc hne =>
    have hm := ((Pool.checkMembers_eq_ok_iff.1 hc).1 r hr).1
    rw [ha] at hm
    cases hm

/-- An assigned range that a transition puts in is one that was assigned before, or that could be assigned. -/
theorem Transition.of_assigned {stamp : Stamp} {event : Option (Event F)} {spans : List (Span F)} {old new : List (Range F)}
    (h : Transition stamp event spans old new) {s : Range F} (hs : s ∈ new) (ha : s.status = .assigned) :
    ∃ r ∈ old, s.span = r.span ∧
      (r.status = .assigned ∨ ∃ org, Pool.requireAssignable r org = .ok () ∧ s.org = some org) := by
  cases h with
  | stay => cases hs
  | added new =>
    rw [List.mem_singleton.1 hs] at ha
    simp [NewRange.row, Range.build] at ha
  | @edited old edit hm he =>
    rw [List.mem_singleton.1 hs] at ha
    refine ⟨old, by simp, ?_, .inl ?_⟩
    · rw [List.mem_singleton.1 hs, RangeEdit.row_span, he]
    · simpa [RangeEdit.row, RangeEdit.apply] using ha
  | @moved old edit hm he =>
    -- what is edited was not assigned, and is not by the edit
    rw [List.mem_singleton.1 hs] at ha
    have ho : old.status = .assigned := by simpa [RangeEdit.row, RangeEdit.apply] using ha
    rw [ho] at hm
    cases hm
  | deleted hm => cases hs
  | reserved org hw =>
    rw [List.mem_singleton.1 hs] at ha
    simp [Range.heldBy] at ha
  | @assigned old org ho =>
    rw [List.mem_singleton.1 hs]
    exact ⟨old, by simp, by simp, .inr ⟨org, ho, by simp [Range.heldBy]⟩⟩
  | recovered hw =>
    rw [List.mem_singleton.1 hs] at ha
    simp [Range.heldBy] at ha
  | @remarked old userRemark adminRemark =>
    rw [List.mem_singleton.1 hs] at ha ⊢
    exact ⟨old, by simp, by simp, .inl (by simpa [Range.remarked] using ha)⟩
  | @split source spans hm ht hne =>
    obtain ⟨s', hs', rfl⟩ := List.mem_map.1 hs
    rw [Range.named_status, (Pool.mem_parts hs').2.1] at ha
    rw [ha] at hm
    cases hm
  | @merged members first last target hf hl hc hne =>
    have hm := ((Pool.checkMembers_eq_ok_iff.1 hc).1 first (List.mem_of_mem_head? hf)).1
    rw [List.mem_singleton.1 hs, Range.named_status, Pool.mergedRange_status] at ha
    rw [ha] at hm
    cases hm

namespace Pool

variable {p q : Pool F} {stamp : Stamp} {user : Option String} {spans : List (Span F)}

/-- Where nothing is taken back, every assigned range endures. -/
theorem Advance.endures (h : Advance stamp user p spans q) (hp : p.store.Sound) {r : Range F} (hr : r ∈ p.store.table)
    (ha : r.status = .assigned) : ∃ s, q.store.table.get? r.id = some s ∧ r.Endures s := by
  obtain ⟨event, old, new, htr, hb, he⟩ := h
  by_cases ho : r ∈ old
  · obtain ⟨userRemark, adminRemark, rfl⟩ := htr.eq_remarked he ho ha
    have hendures := Range.endures_remarked (hp.settled r hr) userRemark adminRemark stamp.now
    exact ⟨_, hb.table.valid.get?_eq_some_iff.2 ⟨hb.table.new_mem (by simp), hendures.id⟩, hendures⟩
  · exact ⟨r, hb.table.kept hr ho, .refl r⟩

/-- What is reserved for a consumer is not assigned to another. -/
theorem Step.org_of_reserved (h : Step stamp user p spans q) (hp : p.store.Sound) {n : Nat} {r s : Range F} {org : Consumer}
    (hr : p.store.table.containing? n = some r) (hreserved : r.status = .reserved) (horg : r.org = some org)
    (hs : q.store.table.containing? n = some s) (ha : s.status = .assigned) : s.org = some org := by
  obtain ⟨event, old, new, htr, hb⟩ := h
  obtain ⟨hr, hrn⟩ := (Table.containing?_eq_some_iff hp.valid).1 hr
  obtain ⟨hs, hsn⟩ := (Table.containing?_eq_some_iff hb.table.valid).1 hs
  have hclash : r.status ≠ .assigned := by rw [hreserved]; decide
  rcases (hb.table.mem_iff s).1 hs with ⟨hs, -⟩ | hs
  · exact absurd (hp.valid.eq_of_contains hs hr hsn hrn ▸ ha) hclash
  · obtain ⟨o, ho, hspan, hbefore⟩ := htr.of_assigned hs ha
    -- the new row has the bounds of the old one, which therefore is the row that held the number
    rw [Range.row_span, hspan, ← Range.row_span] at hsn
    obtain rfl := hp.valid.eq_of_contains (hb.table.old_mem o ho) hr hsn hrn
    rcases hbefore with hassigned | ⟨org', hassignable, hso⟩
    · exact absurd hassigned hclash
    · unfold requireAssignable at hassignable
      rw [hreserved] at hassignable
      by_cases hsame : o.org = some org'
      · rw [hso, ← hsame, horg]
      · rw [if_neg hsame] at hassignable
        cases hassignable

/-- A stored range can always be taken back: it waits afterwards, for nobody. -/
theorem recover_row_ends (h : p.store.Sound) {r : Range F} (hr : r ∈ p.store.table) :
    (recover stamp r.id user).Ends p
      (fun out q => r.status = .wait ∧ out.spans = [] ∧ q = p ∨
        r.status ≠ .wait ∧ out.spans = [r.span] ∧
          Became stamp user p (some (.recover r.span r.org r.status)) [r] [r.heldBy .wait none none stamp.now] q)
      (fun _ _ => False) := by
  unfold recover
  simp only [ends_bind, onStore, ends_on]
  refine Store.locking_row_of_mem h.toAtRest hr fun tx t hguard htable => ?_
  simp only [ends_bind, ends_ite, ends_pure, ends_record]
  refine ⟨fun hw => ⟨trivial, fun _ => .inl ⟨hw, trivial, back h.toAtRest htable⟩, fun hne => absurd hw hne⟩, fun hw => ?_⟩
  refine Ends.imp (Ends.succeeded
    (renew_became h.toAtRest stamp user htable hr (by rfl) (some (.recover r.span r.org r.status)))
    (renew_succeeds (htable ▸ h.valid) (htable ▸ hr) (by rfl) (by rfl) (h.shaped r hr) hguard)) ?_ fun _ _ hf => hf
  rintro _ u ⟨rfl, hlocks, hb⟩
  rw [Range.named_span]
  exact ⟨hlocks, fun he => absurd he hw, fun _ => .inr ⟨hw, rfl, hb⟩⟩

end Pool

/-! ## All operations -/

namespace Engine

variable {e : Engine} {limits : Limits}

/-- An ordinary operation advances each pool of which it takes no range back. -/
theorem advance_after (h : e.Sound) {op : Operation} (ho : op.ordinary = true) (hop : ∀ id, op.takesBack ≠ some (F, id)) :
    ∃ stamp user spans, Pool.Advance stamp user (e.pool F) spans ((op.after e).pool F) := by
  have hstay : ∀ {e' : Engine}, e'.pool F = e.pool F →
      ∃ stamp user spans, Pool.Advance stamp user (e.pool F) spans (e'.pool F) :=
    fun he => ⟨⟨default, fun _ => default, default⟩, none, [], he.symm ▸ .refl (h.pool F).toAtRest⟩
  have hregistry : ∀ registry, ({ e with registry } : Engine).pool F = e.pool F := fun _ => by cases F <;> rfl
  have hstocked : ∀ {registry : Registry} {e' : Engine}, Stocked e registry e' →
      ∃ stamp user spans, Pool.Advance stamp user (e.pool F) spans (e'.pool F) := by
    rintro registry _ ⟨stamp, user, spans, q, ids, hq, rfl⟩
    cases F with
    | v4 => exact ⟨stamp, user, spans, hq⟩
    | v6 => exact hstay rfl
  have haside : op.aside = true → ∃ stamp user spans, Pool.Advance stamp user (e.pool F) spans ((op.after e).pool F) := by
    intro haside
    obtain ⟨supernets, externals, he⟩ := aside_after e haside
    rw [he]
    exact hstay (by cases F <;> rfl)
  cases op with
  | onRanges G stamp user op =>
    refine Ends.state (q := fun e' : Engine => ∃ stamp user spans, Pool.Advance stamp user (e.pool F) spans (e'.pool F)) ?_
    by_cases hG : G = F
    · subst hG
      have hnone : op.takesBack = none := by
        cases ht : op.takesBack with
        | none => rfl
        | some id => exact absurd (by rw [Operation.takesBack, ht]; rfl) (hop id)
      refine (perform_advances (h.pool G).toAtRest hnone).imp ?_ fun _ _ he => he ▸ hstay rfl
      rintro _ _ ⟨spans, q, hq, rfl⟩
      rw [followed, rangesChanged_pool, pool_withPool]
      exact ⟨stamp, user, spans, hq⟩
    · refine (perform_ends (h.pool G).toAtRest op).imp ?_ fun _ _ he => he ▸ hstay rfl
      rintro _ _ ⟨spans, q, hq, rfl⟩
      exact hstay (by rw [followed, rangesChanged_pool, pool_withPool_of_ne (Ne.symm hG)])
  | stock stamp id user =>
    refine Ends.state (q := fun e' : Engine => ∃ stamp user spans, Pool.Advance stamp user (e.pool F) spans (e'.pool F)) ?_
    refine ends_map .. |>.2 ((stock_ends h id).imp (fun _ _ hs => hs.elim fun _ hs => hstocked hs) ?_)
    rintro _ _ (rfl | ⟨number, rfl⟩)
    · exact hstay rfl
    · exact hstay (hregistry _)
  | stockUnder stamp id asn user =>
    refine Ends.state (q := fun e' : Engine => ∃ stamp user spans, Pool.Advance stamp user (e.pool F) spans (e'.pool F)) ?_
    exact ends_map .. |>.2
      ((stockUnder_ends h e.registry id asn).imp (fun _ _ hs => hstocked hs) fun _ _ he => he ▸ hstay (hregistry _))
  | annotate G stamp address userRemark adminRemark =>
    refine hstay (Ends.state (q := fun e' : Engine => e'.pool F = e.pool F) ?_)
    have hnotes : ∀ n, (withNotes G e n).pool F = e.pool F := fun n => by cases G <;> cases F <;> rfl
    exact ends_map .. |>.2 (ends_on .. |>.2 (.of_forall (fun _ n => hnotes n) fun _ n => hnotes n))
  | register number => exact hstay (hregistry _)
  | insertRow F r => cases ho
  | transact F lock remove add => cases ho
  | closeJournal F => cases ho
  | forget user => cases ho
  | _ => exact haside rfl

/-- Only one operation takes a range back. -/
theorem eq_recover_of_takesBack {op : Operation} {id : Identifier} (h : op.takesBack = some (F, id)) :
    ∃ stamp user, op = .onRanges F stamp user (.recover id) := by
  cases op with
  | onRanges G stamp user op =>
    obtain ⟨id', hid, he⟩ := Option.map_eq_some_iff.1 h
    cases he
    cases op with
    | recover j =>
      cases hid
      exact ⟨stamp, user, rfl⟩
    | _ => cases hid
  | _ => cases h

/-- An assigned range endures every ordinary operation that does not take it back. -/
theorem endures_after (h : e.Sound) {op : Operation} (ho : op.ordinary = true) {r : Range F}
    (hr : r ∈ (e.pool F).store.table) (ha : r.status = .assigned) (hop : op.takesBack ≠ some (F, r.id)) :
    ∃ s, ((op.after e).pool F).store.table.get? r.id = some s ∧ r.Endures s := by
  by_cases hother : ∀ id, op.takesBack ≠ some (F, id)
  · obtain ⟨stamp, user, spans, hadvance⟩ := advance_after h ho hother
    exact hadvance.endures (h.pool F) hr ha
  · -- another range is taken back, which leaves this one alone
    rw [not_forall_not] at hother
    obtain ⟨id, hid⟩ := hother
    have hne : r.id ≠ id := fun he => hop (he ▸ hid)
    obtain ⟨stamp, user, rfl⟩ := eq_recover_of_takesBack hid
    have hkept : (Pool.recover stamp id user).Ends (e.pool F) (fun _ q => r ∈ q.store.table) (fun _ q => q = e.pool F) := by
      refine (Pool.recover_ends (h.pool F).toAtRest id).imp ?_ fun _ _ hq => hq
      rintro out q ⟨event, old, new, -, hb, hold, -⟩
      exact hb.table.kept hr fun hro => hne (List.mem_singleton.1 (hold r hro))
    refine Ends.state (q := fun e' : Engine => ∃ s, (e'.pool F).store.table.get? r.id = some s ∧ r.Endures s) ?_
    refine ends_map .. |>.2 ((@manage_ends e F _ _ (fun _ q => r ∈ q.store.table) hkept).imp ?_ fun _ _ he => he ▸ ⟨r, hr, .refl r⟩)
    rintro _ _ ⟨spans, q, hq, rfl⟩
    rw [followed, rangesChanged_pool, pool_withPool]
    exact ⟨r, hq, .refl r⟩

/-- An assigned range endures every run of ordinary operations of which none takes it back. -/
theorem endures_of_run {e' : Engine} {r : Range F} (h : e.Sound) (hr : r ∈ (e.pool F).store.table) (ha : r.status = .assigned)
    (hrun : Reached (fun op => op.ordinary && op.takesBack != some (F, r.id)) e e') :
    ∃ s, (e'.pool F).store.table.get? r.id = some s ∧ r.Endures s := by
  induction hrun with
  | start => exact ⟨r, hr, .refl r⟩
  | @step e' op hrun hallowed ih =>
    obtain ⟨ho, hop⟩ := Bool.and_eq_true_iff.1 hallowed
    have hsound := reached_sound h hrun
    obtain ⟨s, hs, hendures⟩ := ih
    obtain ⟨hmem, hid⟩ := (hsound.pool F).valid.get?_eq_some_iff.1 hs
    have hid' : s.id = r.id := hid
    obtain ⟨t, ht, hendures'⟩ := endures_after hsound ho hmem (hendures.status.trans ha) (hid' ▸ bne_iff_ne.1 hop)
    exact ⟨t, hid' ▸ ht, hendures.trans hendures'⟩

/-- An assigned range that is to be taken back waits afterwards, for nobody. -/
theorem takenBack_after (h : e.Sound) {op : Operation} {r : Range F} (hr : r ∈ (e.pool F).store.table)
    (ha : r.status = .assigned) (hop : op.takesBack = some (F, r.id)) :
    ∃ s, ((op.after e).pool F).store.table.get? r.id = some s ∧
      s.status = .wait ∧ s.span = r.span ∧ s.name = r.name ∧ s.asn = r.asn := by
  obtain ⟨stamp, user, rfl⟩ := eq_recover_of_takesBack hop
  refine Ends.state (q := fun e' : Engine => ∃ s, (e'.pool F).store.table.get? r.id = some s ∧
    s.status = .wait ∧ s.span = r.span ∧ s.name = r.name ∧ s.asn = r.asn) ?_
  refine ends_map .. |>.2 ?_
  unfold Engine.recover manage onPool
  simp only [ends_bind, ends_on, ends_modify, ends_pure]
  refine (Pool.recover_row_ends (h.pool F) hr).imp ?_ fun _ _ hf => hf.elim
  rintro out q (⟨hw, -⟩ | ⟨-, -, hb⟩)
  · rw [ha] at hw
    cases hw
  · rw [rangesChanged_pool, pool_withPool]
    have hmem : r.heldBy .wait none none stamp.now ∈ q.store.table := hb.table.new_mem (by simp)
    refine ⟨_, hb.table.valid.get?_eq_some_iff.2 ⟨hmem, Range.named_id _⟩, ?_, ?_, ?_, ?_⟩
    · exact Range.named_status _
    · exact Range.heldBy_span ..
    · exact Range.name_of_settled ((h.pool F).settled r hr) rfl rfl
    · exact Range.named_asn _

/-- In every engine that any operations lead to from an empty one, an assigned range is protected against every ordinary
operation, whether it succeeds or fails. It is found afterwards under its identifier with the same bounds, name, AS, consumer,
time of assignment and status, unless it is taken back, which leaves it waiting with the same bounds, name and AS; the same holds
of a run of such operations. And an address that is reserved for a consumer is assigned to nobody else. -/
theorem assigned_protected (hr : Reached (fun _ => true) (empty limits) e) (F : Family) :
    (∀ op : Operation, op.ordinary = true → ∀ r ∈ (e.pool F).store.table, r.status = .assigned →
      (op.takesBack ≠ some (F, r.id) → ∃ s, ((op.after e).pool F).store.table.get? r.id = some s ∧ r.Endures s) ∧
        (op.takesBack = some (F, r.id) → ∃ s, ((op.after e).pool F).store.table.get? r.id = some s ∧
          s.status = .wait ∧ s.span = r.span ∧ s.name = r.name ∧ s.asn = r.asn)) ∧
      (∀ r ∈ (e.pool F).store.table, r.status = .assigned → ∀ e',
        Reached (fun op => op.ordinary && op.takesBack != some (F, r.id)) e e' →
          ∃ s, (e'.pool F).store.table.get? r.id = some s ∧ r.Endures s) ∧
      ∀ op : Operation, op.ordinary = true → ∀ (a : Address F) (r s : Range F) (org : Consumer),
        (e.pool F).store.rowAt a = .ok r → r.status = .reserved → r.org = some org →
          ((op.after e).pool F).store.rowAt a = .ok s → s.status = .assigned → s.org = some org := by
  have hsound : e.Sound := reached_sound (sound_empty limits) hr
  refine ⟨fun op ho r hmem ha => ⟨endures_after hsound ho hmem ha, takenBack_after hsound hmem ha⟩,
    fun r hmem ha e' hrun => endures_of_run hsound hmem ha hrun, ?_⟩
  intro op ho a r s org hr hreserved horg hs ha
  obtain ⟨stamp, user, spans, hstep⟩ := pool_step hsound ho F
  exact hstep.org_of_reserved (hsound.pool F) (Store.rowAt_eq_ok_iff.1 hr) hreserved horg (Store.rowAt_eq_ok_iff.1 hs) ha

/-- A network that is assigned is still so after it was to be deleted, and waits after it was taken back. -/
theorem assigned_protected_sample :
    let e := Operation.afterAll Operation.sample (empty .standard)
    let status (e' : Engine) := (e'.v4.store.table.get? (.ofBits 16)).map fun r => (r.status, r.org)
    (status e = some (.assigned, some ⟨"object", "org"⟩) ∧
      status ((Operation.onRanges .v4 (.counting 32) none (.delete (.ofBits 16))).after e) = status e ∧
      status ((Operation.onRanges .v4 (.counting 32) none (.recover (.ofBits 16))).after e) = some (.wait, none)) ∧
      ∀ op : Operation, op.ordinary = true → ∀ (a : Address .v4) r s org, e.v4.store.rowAt a = .ok r → r.status = .reserved →
        r.org = some org → (op.after e).v4.store.rowAt a = .ok s → s.status = .assigned → s.org = some org :=
  ⟨by decide +kernel, (assigned_protected (reached_afterAll Operation.sample rfl) .v4).2.2⟩

end Engine

end AddressSpace
