import AddressSpace.Proofs.Engine.Operation
import AddressSpace.Proofs.External
import AddressSpace.Proofs.Pool.Regroup
/-!
# What an operation can do to an engine

An engine is sound when its four tables are valid, their rows are such as may be stored, and no row is locked. On a sound engine an
ordinary operation makes one of the changes of `Engine.Change`, whether it succeeds or fails (`ordinary_change`), and any other
operation one of those of `Engine.Bypass` (`bypass_change`).
-/

namespace AddressSpace

open AddressSpace.Action

/-- No operation on the store is under way, and its rows have the right shape and names that stay. -/
structure Store.Sound {F : Family} (s : Store F) : Prop extends s.AtRest where
  shaped : ∀ r ∈ s.table, r.span.Shaped
  settled : ∀ r ∈ s.table, r.named = r

/-- The range that is asked for to cover a supernet. -/
def Supernet.cover (s : Supernet) (asn : Asn) : NewRange .v4 := ⟨"", s.span, asn, s.remark, ""⟩

namespace Engine

/-- All tables are valid, their rows have the right shape, and nothing is locked. -/
structure Sound (e : Engine) : Prop where
  v4 : e.v4.store.Sound
  v6 : e.v6.store.Sound
  supernets : e.supernets.Valid
  supernets_shaped : ∀ s ∈ e.supernets, s.span.Shaped
  externals : e.externals.Valid
  externals_shaped : ∀ r ∈ e.externals, r.span.Shaped

/-- The stored ranges of each family of a sound engine are sound. -/
theorem Sound.pool {e : Engine} (h : e.Sound) (F : Family) : (e.pool F).store.Sound :=
  match F with
  | .v4 => h.v4
  | .v6 => h.v6

/-- The registry has no part in it. -/
theorem Sound.registered {e : Engine} (h : e.Sound) (registry : Registry) : ({ e with registry } : Engine).Sound :=
  ⟨h.v4, h.v6, h.supernets, h.supernets_shaped, h.externals, h.externals_shaped⟩

@[simp] theorem withPool_pool (F : Family) (e : Engine) : withPool F e (e.pool F) = e := by cases F <;> rfl

@[simp] theorem pool_withPool (F : Family) (e : Engine) (p : Pool F) : (withPool F e p).pool F = p := by cases F <;> rfl

/-- Where nothing is announced, the supernets stay. -/
@[simp] theorem rangesChanged_nil (F : Family) (e : Engine) : rangesChanged F [] e = e := by
  cases F with
  | v4 => simp [rangesChanged, Warehouse.refresh, Warehouse.refreshIds]
  | v6 => rfl

/-- The ranges of a pool have changed, and the supernets follow. -/
def followed (F : Family) (e : Engine) (q : Pool F) (spans : List (Span F)) : Engine :=
  rangesChanged F spans (withPool F e q)

/-- A supernet of the engine has been covered with a range, with the registry as given, and its rollup derived once more. -/
def Stocked (e : Engine) (registry : Registry) (e' : Engine) : Prop :=
  ∃ stamp user spans q ids, Pool.Advance stamp user e.v4 spans q ∧ e' = { followed .v4 e q spans with
    registry, supernets := (Warehouse.refreshIds q.store ids (followed .v4 e q spans).supernets).2 }

/-- What an ordinary operation can do to an engine. -/
inductive Change (e : Engine) : Engine → Prop where
  | ranges {F : Family} {stamp : Stamp} {user : Option String} {spans : List (Span F)} {q : Pool F}
      (h : Pool.Step stamp user (e.pool F) spans q) : Change e (followed F e q spans)
  | stocked {registry : Registry} {e' : Engine} (h : Stocked e registry e') : Change e e'
  | supernets {old new : List Supernet} {t : Table Supernet} (h : e.supernets.Swapped old new t)
      (hs : ∀ s ∈ new, s.span.Shaped ∧ Warehouse.Current e.v4.store s) : Change e { e with supernets := t }
  | refreshed (ids : List Identifier) :
      Change e { e with supernets := (Warehouse.refreshIds e.v4.store ids e.supernets).2 }
  | externals {old new : List ExternalRange} {t : Table ExternalRange} (h : e.externals.Swapped old new t)
      (hs : ∀ r ∈ new, r.span.Shaped) : Change e { e with externals := t }
  | aside (v4Notes : Notes .v4) (v6Notes : Notes .v6) (registry : Registry) :
      Change e { e with v4Notes, v6Notes, registry }

/-- What an operation can do that goes past the pools. -/
inductive Bypass (e : Engine) : Engine → Prop where
  | stored {F : Family} {old new : List (Range F)} {t : Table (Range F)} (h : (e.pool F).store.table.Swapped old new t)
      (hs : ∀ r ∈ new, r.span.Shaped) (hn : ∀ r ∈ new, r.named = r) :
      Bypass e (withPool F e { e.pool F with store := ⟨t, .empty⟩ })
  | journals (v4 : Journal .v4) (v6 : Journal .v6) :
      Bypass e { e with v4 := { e.v4 with journal := v4 }, v6 := { e.v6 with journal := v6 } }

/-! ## Operations on ranges -/

variable {e : Engine} {F : Family} {α : Type} {stamp : Stamp} {user : Option String}

/-- An operation on a pool, with the supernets following, ends as the operation does. -/
theorem ends_manage (a : Action (Pool F) (Announced F α)) {ok : α → Engine → Prop} {fail : Failure → Engine → Prop} :
    (manage F a).Ends e ok fail ↔
      a.Ends (e.pool F) (fun out q => ok out.value (followed F e q out.spans)) (fun f q => fail f (withPool F e q)) := by
  unfold manage onPool
  simp only [ends_bind, ends_on, ends_modify, ends_pure, followed]

/-- The supernets follow an operation on a pool, unless it fails and changes nothing. -/
theorem manage_ends {a : Action (Pool F) (Announced F α)} {made : List (Span F) → Pool F → Prop}
    (ha : a.Ends (e.pool F) (fun out q => made out.spans q) (fun _ q => q = e.pool F)) :
    (manage F a).Ends e (fun _ e' => ∃ spans q, made spans q ∧ e' = followed F e q spans) (fun _ e' => e' = e) := by
  rw [ends_manage]
  refine ha.imp (fun out q hq => ⟨out.spans, q, hq, rfl⟩) fun _ q hq => ?_
  rw [hq, withPool_pool]

/-- An operation that only looks at an engine changes nothing. -/
theorem preview_ends (x : Engine → Except Failure α) :
    (do let e ← get; Action.ofExcept (x e) : Action Engine α).Ends e (fun _ e' => e' = e) (fun _ e' => e' = e) := by
  simp only [ends_bind, ends_get, ends_ofExcept, implies_true, and_self]

/-- A split or a merge regroups the ranges of its pool, or changes nothing. -/
theorem regroups_ends (h : (e.pool F).store.AtRest) {op : RangeOperation F} (ho : op.regroups = true) :
    (op.perform stamp user).Ends e
      (fun _ e' => ∃ spans q, Pool.Regrouped stamp user (e.pool F) spans q ∧ e' = followed F e q spans) (fun _ e' => e' = e) := by
  cases op with
  | split id target =>
    exact ends_map .. |>.2 (manage_ends ((Pool.split_ends h id target).imp (fun _ _ hq => hq.1) fun _ _ hq => hq))
  | splitAlong id plan =>
    exact ends_map .. |>.2 (manage_ends ((Pool.splitAlong_ends h id plan).imp (fun _ _ hq => hq.1) fun _ _ hq => hq))
  | merge ids target =>
    exact ends_map .. |>.2 (manage_ends ((Pool.merge_ends h ids target).imp (fun _ _ hq => hq.1) fun _ _ hq => hq))
  | _ => cases ho

/-- An operation on ranges takes out none but the rows that it names, writes down what it is about, and lets the supernets follow,
or it changes nothing. -/
theorem perform_deed (h : (e.pool F).store.AtRest) (op : RangeOperation F) :
    (op.perform stamp user).Ends e
      (fun _ e' => ∃ spans q, Pool.Deed op.names op.kind stamp user (e.pool F) spans q ∧ e' = followed F e q spans)
      (fun _ e' => e' = e) := by
  have hstay : ∃ spans q, Pool.Deed op.names op.kind stamp user (e.pool F) spans q ∧ e = followed F e q spans :=
    ⟨[], e.pool F, .refl h, by rw [followed, withPool_pool, rangesChanged_nil]⟩
  cases op with
  | create new => exact ends_map .. |>.2 (manage_ends (Pool.create_ends h new))
  | update id edit => exact ends_map .. |>.2 (manage_ends (Pool.update_ends h id edit))
  | delete id => exact ends_map .. |>.2 (manage_ends (Pool.delete_ends h id))
  | reserve id org => exact ends_map .. |>.2 (manage_ends (Pool.reserve_ends h id org))
  | assign id org => exact ends_map .. |>.2 (manage_ends (Pool.assign_ends h id org))
  | recover id => exact ends_map .. |>.2 (manage_ends (Pool.recover_ends h id))
  | split id target =>
    exact ends_map .. |>.2 (manage_ends ((Pool.split_ends h id target).imp (fun _ _ hq => hq.2) fun _ _ hq => hq))
  | splitAlong id plan =>
    exact ends_map .. |>.2 (manage_ends ((Pool.splitAlong_ends h id plan).imp (fun _ _ hq => hq.2) fun _ _ hq => hq))
  | merge ids target =>
    exact ends_map .. |>.2 (manage_ends ((Pool.merge_ends h ids target).imp (fun _ _ hq => hq.2) fun _ _ hq => hq))
  | remark id userRemark adminRemark privileged =>
    refine ends_map .. |>.2 (ends_on .. |>.2 ?_)
    refine (Pool.remark_ends h id userRemark adminRemark privileged).imp (fun _ q hq => ⟨[], q, hq, ?_⟩) fun _ q hq => ?_
    · rw [followed, rangesChanged_nil]
    · rw [hq, withPool_pool]
  | splitPreview id target =>
    exact ends_map .. |>.2 ((preview_ends _).imp (fun _ _ he => he ▸ hstay) fun _ _ he => he)
  | mergePreview ids target =>
    exact ends_map .. |>.2 ((preview_ends _).imp (fun _ _ he => he ▸ hstay) fun _ _ he => he)

/-- An operation on ranges that takes none back makes such a step in its pool and lets the supernets follow, or changes
nothing. -/
theorem perform_advances (h : (e.pool F).store.AtRest) {op : RangeOperation F} (ho : op.takesBack = none) :
    (op.perform stamp user).Ends e
      (fun _ e' => ∃ spans q, Pool.Advance stamp user (e.pool F) spans q ∧ e' = followed F e q spans) (fun _ e' => e' = e) := by
  have hkind : op.kind ≠ some .recover := by
    cases op with
    | recover id => cases ho
    | _ => simp [RangeOperation.kind]
  refine (perform_deed h op).imp ?_ fun _ _ he => he
  rintro _ _ ⟨spans, q, hq, rfl⟩
  exact ⟨spans, q, hq.advance hkind, rfl⟩

/-- An operation on ranges makes a step in its pool and lets the supernets follow, or changes nothing. -/
theorem perform_ends (h : (e.pool F).store.AtRest) (op : RangeOperation F) :
    (op.perform stamp user).Ends e
      (fun _ e' => ∃ spans q, Pool.Step stamp user (e.pool F) spans q ∧ e' = followed F e q spans) (fun _ e' => e' = e) := by
  refine (perform_deed h op).imp ?_ fun _ _ he => he
  rintro _ _ ⟨spans, q, hq, rfl⟩
  exact ⟨spans, q, hq.step, rfl⟩

/-! ## Operations on everything else -/

/-- A supernet can be covered: it says that no range lies inside it, and the range over it is apart from all others. -/
structure Coverable (e : Engine) (stamp : Stamp) (asn : Asn) (s : Supernet) : Prop where
  rollup : s.rollup = .outOfWarehouse
  shaped : s.span.Shaped
  apart : ∀ o ∈ e.v4.store.table, Row.Apart o ((s.cover asn).row stamp)

/-- A supernet is covered just when it can be. A range is then created over it, and its rollup is derived once more. -/
theorem stockUnder_exact (h : e.Sound) (id : Identifier) (asn : Asn) :
    (stockUnder stamp id asn user).Ends e
      (fun out e' => ∃ s ∈ e.supernets, s.id = id ∧ e.Coverable stamp asn s ∧ out.2 = (s.cover asn).row stamp ∧
        e'.supernets.get? id = some out.1 ∧ ∃ q, Pool.Became stamp user e.v4 (some (.add s.span)) [] [out.2] q ∧
          e' = { followed .v4 e q [s.span] with
            supernets := (Warehouse.refreshIds q.store [id] (followed .v4 e q [s.span]).supernets).2 })
      (fun _ e' => e' = e ∧ ∀ s ∈ e.supernets, s.id = id → ¬e.Coverable stamp asn s) := by
  unfold stockUnder
  simp only [ends_bind, ends_get, ends_liftM, ends_ite, ends_throw]
  refine ⟨fun s hs => ?_, fun f hf => ⟨trivial, fun s hs hid _ => ?_⟩⟩
  · obtain ⟨hmem, rfl⟩ := h.supernets.get?_eq_some_iff.1 (Warehouse.row_eq_ok_iff.1 hs)
    have honly : ∀ s' ∈ e.supernets, s'.id = s.id → s' = s := fun s' hs' he => Table.eq_of_id hs' hmem he
    refine ⟨fun hrollup => ⟨trivial, fun s' hs' hid hc => hrollup (honly s' hs' hid ▸ hc.rollup)⟩, fun hrollup => ?_⟩
    refine ends_manage .. |>.2 ((Pool.create_exact h.v4.toAtRest (s.cover asn)).imp ?_ ?_)
    · rintro out q ⟨⟨hshaped, hapart⟩, rfl, hb⟩
      simp only [ends_modify, ends_pure]
      refine ⟨fun s₁ hs₁ => ?_, fun f hf => ?_⟩
      · exact ⟨s, hmem, rfl, ⟨Classical.not_not.1 hrollup, hshaped, hapart⟩, rfl, Warehouse.row_eq_ok_iff.1 hs₁, q, hb, rfl⟩
      · -- the supernet was there at first, and deriving rollups loses none, so that it is found again
        obtain ⟨hvalid, -⟩ := Warehouse.refresh_spec q.store h.supernets [s.span]
        obtain ⟨s₁, hs₁⟩ := Warehouse.refresh_row q.store [s.span] h.supernets hs
        obtain ⟨s₂, hs₂⟩ := Warehouse.refreshIds_row q.store [s.id] hvalid hs₁
        cases hs₂.symm.trans hf
    · rintro f q ⟨hbad, rfl⟩
      exact ⟨withPool_pool .v4 e, fun s' hs' hid hc => hbad (honly s' hs' hid ▸ ⟨hc.shaped, hc.apart⟩)⟩
  · cases hf.symm.trans (Warehouse.row_eq_ok_iff.2 (h.supernets.get?_eq_some_iff.2 ⟨hs, hid⟩))

/-- Covering a supernet makes a step in the 32-bit pool and derives the supernet's rollup once more, or changes nothing. -/
theorem stockUnder_ends (h : e.Sound) (registry : Registry) (id : Identifier) (asn : Asn) :
    (stockUnder stamp id asn user).Ends { e with registry } (fun _ e' => Stocked e registry e')
      (fun _ e' => e' = { e with registry }) := by
  refine (stockUnder_exact (h.registered registry) id asn).imp ?_ fun _ _ he => he.1
  rintro out e' ⟨s, -, -, -, hr, -, q, hb, rfl⟩
  rw [hr] at hb
  exact ⟨stamp, user, [s.span], q, [id], ⟨_, _, _, .added (s.cover asn), hb, by simp [Event.kind]⟩, rfl⟩

/-- Stocking a supernet registers its AS number and covers it under the registered AS. When it cannot be covered, the number is
registered all the same. -/
theorem stock_exact (h : e.Sound) (id : Identifier) :
    (stock stamp id user).Ends e
      (fun out e' => ∃ s ∈ e.supernets, s.id = id ∧ ∃ asn registry, e.registry.register s.asn = (asn, registry) ∧
        e.Coverable stamp asn s ∧ out.2 = (s.cover asn).row stamp ∧ e'.supernets.get? id = some out.1 ∧
        ∃ q, Pool.Became stamp user e.v4 (some (.add s.span)) [] [out.2] q ∧
          e' = { followed .v4 e q [s.span] with
            registry
            supernets := (Warehouse.refreshIds q.store [id] (followed .v4 e q [s.span]).supernets).2 })
      (fun _ e' => e' = e ∧ (∀ s ∈ e.supernets, s.id ≠ id) ∨
        ∃ s ∈ e.supernets, s.id = id ∧ ∃ asn registry, e.registry.register s.asn = (asn, registry) ∧
          ¬e.Coverable stamp asn s ∧ e' = { e with registry }) := by
  unfold stock
  simp only [ends_bind, ends_get, ends_liftM]
  refine ⟨fun s hs => ?_, fun f hf => .inl ⟨trivial, fun s hs hid => ?_⟩⟩
  · obtain ⟨hmem, rfl⟩ := h.supernets.get?_eq_some_iff.1 (Warehouse.row_eq_ok_iff.1 hs)
    have honly : ∀ s' ∈ e.supernets, s'.id = s.id → s' = s := fun s' hs' he => Table.eq_of_id hs' hmem he
    unfold register
    simp only [ends_bind, ends_get, ends_set, ends_pure]
    refine (stockUnder_exact (h.registered (e.registry.register s.asn).2) s.id (e.registry.register s.asn).1).imp ?_ ?_
    · rintro out e' ⟨s', hs', hid, hc, hr, hfound, q, hb, rfl⟩
      obtain rfl := honly s' hs' hid
      exact ⟨s', hmem, rfl, _, _, rfl, ⟨hc.rollup, hc.shaped, hc.apart⟩, hr, hfound, q, hb, rfl⟩
    · rintro f e' ⟨rfl, hbad⟩
      exact .inr ⟨s, hmem, rfl, _, _, rfl, fun hc => hbad s hmem rfl ⟨hc.rollup, hc.shaped, hc.apart⟩, rfl⟩
  · cases hf.symm.trans (Warehouse.row_eq_ok_iff.2 (h.supernets.get?_eq_some_iff.2 ⟨hs, hid⟩))

/-- The AS number is registered before anything can fail but for the supernet being missing. -/
theorem stock_ends (h : e.Sound) (id : Identifier) :
    (stock stamp id user).Ends e (fun _ e' => ∃ number, Stocked e (e.registry.register number).2 e')
      (fun _ e' => e' = e ∨ ∃ number, e' = { e with registry := (e.registry.register number).2 }) := by
  refine (stock_exact h id).imp ?_ ?_
  · rintro out e' ⟨s, -, -, asn, registry, hregister, -, hr, -, q, hb, rfl⟩
    rw [hr] at hb
    refine ⟨s.asn, stamp, user, [s.span], q, [id], ⟨_, _, _, .added (s.cover asn), hb, by simp [Event.kind]⟩, ?_⟩
    rw [hregister]
  · rintro f e' (⟨rfl, -⟩ | ⟨s, -, -, asn, registry, hregister, -, rfl⟩)
    · exact .inl rfl
    · exact .inr ⟨s.asn, by rw [hregister]⟩

/-- An operation on the supernets that ends in a swap of current supernets is a change. -/
theorem onSupernets_ends {a : Action (Table Supernet) α}
    (ha : a.Ends e.supernets
      (fun _ t => ∃ old new, e.supernets.Swapped old new t ∧ ∀ s ∈ new, s.span.Shaped ∧ Warehouse.Current e.v4.store s)
      (fun _ t => t = e.supernets)) :
    (onSupernets a).Ends e (fun _ e' => Change e e') (fun _ e' => e' = e) := by
  unfold onSupernets
  rw [ends_on]
  refine ha.imp ?_ fun _ t ht => by rw [ht]
  rintro _ t ⟨old, new, hsw, hnew⟩
  exact .supernets hsw hnew

/-- An operation on the external ranges that puts in rows of the right shape makes a change; where it fails nothing changes. -/
theorem onExternals_ends {a : Action (Table ExternalRange) α}
    (ha : a.Ends e.externals (fun _ t => ∃ old new, e.externals.Swapped old new t ∧ ∀ r ∈ new, r.span.Shaped)
      (fun _ t => t = e.externals)) :
    (onExternals a).Ends e (fun _ e' => Change e e') (fun _ e' => e' = e) := by
  unfold onExternals
  rw [ends_on]
  refine ha.imp ?_ fun _ t ht => by rw [ht]
  rintro _ t ⟨old, new, hsw, hnew⟩
  exact .externals hsw hnew

/-- Refreshing rollups makes a change; where it fails nothing changes. -/
theorem refreshSupernets_ends (spans : Option (List (Span .v4))) :
    (refreshSupernets spans).Ends e (fun _ e' => Change e e') (fun _ e' => e' = e) := by
  unfold refreshSupernets
  simp only [ends_bind, ends_get, ends_set, ends_pure]
  cases spans with
  | none => exact .refreshed _
  | some spans => exact .refreshed _

/-- A remark on an address makes a change; where it fails nothing changes. -/
theorem annotate_ends (address : Address F) (userRemark adminRemark : Option String) :
    (annotate stamp address userRemark adminRemark).Ends e (fun _ e' => Change e e') (fun _ e' => e' = e) := by
  have hnotes : ∀ n, Change e (withNotes F e n) := by
    intro n
    cases F with
    | v4 => exact .aside n e.v6Notes e.registry
    | v6 => exact .aside e.v4Notes n e.registry
  have hsame : withNotes F e (notes F e) = e := by cases F <;> rfl
  unfold annotate Notes.remark
  simp only [ends_on, ends_bind, ends_ite, ends_throw, ends_get, ends_set, ends_pure, hsame, implies_true, true_and]
  exact fun _ => hnotes _

/-! ## All operations -/

/-- An ordinary operation on a sound engine makes one of the changes. When it fails nothing has changed, unless it is one that
registers an AS number first. -/
theorem atomic_ends (h : e.Sound) {op : Operation} (ho : op.ordinary = true) (ha : op.atomic = true) :
    op.perform.Ends e (fun _ e' => Change e e') (fun _ e' => e' = e) := by
  cases op with
  | onRanges F stamp user op =>
    refine (perform_ends (h.pool F).toAtRest op).imp ?_ fun _ _ he => he
    rintro _ _ ⟨spans, q, hq, rfl⟩
    exact .ranges hq
  | stock stamp id user => cases ha
  | stockUnder stamp id asn user =>
    exact ends_map .. |>.2 ((stockUnder_ends h e.registry id asn).imp (fun _ _ hs => .stocked hs) fun _ _ he => he)
  | createSupernet stamp input operator =>
    refine ends_map .. |>.2 (ends_bind .. |>.2 (onSupernets_ends ?_))
    refine (Warehouse.create_ends h.supernets stamp input operator).imp ?_ fun _ _ ht => ht
    rintro s t ⟨hshape, hcurrent, hsw⟩
    exact ⟨_, _, hsw, List.forall_mem_singleton.2 ⟨hshape, hcurrent⟩⟩
  | updateSupernet stamp id input operator =>
    refine ends_map .. |>.2 (ends_bind .. |>.2 (onSupernets_ends ?_))
    refine (Warehouse.update_ends h.supernets stamp id input operator).imp ?_ fun _ _ ht => ht
    rintro s t ⟨hshape, hcurrent, old, hsw⟩
    exact ⟨_, _, hsw, List.forall_mem_singleton.2 ⟨hshape, hcurrent⟩⟩
  | deleteSupernet id =>
    refine ends_map .. |>.2 (onSupernets_ends ?_)
    exact (Warehouse.delete_ends h.supernets id).imp (fun _ _ hsw => ⟨_, _, hsw, by simp⟩) fun _ _ ht => ht
  | refreshSupernets spans => exact ends_map .. |>.2 (refreshSupernets_ends spans)
  | createExternal stamp input operator =>
    refine ends_map .. |>.2 (onExternals_ends ?_)
    refine (External.create_ends h.externals stamp input operator).imp ?_ fun _ _ ht => ht
    rintro r t ⟨hshape, hsw⟩
    exact ⟨_, _, hsw, List.forall_mem_singleton.2 hshape⟩
  | updateExternal stamp id input operator =>
    refine ends_map .. |>.2 (onExternals_ends ?_)
    refine (External.update_ends h.externals stamp id input operator).imp ?_ fun _ _ ht => ht
    rintro r t ⟨hshape, old, hsw⟩
    exact ⟨_, _, hsw, List.forall_mem_singleton.2 hshape⟩
  | deleteExternal id =>
    refine ends_map .. |>.2 (onExternals_ends ?_)
    exact (External.delete_ends h.externals id).imp (fun _ _ hsw => ⟨_, _, hsw, by simp⟩) fun _ _ ht => ht
  | annotate F stamp address userRemark adminRemark => exact ends_map .. |>.2 (annotate_ends address userRemark adminRemark)
  | register number => exact .aside e.v4Notes e.v6Notes _
  | insertRow F r => cases ho
  | transact F lock remove add => cases ho
  | closeJournal F => cases ho
  | forget user => cases ho

/-- An ordinary operation on a sound engine makes one of the changes. When it fails, nothing has changed but perhaps the AS
registry. -/
theorem ordinary_ends (h : e.Sound) {op : Operation} (ho : op.ordinary = true) :
    op.perform.Ends e (fun _ e' => Change e e') (fun _ e' => ∃ registry, e' = { e with registry }) := by
  cases op with
  | stock stamp id user =>
    refine ends_map .. |>.2 ((stock_ends h id).imp (fun _ _ ⟨_, hs⟩ => .stocked hs) ?_)
    rintro _ _ (rfl | ⟨number, rfl⟩)
    · exact ⟨_, rfl⟩
    · exact ⟨_, rfl⟩
  | _ => exact (atomic_ends h ho rfl).imp (fun _ _ hc => hc) fun _ _ he => ⟨e.registry, he⟩

/-- An ordinary operation makes a change, whether it succeeds or not. -/
theorem ordinary_change (h : e.Sound) {op : Operation} (ho : op.ordinary = true) : Change e (op.after e) := by
  refine Ends.state (q := fun e' => Change e e') ((ordinary_ends h ho).imp (fun _ _ hc => hc) ?_)
  rintro _ _ ⟨registry, rfl⟩
  exact .aside e.v4Notes e.v6Notes registry

theorem Bypass.refl (e : Engine) : Bypass e e := .journals e.v4.journal e.v6.journal

/-- A change of stored rows, after which nothing is locked, goes past the pool. -/
theorem onStore_ends {a : Action (Store F) α}
    (ha : a.Ends (e.pool F).store
      (fun _ t => t.locks = .empty ∧
        ∃ (old new : List (Range F)), (e.pool F).store.table.Swapped old (new.map Range.named) t.table ∧ ∀ r ∈ new, r.span.Shaped)
      (fun _ t => t = (e.pool F).store)) :
    (onPool F (Pool.onStore a)).Ends e (fun _ e' => Bypass e e') (fun _ e' => e' = e) := by
  unfold onPool Pool.onStore
  simp only [ends_on]
  refine ha.imp ?_ ?_
  · rintro _ ⟨table, locks⟩ ⟨rfl, old, new, hsw, hnew⟩
    exact .stored hsw (List.forall_mem_map.2 fun r hr => (Range.named_span r).symm ▸ hnew r hr)
      (List.forall_mem_map.2 fun r _ => r.named_named)
  · rintro _ t rfl
    exact withPool_pool F e

/-- Any other operation on a sound engine goes past the pools. When it fails, nothing has changed. -/
theorem bypass_ends (h : e.Sound) {op : Operation} (ho : op.ordinary = false) :
    op.perform.Ends e (fun _ e' => Bypass e e') (fun _ e' => e' = e) := by
  cases op with
  | insertRow F r =>
    refine onStore_ends (ends_map .. |>.2 ?_)
    refine (Store.insert_ends (h.pool F).valid r).imp ?_ fun _ _ ht => ht
    rintro _ t ⟨hshape, rfl, hlocks, hsw⟩
    exact ⟨hlocks.trans (h.pool F).unlocked, [], [r], hsw, List.forall_mem_singleton.2 hshape⟩
  | transact F lock remove add =>
    refine onStore_ends (ends_bind .. |>.2 ?_)
    refine (Store.lock_ends (h.pool F).toAtRest lock).imp ?_ fun _ _ ht => ht
    rintro tx t ⟨-, htable, hlocks⟩
    refine ends_map .. |>.2 (Store.ends_finishing .. |>.2 ?_)
    refine (Store.write_ends (htable ▸ (h.pool F).valid) tx remove add).imp ?_ ?_
    · rintro _ u ⟨hshape, rfl, hulocks, old, -, -, hsw⟩
      rw [htable] at hsw
      exact ⟨by rw [Store.release, hulocks, hlocks], old, add, hsw, hshape⟩
    · rintro _ u rfl
      rw [Store.release, htable, hlocks, ← (h.pool F).eq_mk]
  | closeJournal F =>
    cases F with
    | v4 => exact .journals _ e.v6.journal
    | v6 => exact .journals e.v4.journal _
  | forget user => exact .journals _ _
  | _ => cases ho

/-- Any other operation on a sound engine goes past the pools, whether it succeeds or fails. -/
theorem bypass_change (h : e.Sound) {op : Operation} (ho : op.ordinary = false) : Bypass e (op.after e) := by
  refine Ends.state (q := fun e' => Bypass e e') ((bypass_ends h ho).imp (fun _ _ hb => hb) ?_)
  exact fun _ _ he => he ▸ .refl e

end Engine

end AddressSpace
