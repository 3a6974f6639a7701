import AddressSpace.Proofs.Note
import AddressSpace.Proofs.Pool.Indistinct
/-!
# Engines that look the same

Two engines look the same when their pools do once the ranges are redacted, their notes do once they are, and all the rest of them is
the same (`Engine.Indistinct`). Every operation keeps engines so, and ends alike on both. Rollups in particular are derived from
what is not redacted (`Warehouse.tally_eq`), so that supernets stay equal.
-/

namespace AddressSpace

open AddressSpace.Action

variable {F : Family} {α : Type}

/-! ## Rollups -/

namespace Warehouse

variable {ranges ranges' : Store .v4}

/-- A tally looks at nothing that is left out. -/
theorem tally_eq (h : ranges.Indistinct ranges') : tally ranges = tally ranges' := by
  have hshare : ∀ (status : Status) (rs : List (Range .v4)),
      Tally.share status (rs.map Range.redacted) = Tally.share status rs := by
    intro status rs
    have hfilter : (rs.map Range.redacted).filter (·.status == status) = (rs.filter (·.status == status)).map Range.redacted := by
      rw [List.filter_map]
      rfl
    simp only [Tally.share, hfilter, List.map_map]
    rfl
  have hcollect : ∀ rs : List (Range .v4), Tally.collect (rs.map Range.redacted) = Tally.collect rs := fun rs => by
    rw [Tally.collect, Tally.collect, hshare, hshare, hshare]
  funext span
  have hinside := h.table.map_inside Range.shown_redacted ⟨span.start.bits, span.stop.bits⟩
  rw [tally, tally, Store.inside, Store.inside, ← hcollect, hinside, hcollect]

/-- Refreshing the named supernets looks at nothing of the ranges that is hidden. -/
theorem refreshIds_eq (h : ranges.Indistinct ranges') : refreshIds ranges = refreshIds ranges' := by
  have hrolledUp : rolledUp ranges = rolledUp ranges' := by
    funext s
    unfold rolledUp
    rw [tally_eq h]
  have hone : refreshOne ranges = refreshOne ranges' := by
    funext t id
    unfold refreshOne
    rw [hrolledUp]
  funext ids t
  unfold refreshIds
  rw [hone]

theorem refresh_eq (h : ranges.Indistinct ranges') : refresh ranges = refresh ranges' := by
  funext spans t
  unfold refresh
  rw [refreshIds_eq h]

theorem refreshAll_eq (h : ranges.Indistinct ranges') : refreshAll ranges = refreshAll ranges' := by
  funext t
  unfold refreshAll
  rw [refreshIds_eq h]

theorem create_eq (h : ranges.Indistinct ranges') : create ranges = create ranges' := by
  funext stamp input operator
  unfold create
  rw [tally_eq h]

theorem update_eq (h : ranges.Indistinct ranges') : update ranges = update ranges' := by
  funext stamp id input operator
  unfold update
  rw [tally_eq h]

end Warehouse

namespace Engine

/-- The engines are the same but for the parts of ranges and notes that are left out when they are redacted. -/
structure Indistinct (e e' : Engine) : Prop where
  v4 : e.v4.Indistinct e'.v4
  v6 : e.v6.Indistinct e'.v6
  supernets : e.supernets = e'.supernets
  externals : e.externals = e'.externals
  v4Notes : e.v4Notes.map Note.redacted = e'.v4Notes.map Note.redacted
  v6Notes : e.v6Notes.map Note.redacted = e'.v6Notes.map Note.redacted
  registry : e.registry = e'.registry

variable {e e' : Engine} {stamp : Stamp} {user : Option String}

namespace Indistinct

theorem refl (e : Engine) : e.Indistinct e :=
  ⟨⟨.refl _, rfl, rfl⟩, ⟨.refl _, rfl, rfl⟩, rfl, rfl, rfl, rfl, rfl⟩

theorem pool (h : e.Indistinct e') (F : Family) : (e.pool F).Indistinct (e'.pool F) :=
  match F with
  | .v4 => h.v4
  | .v6 => h.v6

theorem notes (h : e.Indistinct e') (F : Family) : (e.notes F).map Note.redacted = (e'.notes F).map Note.redacted :=
  match F with
  | .v4 => h.v4Notes
  | .v6 => h.v6Notes

/-- Pools that look the same may be put into engines that look the same. -/
theorem withPool (h : e.Indistinct e') {p q : Pool F} (hpq : p.Indistinct q) :
    (Engine.withPool F e p).Indistinct (Engine.withPool F e' q) := by
  cases F with
  | v4 => exact { h with v4 := hpq }
  | v6 => exact { h with v6 := hpq }

/-- Notes that look the same may be put into engines that look the same. -/
theorem withNotes (h : e.Indistinct e') {m n : Notes F} (hmn : m.map Note.redacted = n.map Note.redacted) :
    (Engine.withNotes F e m).Indistinct (Engine.withNotes F e' n) := by
  cases F with
  | v4 => exact { h with v4Notes := hmn }
  | v6 => exact { h with v6Notes := hmn }

/-- Rollups are derived anew alike. -/
theorem refreshed (h : e.Indistinct e') (ids : List Identifier) :
    ({ e with supernets := (Warehouse.refreshIds e.v4.store ids e.supernets).2 } : Engine).Indistinct
      { e' with supernets := (Warehouse.refreshIds e'.v4.store ids e'.supernets).2 } := by
  have hsupernets : (Warehouse.refreshIds e.v4.store ids e.supernets).2 =
      (Warehouse.refreshIds e'.v4.store ids e'.supernets).2 := by
    rw [Warehouse.refreshIds_eq h.v4.store, h.supernets]
  exact { h with supernets := hsupernets }

/-- The supernets follow the ranges in engines that look the same alike. -/
theorem rangesChanged (h : e.Indistinct e') (spans : List (Span F)) :
    (Engine.rangesChanged F spans e).Indistinct (Engine.rangesChanged F spans e') := by
  cases F with
  | v4 =>
    have hsupernets : (Warehouse.refresh e.v4.store spans e.supernets).2 =
        (Warehouse.refresh e'.v4.store spans e'.supernets).2 := by
      rw [Warehouse.refresh_eq h.v4.store, h.supernets]
    exact { h with supernets := hsupernets }
  | v6 => exact h

end Indistinct

/-! ## Operations -/

/-- Paired operations on pools are paired operations on engines. -/
theorem onPool_paired {a b : Action (Pool F) α} {same : α → α → Prop} (h : e.Indistinct e')
    (hab : a.Paired b (e.pool F) (e'.pool F) Pool.Indistinct same) : (onPool F a).Paired (onPool F b) e e' Indistinct same :=
  hab.on fun _ _ => h.withPool

theorem onSupernets_paired {a b : Action (Table Supernet) α} (h : e.Indistinct e') (hab : a = b) :
    (onSupernets a).Paired (onSupernets b) e e' Indistinct Eq := by
  subst hab
  unfold onSupernets
  have hself : a.Paired a e.supernets e'.supernets Eq Eq := h.supernets ▸ paired_self a e.supernets
  exact hself.on fun _ _ hst => { h with supernets := hst }

theorem onExternals_paired (a : Action (Table ExternalRange) α) (h : e.Indistinct e') :
    (onExternals a).Paired (onExternals a) e e' Indistinct Eq := by
  unfold onExternals
  have hself : a.Paired a e.externals e'.externals Eq Eq := h.externals ▸ paired_self a e.externals
  exact hself.on fun _ _ hst => { h with externals := hst }

/-- Operations on pools that announce the same spans, with the supernets following. -/
theorem manage_paired {a b : Action (Pool F) (Announced F α)} (h : e.Indistinct e')
    (hab : a.Paired b (e.pool F) (e'.pool F) Pool.Indistinct Pool.SameSpans) :
    (manage F a).Paired (manage F b) e e' Indistinct fun _ _ => True := by
  unfold manage
  refine (onPool_paired h hab).bind fun x y e e' hxy h => ?_
  have hspans : x.spans = y.spans := hxy
  rw [hspans]
  exact (paired_modify (h.rangesChanged y.spans)).bind fun _ _ _ _ _ h => paired_pure h trivial

theorem closeJournal_paired (h : e.Indistinct e') (F : Family) :
    (closeJournal F).Paired (closeJournal F) e e' Indistinct Eq := by
  have hjournal : (e.pool F).journal.close = (e'.pool F).journal.close := by rw [(h.pool F).journal]
  unfold closeJournal
  exact onPool_paired h (paired_modify ⟨(h.pool F).store, hjournal, (h.pool F).limits⟩)

theorem forgetIn_paired (h : e.Indistinct e') (F : Family) (user : String) :
    (forgetIn F user).Paired (forgetIn F user) e e' Indistinct fun _ _ => True := by
  unfold forgetIn
  refine onPool_paired h (paired_get_bind ?_)
  rw [(h.pool F).journal]
  exact (paired_set ⟨(h.pool F).store, rfl, (h.pool F).limits⟩).bind fun _ _ _ _ _ h => paired_pure h trivial

theorem forget_paired (h : e.Indistinct e') (user : String) :
    (forget user).Paired (forget user) e e' Indistinct fun _ _ => True :=
  (forgetIn_paired h .v4 user).bind fun _ _ _ _ _ h =>
    (forgetIn_paired h .v6 user).bind fun _ _ _ _ _ h => paired_pure h trivial

theorem register_paired (h : e.Indistinct e') (number : UInt32) :
    (register number).Paired (register number) e e' Indistinct Eq := by
  unfold register
  refine paired_get_bind ?_
  rw [h.registry]
  exact (paired_set { h with registry := rfl }).bind fun _ _ _ _ _ h => paired_pure h rfl

/-- Two remarks on an address that differ in the text of the admin remark alone are paired, and give notes that look the same. -/
theorem annotate_paired (h : e.Indistinct e') (address : Address F) (userRemark : Option String)
    {adminRemark adminRemark' : Option String} (hsome : adminRemark.isSome = adminRemark'.isSome) :
    (annotate stamp address userRemark adminRemark).Paired (annotate stamp address userRemark adminRemark') e e' Indistinct
      fun a b => a.redacted = b.redacted :=
  (Notes.remark_paired (h.notes F) stamp.now address userRemark hsome).on fun _ _ => h.withNotes

theorem refreshSupernets_paired (h : e.Indistinct e') (spans : Option (List (Span .v4))) :
    (refreshSupernets spans).Paired (refreshSupernets spans) e e' Indistinct fun _ _ => True := by
  unfold refreshSupernets
  refine paired_get_bind ?_
  rw [Warehouse.refresh_eq h.v4.store, Warehouse.refreshAll_eq h.v4.store, h.supernets]
  exact (paired_set { h with supernets := rfl }).bind fun _ _ _ _ _ h => paired_pure h trivial

/-- Covering a supernet under a given AS is paired with itself. -/
theorem stockUnder_paired (h : e.Indistinct e') (id : Identifier) (asn : Asn) :
    (stockUnder stamp id asn user).Paired (stockUnder stamp id asn user) e e' Indistinct fun _ _ => True := by
  unfold stockUnder
  refine paired_get_bind ?_
  rw [h.supernets]
  refine paired_liftM_bind h (Agree.of_eq rfl) fun s _ _ _ hs => ?_
  subst hs
  refine paired_ite .rfl (fun _ => .error _ h) fun _ => ?_
  refine (manage_paired h (Pool.create_paired h.v4 _ _)).bind fun _ _ e e' _ h => ?_
  refine (paired_modify (h.refreshed [id])).bind fun _ _ e e' _ h => paired_get_bind ?_
  rw [h.supernets]
  exact paired_liftM_bind h (Agree.of_eq rfl) fun _ _ _ _ _ => paired_pure h trivial

/-- Covering a supernet under its own AS is paired with itself. -/
theorem stock_paired (h : e.Indistinct e') (id : Identifier) :
    (stock stamp id user).Paired (stock stamp id user) e e' Indistinct fun _ _ => True := by
  unfold stock
  refine paired_get_bind ?_
  rw [h.supernets]
  refine paired_liftM_bind h (Agree.of_eq rfl) fun s _ _ _ hs => ?_
  subst hs
  refine (register_paired h s.asn).bind fun asn _ e e' hasn h => ?_
  subst hasn
  exact stockUnder_paired h id asn

end Engine

end AddressSpace
