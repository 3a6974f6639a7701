import AddressSpace.Proofs.Engine.Books
import AddressSpace.Proofs.Engine.Rollups
import AddressSpace.Proofs.Journal
import AddressSpace.Proofs.Pool.Commit
/-!
# Stocking a supernet

A supernet is stocked just when its space is vacant. What is looked at is something else: whether the supernet says that no range
lies inside it, and whether the store finds room for the range over it. But a supernet never says this without reason, and a range
that meets the supernet without lying inside it is in the way of the new one (`stock_iff_vacant`). The range then covers the
supernet, which says so, and no other supernet changes.

The AS number of the supernet is registered before any of this is looked at. A supernet that is not stocked leaves the number
registered, and everything else as it was (`stock_error_registers`).
-/

namespace AddressSpace

open AddressSpace.Action

/-- No stored range meets the span. -/
def Store.Vacant {F : Family} (ranges : Store F) (span : Span F) : Prop := ∀ r ∈ ranges.table, r.span.meets span = false

/-- What is known of the range that is created over a supernet. -/
theorem Supernet.row_cover (s : Supernet) (asn : Asn) (stamp : Stamp) :
    let r := (s.cover asn).row stamp
    r.id = stamp.rowId 0 ∧ r.span = s.span ∧ (r.status = .wait ∧ r.org = none) ∧ r.adminRemark = s.remark ∧ r.asn = asn := by
  simp [cover, NewRange.row, Range.build]

namespace Warehouse

variable {ranges ranges' : Store .v4} {s : Supernet} {r : Range .v4}

/-! ## A range over a supernet -/

/-- Nothing lies inside a vacant supernet. -/
theorem within_of_vacant (ht : ranges.table.Valid) {span : Span .v4} (h : ranges.Vacant span) : ranges.within span = [] := by
  refine List.eq_nil_iff_forall_not_mem.2 fun r hr => ?_
  obtain ⟨hmem, hstart, hstop⟩ := (mem_within ht).1 hr
  have hordered : r.span.start.bits ≤ r.span.stop.bits := ht.ordered r hmem
  have hmeets : r.span.meets span = true := by
    rw [Span.meets, Bool.and_eq_true, decide_eq_true_eq, decide_eq_true_eq]
    exact ⟨Nat.le_trans hordered hstop, Nat.le_trans hstart hordered⟩
  exact Bool.false_ne_true ((h r hmem).symm.trans hmeets)

/-- A range that is put over a vacant span is all that lies inside it. -/
theorem within_of_covered (h : ranges.Vacant r.span) (ht : ranges.table.Valid) (hsw : ranges.table.Swapped [] [r] ranges'.table) :
    ranges'.within r.span = [r] := by
  have hmem : ∀ o, o ∈ ranges'.within r.span ↔ o ∈ [r] := by
    intro o
    rw [mem_within hsw.valid, hsw.mem_iff]
    constructor
    · rintro ⟨⟨ho, -⟩ | ho, hin⟩
      · have hwithin : o ∈ ranges.within r.span := (mem_within ht).2 ⟨ho, hin⟩
        rw [within_of_vacant ht h] at hwithin
        cases hwithin
      · exact ho
    · intro ho
      obtain rfl := List.mem_singleton.1 ho
      exact ⟨.inr ho, Nat.le_refl _, Nat.le_refl _⟩
  have hnodup : (ranges'.within r.span).Nodup := (Table.nodup_toList hsw.valid).filter _
  exact List.perm_singleton.1 ((List.perm_ext_iff_of_nodup hnodup (List.nodup_singleton r)).2 hmem)

/-- A supernet that a waiting range is put over is in the warehouse with nothing used. -/
theorem rolledUp_of_covered (hc : Current ranges s) (hs : s.span.Shaped) (ht : ranges.table.Valid) (h : ranges.Vacant s.span)
    (hspan : r.span = s.span) (hwait : r.status = .wait) (hsw : ranges.table.Swapped [] [r] ranges'.table) :
    rolledUp ranges' s = { s with rollup := .inWarehouse, used := 0 } := by
  have haccurate : (rolledUp ranges' s).Accurate ranges' := hc.renew.accurate hsw.valid hs
  have hwithin : ranges'.within s.span = [r] := hspan ▸ within_of_covered (hspan ▸ h) ht hsw
  have hused : (rolledUp ranges' s).used = 0 := by
    refine UInt64.toNat_inj.1 (haccurate.used.trans ?_)
    rw [rolledUp_span, hwithin]
    simp [hwait]
  have hrollup : (rolledUp ranges' s).rollup = .inWarehouse :=
    haccurate.inWarehouse.2 ⟨r, hwithin, congrArg Span.start hspan, congrArg Span.stop hspan⟩
  rw [← hused, ← hrollup]
  rfl

/-- A supernet with a range over it has no free blocks. -/
theorem free_of_covered {t : Table Supernet} (hs : s ∈ t) (hshaped : s.span.Shaped) (hranges : ranges.table.Valid)
    (hr : r ∈ ranges.table) (hspan : r.span = s.span) : free ranges t s.id = .ok [] := by
  obtain ⟨blocks, hfree, hfill⟩ := exists_free hranges hs hshaped
  have hnone : blocks = [] := by
    refine List.eq_nil_iff_forall_not_mem.2 fun c hc => ?_
    -- the first address of a block would be in the supernet, and so in the range
    obtain ⟨hin, hout⟩ := hfill.free_of_mem hc c.contains_lo
    have hheld := hout r.span (List.mem_map_of_mem ((Table.mem_toList hranges).2 hr))
    rw [hspan, hin] at hheld
    cases hheld
  rw [hfree, hnone]

end Warehouse

namespace Engine

variable {e e' : Engine} {stamp : Stamp} {user : Option String} {id : Identifier} {s : Supernet} {limits : Limits}

/-! ## When a supernet is stocked -/

/-- A supernet that is current can be covered just when its space is vacant, with an identifier that is new. -/
theorem coverable_iff_vacant (h : e.Sound) (hc : e.Current) (hs : s ∈ e.supernets) (hfresh : stamp.Fresh e.v4.store.table 1)
    {asn : Asn} : e.Coverable stamp asn s ↔ e.v4.store.Vacant s.span := by
  have hshaped := h.supernets_shaped s hs
  obtain ⟨hid, hspan, -⟩ := s.row_cover asn stamp
  have hapart : ∀ o : Range .v4, Row.Apart o ((s.cover asn).row stamp) ↔
      o.id ≠ stamp.rowId 0 ∧ o.span.meets s.span = false := by
    intro o
    rw [← hid, ← hspan]
    exact Iff.rfl
  constructor
  · exact fun hcover o ho => ((hapart o).1 (hcover.apart o ho)).2
  · intro hvacant
    refine ⟨?_, hshaped, fun o ho => (hapart o).2 ⟨hfresh.id_ne Nat.one_pos ho, hvacant o ho⟩⟩
    exact ((hc s hs).accurate h.v4.valid hshaped).outOfWarehouse.2 (Warehouse.within_of_vacant h.v4.valid hvacant)

/-- The supernet has been stocked. There is one range more, which waits over the supernet under its AS and with its remark, and
one record more, which tells of it. The supernet is in the warehouse, with none of its addresses used or free, and nothing else
has changed but the AS registry. -/
structure Covered (stamp : Stamp) (user : Option String) (e : Engine) (s : Supernet) (out : Supernet × Range .v4) (e' : Engine) :
    Prop where
  span : out.2.span = s.span
  waits : out.2.status = .wait ∧ out.2.org = none
  adminRemark : out.2.adminRemark = s.remark
  asn : out.2.asn.number = s.asn
  ranges : e.v4.store.table.Swapped [] [out.2] e'.v4.store.table
  records : e'.v4.journal.records = e.v4.journal.records ++ [⟨stamp.recordId, .add s.span, user, "", stamp.now⟩]
  supernet : out.1 = { s with rollup := .inWarehouse, used := 0 }
  supernets : e.supernets.Swapped [s] [out.1] e'.supernets
  free : Warehouse.free e'.v4.store e'.supernets s.id = .ok []
  elsewhere : e' = { e with v4 := e'.v4, supernets := e'.supernets, registry := (e.registry.register s.asn).2 }

/-- A range over a vacant supernet, with the supernets following, stocks it. -/
theorem covered_of_became (h : e.Sound) (hc : e.Current) (hk : e.registry.Keyed) (hopen : e.v4.journal.closed = false)
    (hs : s ∈ e.supernets) (hvacant : e.v4.store.Vacant s.span) {q : Pool .v4}
    (hb : Pool.Became stamp user e.v4 (some (.add s.span)) [] [(s.cover (e.registry.register s.asn).1).row stamp] q) :
    Covered stamp user e s ({ s with rollup := .inWarehouse, used := 0 }, (s.cover (e.registry.register s.asn).1).row stamp)
      { followed .v4 e q [s.span] with registry := (e.registry.register s.asn).2 } := by
  obtain ⟨-, hspan, hwaits, hremark, hasn⟩ := s.row_cover (e.registry.register s.asn).1 stamp
  generalize (s.cover (e.registry.register s.asn).1).row stamp = r at hb hspan hwaits hremark hasn ⊢
  have hshaped := h.supernets_shaped s hs
  have hnumber : r.asn.number = s.asn := by rw [hasn, hk.number_eq]
  have hrolled : Warehouse.rolledUp q.store s = { s with rollup := .inWarehouse, used := 0 } :=
    Warehouse.rolledUp_of_covered (hc s hs) hshaped h.v4.valid hvacant hspan hwaits.1 hb.table
  have hsupernets := Warehouse.refresh_span q.store h.supernets hs
  rw [hrolled] at hsupernets
  have hrecords : q.journal.records = e.v4.journal.records ++ [⟨stamp.recordId, .add s.span, user, "", stamp.now⟩] := by
    rw [hb.journal, Journal.records_enter, Journal.entry, hopen]
    rfl
  have hfree := Warehouse.free_of_covered (hsupernets.new_mem (List.mem_singleton.2 rfl)) hshaped hb.table.valid
    (hb.table.new_mem (List.mem_singleton.2 rfl)) hspan
  exact ⟨hspan, hwaits, hremark, hnumber, hb.table, hrecords, rfl, hsupernets, hfree, rfl⟩

/-- Stocking decides exactly: it covers a supernet whose space is vacant, and fails where there is no such supernet. -/
theorem stock_decides (h : e.Sound) (hc : e.Current) (hk : e.registry.Keyed) (hopen : e.v4.journal.closed = false)
    (hfresh : stamp.Fresh e.v4.store.table 1) (user : Option String) (id : Identifier) :
    (stock stamp id user).Ends e
      (fun out e' => ∃ s ∈ e.supernets, s.id = id ∧ e.v4.store.Vacant s.span ∧ Covered stamp user e s out e')
      (fun _ _ => ¬∃ s ∈ e.supernets, s.id = id ∧ e.v4.store.Vacant s.span) := by
  refine (stock_exact h id).imp ?_ ?_
  · rintro ⟨s', r⟩ e' ⟨s, hs, hid, asn, registry, hregister, hcover, rfl, hfound, q, hb, rfl⟩
    have hvacant := (coverable_iff_vacant h hc hs hfresh).1 hcover
    have hstep : Pool.Step stamp user e.v4 [s.span] q := ⟨_, _, _, .added (s.cover asn), hb⟩
    rw [hc.refreshIds_followed h hstep] at hfound ⊢
    obtain ⟨rfl, rfl⟩ : (e.registry.register s.asn).1 = asn ∧ (e.registry.register s.asn).2 = registry := by
      rw [hregister]
      exact ⟨rfl, rfl⟩
    have hcovered := covered_of_became h hc hk hopen hs hvacant hb
    -- the supernet that is found again is the one that has just been put in
    have hout : s' = { s with rollup := .inWarehouse, used := 0 } := by
      obtain ⟨hmem, hid'⟩ := hcovered.supernets.valid.get?_eq_some_iff.1 hfound
      exact Table.eq_of_id hmem (hcovered.supernets.new_mem (List.mem_singleton.2 rfl)) (hid'.trans hid.symm)
    exact ⟨s, hs, hid, hvacant, hout ▸ hcovered⟩
  · rintro f e' hfail ⟨s, hs, hid, hvacant⟩
    rcases hfail with ⟨-, hnone⟩ | ⟨s', hs', hid', asn, registry, -, hbad, -⟩
    · exact hnone s hs hid
    · obtain rfl := Table.eq_of_id hs hs' (hid.trans hid'.symm)
      exact hbad ((coverable_iff_vacant h hc hs hfresh).2 hvacant)

/-- In every engine that ordinary operations lead to from an empty one, and with an identifier that is new to its ranges, a
supernet is stocked just when it is stored and no range meets it, whether inside it or not. It is then covered by one waiting
range. -/
theorem stock_iff_vacant (hr : Reached Operation.ordinary (empty limits) e) (hfresh : stamp.Fresh e.v4.store.table 1)
    (user : Option String) (id : Identifier) :
    ((∃ out e', (stock stamp id user).run e = (.ok out, e')) ↔ ∃ s ∈ e.supernets, s.id = id ∧ e.v4.store.Vacant s.span) ∧
      ∀ out e', (stock stamp id user).run e = (.ok out, e') → ∃ s ∈ e.supernets, s.id = id ∧ Covered stamp user e s out e' := by
  have hends := stock_decides (reached_ordinary_sound hr) (reached_current hr) (reached_keyed hr).registry
    (reached_journaled hr .v4).opened hfresh user id
  refine ⟨⟨?_, fun hvacant => ?_⟩, fun out e' hrun => ?_⟩
  · rintro ⟨out, e', hrun⟩
    obtain ⟨s, hs, hid, hvacant, -⟩ := hends.ok_of_run hrun
    exact ⟨s, hs, hid, hvacant⟩
  · obtain ⟨out, e', hrun, -⟩ := (hends.imp (fun _ _ ht => ht) fun _ _ hf => hf hvacant).exists_run
    exact ⟨out, e', hrun⟩
  · obtain ⟨s, hs, hid, -, hcovered⟩ := hends.ok_of_run hrun
    exact ⟨s, hs, hid, hcovered⟩

/-- A supernet in an engine with no ranges is stocked. Under a range that reaches beyond it on both sides it still says that no
range lies inside it, and is not stocked. -/
theorem stock_iff_vacant_enclosed :
    let network (first last : Nat) (plen : UInt8) : Span .v4 := ⟨.ofBits .v4 first, .ofBits .v4 last, plen⟩
    let supernet := Operation.createSupernet (.counting 1) ⟨⟨some (.ofBits .v4 256), some (.ofBits .v4 511), 24⟩, 64512, ""⟩ ""
    let new : NewRange .v4 := ⟨"lab", network 0 1023 22, ⟨1, 64512, "AS64512"⟩, "", ""⟩
    let bare := Operation.afterAll [supernet] (empty .standard)
    let held := Operation.afterAll [supernet, .onRanges .v4 (.counting 16) none (.create new)] (empty .standard)
    (∃ out e', (stock (.counting 32) (.ofBits 1) none).run bare = (.ok out, e')) ∧
      (held.supernets.toList.map (·.rollup)) = [.outOfWarehouse] ∧
      ¬∃ out e', (stock (.counting 32) (.ofBits 1) none).run held = (.ok out, e') := by
  intro network supernet new bare held
  have hbare : Reached Operation.ordinary (empty .standard) bare := reached_afterAll _ rfl
  have hheld : Reached Operation.ordinary (empty .standard) held := reached_afterAll _ rfl
  refine ⟨(stock_iff_vacant hbare ⟨by decide, by decide +kernel⟩ none _).1.2 ?_, by decide +kernel, fun hstocked => ?_⟩
  · have hempty : bare.v4.store = .empty := by decide +kernel
    have hthere : (bare.supernets.get? (.ofBits 1)).isSome = true := by decide +kernel
    obtain ⟨s, hs⟩ := Option.isSome_iff_exists.1 hthere
    obtain ⟨hmem, hid⟩ := (reached_ordinary_sound hbare).supernets.get?_eq_some_iff.1 hs
    exact ⟨s, hmem, hid, hempty ▸ fun _ hr => nomatch hr⟩
  · obtain ⟨s, hs, hid, hvacant⟩ := (stock_iff_vacant hheld ⟨by decide, by decide +kernel⟩ none _).1.1 hstocked
    have hget : (held.supernets.get? (.ofBits 1)).map Supernet.span = some (network 256 511 24) := by decide +kernel
    have hmem : new.row (.counting 16) ∈ held.v4.store.table := by
      rw [Table.mem_def]
      decide +kernel
    have hfound : held.supernets.get? (.ofBits 1) = some s := hid ▸ Table.mem_def.1 hs
    have hspan : s.span = network 256 511 24 := by
      rw [hfound] at hget
      exact Option.some.inj hget
    have hapart := hvacant _ hmem
    rw [hspan] at hapart
    revert hapart
    decide +kernel

/-! ## When it is not -/

/-- In every engine that operations lead to from an empty or a restored one, a supernet that cannot be stocked has its AS number
registered all the same, and nothing else is changed, so that the snapshot is what it was just when the number has been registered
before. When there is no such supernet, nothing is changed at all. -/
theorem stock_error_registers {start : Engine}
    (hs : (∃ limits, start = empty limits) ∨ ∃ snapshot limits, restore snapshot limits = .ok start)
    (hr : Reached (fun _ => true) start e) {f : Failure} (hf : (stock stamp id user).run e = (.error f, e')) :
    (∀ s ∈ e.supernets, s.id ≠ id) ∧ e' = e ∨
      ∃ s ∈ e.supernets, s.id = id ∧ e' = { e with registry := (e.registry.register s.asn).2 } ∧
        (e'.snapshot = e.snapshot ↔ (e.registry.get? s.asn).isSome = true) := by
  have hfail := (stock_exact (reached_sound (sound_of_start hs) hr) id).fail_of_run (congrArg Prod.fst hf)
  rw [hf] at hfail
  rcases hfail with ⟨rfl, hnone⟩ | ⟨s, hs, hid, asn, registry, hregister, -, rfl⟩
  · exact .inl ⟨hnone, rfl⟩
  · obtain rfl : (e.registry.register s.asn).2 = registry := congrArg Prod.snd hregister
    refine .inr ⟨s, hs, hid, rfl, fun hsame => ?_, fun hthere => ?_⟩
    · have hvalues : (e.registry.register s.asn).2.values = e.registry.values := congrArg Snapshot.asns hsame
      refine Option.isSome_iff_ne_none.2 fun hnone => ?_
      exact Registry.values_register_ne hnone hvalues
    · rw [Registry.register_of_isSome hthere]

/-- A supernet with two ranges in it is not stocked, and its AS number is registered then. -/
theorem stock_error_registers_sample :
    let e := Operation.afterAll Operation.sample (empty .standard)
    let run := (stock (.counting 32) (.ofBits 1) none).run e
    run.1 = .error (.notOutOfWarehouse ⟨.ofBits .v4 0, .ofBits .v4 1023, 22⟩ .divided) ∧
      ∃ s ∈ e.supernets, s.id = .ofBits 1 ∧ run.2 = { e with registry := (e.registry.register s.asn).2 } ∧
        (run.2.snapshot = e.snapshot ↔ (e.registry.get? s.asn).isSome = true) := by
  intro e run
  have hf : run.1 = .error (.notOutOfWarehouse ⟨.ofBits .v4 0, .ofBits .v4 1023, 22⟩ .divided) := by decide +kernel
  have hchanged : run.2 ≠ e := by decide +kernel
  refine ⟨hf, ?_⟩
  rcases stock_error_registers (.inl ⟨.standard, rfl⟩) (reached_afterAll _ rfl) (Prod.ext hf rfl) with ⟨-, hsame⟩ | hregisters
  · exact absurd hsame hchanged
  · exact hregisters

/-- Stocking that fails does not always leave the snapshot as it was. -/
theorem stock_error_not_always_unchanged :
    ¬∀ (e : Engine) (stamp : Stamp) (id : Identifier) (user : Option String) (f : Failure),
      Reached Operation.ordinary (empty .standard) e → ((stock stamp id user).run e).1 = .error f →
        ((stock stamp id user).run e).2.snapshot = e.snapshot := by
  intro h
  have hsame := h (Operation.afterAll Operation.sample (empty .standard)) (.counting 32) (.ofBits 1) none
    (.notOutOfWarehouse ⟨.ofBits .v4 0, .ofBits .v4 1023, 22⟩ .divided) (reached_afterAll _ rfl) (by decide +kernel)
  revert hsame
  decide +kernel

end Engine

end AddressSpace
