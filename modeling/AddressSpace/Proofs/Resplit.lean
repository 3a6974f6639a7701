import AddressSpace.Proofs.Mergeable
import AddressSpace.Proofs.Paired
import AddressSpace.Proofs.Pool.Uniform
import AddressSpace.Proofs.Rejoin
/-!
# A split undoes a merge

Members of one length that stand in different networks of it are the subnets of what they are merged into, for the merge accepts
them only without a gap in between, so that none but the first may start inside its network and none but the last may end inside it
(`Pool.mergedInto_of_outcome`). Split into that length again, the merged range gives rows in the places of its members, and all other
rows of the table are those that there were before the merge (`split_undoes_merge`). What waits has no consumer after that, which
makes a difference only for rows that have been written past the pools (`split_undoes_merge_but_for_consumers`).
-/

namespace AddressSpace

open AddressSpace.Action

variable {F : Family}

/-- The row `s` takes the place of `r`: it has the same bounds, length, status and AS number, and the same consumer if `r` is
reserved. -/
structure Range.Regains (r s : Range F) : Prop where
  span : s.span = r.span
  status : s.status = r.status
  asn : s.asn.number = r.asn.number
  org : s.org = if r.status = .reserved then r.org else none

namespace Pool

variable {p : Pool F} {stamp : Stamp} {ids : List Identifier} {source target : UInt8} {rows : List (Range F)} {m : Range F}

/-- Rows of one length stand in different networks of it. -/
structure Spread (source : UInt8) (rows : List (Range F)) : Prop where
  plen : ∀ r ∈ rows, r.span.plen = source
  apart : ∀ r ∈ rows, ∀ s ∈ rows, r.span.start.sameNetwork s.span.start source.toNat = true → r = s

/-- Rows become one of the length `target` that can be split, and whose subnets of the length `source` they are. -/
structure MergedInto (source target : UInt8) (rows : List (Range F)) (m : Range F) : Prop where
  spans : rows.map (·.span) = m.span.pieces source
  plen : m.span.plen = target
  source_le : source.toNat ≤ F.width
  status : m.status = .wait ∨ m.status = .reserved
  shared : ∀ r ∈ rows, m.status = r.status ∧ m.asn.number = r.asn.number ∧
    m.org = if r.status = .reserved then r.org else none

/-- Merging rows of one length that stand in different networks of it gives a range whose subnets of that length they are. -/
theorem mergedInto_of_outcome (h : p.store.AtRest) (hshaped : ∀ r ∈ p.store.table, r.span.Shaped)
    (hspread : Spread source (p.members ids)) (ho : p.mergeOutcome stamp ids target = .ok (rows, .merged m)) :
    MergedInto source target (p.members ids) m := by
  obtain ⟨rfl, hm⟩ := rows_of_mergeOutcome h ho
  obtain ⟨first, last, hf, hl, hc, ⟨he, -⟩ | ⟨he, -⟩⟩ := merger_eq_ok hm
  · cases he
  cases he
  have hshaped' : ∀ r ∈ p.members ids, r.span.Shaped := fun r hr => hshaped r ((mem_members h).1 hr).1
  have hordered : ∀ r ∈ p.members ids, r.span.start ≤ r.span.stop := fun r hr => (hshaped' r hr).start_le
  have hfirst : first ∈ p.members ids := List.mem_of_head? hf
  obtain ⟨hall, hchain⟩ := checkMembers_eq_ok_iff.1 hc
  have htile := tiles_of_members hf hl hordered hchain
  have hbounds := bounds_of_members hf hl hordered (ascending_members h ids) hfirst
  have hsource : source.toNat ≤ F.width := hspread.plen first hfirst ▸ (hshaped' first hfirst).plen_le
  refine ⟨?_, by rw [mergedRange_span], hsource, ?_, fun r hr => ?_⟩
  · rw [mergedRange_span]
    refine Span.eq_pieces_of_tiles (Nat.le_trans (hordered first hfirst) hbounds.2) hsource htile ?_ ?_ ?_
    · exact List.forall_mem_map.2 hspread.plen
    · exact List.forall_mem_map.2 hshaped'
    · refine List.forall_mem_map.2 fun r hr => List.forall_mem_map.2 fun s hs hsame => ?_
      rw [hspread.apart r hr s hs hsame]
  · rw [mergedRange_status]
    exact mutable_iff.1 (hall first hfirst).1
  · obtain ⟨rest, hrest⟩ := List.head?_eq_some_iff.1 hf
    rw [hrest] at hchain hr
    obtain ⟨hstatus, hasn, horg⟩ := alike hchain r hr
    rw [mergedRange_status, mergedRange_asn, mergedRange_org, hstatus]
    exact ⟨rfl, hasn.symm, ite_congr rfl (fun hres => (horg hres).symm) fun _ => rfl⟩

/-- The parts of such a row, split again, take the places of the rows. -/
theorem MergedInto.regains (h : MergedInto source target rows m) (now : Instant) (rowId : Nat → Identifier) :
    List.Forall₂ (fun r s => r ∈ rows ∧ s ∈ parts m now rowId (m.span.pieces source) ∧ r.Regains s) rows
      (parts m now rowId (m.span.pieces source)) := by
  have hspans : List.Forall₂ (fun r s => r.span = s.span) rows (parts m now rowId (m.span.pieces source)) :=
    map_eq_map_iff_forall₂.1 (h.spans.trans (map_span_parts ..).symm)
  rw [List.forall₂_iff_zip] at hspans ⊢
  refine ⟨hspans.1, fun {r s} hrs => ?_⟩
  obtain ⟨hr, hs⟩ := List.of_mem_zip hrs
  obtain ⟨hstatus, hasn, horg⟩ := h.shared r hr
  obtain ⟨-, hstatus', hasn', horg', -⟩ := mem_parts hs
  exact ⟨hr, hs, (hspans.2 hrs).symm, hstatus'.trans hstatus, by rw [hasn', hasn], horg'.trans horg⟩

end Pool

namespace Engine

variable {e e' : Engine} {limits : Limits} {stamp stamp' : Stamp} {user : Option String} {source target : UInt8}
  {ids : List Identifier} {m : Range F}

/-- A stored range that can be split is split when there are identifiers for its subnets. -/
theorem exists_split (h : (e.pool F).store.AtRest) (hmem : m ∈ (e.pool F).store.table)
    (hsplit : Pool.Splittable (e.pool F).limits m target)
    (hfresh : stamp.Fresh (e.pool F).store.table (m.span.pieces target).length) (user : Option String) :
    ∃ e', (split F stamp m.id target user).run e = (.ok (Pool.parts m stamp.now stamp.rowId (m.span.pieces target)), e') ∧
      (e.pool F).store.table.Swapped [m] (Pool.parts m stamp.now stamp.rowId (m.span.pieces target)) (e'.pool F).store.table := by
  have hends : (split F stamp m.id target user).Ends e (fun _ _ => True) fun _ _ => False :=
    (ends_manage _).2 ((Pool.split_succeeds h hmem hsplit hfresh).imp (fun _ _ _ => trivial) fun _ _ hf => hf)
  obtain ⟨rows, e', hrun, -⟩ := hends.exists_run
  obtain ⟨spans, hplan, rfl, hb⟩ := pool_of_split h hmem hrun
  obtain ⟨-, rfl⟩ := (Pool.uniformPlan_iff_splittable (h.valid.ordered m hmem)).1 hplan
  exact ⟨e', hrun, hb.table⟩

/-- What a merge leaves is reached. -/
theorem reached_merge {start : Engine} (hr : Reached (fun _ => true) start e)
    (hmerge : (merge F stamp ids target user).run e = (.ok m, e')) : Reached (fun _ => true) start e' := by
  have hafter : (Operation.onRanges F stamp user (.merge ids target)).after e = e' :=
    (run_discard_state ..).trans (congrArg Prod.snd hmerge)
  exact hafter ▸ hr.step _ rfl

/-- Stored rows that the checks accept, named in any order, become the row over them. -/
theorem exists_merge {first last : Range F} (h : (e.pool F).store.Sound) (hfresh : stamp.Fresh (e.pool F).store.table 1)
    (user : Option String) (hids : ids.Perm (((e.pool F).members ids).map (·.id)))
    (hrequest : Pool.checkMergeRequest (F := F) (e.pool F).limits ids target = .ok ())
    (hf : ((e.pool F).members ids).head? = some first) (hl : ((e.pool F).members ids).getLast? = some last)
    (hc : Pool.checkMembers target ((e.pool F).members ids) = .ok ())
    (hone : ¬(((e.pool F).members ids).length = 1 ∧ first.span.plen = target)) :
    ∃ e', (merge F stamp ids target user).run e = (.ok (Pool.mergedRange stamp.now (stamp.rowId 0) target first last), e') ∧
      (e.pool F).store.table.Swapped ((e.pool F).members ids)
        [Pool.mergedRange stamp.now (stamp.rowId 0) target first last] (e'.pool F).store.table := by
  have hrun := merge_run h.toAtRest h.shaped hfresh ids target user
  rw [Pool.mergeOutcome_of_members h.toAtRest (fun r hr => ((Pool.mem_members h.toAtRest).1 hr).1)
    (Pool.ascending_members h.toAtRest ids) hids hrequest hf hl hc hone] at hrun
  obtain ⟨e', hrun, hsw, -⟩ := hrun
  exact ⟨e', hrun, hsw⟩

/-- In every engine that operations lead to from an empty one: when rows that all have the length `source`, in different networks of
it, have been merged into a row of a shorter length, and the limits allow for the difference, the split of that row under `source`
with new identifiers succeeds. The rows that it gives have, in order, the bounds, lengths, statuses and AS numbers of the members,
the consumers of those that were reserved and none for those that waited, which makes no difference unless rows were written past
the pools. All other rows of the table are those that there were before the merge. -/
theorem split_undoes_merge (hr : Reached (fun _ => true) (empty limits) e) (hlonger : target < source)
    (hspread : Pool.Spread source ((e.pool F).members ids)) (hfresh : stamp.Fresh (e.pool F).store.table 1)
    (hmerge : (merge F stamp ids target user).run e = (.ok m, e'))
    (hdepth : source.toNat - target.toNat ≤ limits.splitDepth.toNat)
    (hfresh' : stamp'.Fresh (e'.pool F).store.table ((e.pool F).members ids).length) (user' : Option String) :
    ∃ rows e'', (split F stamp' m.id source user').run e' = (.ok rows, e'') ∧
      rows.Pairwise (fun r s => r.span.stop < s.span.start) ∧ List.Forall₂ Range.Regains ((e.pool F).members ids) rows ∧
      (Reached Operation.managed (empty limits) e →
        List.Forall₂ (fun r s => s.org = r.org) ((e.pool F).members ids) rows) ∧
      List.Forall₂ (fun r s => r = s ∨ r ∈ (e.pool F).members ids ∧ s ∈ rows ∧ r.Regains s) (e.pool F).store.toList
        (e''.pool F).store.toList := by
  have hr' := reached_merge hr hmerge
  have hsound := (reached_sound (sound_empty limits) hr).pool F
  have hsound' := (reached_sound (sound_empty limits) hr').pool F
  have hlimits : (e'.pool F).limits = limits := by
    rw [reached_limits (sound_empty limits) hr' F, pool_empty]
    rfl
  obtain ⟨rows, ⟨ho, -⟩ | ⟨ho, hsw, -⟩⟩ := (merge_ends hsound.toAtRest hsound.shaped hfresh ids target user).ok_of_run hmerge
  · -- a single row of the length asked for would not have the length of the members
    obtain ⟨hone, hplen⟩ := Pool.single_of_mergeOutcome hsound.toAtRest ho
    have hsource := hspread.plen m (by simp [hone])
    exact absurd (hsource.symm.trans hplen ▸ hlonger) (UInt8.lt_irrefl _)
  obtain ⟨rfl, -⟩ := Pool.rows_of_mergeOutcome hsound.toAtRest ho
  have hinto := Pool.mergedInto_of_outcome hsound.toAtRest hsound.shaped hspread ho
  have hm : m ∈ (e'.pool F).store.table := hsw.new_mem (by simp)
  have hsplit : Pool.Splittable (e'.pool F).limits m source := by
    refine ⟨hinto.status, ?_, hinto.source_le, ?_⟩
    · rw [hinto.plen]
      exact UInt8.lt_iff_toNat_lt.1 hlonger
    · rw [hinto.plen, hlimits]
      exact hdepth
  rw [← List.length_map (·.span), hinto.spans] at hfresh'
  obtain ⟨e'', hrun, hsw'⟩ := exists_split hsound'.toAtRest hm hsplit hfresh' user'
  have hregains := hinto.regains stamp'.now stamp'.rowId
  have htile := Span.pieces_tile (hsound'.valid.ordered m hm) source
  refine ⟨_, e'', hrun, Pool.ascending_parts htile, hregains.imp fun _ _ h => h.2.2, fun hmanaged => hregains.imp fun r s hrs => ?_, ?_⟩
  · obtain ⟨hr, -, hrs⟩ := hrs
    have hcoherent : r.Coherent :=
      (coherent_empty limits).of_run (sound_empty limits) hmanaged F r ((Pool.mem_members hsound.toAtRest).1 hr).1
    have hmutable : r.status.mutable = true := Pool.mutable_iff.2 ((hinto.shared r hr).1 ▸ hinto.status)
    rw [hrs.org, hcoherent.org_of_mutable hmutable]
  · refine (Table.Swapped.again hsound.valid hsw.old_mem).forall₂_toList (hsw.trans hsw') (fun _ => .inl rfl) ?_
      (hregains.imp fun _ _ => .inr)
    rintro r s (rfl | ⟨-, -, hrs⟩)
    · rfl
    · exact congrArg Span.interval hrs.span.symm

/-- Two ranges in neighbouring networks of length 25, neither of which fills its network. -/
def Operation.neighbours : List Operation :=
  let asn : Asn := ⟨1, 64512, "AS64512"⟩
  [.onRanges .v4 (.counting 16) none (.create ⟨"low", ⟨.ofBits .v4 100, .ofBits .v4 127, 25⟩, asn, "", ""⟩),
    .onRanges .v4 (.counting 17) none (.create ⟨"high", ⟨.ofBits .v4 128, .ofBits .v4 150, 25⟩, asn, "", ""⟩)]

/-- Two clipped rows, named in the other order, are merged into one, and splitting it gives both back with their consumers. -/
theorem split_undoes_merge_clipped :
    let e := Operation.afterAll Operation.neighbours (empty .standard)
    ∃ m e', (merge .v4 (.counting 32) [.ofBits 17, .ofBits 16] 24 none).run e = (.ok m, e') ∧
      ∃ rows e'', (split .v4 (.counting 64) m.id 25 none).run e' = (.ok rows, e'') ∧
        rows.map (·.span.interval) = [⟨100, 127⟩, ⟨128, 150⟩] ∧
        List.Forall₂ (fun r s => s.org = r.org) ((e.pool .v4).members [.ofBits 17, .ofBits 16]) rows := by
  intro e
  have hreached : Reached (fun _ => true) (empty .standard) e := reached_afterAll _ rfl
  have hmanaged : Reached Operation.managed (empty .standard) e := reached_afterAll _ rfl
  have hsound := (reached_sound (sound_empty .standard) hreached).pool .v4
  let members := (e.pool .v4).members [.ofBits 17, .ofBits 16]
  let first : Range .v4 := ((e.pool .v4).store.table.get? (.ofBits 16)).get (by decide +kernel)
  let last : Range .v4 := ((e.pool .v4).store.table.get? (.ofBits 17)).get (by decide +kernel)
  have hf : members.head? = some first := by decide +kernel
  have hl : members.getLast? = some last := by decide +kernel
  have hids : members.map (·.id) = [.ofBits 16, .ofBits 17] := by decide +kernel
  have hbounds : members.map (·.span.interval) = [⟨100, 127⟩, ⟨128, 150⟩] := by decide +kernel
  have hspread : Pool.Spread 25 members := ⟨by decide +kernel, by decide +kernel⟩
  have hfresh : (Stamp.counting 32).Fresh (e.pool .v4).store.table 1 := ⟨by decide, by decide +kernel⟩
  have hchecked : Pool.checkMembers 24 members = .ok () := by decide +kernel
  obtain ⟨e', hmerge, hsw⟩ := exists_merge hsound hfresh none (hids ▸ List.Perm.swap ..) (by decide +kernel) hf hl hchecked
    (by decide +kernel)
  have hold : (Stamp.counting 64).Fresh (e.pool .v4).store.table members.length := ⟨by decide +kernel, by decide +kernel⟩
  have hfresh' := hold.of_swapped hsw (by decide +kernel)
  obtain ⟨rows, e'', hsplit, -, hregains, horg, -⟩ :=
    split_undoes_merge hreached (by decide) hspread hfresh hmerge (by decide) hfresh' none
  refine ⟨_, e', hmerge, rows, e'', hsplit, ?_, horg hmanaged⟩
  rw [← hbounds]
  exact (map_eq_map_iff_forall₂.2 (hregains.imp fun _ _ hrs => congrArg Span.interval hrs.span.symm)).symm

/-- Waiting rows with a consumer, which have been written past the pools, lose it when they are merged and split. -/
theorem split_undoes_merge_but_for_consumers :
    ¬∀ (F : Family) (limits : Limits) (e : Engine), Reached (fun _ => true) (empty limits) e →
      ∀ source target : UInt8, target < source → ∀ ids : List Identifier, 2 ≤ ((e.pool F).members ids).length →
      Pool.Spread source ((e.pool F).members ids) → ∀ stamp : Stamp, stamp.Fresh (e.pool F).store.table 1 →
      ∀ user m e', (merge F stamp ids target user).run e = (.ok m, e') →
      source.toNat - target.toNat ≤ limits.splitDepth.toNat →
      ∀ stamp' : Stamp, stamp'.Fresh (e'.pool F).store.table ((e.pool F).members ids).length → ∀ user',
        ∃ rows e'', (split F stamp' m.id source user').run e' = (.ok rows, e'') ∧
          List.Forall₂ (fun r s => s.span = r.span ∧ s.status = r.status ∧ s.asn.number = r.asn.number ∧ s.org = r.org)
            ((e.pool F).members ids) rows := by
  intro h
  let row (n start stop : Nat) : Range .v4 :=
    { Range.build (.ofBits n) "" ⟨.ofBits .v4 start, .ofBits .v4 stop, 25⟩ ⟨1, 64512, "AS64512"⟩ default with
      org := some ⟨"object", "org"⟩ }
  let e := (Operation.transact .v4 [] [] [row 16 256 383, row 17 384 511]).after (empty .standard)
  have hreached : Reached (fun _ => true) (empty .standard) e := .step _ .start rfl
  have hsound := (reached_sound (sound_empty .standard) hreached).pool .v4
  let members := (e.pool .v4).members [.ofBits 16, .ofBits 17]
  have hmembers : members = [row 16 256 383, row 17 384 511] := by decide +kernel
  have hf : members.head? = some (row 16 256 383) := by rw [hmembers]; rfl
  have hl : members.getLast? = some (row 17 384 511) := by rw [hmembers]; rfl
  have hids : members.map (·.id) = [.ofBits 16, .ofBits 17] := by decide +kernel
  have hspread : Pool.Spread 25 members := ⟨by decide +kernel, by decide +kernel⟩
  have hfresh : (Stamp.counting 32).Fresh (e.pool .v4).store.table 1 := ⟨by decide, by decide +kernel⟩
  have hchecked : Pool.checkMembers 24 members = .ok () := by decide +kernel
  have hperm : [.ofBits 16, .ofBits 17].Perm (members.map (·.id)) := by rw [hids]
  obtain ⟨e', hmerge, hsw⟩ := exists_merge hsound hfresh none hperm (by decide +kernel) hf hl hchecked (by decide +kernel)
  have hsound' := (reached_sound (sound_empty .standard) (reached_merge hreached hmerge)).pool .v4
  have hold : (Stamp.counting 64).Fresh (e.pool .v4).store.table members.length := ⟨by decide +kernel, by decide +kernel⟩
  have hfresh' := hold.of_swapped hsw (by decide +kernel)
  obtain ⟨rows, e'', hsplit, hkept⟩ := h .v4 .standard e hreached 25 24 (by decide) _ (by decide +kernel) hspread (.counting 32)
    hfresh none _ e' hmerge (by decide) (.counting 64) hfresh' none
  -- the parts take over what the merged range has, and that has no consumer
  obtain ⟨spans, -, rfl, -⟩ := pool_of_split hsound'.toAtRest (hsw.new_mem (by simp)) hsplit
  obtain ⟨s, hs, -, -, -, horg⟩ := (exists_of_forall₂ hkept).1 _ (List.mem_of_head? hf)
  obtain ⟨-, -, -, hlost, -⟩ := Pool.mem_parts hs
  exact absurd (horg.symm.trans hlost) (by decide +kernel)

end Engine

end AddressSpace
