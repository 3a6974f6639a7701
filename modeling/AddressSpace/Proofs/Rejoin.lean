import AddressSpace.Proofs.Engine.Coherent
import AddressSpace.Proofs.Pool.Results
import AddressSpace.Proofs.Span.Partition
/-!
# A merge undoes a split

The parts that a range has been split into stand in the network that the range stood in, follow each other without a gap and have
everything in common that members of a merge must have in common (`checkMembers_parts`). Named in any order they become the range
that they were, apart from its name, remarks and times (`merge_undoes_split`). A merge drops the consumer of a waiting range, which
only a row written past the pools can have (`merge_undoes_split_but_for_consumers`).
-/

namespace AddressSpace

open AddressSpace.Action

variable {F : Family}

namespace Pool

variable {source : Range F} {spans : List (Span F)} {now : Instant} {rowId : Nat → Identifier}

/-! ## Parts as members -/

/-- The parts of a range stand in ascending order. -/
theorem ascending_parts
    (htile : Interval.Tiles source.span.start.bits (source.span.stop.bits + 1) (spans.map Span.interval)) :
    (parts source now rowId spans).Pairwise fun r s => r.span.interval.last < s.span.interval.first := by
  have hspans : ((parts source now rowId spans).map (·.span)).Pairwise fun x y => x.interval.last < y.interval.first := by
    rw [map_span_parts]
    exact List.pairwise_map.1 htile.pairwise
  exact List.pairwise_map.1 hspans

/-- Two parts of a range, one right after the other, can become one in the network of the range. -/
theorem neighbours_parts (hs : source.span.Shaped)
    (htile : Interval.Tiles source.span.start.bits (source.span.stop.bits + 1) (spans.map Span.interval)) :
    (parts source now rowId spans).IsChain (Neighbours source.span.plen) := by
  have hnetwork : ∀ x ∈ spans, source.span.start.cut source.span.plen.toNat = x.start.cut source.span.plen.toNat := by
    intro x hx
    obtain ⟨hfirst, hle, hlast⟩ := htile.bounds (List.mem_map_of_mem hx)
    exact hs.cut_eq_of_between hfirst (Nat.le_of_lt_succ (Nat.lt_of_le_of_lt hle hlast))
  have hchain := Span.chain_of_tiles htile
  rw [← map_span_parts source now rowId spans, List.isChain_map] at hchain
  refine hchain.imp_of_mem_imp fun a b ha hb hnext => ?_
  obtain ⟨haspan, hastatus, haasn, haorg, -⟩ := mem_parts ha
  obtain ⟨hbspan, hbstatus, hbasn, hborg, -⟩ := mem_parts hb
  exact {
    status := hastatus.trans hbstatus.symm
    asn := by rw [haasn, hbasn]
    org := fun _ => haorg.trans hborg.symm
    next := hnext
    network := Address.sameNetwork_iff.2 ((hnetwork _ haspan).symm.trans (hnetwork _ hbspan)) }

/-- Parts of a range that is not assigned are accepted as members of a range of its length. -/
theorem checkMembers_parts (hs : source.span.Shaped) (hm : source.status.mutable = true) (hpart : source.span.Partition spans) :
    checkMembers source.span.plen (parts source now rowId spans) = .ok () := by
  refine checkMembers_eq_ok_iff.2 ⟨fun r hr => ?_, neighbours_parts hs hpart.tiles⟩
  obtain ⟨hspan, hstatus, -⟩ := mem_parts hr
  exact ⟨hstatus ▸ hm, hpart.finer _ hspan⟩

/-- The stored parts of a range, named in any order, become a range with its bounds, its length, its status and its AS number, and
with its consumer if it is reserved. -/
theorem mergeOutcome_parts {q : Pool F} {ids : List Identifier} (stamp : Stamp) (h : q.store.AtRest) (hs : source.span.Shaped)
    (hm : source.status.mutable = true) (hplen : source.span.plen ≠ 0) (hpart : source.span.Partition spans)
    (hlonger : ∀ x ∈ spans, x.plen ≠ source.span.plen) (hstored : ∀ r ∈ parts source now rowId spans, r ∈ q.store.table)
    (hcount : spans.length ≤ q.limits.mergeMembers.toNat) (hids : ids.Perm ((parts source now rowId spans).map (·.id))) :
    ∃ m, q.mergeOutcome stamp ids source.span.plen = .ok (parts source now rowId spans, .merged m) ∧
      m.span = source.span ∧ m.status = source.status ∧ m.asn = source.asn ∧
      m.org = if source.status = .reserved then source.org else none := by
  have hlength : ids.length = spans.length := by rw [hids.length_eq, List.length_map, length_parts]
  have hne : spans ≠ [] := hpart.ne_nil hs.start_le
  have hrequest : checkMergeRequest (F := F) q.limits ids source.span.plen = .ok () := by
    unfold checkMergeRequest
    simp only [refuse_bind_eq_ok_iff, refuse_eq_ok_iff, not_or, hlength, Nat.not_lt]
    refine ⟨fun hnil => hne (List.length_eq_zero_iff.1 (hlength ▸ ?_)), hcount, hplen, hs.plen_le⟩
    rw [List.isEmpty_iff.1 hnil, List.length_nil]
  have hparts : parts source now rowId spans ≠ [] := by
    rwa [← List.length_pos_iff, length_parts, List.length_pos_iff]
  obtain ⟨first, hf⟩ : ∃ first, (parts source now rowId spans).head? = some first := ⟨_, List.head?_eq_some_head hparts⟩
  obtain ⟨last, hl⟩ : ∃ last, (parts source now rowId spans).getLast? = some last := ⟨_, List.getLast?_eq_some_getLast hparts⟩
  obtain ⟨hfspan, hfstatus, hfasn, hforg, -⟩ := mem_parts (List.mem_of_head? hf)
  have hfspans : spans.head? = some first.span := by
    rw [← map_span_parts source now rowId spans, List.head?_map, hf]
    rfl
  have hlspans : spans.getLast? = some last.span := by
    rw [← map_span_parts source now rowId spans, List.getLast?_map, hl]
    rfl
  obtain ⟨hstart, hstop⟩ := Span.ends_of_tiles hpart.tiles hfspans hlspans
  refine ⟨mergedRange stamp.now (stamp.rowId 0) source.span.plen first last, ?_, ?_, ?_, ?_, ?_⟩
  · exact mergeOutcome_of_members h hstored (ascending_parts hpart.tiles) hids hrequest hf hl (checkMembers_parts hs hm hpart)
      fun hone => hlonger _ hfspan hone.2
  · rw [mergedRange_span, hstart, hstop]
  · rw [mergedRange_status, hfstatus]
  · rw [mergedRange_asn, hfasn]
  · rw [mergedRange_org, hfstatus, hforg]

/-- The subnets of an accepted uniform plan are a partition of the source, are all longer, and are no more than the limit allows. -/
theorem partition_of_uniformPlan {limits : Limits} {target : UInt8} (hs : source.span.Shaped)
    (hplan : uniformPlan limits source target = .ok spans) :
    source.span.Partition spans ∧ (∀ x ∈ spans, x.plen ≠ source.span.plen) ∧ spans.length ≤ 1 <<< limits.splitDepth.toNat := by
  obtain ⟨-, hlonger, hwidth, hdepth, hle, rfl⟩ := uniformPlan_eq_ok_iff.1 hplan
  refine ⟨Span.partition_pieces hle (UInt8.le_of_lt hlonger) hwidth, fun x hx he => ?_, ?_⟩
  · rw [← Span.plen_of_mem_pieces hx, he] at hlonger
    exact UInt8.lt_irrefl _ hlonger
  · have hlength := Span.length_pieces_le hs (UInt8.le_iff_toNat_le.1 (UInt8.le_of_lt hlonger)) hwidth
    rw [UInt8.le_iff_toNat_le, UInt8.toNat_sub_of_le _ _ (UInt8.le_of_lt hlonger)] at hdepth
    exact Nat.le_trans hlength (Mask.size_le_size hdepth)

end Pool

namespace Engine

variable {e e' : Engine} {limits : Limits} {stamp stamp' : Stamp} {user user' : Option String} {target : UInt8}

/-- What a split that has succeeded has made of the pool. -/
theorem pool_of_split (h : (e.pool F).store.AtRest) {r : Range F} (hmem : r ∈ (e.pool F).store.table) {rows : List (Range F)}
    (hsplit : (split F stamp r.id target user).run e = (.ok rows, e')) :
    ∃ spans, Pool.uniformPlan (e.pool F).limits r target = .ok spans ∧ rows = Pool.parts r stamp.now stamp.rowId spans ∧
      Pool.Became stamp user (e.pool F) (some (.split r.span spans)) [r] rows (e'.pool F) := by
  have hends : (split F stamp r.id target user).Ends e
      (fun rows e' => ∃ spans, Pool.uniformPlan (e.pool F).limits r target = .ok spans ∧
        rows = Pool.parts r stamp.now stamp.rowId spans ∧
        Pool.Became stamp user (e.pool F) (some (.split r.span spans)) [r] rows (e'.pool F)) fun _ _ => True := by
    refine (ends_manage _).2 ((Pool.split_exact h r.id target).imp ?_ fun _ _ _ => trivial)
    rintro out q ⟨source, hsource, hid, spans, hplan, rfl, hb⟩
    obtain rfl := Table.eq_of_id hsource hmem hid
    rw [Pool.map_named_parts] at hb ⊢
    rw [followed, rangesChanged_pool, pool_withPool]
    exact ⟨spans, hplan, rfl, hb⟩
  exact hends.ok_of_run hsplit

/-- In every engine that operations lead to from an empty one under limits that let a merge have as many members as a split can
have parts: when a range with a length other than zero has been split into its subnets of one length, the merge of these under the
length of the range, named in any order and with a new identifier, succeeds. The range that it gives has the bounds, length, status
and AS of the one that was split, its consumer if it was reserved, and none if it waited, which makes no difference unless its row
was written past the pools. All other ranges are those that there were before the split. -/
theorem merge_undoes_split (hr : Reached (fun _ => true) (empty limits) e)
    (hlimits : 1 <<< limits.splitDepth.toNat ≤ limits.mergeMembers.toNat) {r : Range F} (hmem : r ∈ (e.pool F).store.table)
    (hplen : r.span.plen ≠ 0) {rows : List (Range F)} (hsplit : (split F stamp r.id target user).run e = (.ok rows, e'))
    {ids : List Identifier} (hids : ids.Perm (rows.map (·.id))) (hfresh : stamp'.Fresh (e'.pool F).store.table 1) :
    ∃ m e'', (merge F stamp' ids r.span.plen user').run e' = (.ok m, e'') ∧
      m.span = r.span ∧ m.status = r.status ∧ m.asn = r.asn ∧ m.org = (if r.status = .reserved then r.org else none) ∧
      (Reached Operation.managed (empty limits) e → m.org = r.org) ∧
      ∀ s, s ∈ (e''.pool F).store.table ↔ s = m ∨ s ∈ (e.pool F).store.table ∧ s ≠ r := by
  have hsound := (reached_sound (sound_empty limits) hr).pool F
  have hlimits' : (e.pool F).limits = limits := by
    rw [reached_limits (sound_empty limits) hr F]
    cases F <;> rfl
  obtain ⟨spans, hplan, rfl, hb⟩ := pool_of_split hsound.toAtRest hmem hsplit
  rw [hlimits'] at hplan
  obtain ⟨hmutable, -⟩ := Pool.uniformPlan_eq_ok_iff.1 hplan
  obtain ⟨hpart, hlonger, hcount⟩ := Pool.partition_of_uniformPlan (hsound.shaped r hmem) hplan
  have hshaped : ∀ s ∈ (e'.pool F).store.table, s.span.Shaped := hb.table.all hsound.shaped hb.shaped
  have hmembers : spans.length ≤ (e'.pool F).limits.mergeMembers.toNat := by
    rw [hb.limits, hlimits']
    exact Nat.le_trans hcount hlimits
  -- the parts are stored, so that it is decided what they become, and the merge does as decided
  obtain ⟨m, hout, hspan, hstatus, hasn, horg⟩ := Pool.mergeOutcome_parts stamp' hb.atRest (hsound.shaped r hmem) hmutable
    hplen hpart hlonger (fun s hs => hb.table.new_mem hs) hmembers hids
  have hmerge : (merge F stamp' ids r.span.plen user').Ends e'
      (fun m' e'' => m' = m ∧ (e'.pool F).store.table.Swapped (Pool.parts r stamp.now stamp.rowId spans) [m] (e''.pool F).store.table)
      fun _ _ => False := by
    refine (ends_manage _).2 ((Pool.merge_ends_outcome hb.atRest hshaped hfresh ids r.span.plen).imp ?_ ?_)
    · rintro out q ⟨rows, ⟨hout', -⟩ | ⟨hout', hsw⟩⟩
      · rw [hout] at hout'
        cases hout'
      · rw [hout] at hout'
        cases hout'
        rw [followed, rangesChanged_pool, pool_withPool]
        exact ⟨rfl, hsw⟩
    · rintro f q hf
      rw [hout] at hf
      cases hf
  obtain ⟨m', e'', hrun, rfl, hsw⟩ := hmerge.exists_run
  refine ⟨m', e'', hrun, hspan, hstatus, hasn, horg, fun hmanaged => ?_, fun s => ?_⟩
  · have hcoherent : r.Coherent := (coherent_empty limits).of_run (sound_empty limits) hmanaged F r hmem
    rw [horg, hcoherent.org_of_mutable hmutable]
  · rw [(hb.table.trans hsw).mem_iff, List.mem_singleton, List.mem_singleton, or_comm]

/-- A reserved network of length 24 is split into two of length 25, and these are merged in the opposite order. -/
theorem merge_undoes_split_sample :
    let e := Operation.afterAll Operation.sample (empty .standard)
    let e' := ((split .v4 (.counting 32) (.ofBits 17) 25 none).run e).2
    ∃ r ∈ (e.pool .v4).store.table, r.status = .reserved ∧ (e'.pool .v4).store.toList.length = 3 ∧
      ∃ m e'', (merge .v4 (.counting 64) [.ofBits 33, .ofBits 32] r.span.plen none).run e' = (.ok m, e'') ∧
        m.span = r.span ∧ m.status = r.status ∧ m.asn = r.asn ∧ m.org = r.org ∧
        ∀ s, s ∈ (e''.pool .v4).store.table ↔ s = m ∨ s ∈ (e.pool .v4).store.table ∧ s ≠ r := by
  intro e e'
  have hreached : Reached (fun _ => true) (empty .standard) e := reached_afterAll _ rfl
  have hmanaged : Reached Operation.managed (empty .standard) e := reached_afterAll _ rfl
  let r : Range .v4 := ((e.pool .v4).store.table.get? (.ofBits 17)).get (by decide +kernel)
  have hmem : r ∈ (e.pool .v4).store.table := by
    rw [Table.mem_def]
    decide +kernel
  have hid : r.id = .ofBits 17 := by decide +kernel
  have hids : ((split .v4 (.counting 32) (.ofBits 17) 25 none).run e).1.map (·.map (·.id)) = .ok [.ofBits 32, .ofBits 33] := by
    decide +kernel
  cases hrows : ((split .v4 (.counting 32) (.ofBits 17) 25 none).run e).1 with
  | error f =>
    rw [hrows] at hids
    cases hids
  | ok rows =>
    rw [hrows] at hids
    replace hids : rows.map (·.id) = [.ofBits 32, .ofBits 33] := Except.ok.inj hids
    have hsplit : (split .v4 (.counting 32) r.id 25 none).run e = (.ok rows, e') := hid ▸ Action.run_eq_ok hrows
    have hperm : [Identifier.ofBits 33, .ofBits 32].Perm (rows.map (·.id)) := hids ▸ List.Perm.swap ..
    have hfresh : (Stamp.counting 64).Fresh (e'.pool .v4).store.table 1 := ⟨by decide, by decide +kernel⟩
    obtain ⟨m, e'', hmerge, hspan, hstatus, hasn, -, horg, hrest⟩ :=
      merge_undoes_split hreached (by decide) hmem (by decide +kernel) hsplit hperm hfresh
    exact ⟨r, hmem, by decide +kernel, by decide +kernel, m, e'', hmerge, hspan, hstatus, hasn, horg hmanaged, hrest⟩

/-- A waiting row with a consumer, which has been written past the pools, loses its consumer when it is split and merged. -/
theorem merge_undoes_split_but_for_consumers :
    ¬∀ (F : Family) (limits : Limits) (e : Engine), Reached (fun _ => true) (empty limits) e →
      1 <<< limits.splitDepth.toNat ≤ limits.mergeMembers.toNat →
      ∀ r ∈ (e.pool F).store.table, (r.status = .wait ∨ r.status = .reserved) → r.span.plen ≠ 0 →
      ∀ stamp target user rows e', (split F stamp r.id target user).run e = (.ok rows, e') →
      ∀ ids : List Identifier, ids.Perm (rows.map (·.id)) →
      ∀ stamp' : Stamp, stamp'.Fresh (e'.pool F).store.table 1 → ∀ user',
        ∃ m e'', (merge F stamp' ids r.span.plen user').run e' = (.ok m, e'') ∧
          m.span = r.span ∧ m.status = r.status ∧ m.asn = r.asn ∧ m.org = r.org ∧
          ∀ s, s ∈ (e''.pool F).store.table ↔ s = m ∨ s ∈ (e.pool F).store.table ∧ s ≠ r := by
  intro h
  let r : Range .v4 := { Range.build (.ofBits 16) "" ⟨.ofBits .v4 256, .ofBits .v4 383, 24⟩ ⟨1, 64512, "AS64512"⟩ default with
    org := some ⟨"object", "org"⟩ }
  let e := (Operation.transact .v4 [] [] [r]).after (empty .standard)
  let e' := ((split .v4 (.counting 32) r.id 25 none).run e).2
  have hreached : Reached (fun _ => true) (empty .standard) e := .step _ .start rfl
  have hmem : r ∈ (e.pool .v4).store.table := by
    rw [Table.mem_def]
    decide +kernel
  have hids : ((split .v4 (.counting 32) r.id 25 none).run e).1.map (·.map (·.id)) = .ok [.ofBits 32] := by decide +kernel
  have hfresh : (Stamp.counting 64).Fresh (e'.pool .v4).store.table 1 := ⟨by decide, by decide +kernel⟩
  have hlost : ((merge .v4 (.counting 64) [.ofBits 32] r.span.plen none).run e').1.map (·.org) = .ok none := by decide +kernel
  cases hrows : ((split .v4 (.counting 32) r.id 25 none).run e).1 with
  | error f =>
    rw [hrows] at hids
    cases hids
  | ok rows =>
    rw [hrows] at hids
    replace hids : rows.map (·.id) = [.ofBits 32] := Except.ok.inj hids
    obtain ⟨m, e'', hmerge, -, -, -, horg, -⟩ := h .v4 .standard e hreached (by decide) r hmem (.inl rfl) (by decide)
      (.counting 32) 25 none rows e' (Action.run_eq_ok hrows) [.ofBits 32] (hids ▸ .refl _) (.counting 64) hfresh none
    rw [hmerge] at hlost
    exact absurd (horg.symm.trans (Except.ok.inj hlost)) (by decide)

end Engine

end AddressSpace
