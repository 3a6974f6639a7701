import Mathlib.Data.List.Chain
import AddressSpace.Proofs.Pool.Transition
import AddressSpace.Proofs.Span.Networks
/-!
# Plans and members that are accepted

What the checks before a split and before a merge let through. A uniform plan consists of the subnets of its source
(`uniformPlan_eq_ok_iff`). Members of a merge are mutable and follow each other without a gap, all with the status and AS number of
the first and, when they are reserved, with its consumer (`checkMembers_eq_ok_iff`, `alike`, `tiles_of_members`).
-/

namespace AddressSpace.Pool

variable {F : Family} {target : UInt8}

/-! ## Splits -/

/-- A status allows for a change just when it is mutable. -/
theorem requireMutable_eq_ok_iff {r : Range F} {change : Change} {u : Unit} :
    requireMutable r change = .ok u ↔ r.status.mutable = true := by
  unfold requireMutable
  cases r.status.mutable <;> simp

/-- Ranges that are not assigned are mutable. -/
theorem mutable_iff {status : Status} : status.mutable = true ↔ status = .wait ∨ status = .reserved := by
  cases status <;> simp [Status.mutable]

/-- A uniform plan is accepted for a mutable source and a length that is longer, but not by too much, and consists of the source's
subnets. -/
theorem uniformPlan_eq_ok_iff {limits : Limits} {source : Range F} {spans : List (Span F)} :
    uniformPlan limits source target = .ok spans ↔
      source.status.mutable = true ∧ source.span.plen < target ∧ target.toNat ≤ F.width ∧
        target - source.span.plen ≤ limits.splitDepth ∧ source.span.start ≤ source.span.stop ∧
        spans = source.span.pieces target := by
  unfold uniformPlan
  simp only [refuse_bind_eq_ok_iff, check_bind_eq_ok_iff, requireMutable_eq_ok_iff, Span.subnets_eq_ok_iff, UInt8.not_le,
    UInt8.not_lt, Nat.not_lt]
  constructor
  · rintro ⟨hwidth, hlonger, hdepth, hmutable, -, -, hle, rfl⟩
    exact ⟨hmutable, hlonger, hwidth, hdepth, hle, rfl⟩
  · rintro ⟨hmutable, hlonger, hwidth, hdepth, hle, rfl⟩
    exact ⟨hwidth, hlonger, hdepth, hmutable, UInt8.le_of_lt hlonger, hwidth, hle, rfl⟩

/-- The subnets of a longer length are not the span itself. -/
theorem pieces_ne_self {s : Span F} (h : s.plen < target) : s.pieces target ≠ [s] := by
  intro he
  have hmem : s ∈ s.pieces target := by rw [he]; exact List.mem_singleton.2 rfl
  obtain ⟨n, -, hn⟩ := List.mem_map.1 hmem
  have hplen : target = s.plen := congrArg Span.plen hn
  exact absurd h (hplen ▸ UInt8.lt_irrefl _)

/-- The rows of the parts have the spans of the plan. -/
theorem map_span_parts (source : Range F) (now : Instant) (ids : Nat → Identifier) (spans : List (Span F)) :
    (parts source now ids spans).map (·.span) = spans := by
  simp only [parts, List.map_map]
  exact List.zipIdx_map_fst 0 spans

/-- As they are stored, too. -/
theorem map_span_named_parts (source : Range F) (now : Instant) (ids : Nat → Identifier) (spans : List (Span F)) :
    ((parts source now ids spans).map Range.named).map (·.span) = spans := by
  have hspan : (·.span) ∘ Range.named = fun r : Range F => r.span := funext Range.named_span
  rw [List.map_map, hspan, map_span_parts]

/-- A part takes over status, AS number, consumer and time of assignment from the source. -/
theorem mem_parts {source r : Range F} {now : Instant} {ids : Nat → Identifier} {spans : List (Span F)}
    (h : r ∈ parts source now ids spans) :
    r.span ∈ spans ∧ r.status = source.status ∧ r.asn = source.asn ∧ r.org = source.org ∧
      r.assignedAt = source.assignedAt := by
  refine ⟨?_, ?_⟩
  · rw [← map_span_parts source now ids spans]
    exact List.mem_map_of_mem h
  · obtain ⟨s, -, rfl⟩ := List.mem_map.1 h
    simp [part, Range.build]

/-! ## Merges -/

/-- Two ranges that can become one: the second takes up where the first ends, in one network, with the same status, AS number
and, when they are reserved, consumer. -/
structure Neighbours (target : UInt8) (a b : Range F) : Prop where
  status : a.status = b.status
  asn : a.asn.number = b.asn.number
  org : a.status = .reserved → a.org = b.org
  next : a.span.stop.contiguous b.span.start = true
  network : a.span.start.sameNetwork b.span.start target.toNat = true

/-- The check of neighbours accepts neighbours. -/
theorem checkNeighbours_eq_ok_iff {a b : Range F} {u : Unit} :
    checkNeighbours target a b = .ok u ↔ Neighbours target a b := by
  unfold checkNeighbours
  simp only [refuse_bind_eq_ok_iff, refuse_eq_ok_iff, ne_eq, Classical.not_not, not_and, Bool.not_eq_true',
    Bool.not_eq_false]
  exact ⟨fun ⟨hs, ha, ho, hn, hw⟩ => ⟨hs, ha, ho, hn, hw⟩, fun h => ⟨h.status, h.asn, h.org, h.next, h.network⟩⟩

/-- The check of all neighbours accepts members of which any two in a row are neighbours. -/
theorem checkAllNeighbours_eq_ok_iff {members : List (Range F)} {u : Unit} :
    checkAllNeighbours target members = .ok u ↔ members.IsChain (Neighbours target) := by
  induction members with
  | nil => exact ⟨fun _ => .nil, fun _ => rfl⟩
  | cons a rest ih =>
    cases rest with
    | nil => exact ⟨fun _ => .singleton a, fun _ => rfl⟩
    | cons b rest =>
      rw [checkAllNeighbours, check_bind_eq_ok_iff, checkNeighbours_eq_ok_iff, ih, List.isChain_cons_cons]

/-- Members are accepted when each is mutable and no shorter than the length, and each two in a row are neighbours. -/
theorem checkMembers_eq_ok_iff {members : List (Range F)} {u : Unit} :
    checkMembers target members = .ok u ↔
      (∀ m ∈ members, m.status.mutable = true ∧ target ≤ m.span.plen) ∧ members.IsChain (Neighbours target) := by
  unfold checkMembers
  have hmember : ∀ m : Range F, checkMember target m = .ok () ↔ m.status.mutable = true ∧ target ≤ m.span.plen := by
    intro m
    unfold checkMember
    rw [check_bind_eq_ok_iff, requireMutable_eq_ok_iff, refuse_eq_ok_iff, UInt8.not_lt]
  rw [check_bind_eq_ok_iff, forM_eq_ok_iff, checkAllNeighbours_eq_ok_iff]
  simp only [hmember]

/-- All members have the status and the AS number of the first, and its consumer when it is reserved. -/
theorem alike {first : Range F} {rest : List (Range F)} (h : (first :: rest).IsChain (Neighbours target)) :
    ∀ m ∈ first :: rest,
      m.status = first.status ∧ m.asn.number = first.asn.number ∧ (first.status = .reserved → m.org = first.org) := by
  induction rest generalizing first with
  | nil =>
    intro m hm
    obtain rfl := List.mem_singleton.1 hm
    exact ⟨rfl, rfl, fun _ => rfl⟩
  | cons second rest ih =>
    obtain ⟨hn, hrest⟩ := List.isChain_cons_cons.1 h
    intro m hm
    rcases List.mem_cons.1 hm with rfl | hm
    · exact ⟨rfl, rfl, fun _ => rfl⟩
    · obtain ⟨hs, ha, ho⟩ := ih hrest m hm
      refine ⟨hs.trans hn.status.symm, ha.trans hn.asn.symm, fun hr => ?_⟩
      rw [ho (hn.status ▸ hr), hn.org hr]

/-- Members tile the span from the start of the first to the end of the last. -/
theorem tiles_of_members {first last : Range F} {members : List (Range F)} (hf : members.head? = some first)
    (hl : members.getLast? = some last) (ho : ∀ m ∈ members, m.span.start ≤ m.span.stop)
    (h : members.IsChain (Neighbours target)) :
    Interval.Tiles first.span.start.bits (last.span.stop.bits + 1) ((members.map (·.span)).map Span.interval) := by
  have hspans : (members.map (·.span)).IsChain fun x y => x.stop.contiguous y.start = true := by
    rw [List.isChain_map]
    exact h.imp fun _ _ hn => hn.next
  exact Span.tiles_of_chain (by rw [List.head?_map, hf]; rfl) (by rw [List.getLast?_map, hl]; rfl)
    (List.forall_mem_map.2 ho) hspans

@[simp] theorem mergedRange_span (now : Instant) (id : Identifier) (first last : Range F) :
    (mergedRange now id target first last).span = ⟨first.span.start, last.span.stop, target⟩ := by
  simp [mergedRange, Range.build]

@[simp] theorem mergedRange_status (now : Instant) (id : Identifier) (first last : Range F) :
    (mergedRange now id target first last).status = first.status := by
  simp [mergedRange]

@[simp] theorem mergedRange_asn (now : Instant) (id : Identifier) (first last : Range F) :
    (mergedRange now id target first last).asn = first.asn := by
  simp [mergedRange, Range.build]

/-- The consumer of a reserved range is carried over. -/
@[simp] theorem mergedRange_org (now : Instant) (id : Identifier) (first last : Range F) :
    (mergedRange now id target first last).org = if first.status = .reserved then first.org else none := by
  simp [mergedRange]

/-- Checked members stay a single one of the right length, or become the range over them. -/
theorem merger_eq_ok {now : Instant} {id : Identifier} {members : List (Range F)} {m : Merger F}
    (h : merger now id target members = .ok m) :
    ∃ first last, members.head? = some first ∧ members.getLast? = some last ∧
      checkMembers target members = .ok () ∧
      (m = .unchanged first ∧ members.length = 1 ∧ first.span.plen = target ∨
        m = .merged (mergedRange now id target first last) ∧ ¬(members.length = 1 ∧ first.span.plen = target)) := by
  unfold merger at h
  rw [check_bind_eq_ok_iff] at h
  obtain ⟨hcheck, h⟩ := h
  cases hf : members.head? with
  | none => rw [hf] at h; cases h
  | some first =>
    cases hl : members.getLast? with
    | none => rw [hf, hl] at h; cases h
    | some last =>
      simp only [hf, hl] at h
      refine ⟨first, last, rfl, rfl, hcheck, ?_⟩
      by_cases hone : members.length = 1 ∧ first.span.plen = target
      · rw [if_pos hone] at h
        cases h
        exact .inl ⟨rfl, hone⟩
      · rw [if_neg hone] at h
        cases h
        exact .inr ⟨rfl, hone⟩

end AddressSpace.Pool
