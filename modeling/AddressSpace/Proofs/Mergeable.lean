import Mathlib.Data.Finset.Card
import AddressSpace.Proofs.Engine.Pools
import AddressSpace.Proofs.Independent
import AddressSpace.Proofs.Preview
/-!
# Which ranges can be merged

The checks before a merge compare neighbours. `Pool.Mergeable` says of the rows that are named, as a whole, what these checks come
to: they have one status, one AS and one consumer, together they are one interval, and they lie in one network. A merge succeeds
just when this holds, and what it then makes of the table depends only on which rows are named (`Engine.merge_iff`).
-/

namespace AddressSpace

open AddressSpace.Action

variable {F : Family}

/-- Two ranges are the same, or both are new to the table and differ in identifiers and times only. -/
def Range.SameBut (t : Table (Range F)) (r s : Range F) : Prop := r = s ∨ r ∉ t ∧ s ∉ t ∧ r.unstamped = s.unstamped

/-- Ranges that differ at most in their identifiers and times have the same span. -/
theorem Range.SameBut.span {t : Table (Range F)} {r s : Range F} (h : r.SameBut t s) : r.span = s.span := by
  rcases h with rfl | ⟨-, -, he⟩
  · rfl
  · have hspan : r.unstamped.span = s.unstamped.span := congrArg Range.span he
    exact hspan

namespace Pool

variable {p : Pool F} {stamp stamp' : Stamp} {user : Option String} {target : UInt8} {ids ids' : List Identifier}

/-! ## Members as a whole -/

/-- The rows that are named, in ascending order. -/
def members (p : Pool F) (ids : List Identifier) : List (Range F) := p.store.toList.filter fun r => r.id ∈ ids

/-- Rows that have enough in common to become one range of the length. -/
structure Alike (target : UInt8) (rows : List (Range F)) : Prop where
  status : ∃ status, (status = .wait ∨ status = .reserved) ∧ ∀ r ∈ rows, r.status = status
  asn : ∃ number, ∀ r ∈ rows, r.asn.number = number
  org : ∃ org, ∀ r ∈ rows, r.status = .reserved → r.org = org
  plen : ∀ r ∈ rows, target ≤ r.span.plen
  /-- Together they are one interval. -/
  gapless : ∃ start stop : Address F, ∀ a, (∃ r ∈ rows, r.span.contains a = true) ↔ start ≤ a ∧ a ≤ stop
  /-- All their addresses lie in one network of the length. -/
  network : ∃ lo : Address F, ∀ r ∈ rows, ∀ a, r.span.contains a = true → a.cut target.toNat = lo

/-- A merge of the rows under the length is possible. -/
structure Mergeable (p : Pool F) (ids : List Identifier) (target : UInt8) : Prop where
  one_le : 1 ≤ ids.toFinset.card
  card_le : ids.toFinset.card ≤ p.limits.mergeMembers.toNat
  length_pos : 1 ≤ target.toNat
  length_le : target.toNat ≤ F.width
  stored : ∀ id ∈ ids, ∃ r ∈ p.store.table, r.id = id
  alike : Alike target (p.members ids)

/-- The members are the stored ranges with the identifiers given. -/
theorem mem_members (h : p.store.AtRest) {r : Range F} : r ∈ p.members ids ↔ r ∈ p.store.table ∧ r.id ∈ ids := by
  rw [members, List.mem_filter, decide_eq_true_eq]
  exact and_congr_left fun _ => Table.mem_toList h.valid

/-- The members stand in the order of their addresses. -/
theorem ascending_members (h : p.store.AtRest) (ids : List Identifier) :
    (p.members ids).Pairwise fun r s => r.span.interval.last < s.span.interval.first :=
  (Table.pairwise_toList h.valid).filter _

/-- Which rows are named depends on the set of the identifiers only. -/
theorem members_congr (hset : ∀ id, id ∈ ids' ↔ id ∈ ids) : p.members ids' = p.members ids := by
  unfold members
  simp only [hset]

/-- Whether ranges can be merged does not depend on the order of their identifiers or on repetitions. -/
theorem Mergeable.congr (h : p.Mergeable ids target) (hset : ∀ id, id ∈ ids' ↔ id ∈ ids) : p.Mergeable ids' target := by
  have hcard : ids'.toFinset = ids.toFinset := by
    ext id
    rw [List.mem_toFinset, List.mem_toFinset, hset]
  exact {
    one_le := hcard ▸ h.one_le
    card_le := hcard ▸ h.card_le
    length_pos := h.length_pos
    length_le := h.length_le
    stored := fun id hid => h.stored id ((hset id).1 hid)
    alike := members_congr hset ▸ h.alike }

/-- Rows that are all there have a first and a last one. -/
theorem members_ne_nil (h : p.store.AtRest) (hne : ids ≠ []) (hstored : ∀ id ∈ ids, ∃ r ∈ p.store.table, r.id = id) :
    p.members ids ≠ [] := by
  obtain ⟨id, hid⟩ := List.exists_mem_of_ne_nil ids hne
  obtain ⟨r, hr, rfl⟩ := hstored id hid
  exact List.ne_nil_of_mem ((mem_members h).2 ⟨hr, hid⟩)

/-! ## Checks on neighbours -/

variable {rows : List (Range F)}

/-- The bounds of ascending rows lie between the start of the first and the end of the last. -/
theorem bounds_of_members {first last r : Range F} (hf : rows.head? = some first) (hl : rows.getLast? = some last)
    (hordered : ∀ r ∈ rows, r.span.start ≤ r.span.stop)
    (hasc : rows.Pairwise fun r s => r.span.interval.last < s.span.interval.first) (hr : r ∈ rows) :
    first.span.start ≤ r.span.start ∧ r.span.stop ≤ last.span.stop := by
  constructor
  · obtain ⟨rest, rfl⟩ := List.head?_eq_some_iff.1 hf
    rcases List.mem_cons.1 hr with rfl | hr
    · exact Nat.le_refl _
    · have hlt : first.span.stop.bits < r.span.start.bits := (List.pairwise_cons.1 hasc).1 r hr
      have hle : first.span.start.bits ≤ first.span.stop.bits := hordered first (by simp)
      exact Nat.le_of_lt (Nat.lt_of_le_of_lt hle hlt)
  · obtain ⟨before, rfl⟩ := List.getLast?_eq_some_iff.1 hl
    rcases List.mem_append.1 hr with hr | hr
    · have hlt : r.span.stop.bits < last.span.start.bits := (List.pairwise_append.1 hasc).2.2 r hr last (by simp)
      have hle : last.span.start.bits ≤ last.span.stop.bits := hordered last (by simp)
      exact Nat.le_of_lt (Nat.lt_of_lt_of_le hlt hle)
    · rw [List.mem_singleton.1 hr]
      exact Nat.le_refl _

/-- Ascending rows tile an interval just when an address lies in one of them if and only if it lies in the interval. -/
theorem tiles_iff_covers {start stop : Address F} (hle : start ≤ stop) (hordered : ∀ r ∈ rows, r.span.start ≤ r.span.stop)
    (hasc : rows.Pairwise fun r s => r.span.interval.last < s.span.interval.first) :
    Interval.Tiles start.bits (stop.bits + 1) ((rows.map (·.span)).map Span.interval) ↔
      ∀ a, (∃ r ∈ rows, r.span.contains a = true) ↔ start ≤ a ∧ a ≤ stop := by
  have hmem : ∀ n, (∃ i ∈ (rows.map (·.span)).map Span.interval, i.contains n = true) ↔
      ∃ r ∈ rows, r.span.start.bits ≤ n ∧ n ≤ r.span.stop.bits := by
    intro n
    simp only [List.map_map, List.mem_map, Function.comp_apply, exists_exists_and_eq_and, Interval.contains, Bool.and_eq_true,
      decide_eq_true_eq]
    rfl
  simp only [Span.contains_iff]
  constructor
  · intro htile a
    rw [← hmem, htile.exists_contains_iff, Nat.lt_succ_iff]
    rfl
  · intro hcover
    refine Interval.tiles_of_contains_iff (Nat.le_succ_of_le hle) ?_ ?_ fun n => ?_
    · rw [List.map_map]
      exact List.forall_mem_map.2 hordered
    · rw [List.map_map, List.pairwise_map]
      exact hasc
    · rw [hmem, Nat.lt_succ_iff]
      constructor
      · rintro ⟨r, hr, hrn⟩
        exact (hcover ⟨n, Nat.lt_of_le_of_lt hrn.2 r.span.stop.isLt⟩).1 ⟨r, hr, hrn⟩
      · intro hn
        exact (hcover ⟨n, Nat.lt_of_le_of_lt hn.2 stop.isLt⟩).2 hn

/-- Rows that the checks accept are alike. -/
theorem alike_of_checkMembers (hshaped : ∀ r ∈ rows, r.span.Shaped) (hne : rows ≠ [])
    (hasc : rows.Pairwise fun r s => r.span.interval.last < s.span.interval.first) (h : checkMembers target rows = .ok ()) :
    Alike target rows := by
  have hordered : ∀ r ∈ rows, r.span.start ≤ r.span.stop := fun r hr => (hshaped r hr).start_le
  obtain ⟨hall, hchain⟩ := checkMembers_eq_ok_iff.1 h
  obtain ⟨first, hf⟩ : ∃ first, rows.head? = some first := ⟨_, List.head?_eq_some_head hne⟩
  obtain ⟨last, hl⟩ : ∃ last, rows.getLast? = some last := ⟨_, List.getLast?_eq_some_getLast hne⟩
  have htile := tiles_of_members hf hl hordered hchain
  have hfirst : first ∈ rows := List.mem_of_head? hf
  have hle : first.span.start ≤ last.span.stop :=
    Nat.le_trans (hordered first hfirst) (bounds_of_members hf hl hordered hasc hfirst).2
  obtain ⟨rest, rfl⟩ := List.head?_eq_some_iff.1 hf
  have hsame := alike hchain
  refine ⟨⟨first.status, ?_, fun r hr => (hsame r hr).1⟩, ⟨first.asn.number, fun r hr => (hsame r hr).2.1⟩,
    ⟨first.org, fun r hr hs => (hsame r hr).2.2 ((hsame r hr).1 ▸ hs)⟩, fun r hr => (hall r hr).2,
    ⟨first.span.start, last.span.stop, (tiles_iff_covers hle hordered hasc).1 htile⟩,
    ⟨first.span.start.cut target.toNat, fun r hr a ha => ?_⟩⟩
  · have hm := (hall first hfirst).1
    cases hs : first.status with
    | wait => exact .inl rfl
    | reserved => exact .inr rfl
    | assigned =>
      rw [hs] at hm
      cases hm
  · obtain ⟨hstart, hstop⟩ := Span.contains_iff.1 ha
    rw [starts_in_one_network hchain r hr]
    exact (Address.cut_eq_cut_of_le (hall r hr).2 ((hshaped r hr).cut_eq_of_between hstart hstop)).symm

/-- Ascending rows that are alike are accepted by the checks. -/
theorem Alike.checkMembers (h : Alike target rows) (hordered : ∀ r ∈ rows, r.span.start ≤ r.span.stop) (hne : rows ≠ [])
    (hasc : rows.Pairwise fun r s => r.span.interval.last < s.span.interval.first) : checkMembers target rows = .ok () := by
  obtain ⟨status, hmutable, hstatus⟩ := h.status
  obtain ⟨number, hnumber⟩ := h.asn
  obtain ⟨org, horg⟩ := h.org
  obtain ⟨start, stop, hcover⟩ := h.gapless
  obtain ⟨lo, hlo⟩ := h.network
  have hown : ∀ r ∈ rows, r.span.contains r.span.start = true := fun r hr =>
    Span.contains_iff.2 ⟨Nat.le_refl _, hordered r hr⟩
  have hle : start ≤ stop := by
    obtain ⟨r, hr⟩ := List.exists_mem_of_ne_nil rows hne
    obtain ⟨hstart, hstop⟩ := (hcover _).1 ⟨r, hr, hown r hr⟩
    exact Nat.le_trans hstart hstop
  have hchain := Span.chain_of_tiles ((tiles_iff_covers hle hordered hasc).2 hcover)
  rw [List.isChain_map] at hchain
  refine checkMembers_eq_ok_iff.2 ⟨fun r hr => ⟨?_, h.plen r hr⟩, hchain.imp_of_mem_imp fun r s hr hs hnext => ?_⟩
  · rw [hstatus r hr]
    rcases hmutable with rfl | rfl <;> rfl
  · exact {
      status := (hstatus r hr).trans (hstatus s hs).symm
      asn := (hnumber r hr).trans (hnumber s hs).symm
      org := fun hres => (horg r hr hres).trans (horg s hs (by rwa [hstatus s hs, ← hstatus r hr])).symm
      next := hnext
      network := Address.sameNetwork_iff.2 ((hlo r hr _ (hown r hr)).trans (hlo s hs _ (hown s hs)).symm) }

/-! ## What is decided -/

/-- The identifiers without repetitions are as many as there are different ones. -/
theorem length_distinct (ids : List Identifier) : (Locks.distinct ids).length = ids.toFinset.card := by
  rw [← List.toFinset_card_of_nodup (Locks.nodup_distinct ids)]
  congr 1
  ext id
  rw [List.mem_toFinset, List.mem_toFinset, Locks.mem_distinct]

/-- A request is accepted when it names some ranges, no more than the limit allows, and a length of the family. -/
theorem checkMergeRequest_eq_ok_iff {limits : Limits} :
    checkMergeRequest (F := F) limits (Locks.distinct ids) target = .ok () ↔
      1 ≤ ids.toFinset.card ∧ ids.toFinset.card ≤ limits.mergeMembers.toNat ∧ 1 ≤ target.toNat ∧ target.toNat ≤ F.width := by
  unfold checkMergeRequest
  simp only [refuse_bind_eq_ok_iff, refuse_eq_ok_iff, not_or, Nat.not_lt, length_distinct]
  refine and_congr ?_ (and_congr_right fun _ => and_congr_left fun _ => ?_)
  · rw [List.isEmpty_iff, ← List.length_eq_zero_iff, length_distinct]
    exact Nat.one_le_iff_ne_zero.symm
  · rw [Nat.one_le_iff_ne_zero, ne_eq, not_iff_not, ← UInt8.toNat_inj]
    rfl

/-- The rows that are read for a merge are, in order, those that are named. -/
theorem sorted_eq_members (h : p.store.AtRest) {read : List (Range F)}
    (hread : (Locks.distinct ids).mapM p.store.row = .ok read) : read.mergeSort Store.lockOrder = p.members ids := by
  obtain ⟨hids, hmem⟩ := Store.rows_of_mapM h.valid hread
  have hnodup : read.Nodup := List.Nodup.of_map (·.id) (hids ▸ Locks.nodup_distinct ids)
  have hperm : (read.mergeSort Store.lockOrder).Perm (p.members ids) := by
    refine (List.mergeSort_perm ..).trans ((List.perm_ext_iff_of_nodup hnodup ?_).2 fun r => ?_)
    · exact (Table.nodup_toList h.valid).filter _
    rw [mem_members h, ← Locks.mem_distinct, ← hids, List.mem_map]
    constructor
    · exact fun hr => ⟨hmem r hr, r, hr, rfl⟩
    · rintro ⟨hr, s, hs, he⟩
      rwa [← Table.eq_of_id (hmem s hs) hr he]
  exact eq_of_ascending h.valid (fun r hr => hmem r (List.mem_mergeSort.1 hr)) (Store.ascending_mergeSort h.valid hmem hnodup)
    (ascending_members h ids) hperm

/-- A merge is decided on the rows that are named. -/
theorem rows_of_mergeOutcome (h : p.store.AtRest) {m : Merger F} (ho : p.mergeOutcome stamp ids target = .ok (rows, m)) :
    rows = p.members ids ∧ merger stamp.now (stamp.rowId 0) target (p.members ids) = .ok m := by
  obtain ⟨-, read, hread, rfl, hm⟩ := mergeOutcome_eq_ok ho
  rw [sorted_eq_members h hread] at hm ⊢
  exact ⟨rfl, hm⟩

/-- Members that are accepted become something. -/
theorem exists_merger (now : Instant) (id : Identifier) (hne : rows ≠ []) (hc : Pool.checkMembers target rows = .ok ()) :
    ∃ m, merger now id target rows = .ok m := by
  unfold merger
  rw [hc, List.head?_eq_some_head hne, List.getLast?_eq_some_getLast hne]
  by_cases hone : rows.length = 1 ∧ (rows.head hne).span.plen = target
  · exact ⟨_, if_pos hone⟩
  · exact ⟨_, if_neg hone⟩

/-- A merge is decided in favour of the rows when they can be merged. -/
theorem exists_mergeOutcome_iff (stamp : Stamp) (h : p.store.AtRest) (hshaped : ∀ r ∈ p.store.table, r.span.Shaped) :
    (∃ outcome, p.mergeOutcome stamp ids target = .ok outcome) ↔ p.Mergeable ids target := by
  have hshaped' : ∀ r ∈ p.members ids, r.span.Shaped := fun r hr => hshaped r ((mem_members h).1 hr).1
  constructor
  · rintro ⟨⟨rows, m⟩, ho⟩
    obtain ⟨hrequest, read, hread, -⟩ := mergeOutcome_eq_ok ho
    obtain ⟨rfl, hm⟩ := rows_of_mergeOutcome h ho
    obtain ⟨first, last, hf, hl, hc, -⟩ := merger_eq_ok hm
    obtain ⟨hone, hcard, hpos, hle⟩ := checkMergeRequest_eq_ok_iff.1 hrequest
    refine ⟨hone, hcard, hpos, hle, fun id hid => ?_,
      alike_of_checkMembers hshaped' (List.ne_nil_of_mem (List.mem_of_head? hf)) (ascending_members h ids) hc⟩
    obtain ⟨hids, hmem⟩ := Store.rows_of_mapM h.valid hread
    rw [← Locks.mem_distinct, ← hids] at hid
    obtain ⟨r, hr, rfl⟩ := List.mem_map.1 hid
    exact ⟨r, hmem r hr, rfl⟩
  · intro hm
    have hne : ids ≠ [] := fun hnil => by simpa [hnil] using hm.one_le
    obtain ⟨read, hread⟩ : ∃ read, (Locks.distinct ids).mapM p.store.row = .ok read := by
      refine exists_mapM_eq_ok fun id hid => ?_
      obtain ⟨r, hr, rfl⟩ := hm.stored id (Locks.mem_distinct.1 hid)
      exact ⟨r, Store.row_eq_ok_iff.2 hr⟩
    have hmembers := members_ne_nil h hne hm.stored
    have hc := hm.alike.checkMembers (fun r hr => (hshaped' r hr).start_le) hmembers (ascending_members h ids)
    rw [mergeOutcome_of_rows (checkMergeRequest_eq_ok_iff.2 ⟨hm.one_le, hm.card_le, hm.length_pos, hm.length_le⟩) hread
      (sorted_eq_members h hread).symm]
    obtain ⟨m, hmerger⟩ := exists_merger stamp.now (stamp.rowId 0) hmembers hc
    exact ⟨_, by rw [hmerger]; rfl⟩

/-- What is decided does not depend on the order in which the rows are named, nor on the stamp apart from identifier and times. -/
theorem mergeOutcome_cases (stamp stamp' : Stamp) (target : UInt8) (h : p.store.AtRest)
    (hshaped : ∀ r ∈ p.store.table, r.span.Shaped) (hset : ∀ id, id ∈ ids' ↔ id ∈ ids) :
    (∃ f f', p.mergeOutcome stamp ids target = .error f ∧ p.mergeOutcome stamp' ids' target = .error f') ∨
      (∃ row, p.mergeOutcome stamp ids target = .ok (p.members ids, .unchanged row) ∧
        p.mergeOutcome stamp' ids' target = .ok (p.members ids, .unchanged row)) ∨
      ∃ row row', p.mergeOutcome stamp ids target = .ok (p.members ids, .merged row) ∧
        p.mergeOutcome stamp' ids' target = .ok (p.members ids, .merged row') ∧ row.unstamped = row'.unstamped := by
  cases ho : p.mergeOutcome stamp ids target with
  | error f =>
    cases ho' : p.mergeOutcome stamp' ids' target with
    | error f' => exact .inl ⟨f, f', rfl, rfl⟩
    | ok outcome =>
      obtain ⟨_, hok⟩ := (exists_mergeOutcome_iff stamp h hshaped).2
        (((exists_mergeOutcome_iff stamp' h hshaped).1 ⟨_, ho'⟩).congr fun id => (hset id).symm)
      rw [ho] at hok
      cases hok
  | ok outcome =>
    obtain ⟨⟨rows', m'⟩, ho'⟩ := (exists_mergeOutcome_iff stamp' h hshaped).2
      (((exists_mergeOutcome_iff stamp h hshaped).1 ⟨_, ho⟩).congr hset)
    obtain ⟨rows, m⟩ := outcome
    obtain ⟨rfl, hm⟩ := rows_of_mergeOutcome h ho
    obtain ⟨rfl, hm'⟩ := rows_of_mergeOutcome h ho'
    rw [members_congr hset] at hm' ho'
    rw [ho']
    rcases merger_cases stamp.now stamp'.now (stamp.rowId 0) (stamp'.rowId 0) (p.members ids) with
      ⟨f, hf, -⟩ | ⟨row, hrow, hrow'⟩ | ⟨first, last, -, -, -, hrow, hrow'⟩
    · rw [hf] at hm
      cases hm
    · rw [hrow] at hm
      rw [hrow'] at hm'
      cases hm
      cases hm'
      exact .inr (.inl ⟨row, rfl, rfl⟩)
    · rw [hrow] at hm
      rw [hrow'] at hm'
      cases hm
      cases hm'
      exact .inr (.inr ⟨_, _, rfl, rfl, rfl⟩)

/-! ## What becomes of the table -/

/-- In the table `t'` the row `m` of the length stands for the rows of the pool that are named, which are not a single one of that
length. -/
structure Joined (p : Pool F) (ids : List Identifier) (target : UInt8) (m : Range F) (t' : Table (Range F)) : Prop where
  several : ∀ r, p.members ids = [r] → r.span.plen ≠ target
  fresh : ∀ r ∈ p.store.table, r.id ≠ m.id
  rows : ∀ r, r ∈ t' ↔ r = m ∨ r ∈ p.store.table ∧ r.id ∉ ids
  /-- It goes from the start of the first to the end of the last, and is what these are. -/
  spanning : ∃ first ∈ p.members ids, ∃ last ∈ p.members ids,
    (∀ r ∈ p.members ids, first.span.start ≤ r.span.start ∧ r.span.stop ≤ last.span.stop) ∧
      m.span = ⟨first.span.start, last.span.stop, target⟩ ∧ m.status = first.status ∧ m.asn = first.asn ∧
      m.org = if first.status = .reserved then first.org else none

/-- What a merge stores is the joined range. -/
theorem joined_of_becomes {q : Pool F} {m : Range F} {event : Option (Event F)} (h : p.store.AtRest)
    (hfresh : stamp.Fresh p.store.table 1) (ho : p.mergeOutcome stamp ids target = .ok (rows, .merged m))
    (hb : Became stamp user p event rows [m] q) : Joined p ids target m q.store.table := by
  obtain ⟨rfl, hm⟩ := rows_of_mergeOutcome h ho
  obtain ⟨first, last, hf, hl, -, ⟨he, -⟩ | ⟨he, hne⟩⟩ := merger_eq_ok hm
  · cases he
  cases he
  refine ⟨fun r hr hplen => ?_, fun r hr => hfresh.id_ne Nat.one_pos hr, fun r => ?_, first, List.mem_of_head? hf, last,
    List.mem_of_getLast? hl, fun r hr => ?_, mergedRange_span .., mergedRange_status .., mergedRange_asn .., mergedRange_org ..⟩
  · rw [hr] at hf hne
    cases hf
    exact hne ⟨rfl, hplen⟩
  · rw [hb.table.mem_iff, List.mem_singleton, or_comm, mem_members h]
    exact or_congr_right (and_congr_right fun hr => not_congr (and_iff_right hr))
  · exact bounds_of_members hf hl (fun r hr => h.valid.ordered r ((mem_members h).1 hr).1) (ascending_members h ids) hr

/-- A single row of the length stays what it is. -/
theorem single_of_mergeOutcome {m : Range F} (h : p.store.AtRest)
    (ho : p.mergeOutcome stamp ids target = .ok (rows, .unchanged m)) : p.members ids = [m] ∧ m.span.plen = target := by
  obtain ⟨rfl, hm⟩ := rows_of_mergeOutcome h ho
  obtain ⟨first, last, hf, hl, -, ⟨he, hone, hplen⟩ | ⟨he, -⟩⟩ := merger_eq_ok hm
  · cases he
    obtain ⟨r, hr⟩ := List.length_eq_one_iff.1 hone
    rw [hr] at hf ⊢
    cases hf
    exact ⟨rfl, hplen⟩
  · cases he

end Pool

namespace Engine

variable {e : Engine} {stamp : Stamp} {ids : List Identifier} {target : UInt8} {user : Option String}

/-- A merge of an engine ends as is decided beforehand, and a merge that fails changes nothing. -/
theorem merge_ends (h : (e.pool F).store.AtRest) (hshaped : ∀ r ∈ (e.pool F).store.table, r.span.Shaped)
    (hfresh : stamp.Fresh (e.pool F).store.table 1) (ids : List Identifier) (target : UInt8) (user : Option String) :
    (merge F stamp ids target user).Ends e
      (fun m e' => ∃ rows, (e.pool F).mergeOutcome stamp ids target = .ok (rows, .unchanged m) ∧ e' = e ∨
        (e.pool F).mergeOutcome stamp ids target = .ok (rows, .merged m) ∧
          (e.pool F).store.table.Swapped rows [m] (e'.pool F).store.table ∧
          (e.pool F).Joined ids target m (e'.pool F).store.table)
      (fun f e' => (e.pool F).mergeOutcome stamp ids target = .error f ∧ e' = e) := by
  refine (ends_manage _).2 ((Pool.merge_becomes h hshaped hfresh ids target).imp ?_ ?_)
  · rintro out q ⟨rows, ⟨ho, hspans, rfl⟩ | ⟨ho, -, hb⟩⟩
    · exact ⟨rows, .inl ⟨ho, by rw [followed, hspans, withPool_pool, rangesChanged_nil]⟩⟩
    · rw [followed, rangesChanged_pool, pool_withPool]
      exact ⟨rows, .inr ⟨ho, hb.table, Pool.joined_of_becomes h hfresh ho hb⟩⟩
  · rintro f q ⟨hf, rfl⟩
    exact ⟨hf, withPool_pool F e⟩

/-- A merge runs as is decided beforehand: it fails and changes nothing, gives a single row of the right length and changes nothing,
or gives a new row and puts it in the place of the others. -/
theorem merge_run (h : (e.pool F).store.AtRest) (hshaped : ∀ r ∈ (e.pool F).store.table, r.span.Shaped)
    (hfresh : stamp.Fresh (e.pool F).store.table 1) (ids : List Identifier) (target : UInt8) (user : Option String) :
    match (e.pool F).mergeOutcome stamp ids target with
    | .error f => (merge F stamp ids target user).run e = (.error f, e)
    | .ok (_, .unchanged row) => (merge F stamp ids target user).run e = (.ok row, e)
    | .ok (rows, .merged row) => ∃ e', (merge F stamp ids target user).run e = (.ok row, e') ∧
        (e.pool F).store.table.Swapped rows [row] (e'.pool F).store.table ∧
        (e.pool F).Joined ids target row (e'.pool F).store.table := by
  have hends := merge_ends h hshaped hfresh ids target user
  cases hrun : ((merge F stamp ids target user).run e).1 with
  | ok m =>
    obtain ⟨_, ⟨ho, he⟩ | ⟨ho, hsw, hj⟩⟩ := hends.ok_of_run (Action.run_eq_ok hrun)
    · rw [ho]
      exact Prod.ext hrun he
    · rw [ho]
      exact ⟨_, Prod.ext hrun rfl, hsw, hj⟩
  | error f =>
    obtain ⟨ho, he⟩ := hends.fail_of_run hrun
    rw [ho]
    exact Prod.ext hrun he

/-- What a merge gives and the table that it leads to, apart from the new row's identifier and times, depend only on which rows are
named. -/
theorem merge_same_but (h : (e.pool F).store.AtRest) (hshaped : ∀ r ∈ (e.pool F).store.table, r.span.Shaped)
    (hfresh : stamp.Fresh (e.pool F).store.table 1) (target : UInt8) (user : Option String) {ids' : List Identifier}
    {stamp' : Stamp} (user' : Option String) (hset : ∀ id, id ∈ ids' ↔ id ∈ ids)
    (hfresh' : stamp'.Fresh (e.pool F).store.table 1) :
    ((merge F stamp' ids' target user').run e).1.toOption.map Range.unstamped =
        ((merge F stamp ids target user).run e).1.toOption.map Range.unstamped ∧
      List.Forall₂ (Range.SameBut (e.pool F).store.table)
        (((merge F stamp ids target user).run e).2.pool F).store.toList
        (((merge F stamp' ids' target user').run e).2.pool F).store.toList := by
  have hstay : List.Forall₂ (Range.SameBut (e.pool F).store.table) (e.pool F).store.toList (e.pool F).store.toList :=
    List.forall₂_same.2 fun r _ => .inl rfl
  have hrun := merge_run h hshaped hfresh ids target user
  have hrun' := merge_run h hshaped hfresh' ids' target user'
  rcases Pool.mergeOutcome_cases stamp stamp' target h hshaped hset with
    ⟨f, f', hf, hf'⟩ | ⟨row, hrow, hrow'⟩ | ⟨row, row', hrow, hrow', hsame⟩
  · simp only [hf] at hrun
    simp only [hf'] at hrun'
    rw [hrun, hrun']
    exact ⟨rfl, hstay⟩
  · simp only [hrow] at hrun
    simp only [hrow'] at hrun'
    rw [hrun, hrun']
    exact ⟨rfl, hstay⟩
  · simp only [hrow] at hrun
    simp only [hrow'] at hrun'
    obtain ⟨e₁, hrun, hsw, hj⟩ := hrun
    obtain ⟨e₂, hrun', hsw', hj'⟩ := hrun'
    rw [hrun, hrun']
    have hnew : row.SameBut (e.pool F).store.table row' :=
      .inr ⟨fun hr => hj.fresh row hr rfl, fun hr => hj'.fresh row' hr rfl, hsame⟩
    exact ⟨congrArg some hsame.symm, hsw.forall₂_toList hsw' (fun _ => .inl rfl) (fun hs => congrArg Span.interval hs.span)
      (.cons hnew .nil)⟩

/-- On a pool whose table is valid, whose rows have the right shape, and on which nothing is under way, a merge with a new
identifier succeeds just when the rows can be merged. A single row of the length is then left as it is, with everything else; any
other rows give way to one new row over them. Which of this happens, and the table that it leads to, apart from the new row's
identifier and times, does not depend on the order in which the rows are named, nor on how often. -/
theorem merge_iff (h : (e.pool F).store.AtRest) (hshaped : ∀ r ∈ (e.pool F).store.table, r.span.Shaped)
    (hfresh : stamp.Fresh (e.pool F).store.table 1) (ids : List Identifier) (target : UInt8) (user : Option String) :
    ((∃ m e', (merge F stamp ids target user).run e = (.ok m, e')) ↔ (e.pool F).Mergeable ids target) ∧
      (∀ m e', (merge F stamp ids target user).run e = (.ok m, e') →
        (e.pool F).members ids = [m] ∧ m.span.plen = target ∧ e' = e ∨
          (e.pool F).Joined ids target m (e'.pool F).store.table) ∧
      ∀ ids' stamp' user', (∀ id, id ∈ ids' ↔ id ∈ ids) → stamp'.Fresh (e.pool F).store.table 1 →
        ((merge F stamp' ids' target user').run e).1.toOption.map Range.unstamped =
            ((merge F stamp ids target user).run e).1.toOption.map Range.unstamped ∧
          List.Forall₂ (Range.SameBut (e.pool F).store.table)
            (((merge F stamp ids target user).run e).2.pool F).store.toList
            (((merge F stamp' ids' target user').run e).2.pool F).store.toList := by
  refine ⟨⟨?_, fun hm => ?_⟩, ?_, fun ids' stamp' user' hset hfresh' => ?_⟩
  · rintro ⟨m, e', hrun⟩
    obtain ⟨rows, ⟨ho, -⟩ | ⟨ho, -⟩⟩ := (merge_ends h hshaped hfresh ids target user).ok_of_run hrun
    · exact (Pool.exists_mergeOutcome_iff stamp h hshaped).1 ⟨_, ho⟩
    · exact (Pool.exists_mergeOutcome_iff stamp h hshaped).1 ⟨_, ho⟩
  · have hrun := merge_run h hshaped hfresh ids target user
    obtain ⟨⟨rows, row | row⟩, ho⟩ := (Pool.exists_mergeOutcome_iff stamp h hshaped).2 hm
    · simp only [ho] at hrun
      exact ⟨row, e, hrun⟩
    · simp only [ho] at hrun
      obtain ⟨e', hrun, -⟩ := hrun
      exact ⟨row, e', hrun⟩
  · intro m e' hrun
    obtain ⟨rows, ⟨ho, he⟩ | ⟨-, -, hj⟩⟩ := (merge_ends h hshaped hfresh ids target user).ok_of_run hrun
    · obtain ⟨hone, hplen⟩ := Pool.single_of_mergeOutcome h ho
      exact .inl ⟨hone, hplen, he⟩
    · exact .inr hj
  · exact merge_same_but h hshaped hfresh target user user' hset hfresh'

/-- Two neighbours of length 25 are merged, named in the wrong order and one of them twice. -/
theorem merge_iff_sample :
    let e := Operation.afterAll (Operation.sample ++ [.onRanges .v4 (.counting 32) none (.split (.ofBits 17) 25)]) (empty .standard)
    ∃ m e', (merge .v4 (.counting 64) [.ofBits 33, .ofBits 32, .ofBits 33] 24 none).run e = (.ok m, e') ∧
      (e.pool .v4).Joined [.ofBits 33, .ofBits 32, .ofBits 33] 24 m (e'.pool .v4).store.table ∧
      ((merge .v4 (.counting 96) [.ofBits 32, .ofBits 33] 24 none).run e).1.toOption.map Range.unstamped = some m.unstamped := by
  intro e
  have hreached : Reached (fun _ => true) (empty .standard) e := reached_afterAll _ rfl
  have hsound := (reached_sound (sound_empty .standard) hreached).pool .v4
  have hfresh : (Stamp.counting 64).Fresh (e.pool .v4).store.table 1 := ⟨by decide, by decide +kernel⟩
  have hfresh' : (Stamp.counting 96).Fresh (e.pool .v4).store.table 1 := ⟨by decide, by decide +kernel⟩
  have hlength : ((e.pool .v4).members [.ofBits 33, .ofBits 32, .ofBits 33]).length = 2 := by decide +kernel
  have hmergeable : (e.pool .v4).Mergeable [.ofBits 33, .ofBits 32, .ofBits 33] 24 := {
    one_le := by decide
    card_le := by decide +kernel
    length_pos := by decide
    length_le := by decide
    stored := fun id hid => Table.isSome_get?_iff hsound.valid |>.1 <| by
      have hall : [Identifier.ofBits 33, .ofBits 32, .ofBits 33].all fun id => ((e.pool .v4).store.table.get? id).isSome := by
        decide +kernel
      exact List.all_eq_true.1 hall id hid
    alike := Pool.alike_of_checkMembers (fun r hr => hsound.shaped r ((Pool.mem_members hsound.toAtRest).1 hr).1)
      (List.ne_nil_of_length_pos (by rw [hlength]; decide)) (Pool.ascending_members hsound.toAtRest _) (by decide +kernel) }
  obtain ⟨hok, hmade, hsame⟩ := merge_iff hsound.toAtRest hsound.shaped hfresh [.ofBits 33, .ofBits 32, .ofBits 33] 24 none
  obtain ⟨m, e', hrun⟩ := hok.2 hmergeable
  obtain ⟨hagain, -⟩ := hsame [.ofBits 32, .ofBits 33] (.counting 96) none (fun id => by
    simp only [List.mem_cons, List.not_mem_nil, or_false]
    grind) hfresh'
  rw [hrun] at hagain
  refine ⟨m, e', hrun, ?_, hagain⟩
  rcases hmade m e' hrun with ⟨hone, -⟩ | hjoined
  · rw [hone] at hlength
    cases hlength
  · exact hjoined

end Engine

end AddressSpace
