import Mathlib.Data.List.Sort
import AddressSpace.Proofs.Pool.Members
import AddressSpace.Proofs.Supernet.Warehouse
/-!
# Supernets follow the ranges

A rollup depends on the spans and statuses of the ranges inside the supernet (`map_digest_inside`). Every transition announces a
span around each row whose span or status it changes (`Transition.heard`), so that a supernet that meets no announced span has
inside it what it had before, and stays current (`Current.follow`). When the others are derived anew, all are (`refresh_current`).
-/

namespace AddressSpace

variable {F : Family}

namespace Interval

theorem covers_self (i : Interval) : i.covers i = true := by
  simp [covers]

/-- Two intervals that hold all of a third that is not empty meet. -/
theorem meets_of_covers {i j k : Interval} (hi : i.covers k = true) (hj : j.covers k = true) (hk : k.first ≤ k.last) :
    i.meets j = true := by
  simp only [covers, meets, Bool.and_eq_true, decide_eq_true_eq] at *
  omega

end Interval

/-! ## What lies inside an interval -/

namespace Table

variable {t u : Table (Range F)} {i : Interval}

/-- The digests inside an interval are those of the stored rows whose span it covers. -/
theorem mem_digest_inside (ht : t.Valid) {d : Span F × Status} :
    d ∈ (t.inside i).map Range.digest ↔ (∃ r ∈ t, r.digest = d) ∧ i.covers d.1.interval = true := by
  simp only [List.mem_map, inside_eq_filter ht, List.mem_filter, mem_toList ht]
  constructor
  · rintro ⟨r, ⟨hr, hin⟩, rfl⟩
    exact ⟨⟨r, hr, rfl⟩, hin⟩
  · rintro ⟨⟨r, hr, rfl⟩, hin⟩
    exact ⟨r, ⟨hr, hin⟩, rfl⟩

/-- The ranges inside an interval start in ascending order. -/
theorem pairwise_digest_inside (ht : t.Valid) (i : Interval) :
    ((t.inside i).map Range.digest).Pairwise fun d e => d.1.start.bits < e.1.start.bits := by
  rw [List.pairwise_map, inside_eq_filter ht]
  exact (pairwise_first_toList ht).filter _

/-- Two tables whose rows inside an interval have the same spans and statuses have the same of them there. -/
theorem map_digest_inside (ht : t.Valid) (hu : u.Valid)
    (h : ∀ d : Span F × Status, d.1.interval.first ≤ d.1.interval.last → i.covers d.1.interval = true →
      ((∃ r ∈ t, r.digest = d) ↔ ∃ r ∈ u, r.digest = d)) :
    (t.inside i).map Range.digest = (u.inside i).map Range.digest := by
  have : Std.Irrefl fun d e : Span F × Status => d.1.start.bits < e.1.start.bits := ⟨fun _ => Nat.lt_irrefl _⟩
  have : Std.Antisymm fun d e : Span F × Status => d.1.start.bits < e.1.start.bits :=
    ⟨fun _ _ hlt hgt => absurd hgt (Nat.lt_asymm hlt)⟩
  refine (pairwise_digest_inside ht i).eq_of_mem_iff (pairwise_digest_inside hu i) fun d => ?_
  rw [mem_digest_inside ht, mem_digest_inside hu]
  refine and_congr_left fun hin => ⟨fun hd => ?_, fun hd => ?_⟩
  · obtain ⟨r, hr, rfl⟩ := hd
    exact (h r.digest (ht.ordered r hr) hin).1 ⟨r, hr, rfl⟩
  · obtain ⟨r, hr, rfl⟩ := hd
    exact (h r.digest (hu.ordered r hr) hin).2 ⟨r, hr, rfl⟩

end Table

/-! ## What a transition announces -/

namespace Range

/-- The row lies inside an announced span, or there is another with its span and status. -/
def Heard (spans : List (Span F)) (others : List (Range F)) (r : Range F) : Prop :=
  (∃ s ∈ spans, s.interval.covers r.span.interval = true) ∨ ∃ s ∈ others, s.digest = r.digest

/-- A range of which the span is announced is heard of. -/
theorem heard_of_mem {spans : List (Span F)} {others : List (Range F)} {r : Range F} (h : r.span ∈ spans) :
    r.Heard spans others := .inl ⟨r.span, h, r.span.interval.covers_self⟩

end Range

/-- The rows of a tiling lie inside the span that is tiled. -/
theorem Span.covers_of_tiles {s : Span F} {is : List Interval} (h : Interval.Tiles s.start.bits (s.stop.bits + 1) is)
    {i : Interval} (hi : i ∈ is) : s.interval.covers i = true := by
  obtain ⟨hfirst, -, hlast⟩ := h.bounds hi
  rw [Interval.covers, Bool.and_eq_true, decide_eq_true_eq, decide_eq_true_eq]
  exact ⟨hfirst, Nat.le_of_lt_succ hlast⟩

/-- Whatever a transition takes out or puts in is heard of. -/
theorem Transition.heard {stamp : Stamp} {event : Option (Event F)} {spans : List (Span F)} {old new : List (Range F)}
    (h : Transition stamp event spans old new) (ho : ∀ r ∈ old, r.span.start ≤ r.span.stop) :
    (∀ r ∈ old, r.Heard spans new) ∧ ∀ r ∈ new, r.Heard spans old := by
  have hone : ∀ {s : Range F} {spans : List (Span F)} {others : List (Range F)}, s.span ∈ spans →
      ∀ r ∈ [s], r.Heard spans others := by
    intro s spans others hs r hr
    rw [List.mem_singleton.1 hr]
    exact Range.heard_of_mem hs
  have hsame : ∀ {o n : Range F} {spans : List (Span F)}, n.digest = o.digest →
      (∀ r ∈ [o], r.Heard spans [n]) ∧ ∀ r ∈ [n], r.Heard spans [o] := by
    intro o n spans hd
    refine ⟨fun r hr => .inr ⟨n, List.mem_singleton.2 rfl, ?_⟩, fun r hr => .inr ⟨o, List.mem_singleton.2 rfl, ?_⟩⟩
    · rw [List.mem_singleton.1 hr, hd]
    · rw [List.mem_singleton.1 hr, hd]
  cases h with
  | stay => exact ⟨by simp, by simp⟩
  | added new => exact ⟨by simp, hone (by simp)⟩
  | edited edit hm hs => exact hsame (by simp [Range.digest, RangeEdit.row, hs]; rfl)
  | moved edit hm hs => exact ⟨hone (by simp), hone (by simp)⟩
  | deleted hm => exact ⟨hone (by simp), by simp⟩
  | reserved org hw => exact ⟨hone (by simp), hone (by simp)⟩
  | assigned org ha => exact ⟨hone (by simp), hone (by simp)⟩
  | recovered hw => exact ⟨hone (by simp), hone (by simp)⟩
  | remarked userRemark adminRemark => exact hsame (by simp [Range.digest, Range.remarked])
  | @split source spans hm ht hne =>
    refine ⟨hone (by simp), fun r hr => .inl ⟨source.span, List.mem_singleton.2 rfl, ?_⟩⟩
    have hspan : r.span ∈ spans := by
      rw [← Pool.map_span_named_parts source stamp.now stamp.rowId spans]
      exact List.mem_map_of_mem hr
    exact Span.covers_of_tiles ht (List.mem_map_of_mem hspan)
  | @merged _ first last target hf hl hc hne =>
    refine ⟨fun m hm => .inl ⟨_, List.mem_singleton.2 rfl, ?_⟩, hone (by simp)⟩
    have htile := Pool.tiles_of_members hf hl ho (Pool.checkMembers_eq_ok_iff.1 hc).2
    exact Span.covers_of_tiles (s := ⟨first.span.start, last.span.stop, target⟩) htile
      (List.mem_map_of_mem (List.mem_map_of_mem hm))

/-- A span and a status that no announced span holds are there after a change just when they were there before. -/
theorem Table.Swapped.exists_digest_iff {t t' : Table (Range F)} {old new : List (Range F)} {spans : List (Span F)}
    (hsw : t.Swapped old new t') (hold : ∀ r ∈ old, r.Heard spans new) (hnew : ∀ r ∈ new, r.Heard spans old)
    {d : Span F × Status} (hd : ∀ s ∈ spans, s.interval.covers d.1.interval = false) :
    (∃ r ∈ t, r.digest = d) ↔ ∃ r ∈ t', r.digest = d := by
  have hunheard : ∀ {r : Range F} {others : List (Range F)}, r.digest = d → r.Heard spans others →
      ∃ s ∈ others, s.digest = d := by
    rintro r others rfl (⟨s, hs, hcovers⟩ | hother)
    · cases hcovers.symm.trans (hd s hs)
    · exact hother
  constructor
  · rintro ⟨r, hr, hrd⟩
    by_cases hro : r ∈ old
    · obtain ⟨s, hs, hsd⟩ := hunheard hrd (hold r hro)
      exact ⟨s, hsw.new_mem hs, hsd⟩
    · exact ⟨r, hsw.kept hr hro, hrd⟩
  · rintro ⟨r, hr, hrd⟩
    rcases (hsw.mem_iff r).1 hr with ⟨hr, -⟩ | hr
    · exact ⟨r, hr, hrd⟩
    · obtain ⟨s, hs, hsd⟩ := hunheard hrd (hnew r hr)
      exact ⟨s, hsw.old_mem s hs, hsd⟩

/-! ## Rollups -/

namespace Warehouse

variable {ranges ranges' : Store .v4} {s : Supernet} {stamp : Stamp} {event : Option (Event .v4)}
  {spans : List (Span .v4)} {old new : List (Range .v4)}

/-- A rollup depends on nothing of the ranges inside but their spans and statuses. -/
theorem rolledUp_congr
    (h : (ranges.inside s.span.start s.span.stop).map Range.digest =
      (ranges'.inside s.span.start s.span.stop).map Range.digest) : rolledUp ranges s = rolledUp ranges' s := by
  obtain ⟨hused, hrollup⟩ := Tally.collect_congr h
  simp only [rolledUp, tally, hused, hrollup]

/-- Ranges with the same spans and statuses give the same rollup. -/
theorem rolledUp_of_digests (h : ranges.table.Valid) (h' : ranges'.table.Valid)
    (hd : ranges.toList.map Range.digest = ranges'.toList.map Range.digest) (s : Supernet) :
    rolledUp ranges s = rolledUp ranges' s := by
  have hinside : ∀ r : Store .v4, r.table.Valid → (r.inside s.span.start s.span.stop).map Range.digest =
      (r.toList.map Range.digest).filter fun d => s.span.interval.covers d.1.interval := by
    intro r hr
    rw [List.filter_map]
    exact congrArg (List.map Range.digest) (Table.inside_eq_filter hr s.span.interval)
  refine rolledUp_congr ?_
  rw [hinside ranges h, hinside ranges' h', hd]

/-- A transition that announces no span that a supernet meets changes nothing of its rollup. -/
theorem rolledUp_unmet (h : ranges.table.Valid) (hsw : ranges.table.Swapped old new ranges'.table)
    (htr : Transition stamp event spans old new) (hm : spans.any (·.meets s.span) = false) :
    rolledUp ranges' s = rolledUp ranges s := by
  obtain ⟨hold, hnew⟩ := htr.heard fun r hr => h.ordered r (hsw.old_mem r hr)
  refine (rolledUp_congr (Table.map_digest_inside h hsw.valid (i := s.span.interval) fun d hd hin => ?_)).symm
  refine hsw.exists_digest_iff hold hnew fun sp hsp => ?_
  rw [← Bool.not_eq_true]
  intro hcovers
  have hmeets : spans.any (·.meets s.span) = true := List.any_eq_true.2 ⟨sp, hsp, Interval.meets_of_covers hcovers hin hd⟩
  rw [hm] at hmeets
  cases hmeets

/-- A supernet that meets no announced span stays current. -/
theorem Current.follow (hc : Current ranges s) (h : ranges.table.Valid) (hsw : ranges.table.Swapped old new ranges'.table)
    (htr : Transition stamp event spans old new) (hm : spans.any (·.meets s.span) = false) : Current ranges' s :=
  ⟨(rolledUp_unmet h hsw htr hm).trans hc.rolledUp, hc.total⟩

/-- After a transition, the supernets that are derived anew are current, and the others still are. -/
theorem refresh_current {t : Table Supernet} (ht : t.Valid) (hc : ∀ s ∈ t, Current ranges s) (h : ranges.table.Valid)
    (hsw : ranges.table.Swapped old new ranges'.table) (htr : Transition stamp event spans old new) :
    ∀ s ∈ (refresh ranges' spans t).2, Current ranges' s := by
  intro s hs
  obtain ⟨r, hr, rfl⟩ := ((refresh_spec ranges' ht spans).2 s).1 hs
  split
  · exact (hc r hr).renew
  · rename_i hm
    exact (hc r hr).follow h hsw htr (Bool.not_eq_true _ ▸ hm)

/-- Supernets that follow a first change of the ranges and then a second one follow both at once. -/
theorem refresh_refresh {t : Table Supernet} (ht : t.Valid) (h : ranges.table.Valid)
    (hsw : ranges.table.Swapped old new ranges'.table) (htr : Transition stamp event spans old new) (first : List (Span .v4)) :
    (refresh ranges' spans (refresh ranges first t).2).2 = (refresh ranges' (first ++ spans) t).2 := by
  obtain ⟨hvalid₁, hmem₁⟩ := refresh_spec ranges ht first
  obtain ⟨hvalid₂, hmem₂⟩ := refresh_spec ranges' hvalid₁ spans
  obtain ⟨hvalid, hmem⟩ := refresh_spec ranges' ht (first ++ spans)
  -- a rollup that the second change does not touch is what it would be derived to after it
  have hboth : ∀ r : Supernet,
      (let r₁ := if first.any (·.meets r.span) then rolledUp ranges r else r
        if spans.any (·.meets r₁.span) then rolledUp ranges' r₁ else r₁) =
      if (first ++ spans).any (·.meets r.span) then rolledUp ranges' r else r := by
    intro r
    rw [List.any_append]
    cases hfirst : first.any (·.meets r.span) with
    | false => simp only [Bool.false_eq_true, if_false, Bool.false_or]
    | true =>
      simp only [if_true, rolledUp_span, Bool.true_or]
      cases hspans : spans.any (·.meets r.span) with
      | false => exact (rolledUp_unmet h hsw htr hspans).symm
      | true => rfl
  refine hvalid₂.ext hvalid fun s => ?_
  rw [hmem₂, hmem]
  constructor
  · intro hs
    obtain ⟨r₁, hr₁, rfl⟩ := hs
    obtain ⟨r, hr, rfl⟩ := (hmem₁ r₁).1 hr₁
    exact ⟨r, hr, hboth r⟩
  · intro hs
    obtain ⟨r, hr, rfl⟩ := hs
    exact ⟨_, (hmem₁ _).2 ⟨r, hr, rfl⟩, (hboth r).symm⟩

/-- What is derived anew depends on the spans and statuses of the ranges and on which spans are announced, not on their order. -/
theorem refresh_congr {t : Table Supernet} (ht : t.Valid) (h : ranges.table.Valid) (h' : ranges'.table.Valid)
    (hd : ranges.toList.map Range.digest = ranges'.toList.map Range.digest) {spans' : List (Span .v4)}
    (hspans : ∀ s, s ∈ spans ↔ s ∈ spans') : (refresh ranges spans t).2 = (refresh ranges' spans' t).2 := by
  obtain ⟨hvalid, hmem⟩ := refresh_spec ranges ht spans
  obtain ⟨hvalid', hmem'⟩ := refresh_spec ranges' ht spans'
  have hany : ∀ r : Supernet, spans.any (·.meets r.span) = spans'.any (·.meets r.span) := by
    intro r
    rw [Bool.eq_iff_iff, List.any_eq_true, List.any_eq_true]
    simp only [hspans]
  refine hvalid.ext hvalid' fun s => ?_
  simp only [hmem, hmem', hany, rolledUp_of_digests h h' hd]

end Warehouse

end AddressSpace
