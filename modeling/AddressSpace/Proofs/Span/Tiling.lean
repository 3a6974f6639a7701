import Mathlib.Data.List.Basic
import AddressSpace.Proofs.Outcome
import AddressSpace.Span.Partition
import AddressSpace.Span.Subnets
/-!
# Tilings

A list of intervals tiles a run of numbers when each starts right after the one before it. The subnets of a span tile it
(`pieces_tile`), and so do the entries of a plan that is accepted (`tiles_of_checkPlan`): every address of the span lies in
one of them, and nothing else does.
-/

namespace AddressSpace

namespace Interval

/-- The intervals follow each other from `a` on, and the last one ends right before `b`. -/
def Tiles (a b : Nat) : List Interval → Prop
  | [] => a = b
  | i :: is => i.first = a ∧ i.first ≤ i.last ∧ Tiles (i.last + 1) b is

/-- What is tiled does not end before it starts. -/
theorem Tiles.le {a b : Nat} {is : List Interval} (h : Tiles a b is) : a ≤ b := by
  induction is generalizing a with
  | nil => exact Nat.le_of_eq h
  | cons i is ih =>
    obtain ⟨hfirst, hle, hrest⟩ := h
    have := ih hrest
    omega

/-- Each interval lies in the run that is tiled. -/
theorem Tiles.bounds {a b : Nat} {is : List Interval} (h : Tiles a b is) {i : Interval} (hi : i ∈ is) :
    a ≤ i.first ∧ i.first ≤ i.last ∧ i.last < b := by
  induction is generalizing a with
  | nil => cases hi
  | cons j is ih =>
    obtain ⟨hfirst, hle, hrest⟩ := h
    rcases List.mem_cons.1 hi with rfl | hi
    · have := hrest.le
      omega
    · have := ih hrest hi
      omega

/-- A number lies in the run just when it lies in one of the intervals. -/
theorem Tiles.exists_contains_iff {a b : Nat} {is : List Interval} (h : Tiles a b is) (n : Nat) :
    (∃ i ∈ is, i.contains n = true) ↔ a ≤ n ∧ n < b := by
  constructor
  · rintro ⟨i, hi, hn⟩
    have := h.bounds hi
    simp only [contains, Bool.and_eq_true, decide_eq_true_eq] at hn
    omega
  · rintro ⟨ha, hb⟩
    induction is generalizing a with
    | nil =>
      have : a = b := h
      omega
    | cons j is ih =>
      obtain ⟨hfirst, hle, hrest⟩ := h
      by_cases hn : n ≤ j.last
      · refine ⟨j, by simp, ?_⟩
        simp only [contains, Bool.and_eq_true, decide_eq_true_eq]
        omega
      · obtain ⟨i, hi, hin⟩ := ih hrest (by omega)
        exact ⟨i, by simp [hi], hin⟩

/-- Each interval ends before any later one starts. -/
theorem Tiles.pairwise {a b : Nat} {is : List Interval} (h : Tiles a b is) : is.Pairwise fun i j => i.last < j.first := by
  induction is generalizing a with
  | nil => exact .nil
  | cons i is ih =>
    obtain ⟨-, -, hrest⟩ := h
    exact List.pairwise_cons.2 ⟨fun j hj => (hrest.bounds hj).1, ih hrest⟩

/-- Two tilings, one after the other, are one. -/
theorem tiles_append {a b : Nat} {is js : List Interval} : Tiles a b (is ++ js) ↔ ∃ m, Tiles a m is ∧ Tiles m b js := by
  induction is generalizing a with
  | nil => exact ⟨fun h => ⟨a, rfl, h⟩, fun ⟨_, ha, h⟩ => ha.symm ▸ h⟩
  | cons i is ih =>
    simp only [List.cons_append, Tiles, ih]
    constructor
    · rintro ⟨hfirst, hle, m, his, hjs⟩
      exact ⟨m, ⟨hfirst, hle, his⟩, hjs⟩
    · rintro ⟨m, ⟨hfirst, hle, his⟩, hjs⟩
      exact ⟨hfirst, hle, m, his, hjs⟩

/-- A run with an interval in it is not empty. -/
theorem Tiles.lt {a b : Nat} {is : List Interval} (h : Tiles a b is) (hne : is ≠ []) : a < b := by
  obtain ⟨i, hi⟩ := List.exists_mem_of_ne_nil is hne
  have := h.bounds hi
  omega

/-- Tilings of what tiles a run, one after the other, are a tiling of the run. -/
theorem tiles_flatMap {α : Type} {a b : Nat} {xs : List α} {f : α → Interval} {g : α → List Interval} (h : Tiles a b (xs.map f))
    (hg : ∀ x ∈ xs, Tiles (f x).first ((f x).last + 1) (g x)) : Tiles a b (xs.flatMap g) := by
  induction xs generalizing a with
  | nil => exact h
  | cons x xs ih =>
    obtain ⟨rfl, -, hrest⟩ := h
    obtain ⟨hx, hxs⟩ := List.forall_mem_cons.1 hg
    rw [List.flatMap_cons]
    exact tiles_append.2 ⟨_, hx, ih hrest hxs⟩

/-- Two tilings of one run are the same when in both of them each interval ends where it does for its start. -/
theorem Tiles.eq_of_last {a b : Nat} {is js : List Interval} {f : Nat → Nat} (h : Tiles a b is) (h' : Tiles a b js)
    (hi : ∀ i ∈ is, i.last = f i.first) (hj : ∀ j ∈ js, j.last = f j.first) : is = js := by
  induction is generalizing a js with
  | nil =>
    by_contra hne
    exact Nat.lt_irrefl a (h ▸ h'.lt (Ne.symm hne))
  | cons i is ih =>
    cases js with
    | nil => exact absurd (h' ▸ h.lt (List.cons_ne_nil i is)) (Nat.lt_irrefl b)
    | cons j js =>
      obtain ⟨hifirst, -, hirest⟩ := h
      obtain ⟨hjfirst, -, hjrest⟩ := h'
      obtain ⟨hilast, his⟩ := List.forall_mem_cons.1 hi
      obtain ⟨hjlast, hjs⟩ := List.forall_mem_cons.1 hj
      have hlast : i.last = j.last := by rw [hilast, hjlast, hifirst, hjfirst]
      have hsame : i = j := Interval.mk.injEq .. ▸ ⟨hifirst.trans hjfirst.symm, hlast⟩
      rw [hlast] at hirest
      rw [hsame, ih hirest hjrest his hjs]

/-- An interval that is the whole run is the only one. -/
theorem Tiles.eq_singleton {a b : Nat} {is : List Interval} (h : Tiles a b is) {i : Interval} (hi : i ∈ is)
    (hfirst : i.first = a) (hlast : i.last + 1 = b) : is = [i] := by
  cases is with
  | nil => cases hi
  | cons j is =>
    have htile := h
    obtain ⟨hj, hle, hrest⟩ := h
    have hij : i = j := by
      rcases List.mem_cons.1 hi with rfl | hi'
      · rfl
      · have := hrest.bounds hi'
        omega
    subst hij
    cases is with
    | nil => rfl
    | cons k is =>
      have := htile.bounds (i := k) (by simp)
      obtain ⟨hk, -, -⟩ := hrest
      omega

/-- Ascending intervals that hold the numbers of a run and no others tile it. -/
theorem tiles_of_contains_iff {a b : Nat} {is : List Interval} (hle : a ≤ b)
    (ho : ∀ i ∈ is, i.first ≤ i.last) (hasc : is.Pairwise fun i j => i.last < j.first)
    (h : ∀ n, (∃ i ∈ is, i.contains n = true) ↔ a ≤ n ∧ n < b) : Tiles a b is := by
  simp only [contains, Bool.and_eq_true, decide_eq_true_eq] at h
  induction is generalizing a with
  | nil =>
    -- the first number of a run that is not empty would lie in no interval
    have hfirst := mt (h a).2 (by simp)
    show a = b
    omega
  | cons i is ih =>
    obtain ⟨hi, hrest⟩ := List.pairwise_cons.1 hasc
    obtain ⟨hile, ho⟩ := List.forall_mem_cons.1 ho
    have hilast := (h i.last).1 ⟨i, by simp, hile, Nat.le_refl _⟩
    have hifirst := (h i.first).1 ⟨i, by simp, Nat.le_refl _, hile⟩
    -- later intervals start behind this one, so that it is this one that holds the first number
    have hstart : i.first = a := by
      obtain ⟨j, hj, hja, haj⟩ := (h a).2 ⟨Nat.le_refl _, by omega⟩
      rcases List.mem_cons.1 hj with rfl | hj
      · omega
      · have := hi j hj
        omega
    refine ⟨hstart, hile, ih (by omega) ho hrest fun n => ?_⟩
    constructor
    · rintro ⟨j, hj, hn⟩
      have hbounds := (h n).1 ⟨j, List.mem_cons_of_mem _ hj, hn⟩
      have := hi j hj
      omega
    · rintro ⟨hin, hnb⟩
      obtain ⟨j, hj, hn⟩ := (h n).2 ⟨by omega, hnb⟩
      rcases List.mem_cons.1 hj with rfl | hj
      · omega
      · exact ⟨j, hj, hn⟩

end Interval

namespace Span

variable {F : Family}

/-! ## Spans that follow each other -/

/-- Spans in order, each right before the next, tile the run from the first to the last. -/
theorem tiles_of_chain {first last : Span F} {l : List (Span F)} (hf : l.head? = some first)
    (hl : l.getLast? = some last) (ho : ∀ x ∈ l, x.start ≤ x.stop)
    (hc : l.IsChain fun x y => x.stop.contiguous y.start = true) :
    Interval.Tiles first.start.bits (last.stop.bits + 1) (l.map interval) := by
  induction l generalizing first with
  | nil => cases hf
  | cons s l ih =>
    cases hf
    cases l with
    | nil =>
      cases hl
      exact ⟨rfl, ho s (by simp), rfl⟩
    | cons t l =>
      obtain ⟨hst, hrest⟩ := List.isChain_cons_cons.1 hc
      have htile := @ih t rfl (by simpa using hl) (fun x hx => ho x (List.mem_cons_of_mem _ hx)) hrest
      refine ⟨rfl, ho s (by simp), ?_⟩
      rw [show s.interval.last + 1 = t.start.bits from (beq_iff_eq.1 hst).symm]
      exact htile

/-- Each of the spans that tile a run is right before the next. -/
theorem chain_of_tiles {a b : Nat} {l : List (Span F)} (h : Interval.Tiles a b (l.map interval)) :
    l.IsChain fun x y => x.stop.contiguous y.start = true := by
  induction l generalizing a with
  | nil => exact .nil
  | cons s l ih =>
    obtain ⟨-, -, hrest⟩ := h
    cases l with
    | nil => exact .singleton s
    | cons t l => exact List.isChain_cons_cons.2 ⟨beq_iff_eq.2 hrest.1, ih hrest⟩

/-- The first of the spans that tile `s` starts where `s` starts, and the last one ends where `s` ends. -/
theorem ends_of_tiles {s first last : Span F} {l : List (Span F)}
    (h : Interval.Tiles s.start.bits (s.stop.bits + 1) (l.map interval)) (hf : l.head? = some first)
    (hl : l.getLast? = some last) : first.start = s.start ∧ last.stop = s.stop := by
  obtain ⟨rest, rfl⟩ := List.head?_eq_some_iff.1 hf
  refine ⟨Address.ext_bits h.1, ?_⟩
  obtain ⟨before, hbefore⟩ := List.getLast?_eq_some_iff.1 hl
  rw [hbefore, List.map_append, Interval.tiles_append] at h
  obtain ⟨_, -, -, -, hend⟩ := h
  exact Address.ext_bits (Nat.succ.inj hend)

/-- A span that is one of those that tile it is the only one. -/
theorem eq_singleton_of_tiles {s : Span F} {spans : List (Span F)}
    (h : Interval.Tiles s.start.bits (s.stop.bits + 1) (spans.map interval)) (hs : s ∈ spans) : spans = [s] := by
  have hone := h.eq_singleton (List.mem_map_of_mem hs) rfl rfl
  obtain ⟨t, rfl, -⟩ := List.map_eq_singleton_iff.1 hone
  rw [List.mem_singleton.1 hs]

/-! ## Subnets -/

/-- The pieces from the `n`-th on tile the span from where the `n`-th starts. -/
theorem pieces_tile_from {start stop size : Nat} (hle : start ≤ stop) (hsize : 0 < size) (m : Nat) :
    ∀ n, start / size ≤ n → n + m = stop / size + 1 →
      Interval.Tiles (min (max (n * size) start) (stop + 1)) (stop + 1)
        ((List.range' n m).map fun k => ⟨max (k * size) start, min (k * size + (size - 1)) stop⟩) := by
  induction m with
  | zero =>
    intro n _ hn
    have : stop < n * size := by
      rw [show n = stop / size + 1 from by omega, Nat.mul_comm]
      exact Nat.lt_mul_div_succ stop hsize
    show min (max (n * size) start) (stop + 1) = stop + 1
    omega
  | succ m ih =>
    intro n hfirst hn
    have hstop : n * size ≤ stop := by
      have : n * size ≤ stop / size * size := Nat.mul_le_mul_right size (by omega)
      have := Nat.div_mul_le_self stop size
      omega
    have hstart : start < (n + 1) * size := by
      have h1 : start < size * (start / size + 1) := Nat.lt_mul_div_succ start hsize
      have h2 : (start / size + 1) * size ≤ (n + 1) * size := Nat.mul_le_mul_right size (by omega)
      rw [Nat.mul_comm] at h1
      omega
    have htile := ih (n + 1) (by omega) (by omega)
    rw [Nat.succ_mul] at htile hstart
    rw [List.range'_succ, List.map_cons]
    refine ⟨?_, ?_, ?_⟩
    · show max (n * size) start = min (max (n * size) start) (stop + 1)
      omega
    · show max (n * size) start ≤ min (n * size + (size - 1)) stop
      omega
    · have hnext : min (n * size + (size - 1)) stop + 1 = min (max (n * size + size) start) (stop + 1) := by omega
      rw [hnext]
      exact htile

/-- The bounds of a piece that does not start behind the span. -/
theorem piece_interval {s : Span F} {target : UInt8} {n : Nat} (hle : s.start ≤ s.stop)
    (hn : n * (1 <<< (F.width - target.toNat)) ≤ s.stop.bits) :
    (s.piece target n).interval = ⟨max (n * (1 <<< (F.width - target.toNat))) s.start.bits,
      min (n * (1 <<< (F.width - target.toNat)) + (1 <<< (F.width - target.toNat) - 1)) s.stop.bits⟩ := by
  have hle' : s.start.bits ≤ s.stop.bits := hle
  have hsize := s.stop.isLt
  simp only [piece, interval, Address.ofBits, Interval.mk.injEq]
  exact ⟨Nat.mod_eq_of_lt (by omega), Nat.mod_eq_of_lt (by omega)⟩

/-- The subnets of a span tile it. -/
theorem pieces_tile {s : Span F} (h : s.start ≤ s.stop) (target : UInt8) :
    Interval.Tiles s.start.bits (s.stop.bits + 1) ((s.pieces target).map interval) := by
  have hle : s.start.bits ≤ s.stop.bits := h
  have hsize : 0 < 1 <<< (F.width - target.toNat) := Nat.pos_of_neZero _
  have hpiece := fun n => @piece_interval F s target n h
  unfold pieces
  rw [List.map_map]
  generalize 1 <<< (F.width - target.toNat) = size at hsize hpiece ⊢
  have hfirst : s.start.bits / size * size ≤ s.start.bits := Nat.div_mul_le_self _ _
  have hdiv : s.start.bits / size ≤ s.stop.bits / size := Nat.div_le_div_right hle
  have htile := pieces_tile_from hle hsize (s.stop.bits / size + 1 - s.start.bits / size) (s.start.bits / size)
    (Nat.le_refl _) (by omega)
  rw [show min (max (s.start.bits / size * size) s.start.bits) (s.stop.bits + 1) = s.start.bits by omega] at htile
  rw [List.map_congr_left fun n hn => ?_]
  · exact htile
  · have hn' : n ≤ s.stop.bits / size := by
      have := List.mem_range'_1.1 hn
      omega
    exact hpiece n (Nat.le_trans (Nat.mul_le_mul_right size hn') (Nat.div_mul_le_self _ _))

/-! ## Plans -/

/-- An entry is accepted when it has a length between the source's and the width, its bounds are in order, and it follows
the entry before it. -/
theorem checkEntry_eq_ok_iff {source entry : Span F} {before : Option (Span F)} :
    checkEntry source before entry = .ok () ↔
      source.plen ≤ entry.plen ∧ entry.plen.toNat ≤ F.width ∧ entry.start ≤ entry.stop ∧
        ∀ b, before = some b → b.stop.contiguous entry.start = true := by
  unfold checkEntry
  simp only [refuse_bind_eq_ok_iff, UInt8.not_lt, Nat.not_lt]
  refine and_congr_right fun _ => and_congr_right fun _ => and_congr Nat.not_lt ?_
  cases before with
  | none => exact ⟨fun _ => nofun, fun _ => rfl⟩
  | some b =>
    simp only [refuse_eq_ok_iff, Bool.not_eq_true', Bool.not_eq_false]
    exact ⟨fun h _ he => Option.some.inj he ▸ h, fun h => h b rfl⟩

/-- Entries are accepted when each has such a length, its bounds are in order, and each follows the one before it. -/
theorem checkEntries_eq_ok_iff {source : Span F} {before : Option (Span F)} {entries : List (Span F)} :
    checkEntries source before entries = .ok () ↔
      (∀ x ∈ entries, source.plen ≤ x.plen ∧ x.plen.toNat ≤ F.width ∧ x.start ≤ x.stop) ∧
        (before.toList ++ entries).IsChain fun x y => x.stop.contiguous y.start = true := by
  induction entries generalizing before with
  | nil => cases before <;> simp [checkEntries]
  | cons entry entries ih =>
    rw [checkEntries, check_bind_eq_ok_iff, checkEntry_eq_ok_iff, ih, List.forall_mem_cons]
    cases before with
    | none =>
      constructor
      · rintro ⟨⟨hlonger, hwidth, hle, -⟩, hall, hchain⟩
        exact ⟨⟨⟨hlonger, hwidth, hle⟩, hall⟩, hchain⟩
      · rintro ⟨⟨⟨hlonger, hwidth, hle⟩, hall⟩, hchain⟩
        exact ⟨⟨hlonger, hwidth, hle, nofun⟩, hall, hchain⟩
    | some b =>
      rw [show (some b).toList ++ entry :: entries = b :: entry :: entries from rfl, List.isChain_cons_cons]
      constructor
      · rintro ⟨⟨hlonger, hwidth, hle, hbefore⟩, hall, hchain⟩
        exact ⟨⟨⟨hlonger, hwidth, hle⟩, hall⟩, hbefore b rfl, hchain⟩
      · rintro ⟨⟨⟨hlonger, hwidth, hle⟩, hall⟩, hnext, hchain⟩
        exact ⟨⟨hlonger, hwidth, hle, fun _ he => Option.some.inj he ▸ hnext⟩, hall, hchain⟩

/-- A plan that is accepted has no more entries than it may have, and its entries are accepted. -/
theorem entries_of_checkPlan {source : Span F} {plan : List (Span F)} {most : Nat} (h : source.checkPlan plan most = .ok ()) :
    plan.length ≤ most ∧ ∃ first last, plan.head? = some first ∧ plan.getLast? = some last ∧ first.start = source.start ∧
      last.stop = source.stop ∧ checkEntries source none plan = .ok () := by
  cases plan with
  | nil => cases h
  | cons first rest =>
    unfold checkPlan at h
    obtain ⟨last, hlast⟩ : ∃ last, (first :: rest).getLast? = some last := ⟨_, List.getLast?_eq_some_getLast (by simp)⟩
    simp only [hlast, List.head?_cons, refuse_bind_eq_ok_iff, ne_eq, Classical.not_not] at h
    obtain ⟨hmost, hstart, hstop, hentries⟩ := h
    exact ⟨Nat.not_lt.1 hmost, first, last, rfl, hlast, hstart, hstop, hentries⟩

/-- The entries of an accepted plan tile the source. -/
theorem tiles_of_checkPlan {source : Span F} {plan : List (Span F)} {most : Nat}
    (h : source.checkPlan plan most = .ok ()) :
    Interval.Tiles source.start.bits (source.stop.bits + 1) (plan.map interval) := by
  obtain ⟨-, first, last, hfirst, hlast, hstart, hstop, hentries⟩ := entries_of_checkPlan h
  obtain ⟨hall, hchain⟩ := checkEntries_eq_ok_iff.1 hentries
  rw [← hstart, ← hstop]
  exact tiles_of_chain hfirst hlast (fun x hx => (hall x hx).2.2) hchain

end Span

end AddressSpace
