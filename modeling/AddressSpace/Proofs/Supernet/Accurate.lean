import AddressSpace.Proofs.Supernet.Warehouse
/-!
# What a current supernet says

A tally is kept in words of 64 bits, and it recognizes that one range covers a supernet by comparing numbers of addresses
(`derived_of_rolledUp`). Of a valid table of ranges this is exact: what a current supernet says of its addresses is true of them as
numbers, and of its rollup as a statement on the bounds of the ranges inside (`Current.accurate`).
-/

namespace AddressSpace

/-- The ranges that lie between the bounds of a span, in ascending order. -/
def Store.within (ranges : Store .v4) (span : Span .v4) : List (Range .v4) :=
  ranges.toList.filter fun r => span.start ≤ r.span.start && r.span.stop ≤ span.stop

/-- The numbers and the rollup of a supernet are true of the ranges. -/
structure Supernet.Accurate (ranges : Store .v4) (s : Supernet) : Prop where
  total : s.total.toNat = s.span.stop.bits - s.span.start.bits + 1
  used : s.used.toNat = (((ranges.within s.span).filter (·.status == .assigned)).map (·.span.size)).sum
  outOfWarehouse : s.rollup = .outOfWarehouse ↔ ranges.within s.span = []
  inWarehouse : s.rollup = .inWarehouse ↔
    ∃ r, ranges.within s.span = [r] ∧ r.span.start = s.span.start ∧ r.span.stop = s.span.stop
  divided : s.rollup = .divided ↔
    ranges.within s.span ≠ [] ∧
      ∀ r, ranges.within s.span = [r] → ¬(r.span.start = s.span.start ∧ r.span.stop = s.span.stop)

/-- The used addresses of a supernet are those of the assigned ranges inside it, and its rollup is the one that these ranges and
the total it carries give. -/
structure Supernet.Derived (ranges : Store .v4) (s : Supernet) : Prop where
  used : s.used.toNat = (((ranges.within s.span).filter (·.status == .assigned)).map (·.span.size)).sum
  outOfWarehouse : s.rollup = .outOfWarehouse ↔ ranges.within s.span = []
  inWarehouse : s.rollup = .inWarehouse ↔ ∃ r, ranges.within s.span = [r] ∧ s.total.toNat ≤ r.span.size
  divided : s.rollup = .divided ↔
    ranges.within s.span ≠ [] ∧ ∀ r, ranges.within s.span = [r] → ¬s.total.toNat ≤ r.span.size

namespace Warehouse

variable {ranges : Store .v4} {s : Supernet}

/-- The ranges within a span are those that start and end in it. -/
theorem mem_within (ht : ranges.table.Valid) {span : Span .v4} {r : Range .v4} :
    r ∈ ranges.within span ↔
      r ∈ ranges.table ∧ span.start.bits ≤ r.span.start.bits ∧ r.span.stop.bits ≤ span.stop.bits := by
  rw [Store.within, List.mem_filter, Store.toList, Table.mem_toList ht, Bool.and_eq_true, decide_eq_true_eq,
    decide_eq_true_eq]
  rfl

/-- In a valid table the ranges inside two bounds are those that start and end within them. -/
theorem inside_eq_within (ht : ranges.table.Valid) (span : Span .v4) :
    ranges.inside span.start span.stop = ranges.within span :=
  Table.inside_eq_filter ht span.interval

/-- The numbers of addresses of the 32-bit family fit. -/
theorem size_lt (span : Span .v4) : span.size < UInt64.size := by
  have hstop := span.stop.isLt
  have hsize : Family.v4.size = 4294967296 := rfl
  have hword : UInt64.size = 18446744073709551616 := rfl
  unfold Span.size
  omega

/-- The size of a span of the 32-bit family can be saved as it is. -/
theorem toNat_countWord_size (span : Span .v4) : (countWord span.size).toNat = span.size :=
  Tally.toNat_countWord (size_lt span)

/-- The assigned ranges inside a span have no more addresses than the span. -/
theorem sum_assigned_le (ht : ranges.table.Valid) (span : Span .v4) :
    (((ranges.within span).filter (·.status == .assigned)).map (·.span.size)).sum ≤ span.size := by
  have hmem : ∀ r ∈ (ranges.within span).filter (·.status == .assigned),
      r ∈ ranges.table ∧ span.start.bits ≤ r.span.start.bits ∧ r.span.stop.bits ≤ span.stop.bits := by
    intro r hr
    exact (mem_within ht).1 (List.mem_of_mem_filter hr)
  refine sum_size_le (fun r hr => (hmem r hr).2) (fun r hr => ht.ordered r (hmem r hr).1) ?_
  exact ((Table.pairwise_toList ht).filter _).filter _

/-- Whatever a supernet says of the ranges inside it is derived when its rollup is. -/
theorem derived_of_rolledUp (ht : ranges.table.Valid) (h : rolledUp ranges s = s) : s.Derived ranges := by
  have hused : (Tally.collect (ranges.inside s.span.start s.span.stop)).assigned.addresses = s.used :=
    congrArg Supernet.used h
  have hrollup : (Tally.collect (ranges.inside s.span.start s.span.stop)).rollup s.total = s.rollup :=
    congrArg Supernet.rollup h
  rw [Tally.rollup_collect, inside_eq_within ht] at hrollup
  have hfits : ∀ r : Range .v4, s.total ≤ countWord r.span.size ↔ s.total.toNat ≤ r.span.size := by
    intro r
    rw [UInt64.le_iff_toNat_le, toNat_countWord_size]
  simp only [hfits] at hrollup
  refine ⟨?_, ?_, ?_, ?_⟩
  · rw [← hused, inside_eq_within ht]
    exact Tally.toNat_assigned (Nat.lt_of_le_of_lt (sum_assigned_le ht s.span) (size_lt s.span))
  -- none inside, one that the total fits or does not fit, or several
  · rw [← hrollup]
    split <;> grind
  · rw [← hrollup]
    split <;> grind
  · rw [← hrollup]
    split <;> grind

/-- A range inside a supernet has as many addresses just when it has the same bounds. -/
theorem size_le_iff {span : Span .v4} {r : Range .v4} (ho : r.span.start.bits ≤ r.span.stop.bits)
    (hin : span.start.bits ≤ r.span.start.bits ∧ r.span.stop.bits ≤ span.stop.bits) :
    span.size ≤ r.span.size ↔ r.span.start = span.start ∧ r.span.stop = span.stop := by
  rw [Span.size, Span.size]
  constructor
  · intro hle
    exact ⟨Address.ext_bits (by omega), Address.ext_bits (by omega)⟩
  · intro hsame
    exact Nat.le_of_eq (by rw [hsame.1, hsame.2])

/-- What a current supernet says is true. -/
theorem Current.accurate (hc : Current ranges s) (ht : ranges.table.Valid) (hs : s.span.Shaped) : s.Accurate ranges := by
  have hderived := derived_of_rolledUp ht hc.rolledUp
  have hle : s.span.start.bits ≤ s.span.stop.bits := hs.start_le
  have htotal : s.total.toNat = s.span.size := by rw [hc.total, toNat_countWord_size]
  have hcovers : ∀ r, ranges.within s.span = [r] →
      (s.total.toNat ≤ r.span.size ↔ r.span.start = s.span.start ∧ r.span.stop = s.span.stop) := by
    intro r hr
    obtain ⟨hmem, hin⟩ := (mem_within ht).1 (hr ▸ List.mem_singleton.2 rfl : r ∈ ranges.within s.span)
    rw [htotal]
    exact size_le_iff (ht.ordered r hmem) hin
  refine ⟨?_, hderived.used, hderived.outOfWarehouse, ?_, ?_⟩
  · rw [htotal, Span.size]
    omega
  · rw [hderived.inWarehouse]
    exact exists_congr fun r => and_congr_right (hcovers r)
  · rw [hderived.divided]
    exact and_congr_right' (forall_congr' fun r => forall_congr' fun hr => not_congr (hcovers r hr))

end Warehouse

end AddressSpace
