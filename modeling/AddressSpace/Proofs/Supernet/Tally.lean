import Mathlib.Algebra.GroupWithZero.Nat
import AddressSpace.Proofs.Span.Shape
import AddressSpace.Supernet.Warehouse
/-!
# What a tally says

A tally of ranges depends on their spans and statuses alone (`collect_congr`). It counts the ranges (`ranges_collect`) and adds
up their addresses: as the ranges inside a supernet do not overlap, they have no more addresses than the supernet, and the sum
is one of numbers that fit (`toNat_assigned`, `sum_size_le`).
-/

namespace AddressSpace

variable {F : Family}

/-- What a tally looks at in a range. -/
def Range.digest (r : Range F) : Span F × Status := (r.span, r.status)

namespace Tally

variable {rs rs' : List (Range .v4)}

/-! ## What it depends on -/

/-- A share is taken of the spans and statuses alone. -/
theorem share_eq (status : Status) (rs : List (Range .v4)) :
    (share status rs).ids.length = ((rs.map Range.digest).filter (·.2 == status)).length ∧
      (share status rs).addresses =
        (((rs.map Range.digest).filter (·.2 == status)).map fun d => countWord d.1.size).foldl (· + ·) 0 := by
  have hfilter : (rs.map Range.digest).filter (·.2 == status) = (rs.filter (·.status == status)).map Range.digest := by
    rw [List.filter_map]
    rfl
  rw [hfilter, List.map_map]
  refine ⟨?_, rfl⟩
  rw [List.length_map]
  exact List.length_map ..

/-- A share depends on nothing of the ranges but their spans and statuses. -/
theorem share_congr (h : rs.map Range.digest = rs'.map Range.digest) (status : Status) :
    (share status rs).ids.length = (share status rs').ids.length ∧
      (share status rs).addresses = (share status rs').addresses := by
  obtain ⟨hlen, haddr⟩ := share_eq status rs
  obtain ⟨hlen', haddr'⟩ := share_eq status rs'
  rw [hlen, haddr, h, hlen', haddr']
  exact ⟨rfl, rfl⟩

/-- Ranges with the same spans and statuses have the same number, the same addresses and the same rollup. -/
theorem collect_congr (h : rs.map Range.digest = rs'.map Range.digest) :
    (collect rs).assigned.addresses = (collect rs').assigned.addresses ∧
      ∀ total, (collect rs).rollup total = (collect rs').rollup total := by
  obtain ⟨ha, ha'⟩ := share_congr h .assigned
  obtain ⟨hr, hr'⟩ := share_congr h .reserved
  obtain ⟨hw, hw'⟩ := share_congr h .wait
  refine ⟨ha', fun total => ?_⟩
  have hranges : (collect rs).ranges = (collect rs').ranges := by
    simp only [ranges, collect, ha, hr, hw]
  have haddresses : (collect rs).addresses = (collect rs').addresses := by
    simp only [addresses, collect, ha', hr', hw']
  unfold rollup
  rw [hranges, haddresses]

/-! ## What it counts -/

/-- A tally counts every range once. -/
theorem ranges_collect (rs : List (Range .v4)) : (collect rs).ranges = rs.length := by
  induction rs with
  | nil => rfl
  | cons r rs ih =>
    rw [List.length_cons, ← ih]
    simp only [ranges, collect, share, List.length_map, List.filter_cons]
    cases r.status <;> simp <;> omega

/-- A number that fits is kept as it is. -/
theorem toNat_countWord {n : Nat} (h : n < UInt64.size) : (countWord n).toNat = n := by
  unfold countWord
  rw [UInt64.toNat_ofNat']
  have : min n (UInt64.size - 1) = n := by omega
  rw [this]
  exact Nat.mod_eq_of_lt h

/-- A sum of numbers that fit, and that fits itself. -/
theorem toNat_foldl_countWord {ns : List Nat} {n : UInt64} (h : n.toNat + ns.sum < UInt64.size) :
    ((ns.map countWord).foldl (· + ·) n).toNat = n.toNat + ns.sum := by
  induction ns generalizing n with
  | nil => rfl
  | cons k ns ih =>
    rw [List.sum_cons] at h ⊢
    have hk : (n + countWord k).toNat = n.toNat + k := by
      rw [UInt64.toNat_add, toNat_countWord (by omega)]
      exact Nat.mod_eq_of_lt (by unfold UInt64.size at h; omega)
    rw [List.map_cons, List.foldl_cons, ih (by omega), hk]
    omega

/-- The assigned addresses of ranges that have few enough. -/
theorem toNat_assigned (h : ((rs.filter (·.status == .assigned)).map (·.span.size)).sum < UInt64.size) :
    (collect rs).assigned.addresses.toNat = ((rs.filter (·.status == .assigned)).map (·.span.size)).sum := by
  have hsum := @toNat_foldl_countWord ((rs.filter (·.status == .assigned)).map (·.span.size)) 0 (by simpa using h)
  rw [List.map_map] at hsum
  exact hsum.trans (Nat.zero_add _)

/-- A range alone has its own addresses. -/
theorem addresses_collect_singleton (r : Range .v4) : (collect [r]).addresses = countWord r.span.size := by
  cases hs : r.status <;> simp [addresses, collect, share, hs]

/-- The rollup, said of the ranges themselves. -/
theorem rollup_collect (rs : List (Range .v4)) (total : UInt64) :
    (collect rs).rollup total = match rs with
      | [] => .outOfWarehouse
      | [r] => if total ≤ countWord r.span.size then .inWarehouse else .divided
      | _ => .divided := by
  unfold rollup
  rw [ranges_collect]
  match rs with
  | [] => rfl
  | [r] => rw [addresses_collect_singleton]; rfl
  | _ :: _ :: _ => rfl

end Tally

/-! ## Ranges inside a span -/

/-- Ranges in ascending order inside an interval have no more addresses than the interval. -/
theorem sum_size_le {rs : List (Range F)} {a b : Nat} (hin : ∀ r ∈ rs, a ≤ r.span.start.bits ∧ r.span.stop.bits ≤ b)
    (ho : ∀ r ∈ rs, r.span.start.bits ≤ r.span.stop.bits)
    (hp : rs.Pairwise fun r s => r.span.stop.bits < s.span.start.bits) : (rs.map (·.span.size)).sum ≤ b + 1 - a := by
  induction rs generalizing a with
  | nil => exact Nat.zero_le _
  | cons r rs ih =>
    obtain ⟨hr, hrest⟩ := List.pairwise_cons.1 hp
    have := hin r (by simp)
    have := ho r (by simp)
    have := ih (a := r.span.stop.bits + 1)
      (fun s hs => ⟨hr s hs, (hin s (by simp [hs])).2⟩) (fun s hs => ho s (by simp [hs])) hrest
    rw [List.map_cons, List.sum_cons, Span.size]
    omega

end AddressSpace
