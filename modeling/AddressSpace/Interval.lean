/-!
# Intervals

Runs of natural numbers, by their first and their last. An interval whose last number is below its first is empty.
-/

namespace AddressSpace

/-- The numbers from `first` to `last`, both included. -/
structure Interval where
  first : Nat
  last : Nat
  deriving DecidableEq

namespace Interval

/-- Whether neither ends before the other starts. -/
def meets (i j : Interval) : Bool := i.first ≤ j.last && j.first ≤ i.last

/-- Whether `i` holds all of `j`. -/
def covers (i j : Interval) : Bool := i.first ≤ j.first && j.last ≤ i.last

/-- Whether `i` holds the number. -/
def contains (i : Interval) (n : Nat) : Bool := i.first ≤ n && n ≤ i.last

/-- Meeting is symmetric. -/
theorem meets_comm (i j : Interval) : i.meets j = j.meets i := Bool.and_comm _ _

/-- Two intervals that hold one number meet. -/
theorem meets_of_contains {i j : Interval} {n : Nat} (hi : i.contains n = true) (hj : j.contains n = true) :
    i.meets j = true := by
  simp only [contains, meets, Bool.and_eq_true, decide_eq_true_eq] at *
  omega

end Interval

end AddressSpace
