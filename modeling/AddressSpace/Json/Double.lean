import AddressSpace.Json.Reader
/-!
# Numbers beyond the doubles

A number that is no 64-bit integer is taken for a double: its leading digits, as many of them as 64 bits hold, and a
power of ten are rounded to doubles, and the product is rounded once more. `beyondDouble` tells when this leaves the
doubles; close to the largest double that is not always when the exact value does.
-/

namespace AddressSpace.Json

/-- The binary digits of a number that do not fit into the 53 of a double. -/
def excess (n : Nat) : Nat := Nat.log2 n + 1 - 53

/-- The nearest number with 53 binary digits before its zeros, the even one of two that are equally near. -/
def roundDouble (n : Nat) : Nat :=
  let unit := 1 <<< excess n
  let floor := n / unit
  let double := 2 * (n % unit)
  if unit < double ∨ (unit = double ∧ floor % 2 = 1) then (floor + 1) * unit else floor * unit

/-- A number of at most 53 binary digits is a double. -/
theorem roundDouble_of_excess {n : Nat} (h : excess n = 0) : roundDouble n = n := by
  simp [roundDouble, h, Nat.mod_one]

/-- Puts digits behind the number `top` as long as the result has 64 bits; the rest of the digits is left. -/
def leading (top : Nat) : List Char → Nat × List Char
  | [] => (top, [])
  | c :: cs =>
    let next := top * 10 + (c.toNat - '0'.toNat)
    if next < UInt64.size then leading next cs else (top, c :: cs)

/-- Whether the digits `significand` with so many zeros behind them are beyond all doubles. -/
def overflows (significand zeros : Nat) : Bool :=
  if 308 < zeros then true
  else 1 <<< 1024 ≤ roundDouble (roundDouble significand * roundDouble (Nat.pow 10 zeros))

/-- Whether a number is beyond all doubles. Digits that 64 bits do not hold count as zeros before the point, and not at
all behind it. -/
def beyondDouble (literal : List Char) : Bool :=
  let (mantissa, exponent) := literal.span fun c => c ≠ 'e' ∧ c ≠ 'E'
  let whole := (mantissa.takeWhile (· ≠ '.')).filter isDigit
  let fraction := (mantissa.dropWhile (· ≠ '.')).filter isDigit
  let (top, dropped) := leading 0 whole
  let (significand, ignored) := leading top fraction
  let given := ((Text.readDigits 10 0 (exponent.filter isDigit)).getD 0 : Int)
  let power := (if exponent.contains '-' then -given else given) + dropped.length + ignored.length - fraction.length
  if significand = 0 ∨ power < 0 then false else overflows significand power.toNat

end AddressSpace.Json
