/-!
# Numerals

Natural numbers in positional notation, written without leading zeros and read back. `value_digits` says that reading
undoes writing, in every base up to sixteen; `unsigned?` is the reader for numbers that come from outside, which also
takes a leading plus sign and leading zeros.
-/

namespace AddressSpace.Text

/-- The digit for `d < 16`, lower case. -/
def digitChar (d : Nat) : Char :=
  if d < 10 then Char.ofNat ('0'.toNat + d) else Char.ofNat ('a'.toNat + (d - 10))

/-- The value of a digit below sixteen, in either case. -/
def digitValue? (c : Char) : Option Nat :=
  if '0' ≤ c ∧ c ≤ '9' then some (c.toNat - '0'.toNat)
  else if 'a' ≤ c ∧ c ≤ 'f' then some (c.toNat - 'a'.toNat + 10)
  else if 'A' ≤ c ∧ c ≤ 'F' then some (c.toNat - 'A'.toNat + 10)
  else none

/-- The value of a digit of `base`. -/
def digitIn? (base : Nat) (c : Char) : Option Nat :=
  (digitValue? c).filter (· < base)

/-- Reads a possibly empty run of digits on top of the digits read so far. -/
def readDigits (base : Nat) : Nat → List Char → Option Nat
  | acc, [] => some acc
  | acc, c :: cs => (digitIn? base c).bind fun d => readDigits base (acc * base + d) cs

/-- The number a non-empty run of digits stands for; leading zeros do no harm. -/
def value? (base : Nat) (cs : List Char) : Option Nat :=
  if cs.isEmpty then none else readDigits base 0 cs

/-- The digits of `n`, most significant first, in front of `tail`. -/
def digitsBefore (base n : Nat) (tail : List Char) : List Char :=
  if _h : 1 < base ∧ base ≤ n then digitsBefore base (n / base) (digitChar (n % base) :: tail)
  else digitChar n :: tail
termination_by n
decreasing_by exact Nat.div_lt_self (by omega) _h.1

/-- The numeral of `n`: no leading zeros, and a lone zero for zero. -/
def digits (base n : Nat) : List Char := digitsBefore base n []

/-- Decimal text. -/
def decimal (n : Nat) : String := String.ofList (digits 10 n)

/-- The last `count` digits of `n`, with leading zeros. -/
def paddedDigits (base : Nat) : Nat → Nat → List Char
  | 0, _ => []
  | count + 1, n => paddedDigits base count (n / base) ++ [digitChar (n % base)]

/-- A number below `bound` from outside: decimal digits after an optional plus sign. -/
def unsigned? (bound : Nat) (cs : List Char) : Option Nat :=
  let body := match cs with
    | '+' :: rest => rest
    | _ => cs
  (value? 10 body).filter (· < bound)

/-! ## Reading undoes writing -/

/-- A digit that is written is read as its value. -/
theorem digitIn?_digitChar {base d : Nat} (hd : d < base) (hb : base ≤ 16) : digitIn? base (digitChar d) = some d := by
  have h : ∀ d < 16, digitValue? (digitChar d) = some d := by decide
  simp [digitIn?, h d (by omega), hd]

/-- Reading the digits of a number moves what was read so far up by a power of the base, and adds the number. -/
theorem readDigits_digitsBefore {base : Nat} (hb : 1 < base) (hb' : base ≤ 16) (n acc : Nat) (tail : List Char) :
    ∃ m, readDigits base acc (digitsBefore base n tail) = readDigits base (acc * m + n) tail ∧ n < m := by
  induction n using Nat.strongRecOn generalizing acc tail with
  | _ n ih =>
    rw [digitsBefore]
    split
    · rename_i h
      have hlt : n / base < n := Nat.div_lt_self (by omega) h.1
      obtain ⟨m, hm, hn⟩ := ih _ hlt acc (digitChar (n % base) :: tail)
      refine ⟨m * base, ?_, (Nat.div_lt_iff_lt_mul (by omega)).1 hn⟩
      rw [hm, readDigits, digitIn?_digitChar (Nat.mod_lt _ (by omega)) hb']
      simp only [Option.bind_some]
      congr 1
      have := Nat.div_add_mod n base
      rw [Nat.add_mul, Nat.mul_assoc, Nat.add_assoc, Nat.mul_comm (n / base) base, this]
    · rename_i h
      have hn : n < base := by omega
      refine ⟨base, ?_, hn⟩
      rw [readDigits, digitIn?_digitChar hn hb']
      simp

/-- Every number is written with a digit, whatever follows. -/
theorem digitsBefore_ne_nil (base n : Nat) (tail : List Char) : digitsBefore base n tail ≠ [] := by
  induction n using Nat.strongRecOn generalizing tail with
  | _ n ih =>
    rw [digitsBefore]
    split
    · rename_i h
      exact ih _ (Nat.div_lt_self (by omega) h.1) _
    · simp

/-- The numeral of `n` is read as `n`. -/
theorem value_digits {base : Nat} (hb : 1 < base) (hb' : base ≤ 16) (n : Nat) :
    value? base (digits base n) = some n := by
  obtain ⟨m, hm, -⟩ := readDigits_digitsBefore hb hb' n 0 []
  have hne : (digits base n).isEmpty = false := by simp [digits, digitsBefore_ne_nil]
  rw [value?, hne]
  simpa [digits, readDigits] using hm

end AddressSpace.Text
