import Mathlib.Algebra.Group.Nat.Defs
import AddressSpace.Text.Numeral
/-!
# What numerals look like, and how they are read

A numeral without leading zeros and one that is filled up with zeros consist of digits of their base alone (`mem_digits`,
`mem_paddedDigits`). The first kind is no longer than it must be and starts with a zero for zero alone (`length_digits_le`,
`head?_digits_ne`); the second kind has its given length and is read as the number, too (`value_paddedDigits`).
-/

namespace AddressSpace.Text

variable {base n k : Nat} {c : Char}

/-! ## Digits -/

/-- No digit is a character that has no value as a digit. -/
theorem digitChar_ne (hc : digitValue? c = none) {d : Nat} (hd : d < 16) : digitChar d ≠ c := by
  have hvalue : ∀ d < 16, digitValue? (digitChar d) = some d := by decide
  rintro rfl
  rw [hvalue d hd] at hc
  cases hc

theorem digitChar_eq_zero_iff {d : Nat} (hd : d < 16) : digitChar d = '0' ↔ d = 0 := by
  have hzero : ∀ d < 16, digitChar d = '0' → d = 0 := by decide
  exact ⟨hzero d hd, by rintro rfl; rfl⟩

/-! ## Numerals without leading zeros -/

/-- Digits in front of a text are the digits and then the text. -/
theorem digitsBefore_eq_append (base n : Nat) (tail : List Char) : digitsBefore base n tail = digits base n ++ tail := by
  induction n using Nat.strongRecOn generalizing tail with
  | _ n ih =>
    rw [digits, digitsBefore, digitsBefore.eq_1 base n []]
    split
    · rename_i h
      have hlt : n / base < n := Nat.div_lt_self (by omega) h.1
      rw [ih _ hlt, ih _ hlt [_], List.append_assoc]
      rfl
    · rfl

theorem digits_of_lt (h : n < base) : digits base n = [digitChar n] := by
  rw [digits, digitsBefore, dif_neg (by omega)]

/-- The last digit stands behind the numeral of the rest. -/
theorem digits_of_le (hb : 1 < base) (h : base ≤ n) : digits base n = digits base (n / base) ++ [digitChar (n % base)] := by
  rw [digits, digitsBefore, dif_pos ⟨hb, h⟩, digitsBefore_eq_append]

/-- The numeral of a number is that of a number below the base, or has a last digit. -/
theorem digits_induction (hb : 1 < base) {motive : Nat → List Char → Prop} (hlt : ∀ n < base, motive n [digitChar n])
    (hle : ∀ n ds, base ≤ n → motive (n / base) ds → motive n (ds ++ [digitChar (n % base)])) (n : Nat) :
    motive n (digits base n) := by
  induction n using Nat.strongRecOn with
  | _ n ih =>
    by_cases h : n < base
    · rw [digits_of_lt h]
      exact hlt n h
    · have hn : base ≤ n := Nat.not_lt.1 h
      rw [digits_of_le hb hn]
      exact hle n _ hn (ih _ (Nat.div_lt_self (by omega) hb))

theorem digits_ne_nil (base n : Nat) : digits base n ≠ [] := digitsBefore_ne_nil base n []

/-- What is written for a number are digits of its base. -/
theorem mem_digits (hb : 1 < base) (h : c ∈ digits base n) : ∃ d < base, c = digitChar d := by
  refine digits_induction hb (motive := fun _ ds => ∀ c ∈ ds, ∃ d < base, c = digitChar d) ?_ ?_ n c h
  · intro n hn c hc
    exact ⟨n, hn, List.mem_singleton.1 hc⟩
  · intro n ds _ ih c hc
    rcases List.mem_append.1 hc with hc | hc
    · exact ih c hc
    · exact ⟨n % base, Nat.mod_lt _ (by omega), List.mem_singleton.1 hc⟩

/-- A character that has no value as a digit stands in no numeral. -/
theorem not_mem_digits (hb : 1 < base) (hb' : base ≤ 16) (hc : digitValue? c = none) (n : Nat) : c ∉ digits base n := by
  intro h
  obtain ⟨d, hd, rfl⟩ := mem_digits hb h
  exact digitChar_ne hc (Nat.lt_of_lt_of_le hd hb') rfl

/-- A numeral has no more digits than the least power of the base above the number has zeros. -/
theorem length_digits_le (hb : 1 < base) (h : n < base ^ (k + 1)) : (digits base n).length ≤ k + 1 := by
  induction k generalizing n with
  | zero =>
    rw [digits_of_lt (by simpa using h)]
    exact Nat.le_refl 1
  | succ k ih =>
    by_cases hn : n < base
    · rw [digits_of_lt hn]
      exact Nat.le_add_left 1 (k + 1)
    · rw [digits_of_le hb (Nat.not_lt.1 hn), List.length_append, List.length_singleton]
      exact Nat.succ_le_succ (ih (Nat.div_lt_of_lt_mul (by rwa [Nat.mul_comm, ← Nat.pow_succ])))

/-- Only the numeral of zero starts with a zero. -/
theorem head?_digits_ne (hb : 1 < base) (hb' : base ≤ 16) (h : 0 < n) : (digits base n).head? ≠ some '0' := by
  refine digits_induction hb (motive := fun n ds => 0 < n → ds ≠ [] ∧ ds.head? ≠ some '0') ?_ ?_ n h |>.2
  · intro n hn hpos
    refine ⟨List.cons_ne_nil _ _, fun hz => ?_⟩
    have := (digitChar_eq_zero_iff (Nat.lt_of_lt_of_le hn hb')).1 (Option.some.inj hz)
    omega
  · intro n ds hn ih _
    obtain ⟨hne, hhead⟩ := ih (Nat.div_pos hn (by omega))
    obtain ⟨d, ds, rfl⟩ := List.exists_cons_of_ne_nil hne
    exact ⟨List.cons_ne_nil _ _, hhead⟩

/-- A text without a plus sign is read as a number when its value is in bounds. -/
theorem unsigned?_cons (bound : Nat) (hc : c ≠ '+') (cs : List Char) :
    unsigned? bound (c :: cs) = (value? 10 (c :: cs)).filter (· < bound) := by
  simp only [unsigned?]
  split
  · rename_i heq
    exact absurd (List.cons.inj heq).1 hc
  · rfl

/-- A numeral from outside is read as its number if that is below the bound. -/
theorem unsigned?_digits {bound : Nat} (h : n < bound) : unsigned? bound (digits 10 n) = some n := by
  have hvalue : value? 10 (digits 10 n) = some n := value_digits (by decide) (by decide) n
  have hplus : '+' ∉ digits 10 n := not_mem_digits (by decide) (by decide) rfl n
  obtain ⟨c, cs, hcs⟩ := List.exists_cons_of_ne_nil (digits_ne_nil 10 n)
  rw [hcs] at hplus hvalue ⊢
  rw [unsigned?_cons bound (fun hc => hplus (hc ▸ List.mem_cons_self)), hvalue, Option.filter_some, if_pos (decide_eq_true h)]

/-! ## Numerals filled up with zeros -/

/-- A padded number is as wide as asked for. -/
@[simp] theorem length_paddedDigits (base k n : Nat) : (paddedDigits base k n).length = k := by
  induction k generalizing n with
  | zero => rfl
  | succ k ih => rw [paddedDigits, List.length_append, ih, List.length_singleton]

/-- What is written for a padded number are digits of its base. -/
theorem mem_paddedDigits (hb : 0 < base) (h : c ∈ paddedDigits base k n) : ∃ d < base, c = digitChar d := by
  induction k generalizing n with
  | zero => cases h
  | succ k ih =>
    rw [paddedDigits, List.mem_append, List.mem_singleton] at h
    rcases h with h | rfl
    · exact ih h
    · exact ⟨n % base, Nat.mod_lt _ hb, rfl⟩

/-- A numeral of some length starts with a digit. -/
theorem paddedDigits_eq_cons (hb : 0 < base) (k n : Nat) : ∃ d < base, ∃ ds, paddedDigits base (k + 1) n = digitChar d :: ds := by
  have hne : paddedDigits base (k + 1) n ≠ [] := List.ne_nil_of_length_pos (by simp)
  obtain ⟨c, ds, hds⟩ := List.exists_cons_of_ne_nil hne
  obtain ⟨d, hd, rfl⟩ := mem_paddedDigits hb (hds ▸ List.mem_cons_self)
  exact ⟨d, hd, ds, hds⟩

/-- Digits are read from the left, what was read of the first part going on with the second. -/
theorem readDigits_append (base acc : Nat) (cs ds : List Char) :
    readDigits base acc (cs ++ ds) = (readDigits base acc cs).bind fun n => readDigits base n ds := by
  induction cs generalizing acc with
  | nil => rfl
  | cons c cs ih =>
    rw [List.cons_append, readDigits, readDigits]
    cases digitIn? base c with
    | none => rfl
    | some d => exact ih _

/-- A padded number is read as itself, on top of what was read in front of it. -/
theorem readDigits_paddedDigits (hb : 1 < base) (hb' : base ≤ 16) (acc : Nat) (h : n < base ^ k) :
    readDigits base acc (paddedDigits base k n) = some (acc * base ^ k + n) := by
  induction k generalizing n with
  | zero =>
    obtain rfl : n = 0 := by simpa using h
    simp [paddedDigits, readDigits]
  | succ k ih =>
    have hdiv : n / base < base ^ k := Nat.div_lt_of_lt_mul (by rwa [Nat.mul_comm, ← Nat.pow_succ])
    rw [paddedDigits, readDigits_append, ih hdiv, Option.bind_some, readDigits,
      digitIn?_digitChar (Nat.mod_lt _ (by omega)) hb', Option.bind_some, readDigits, Nat.pow_succ, Nat.add_mul,
      Nat.mul_assoc, Nat.add_assoc, Nat.div_add_mod']

/-- A numeral filled up with zeros is read as its number. -/
theorem value_paddedDigits (hb : 1 < base) (hb' : base ≤ 16) (h : n < base ^ (k + 1)) :
    value? base (paddedDigits base (k + 1) n) = some n := by
  have hne : (paddedDigits base (k + 1) n).isEmpty = false := by simp [paddedDigits]
  rw [value?, hne, readDigits_paddedDigits hb hb' 0 h, Nat.zero_mul, Nat.zero_add]
  rfl

end AddressSpace.Text
