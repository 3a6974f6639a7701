import AddressSpace.Instant.Text
import AddressSpace.Proofs.Text.Numerals
/-!
# Instants that are written are read

The text of an instant in a year of four digits is read as that instant, with every fraction of a second and in leap seconds, too
(`ofText?_text`). Each reader is followed on the numeral or separator that is written for it and leaves what stands behind.
-/

namespace AddressSpace.Instant

open Text

variable {n k : Nat} {rest : List Char}

/-! ## Numbers and separators -/

/-- The digits of a decimal numeral are read up to a character that is none. -/
theorem takeWhile_isDigit_paddedDigits (k n : Nat) (h : ∀ c, rest.head? = some c → isDigit c = false) :
    (paddedDigits 10 k n ++ rest).takeWhile isDigit = paddedDigits 10 k n := by
  have hdigit : ∀ d < 10, isDigit (digitChar d) = true := by decide
  rw [List.takeWhile_append_of_pos]
  · cases rest with
    | nil => rw [List.takeWhile_nil, List.append_nil]
    | cons c rest => rw [List.takeWhile_cons_of_neg (by simp [h c rfl]), List.append_nil]
  · intro c hc
    obtain ⟨d, hd, rfl⟩ := mem_paddedDigits (by decide) hc
    exact hdigit d hd

/-- No blanks stand in front of a numeral. -/
theorem dropBlanks_paddedDigits (k n : Nat) (rest : List Char) :
    dropBlanks (paddedDigits 10 (k + 1) n ++ rest) = paddedDigits 10 (k + 1) n ++ rest := by
  have hblank : ∀ d < 10, isBlank (digitChar d) = false := by decide
  obtain ⟨d, hd, ds, hds⟩ := paddedDigits_eq_cons (by decide : 0 < 10) k n
  rw [hds, dropBlanks, List.cons_append, List.dropWhile_cons_of_neg (by simp [hblank d hd])]

/-- A numeral of the greatest length is read as its number. -/
theorem number?_paddedDigits (h : n < 10 ^ (k + 1)) (rest : List Char) :
    number? (k + 1) (paddedDigits 10 (k + 1) n ++ rest) = some (n, rest) := by
  have hlength := length_paddedDigits 10 (k + 1) n
  have htake : (paddedDigits 10 (k + 1) n ++ rest).take (k + 1) = paddedDigits 10 (k + 1) n ++ [] := by
    rw [List.take_left' hlength, List.append_nil]
  rw [number?, htake, takeWhile_isDigit_paddedDigits _ _ (by simp), value_paddedDigits (by decide) (by decide) h,
    Option.map_some, List.drop_left]

/-- A field that is written with leading zeros is read, whatever follows. -/
theorem field?_paddedDigits {low high : Nat} (h : n < 10 ^ (k + 1)) (hlow : low ≤ n) (hhigh : n ≤ high) (rest : List Char) :
    field? (k + 1) low high (paddedDigits 10 (k + 1) n ++ rest) = some (n, rest) := by
  rw [field?, dropBlanks_paddedDigits, number?_paddedDigits h]
  simp [hlow, hhigh]

/-- A mark that is no blank is read where it stands. -/
theorem mark?_cons {c : Char} (h : isBlank c = false) (rest : List Char) : mark? c (c :: rest) = some rest := by
  rw [mark?, dropBlanks, List.dropWhile_cons_of_neg (by simp [h])]
  exact if_pos rfl

/-- A year of four digits is read without a sign. -/
theorem year?_paddedDigits (h : n ≤ 9999) (rest : List Char) :
    year? (paddedDigits 10 4 n ++ rest) = some ((n : Int), rest) := by
  have hsign : ∀ c cs, digitValue? c = none → paddedDigits 10 4 n ++ rest ≠ c :: cs := by
    intro c cs hc he
    obtain ⟨d, hd, ds, hds⟩ := paddedDigits_eq_cons (by decide : 0 < 10) 3 n
    rw [hds] at he
    exact digitChar_ne hc (Nat.lt_trans hd (by decide)) (List.cons.inj he).1
  unfold year?
  rw [dropBlanks_paddedDigits]
  split
  · rename_i hcs
    exact absurd hcs (hsign _ _ rfl)
  · rename_i hcs
    exact absurd hcs (hsign _ _ rfl)
  · rw [number?_paddedDigits (Nat.lt_of_le_of_lt h (by decide)), Option.map_some]
    simp
    omega

/-! ## Fractions -/

/-- Zeros behind a number multiply it by ten each. -/
theorem readDigits_zeros (acc k : Nat) : readDigits 10 acc (List.replicate k '0') = some (acc * 10 ^ k) := by
  induction k generalizing acc with
  | zero => simp [readDigits]
  | succ k ih =>
    have hzero : digitIn? 10 '0' = some 0 := rfl
    rw [List.replicate_succ, readDigits, hzero, Option.bind_some, ih, Nat.pow_succ, Nat.add_zero, Nat.mul_assoc,
      Nat.mul_comm 10]

/-- Of a fraction with up to nine digits the missing ones are read as zeros. -/
theorem fraction?_paddedDigits (hk : k + 1 ≤ 9) (h : n < 10 ^ (k + 1)) (hrest : ∀ c, rest.head? = some c → isDigit c = false) :
    fraction? ('.' :: paddedDigits 10 (k + 1) n ++ rest) = some (n * 10 ^ (9 - (k + 1)), rest) := by
  have hlength := length_paddedDigits 10 (k + 1) n
  have hne : (paddedDigits 10 (k + 1) n).isEmpty = false := by simp [paddedDigits]
  have hfilled : (paddedDigits 10 (k + 1) n ++ List.replicate 9 '0').take 9 =
      paddedDigits 10 (k + 1) n ++ List.replicate (9 - (k + 1)) '0' := by
    rw [List.take_append, List.take_of_length_le (by omega), hlength, List.take_replicate, Nat.min_eq_left (by omega)]
  have hvalue : value? 10 (paddedDigits 10 (k + 1) n ++ List.replicate (9 - (k + 1)) '0') = some (n * 10 ^ (9 - (k + 1))) := by
    rw [value?, readDigits_append, readDigits_paddedDigits (by decide) (by decide) 0 h, Option.bind_some, readDigits_zeros,
      Nat.zero_mul, Nat.zero_add]
    simp [paddedDigits]
  rw [List.cons_append]
  simp only [fraction?, takeWhile_isDigit_paddedDigits _ _ hrest, hne, hfilled, hvalue, Bool.false_eq_true, if_false,
    Option.map_some, List.drop_left]

/-- A written fraction is read as the number of its nanoseconds. -/
theorem fraction?_fractionChars (h : n < nanosPerSecond) : fraction? (fractionChars n ++ ['Z']) = some (n, ['Z']) := by
  have hn : n < 1000000000 := h
  have hz : ∀ c, (['Z'] : List Char).head? = some c → isDigit c = false := by
    rintro c ⟨⟩
    rfl
  unfold fractionChars
  split
  · rename_i hzero
    rw [hzero]
    rfl
  · split
    · rw [fraction?_paddedDigits (k := 2) (by decide) (by omega) hz]
      congr 2
      omega
    · split
      · rw [fraction?_paddedDigits (k := 5) (by decide) (by omega) hz]
        congr 2
        omega
      · rw [fraction?_paddedDigits (k := 8) (by decide) (by omega) hz]
        congr 2
        omega

/-! ## The whole -/

/-- Instants of the same date, second and fraction are the same. -/
theorem ext_fields {s t : Instant} (hd : s.date = t.date) (hs : s.second = t.second) (hn : s.nanos = t.nanos) : s = t := by
  cases s
  cases t
  simp_all

/-- What a clock adds to the second of the minute in a leap second. -/
def leap (t : Instant) : Nat := if t.nanos < nanosPerSecond then 0 else 1

/-- The fraction reaches a whole second in the last second of a minute only, which is a leap second then. -/
theorem leap_cases (t : Instant) :
    t.leap = 0 ∧ t.nanos < nanosPerSecond ∨ t.leap = 1 ∧ nanosPerSecond ≤ t.nanos ∧ t.second % 60 = 59 := by
  by_cases hn : t.nanos < nanosPerSecond
  · exact .inl ⟨if_pos hn, hn⟩
  · exact .inr ⟨if_neg hn, Nat.not_lt.1 hn, (t.nanos_lt.resolve_left hn).1⟩

/-- The fraction that a clock shows is less than a second. -/
theorem fraction_lt (t : Instant) : t.nanos - t.leap * nanosPerSecond < nanosPerSecond := by
  have hnanos := t.nanos_lt
  rcases t.leap_cases with ⟨hleap, hn⟩ | ⟨hleap, hn, -⟩
  · rw [hleap]
    omega
  · rw [hleap]
    omega

/-- The numbers on the face of a clock that shows an instant give the instant. -/
theorem ofFields?_clock (t : Instant) :
    ofFields? t.date.year t.date.month t.date.day (t.second / 3600) (t.second / 60 % 60) (t.second % 60 + t.leap)
      (t.nanos - t.leap * nanosPerSecond) = some t := by
  have hdate : Date.ofFields? t.date.year t.date.month t.date.day = some t.date := dif_pos ⟨t.date.month_le, t.date.day_le⟩
  have hsecond := t.second_lt
  have hleap : (if t.second % 60 + t.leap = 60 then 1 else 0) = t.leap := by
    rcases t.leap_cases with ⟨hleap, -⟩ | ⟨hleap, -, hlast⟩
    · rw [hleap]
      exact if_neg (by omega)
    · rw [hleap]
      exact if_pos (by omega)
  have hs : (t.second / 3600 * 60 + t.second / 60 % 60) * 60 + (t.second % 60 + t.leap) - t.leap = t.second := by omega
  have hn : t.nanos - t.leap * nanosPerSecond + t.leap * nanosPerSecond = t.nanos := by
    rcases t.leap_cases with ⟨hleap, -⟩ | ⟨hleap, hle, -⟩
    · rw [hleap]
      omega
    · rw [hleap]
      omega
  unfold ofFields?
  rw [hdate, Option.bind_some]
  simp only [hleap]
  rw [dif_pos (by rw [hs, hn]; exact ⟨hsecond, t.nanos_lt⟩)]
  exact congrArg some (ext_fields rfl hs hn)

/-- The year is written with four digits and no sign. -/
def InFourDigits (t : Instant) : Prop := 0 ≤ t.date.year ∧ t.date.year ≤ 9999

instance (t : Instant) : Decidable t.InFourDigits := inferInstanceAs (Decidable (_ ∧ _))

/-- An instant of the years 0 to 9999 is written in fields of fixed widths. -/
theorem chars_of_inFourDigits {t : Instant} (h : t.InFourDigits) :
    t.chars = paddedDigits 10 4 t.date.year.toNat ++ '-' :: (paddedDigits 10 2 t.date.month ++
      '-' :: (paddedDigits 10 2 t.date.day ++ 'T' :: (paddedDigits 10 2 (t.second / 3600) ++
      ':' :: (paddedDigits 10 2 (t.second / 60 % 60) ++ ':' :: (paddedDigits 10 2 (t.second % 60 + t.leap) ++
      (fractionChars (t.nanos - t.leap * nanosPerSecond) ++ ['Z'])))))) := by
  rw [chars, yearChars, if_pos ⟨h.1, h.2⟩, leap]
  simp only [List.append_assoc, List.cons_append]

/-- No month has more than 31 days. -/
theorem daysIn_le (year : Int) (month : Nat) : daysIn year month ≤ 31 := by
  unfold daysIn
  split
  · split <;> decide
  · split <;> decide

/-- The text of an instant in a year of four digits is read as the instant. -/
theorem ofText?_text {t : Instant} (h : t.InFourDigits) : ofText? t.text = some t := by
  obtain ⟨hnonneg, hle⟩ := h
  have hyear : ((t.date.year.toNat : Nat) : Int) = t.date.year := Int.toNat_of_nonneg hnonneg
  have hmonth := t.date.month_le
  have hday : 1 ≤ t.date.day ∧ t.date.day ≤ 31 :=
    ⟨t.date.day_le.1, Nat.le_trans t.date.day_le.2 (daysIn_le t.date.year t.date.month)⟩
  have hsecond := t.second_lt
  have hleap : t.leap ≤ 1 := by
    rcases t.leap_cases with ⟨hleap, -⟩ | ⟨hleap, -⟩ <;> omega
  have hoffset : offset? ['Z'] = some ((false, 0, 0), []) := by decide
  have hlocal : t.ofLocal? false 0 0 = some t := rfl
  have hyears : -262143 ≤ t.date.year ∧ t.date.year ≤ 262142 := by omega
  rw [ofText?, text, String.toList_ofList, chars_of_inFourDigits ⟨hnonneg, hle⟩, ofChars?]
  simp only [Option.bind_eq_bind, Option.bind_some]
  rw [year?_paddedDigits (by omega), Option.bind_some, mark?_cons rfl, Option.bind_some,
    field?_paddedDigits (k := 1) (by omega) (by omega) (by omega), Option.bind_some, mark?_cons rfl, Option.bind_some,
    field?_paddedDigits (k := 1) (by omega) (by omega) (by omega), Option.bind_some]
  simp only
  rw [field?_paddedDigits (k := 1) (by omega) (by omega) (by omega), Option.bind_some, mark?_cons rfl, Option.bind_some,
    field?_paddedDigits (k := 1) (by omega) (by omega) (by omega), Option.bind_some, mark?_cons rfl, Option.bind_some,
    field?_paddedDigits (k := 1) (by omega) (by omega) (by omega), Option.bind_some, fraction?_fractionChars t.fraction_lt,
    Option.bind_some, hoffset, Option.bind_some]
  simp only
  rw [if_neg (by simp [dropBlanks]), hyear, ofFields?_clock, Option.bind_some, hlocal]
  simp [hyears]

end AddressSpace.Instant
