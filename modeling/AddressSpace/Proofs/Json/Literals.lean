import Mathlib.Data.List.TakeDrop
import Mathlib.Data.List.TakeWhile
import AddressSpace.Json.Double
import AddressSpace.Json.Writer
import AddressSpace.Proofs.Text.Numerals
/-!
# Literals that are written are read

A string literal is read as the string that it was written for (`readString_quote`), and the numeral of a natural number as a whole
(`readNumber_digits`) if no more than a comma or a new line stands behind it. The doubles hold every number of 53 binary digits
(`beyondDouble_digits`).
-/

namespace AddressSpace.Json

open Text

variable {n : Nat} {c : Char} {rest : List Char}

/-! ## Strings -/

/-- A backslash and a letter are read as what the letter stands for. -/
theorem readUnits_unescape {u : Nat} (hu : unescape? c = some u) (rest : List Char) :
    readUnits ('\\' :: c :: rest) = (readUnits rest).map fun p => (u :: p.1, p.2) := by
  have hc : c ≠ 'u' := by
    rintro rfl
    cases hu
  rw [readUnits.eq_4 _ _ (fun _ _ _ _ _ h _ => hc h), hu, Option.bind_some]

/-- Four hexadecimal digits behind a backslash and a `u` are read as their number. -/
theorem readUnits_hex (h : n < 0x10000) (rest : List Char) :
    readUnits ('\\' :: 'u' :: paddedDigits 16 4 n ++ rest) = (readUnits rest).map fun p => (n :: p.1, p.2) := by
  have hread : hex4? (digitChar (n / 16 / 16 / 16 % 16)) (digitChar (n / 16 / 16 % 16)) (digitChar (n / 16 % 16))
      (digitChar (n % 16)) = some n := by
    simpa [paddedDigits, hex4?] using readDigits_paddedDigits (k := 4) (by omega : 1 < 16) (by omega) 0 h
  simp only [paddedDigits, List.nil_append, List.cons_append]
  rw [readUnits.eq_3, hread, Option.bind_some]

/-- A character stands for itself, or what stands for it follows a backslash. -/
theorem escape_cases (c : Char) :
    (∃ e, escape c = ['\\', e] ∧ unescape? e = some c.toNat) ∨
      (escape c = '\\' :: 'u' :: paddedDigits 16 4 c.toNat ∧ c.toNat < 0x20) ∨
      (escape c = [c] ∧ c ≠ '"' ∧ c ≠ '\\' ∧ ¬ c.toNat < 0x20) := by
  unfold escape
  split_ifs with hquote hslash hb hf hn hr ht hcontrol
  · exact .inl ⟨'"', rfl, by rw [hquote]; rfl⟩
  · exact .inl ⟨'\\', rfl, by rw [hslash]; rfl⟩
  · exact .inl ⟨'b', rfl, by rw [hb]; rfl⟩
  · exact .inl ⟨'f', rfl, by rw [hf]; rfl⟩
  · exact .inl ⟨'n', rfl, by rw [hn]; rfl⟩
  · exact .inl ⟨'r', rfl, by rw [hr]; rfl⟩
  · exact .inl ⟨'t', rfl, by rw [ht]; rfl⟩
  · exact .inr (.inl ⟨rfl, hcontrol⟩)
  · exact .inr (.inr ⟨rfl, hquote, hslash, hcontrol⟩)

/-- What stands for a character in a literal is read as its code point. -/
theorem readUnits_escape (c : Char) (rest : List Char) :
    readUnits (escape c ++ rest) = (readUnits rest).map fun p => (c.toNat :: p.1, p.2) := by
  rcases escape_cases c with ⟨e, hescape, he⟩ | ⟨hescape, hcontrol⟩ | ⟨hescape, hquote, hslash, hcontrol⟩
  · rw [hescape]
    exact readUnits_unescape he rest
  · rw [hescape]
    exact readUnits_hex (by omega) rest
  · rw [hescape, List.singleton_append, readUnits.eq_5 _ _ hquote (fun _ _ _ _ _ h _ => hslash h) (fun _ _ h _ => hslash h),
      if_neg hcontrol]

/-- The characters of a written string are read as its units, up to the quote behind them. -/
theorem readUnits_flatMap_escape (cs rest : List Char) :
    readUnits (cs.flatMap escape ++ '"' :: rest) = some (cs.map Char.toNat, rest) := by
  induction cs with
  | nil => rfl
  | cons c cs ih => rw [List.flatMap_cons, List.append_assoc, readUnits_escape, ih, Option.map_some, List.map_cons]

/-- The code point of a character is no half of a surrogate pair. -/
theorem joinHalves_toNat (cs : List Char) : joinHalves (cs.map Char.toNat) = some cs := by
  induction cs with
  | nil => rfl
  | cons c cs ih =>
    have hvalid : c.toNat < 0xD800 ∨ 0xDFFF < c.toNat := by
      rcases c.valid with h | ⟨h, -⟩
      · exact .inl h
      · exact .inr h
    rw [List.map_cons, joinHalves.eq_def]
    simp only
    rw [if_neg (by omega), if_neg (by omega), ih, Option.map_some, Char.ofNat_toNat]

/-- A string literal is read up to its closing quote as its string. -/
theorem readString_quote (s : String) (rest : List Char) :
    readString (s.toList.flatMap escape ++ '"' :: rest) = some (some s, rest) := by
  rw [readString, readUnits_flatMap_escape, Option.map_some, joinHalves_toNat, Option.map_some, String.ofList_toList]

/-! ## Numbers -/

/-- What is written behind a value: nothing, or a comma or a new line first. -/
def Behind (rest : List Char) : Prop := ∀ c ∈ rest.head?, c = ',' ∨ c = '\n'

/-- What a number is written with are digits. -/
theorem isDigit_of_mem_digits (h : c ∈ digits 10 n) : isDigit c = true := by
  obtain ⟨d, hd, rfl⟩ := mem_digits (by omega) h
  have hall : ∀ d < 10, isDigit (digitChar d) = true := by decide
  exact hall d hd

/-- What is no digit does not stand in a written number. -/
theorem ne_of_mem_digits {d : Char} (hd : isDigit d = false) (h : c ∈ digits 10 n) : c ≠ d := by
  rintro rfl
  rw [isDigit_of_mem_digits h] at hd
  cases hd

/-- What is written behind a value is no part of a number. -/
theorem Behind.no_number (h : Behind rest) :
    (rest.takeWhile isDigit = [] ∧ rest.dropWhile isDigit = rest) ∧
      pointPart rest = some ([], rest) ∧ exponentPart rest = some ([], rest) := by
  cases rest with
  | nil => exact ⟨⟨rfl, rfl⟩, rfl, rfl⟩
  | cons c rest =>
    rcases h c rfl with rfl | rfl
    · exact ⟨⟨rfl, rfl⟩, rfl, rfl⟩
    · exact ⟨⟨rfl, rfl⟩, rfl, rfl⟩

/-- A numeral is read as a whole. -/
theorem readNumber_digits (n : Nat) (h : Behind rest) :
    readNumber (digits 10 n ++ rest) = some (digits 10 n, rest) := by
  obtain ⟨⟨htake, hdrop⟩, hpoint, hexponent⟩ := h.no_number
  have hdigits : digits1 (digits 10 n ++ rest) = some (digits 10 n, rest) := by
    have hall : ∀ c ∈ digits 10 n, isDigit c = true := fun c => isDigit_of_mem_digits
    rw [digits1, List.takeWhile_append_of_pos hall, List.dropWhile_append_of_pos hall, htake, hdrop, List.append_nil]
    simp [digits_ne_nil]
  have hwhole : wholePart (digits 10 n ++ rest) = some (digits 10 n, rest) := by
    rw [wholePart, hdigits, Option.filter_some, if_pos]
    rcases Nat.lt_or_ge n 10 with hn | hn
    · rw [digits_of_lt hn]
      rfl
    · simp [head?_digits_ne (n := n) (by omega : 1 < 10) (by omega) (by omega)]
  simp [readNumber, hwhole, hpoint, hexponent]

/-- A last digit is put behind the others as long as the result has 64 bits. -/
theorem leading_concat {top : Nat} {ds : List Char} (h : leading top ds = (n, []))
    (hc : n * 10 + (c.toNat - '0'.toNat) < UInt64.size) :
    leading top (ds ++ [c]) = (n * 10 + (c.toNat - '0'.toNat), []) := by
  induction ds generalizing top with
  | nil =>
    obtain rfl : top = n := congrArg Prod.fst h
    rw [List.nil_append, leading]
    exact if_pos hc
  | cons d ds ih =>
    rw [List.cons_append, leading]
    rw [leading] at h
    split at h
    · rename_i hd
      simp only [if_pos hd]
      exact ih h
    · cases congrArg Prod.snd h

/-- All digits of a number of 64 bits are leading ones. -/
theorem leading_digits (h : n < UInt64.size) : leading 0 (digits 10 n) = (n, []) := by
  have hvalue : ∀ d < 10, (digitChar d).toNat - '0'.toNat = d := by decide
  refine digits_induction (by omega : 1 < 10) (motive := fun n ds => n < UInt64.size → leading 0 ds = (n, [])) ?_ ?_ n h
  · intro n hn hsize
    have hempty : leading 0 [] = (0, []) := rfl
    have := leading_concat (c := digitChar n) hempty (by rw [hvalue n hn]; omega)
    rwa [hvalue n hn, Nat.zero_mul, Nat.zero_add] at this
  · intro n ds _ ih hsize
    have hlast : n / 10 * 10 + ((digitChar (n % 10)).toNat - '0'.toNat) = n := by rw [hvalue _ (by omega)]; omega
    have := leading_concat (c := digitChar (n % 10)) (ih (by omega)) (by rwa [hlast])
    rwa [hlast] at this

/-- The binary digits of a number below two to the 53rd power fit into a double. -/
theorem excess_of_lt (h : n < 2 ^ 53) : excess n = 0 := by
  rw [excess]
  rcases Nat.eq_zero_or_pos n with rfl | hn
  · rfl
  · have := (Nat.log2_lt (by omega)).2 h
    omega

/-- A number below two to the 53rd power is not beyond all doubles. -/
theorem beyondDouble_digits (h : n < 2 ^ 53) : beyondDouble (digits 10 n) = false := by
  have hdigit : ∀ c ∈ digits 10 n, isDigit c = true := fun c => isDigit_of_mem_digits
  have hspan : (digits 10 n).span (fun c => c ≠ 'e' ∧ c ≠ 'E') = (digits 10 n, []) := by
    have hall : ∀ c ∈ digits 10 n, decide (c ≠ 'e' ∧ c ≠ 'E') = true := fun c hc =>
      decide_eq_true ⟨ne_of_mem_digits rfl hc, ne_of_mem_digits rfl hc⟩
    rw [List.span_eq_takeWhile_dropWhile, List.takeWhile_eq_self_iff.2 hall, List.dropWhile_eq_nil_iff.2 hall]
  have hpoint : ∀ c ∈ digits 10 n, decide (c ≠ '.') = true := fun c hc =>
    decide_eq_true (ne_of_mem_digits rfl hc)
  have hsize : n < UInt64.size := by
    have : 2 ^ 53 ≤ UInt64.size := by decide
    omega
  have hfits : overflows n 0 = false := by
    have hone : roundDouble (Nat.pow 10 0) = 1 := roundDouble_of_excess rfl
    have hbound : 2 ^ 53 ≤ 1 <<< 1024 := by decide
    have hn : roundDouble n = n := roundDouble_of_excess (excess_of_lt h)
    rw [overflows, if_neg (by omega), hone, Nat.mul_one, hn, hn, decide_eq_false]
    omega
  rw [beyondDouble, hspan]
  simp only [List.takeWhile_eq_self_iff.2 hpoint, List.dropWhile_eq_nil_iff.2 hpoint, List.filter_eq_self.2 hdigit,
    leading_digits hsize, List.filter_nil, leading]
  exact ite_eq_left_iff.2 fun _ => hfits

end AddressSpace.Json
