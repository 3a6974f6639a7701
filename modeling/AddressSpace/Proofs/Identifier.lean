import AddressSpace.Identifier
import AddressSpace.Proofs.Text.Numerals
/-!
# Identifiers that are written are read

The text of an identifier has 32 digits in five groups with hyphens between them. It has neither braces nor the name of the scheme
around it and is longer than 32 characters, so that it is read as hyphenated, and its digits give the identifier back
(`ofText?_text`).
-/

namespace AddressSpace.Identifier

open Text

variable {ds : List Char}

/-- The hyphens make 36 characters of 32 digits. -/
theorem length_hyphenate (h : ds.length = 32) : (hyphenate ds).length = 36 := by
  simp only [hyphenate, List.length_append, List.length_cons, List.length_take, List.length_drop, h]
  decide

/-- The digits are found between the hyphens. -/
theorem ofHyphenated?_hyphenate (h : ds.length = 32) : ofHyphenated? (hyphenate ds) = ofDigits? ds := by
  have hgroups : (hyphenate ds).take 8 ++ ((hyphenate ds).drop 9).take 4 ++ ((hyphenate ds).drop 14).take 4 ++
      ((hyphenate ds).drop 19).take 4 ++ (hyphenate ds).drop 24 =
      ds.take 8 ++ ((ds.drop 8).take 4 ++ ((ds.drop 12).take 4 ++ ((ds.drop 16).take 4 ++ ds.drop 20))) := by
    simp [hyphenate, List.drop_append, List.drop_take, h]
  have htail : ∀ m n, (ds.drop m).take n ++ ds.drop (m + n) = ds.drop m := by
    intro m n
    rw [← List.drop_drop, List.take_append_drop]
  have hds : (hyphenate ds).take 8 ++ ((hyphenate ds).drop 9).take 4 ++ ((hyphenate ds).drop 14).take 4 ++
      ((hyphenate ds).drop 19).take 4 ++ (hyphenate ds).drop 24 = ds := by
    rw [hgroups, htail 16 4, htail 12 4, htail 8 4, List.take_append_drop]
  rw [ofHyphenated?, hds, if_pos rfl]

/-- What starts with a digit is not wrapped. -/
theorem unwrapped_of_digit {d : Nat} (hd : d < 16) (cs : List Char) : unwrapped (digitChar d :: cs) = digitChar d :: cs := by
  have hscheme : ∀ d < 16, (digitChar d).toLower ≠ 'u' := by decide
  unfold unwrapped
  split
  · rename_i rest hcs
    exact absurd (List.cons.inj hcs).1 (digitChar_ne rfl hd)
  · rw [if_neg]
    intro hu
    exact hscheme d hd (List.cons.inj hu).1

/-- The text of an identifier is read as the identifier. -/
theorem ofText?_text (i : Identifier) : ofText? i.text = some i := by
  have hlength : (paddedDigits 16 32 i.bits).length = 32 := length_paddedDigits 16 32 i.bits
  have hlong : ofDigits? i.chars = none := by
    rw [ofDigits?, if_neg]
    rw [chars, length_hyphenate hlength]
    decide
  have hplain : unwrapped i.chars = i.chars := by
    obtain ⟨d, hd, ds, hds⟩ := paddedDigits_eq_cons (by decide : 0 < 16) 31 i.bits
    rw [chars, hds]
    exact unwrapped_of_digit hd _
  rw [ofText?, text, String.toList_ofList, ofChars?, hlong, Option.none_or, hplain, chars, ofHyphenated?_hyphenate hlength,
    ofDigits?, if_pos hlength, value_paddedDigits (by decide) (by decide)]
  · exact congrArg some (ext_bits (Nat.mod_eq_of_lt i.isLt))
  · exact i.isLt

end AddressSpace.Identifier
