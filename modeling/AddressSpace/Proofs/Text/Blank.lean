import Mathlib.Data.List.DropRight
import AddressSpace.Text.Blank
import AddressSpace.Proofs.Text.Numerals
/-!
# Trimming

Trimming a trimmed text changes nothing (`trim_trim`), nor does trimming a text without blanks (`Solid.trimChars`), such as a
numeral (`solid_digits`).
-/

namespace AddressSpace.Text

/-- A text without blanks. -/
def Solid (cs : List Char) : Prop := ∀ c ∈ cs, isBlank c = false

variable {cs ds : List Char} {c : Char}

theorem Solid.append (hc : Solid cs) (hd : Solid ds) : Solid (cs ++ ds) := by
  intro c h
  rcases List.mem_append.1 h with h | h
  · exact hc c h
  · exact hd c h

theorem Solid.cons (hc : isBlank c = false) (h : Solid cs) : Solid (c :: cs) := List.forall_mem_cons.2 ⟨hc, h⟩

theorem Solid.dropBlanks (h : Solid cs) : Text.dropBlanks cs = cs := by
  cases cs with
  | nil => rfl
  | cons c cs => exact List.dropWhile_cons_of_neg (by simp [h c (by simp)])

/-- A text without blanks has none to trim. -/
theorem Solid.trimChars (h : Solid cs) : Text.trimChars cs = cs := by
  have hrev : Solid cs.reverse := fun c hc => h c (List.mem_reverse.1 hc)
  rw [Text.trimChars, h.dropBlanks, hrev.dropBlanks, List.reverse_reverse]

theorem isBlank_digitChar {d : Nat} (hd : d < 16) : isBlank (digitChar d) = false := by
  have hdigit : ∀ d < 16, isBlank (digitChar d) = false := by decide
  exact hdigit d hd

/-- What is written for a number has no blanks. -/
theorem solid_digits {base : Nat} (hb : 1 < base) (hb' : base ≤ 16) (n : Nat) : Solid (digits base n) := by
  intro c hc
  obtain ⟨d, hd, rfl⟩ := mem_digits hb hc
  exact isBlank_digitChar (Nat.lt_of_lt_of_le hd hb')

/-- A text is what trimming leaves of it, between blanks. -/
theorem exists_trimmed (cs : List Char) :
    ∃ front back, cs = front ++ trimChars cs ++ back ∧ (∀ c ∈ front, isBlank c = true) ∧ ∀ c ∈ back, isBlank c = true := by
  have hfront := List.takeWhile_append_dropWhile (p := isBlank) (l := cs)
  have hback := List.takeWhile_append_dropWhile (p := isBlank) (l := (dropBlanks cs).reverse)
  refine ⟨cs.takeWhile isBlank, ((dropBlanks cs).reverse.takeWhile isBlank).reverse, ?_, fun c hc => ?_, fun c hc => ?_⟩
  · have hdrop : dropBlanks cs = trimChars cs ++ ((dropBlanks cs).reverse.takeWhile isBlank).reverse := by
      have := congrArg List.reverse hback
      rw [List.reverse_append, List.reverse_reverse] at this
      exact this.symm
    rw [List.append_assoc, ← hdrop]
    exact hfront.symm
  · exact List.mem_takeWhile_imp hc
  · exact List.mem_takeWhile_imp (List.mem_reverse.1 hc)

/-- Trimming twice is trimming once. -/
theorem trimChars_trimChars (cs : List Char) : trimChars (trimChars cs) = trimChars cs := by
  have hright : ∀ ds, trimChars ds = (dropBlanks ds).rdropWhile isBlank := fun _ => rfl
  -- what is left after both ends are trimmed still starts as it did after the first end was
  have hleft : dropBlanks (trimChars cs) = trimChars cs := by
    refine List.dropWhile_eq_self_iff.2 fun hl => ?_
    have hsub : trimChars cs <+: dropBlanks cs := hright cs ▸ List.rdropWhile_prefix isBlank _
    have hlen := Nat.lt_of_lt_of_le hl hsub.length_le
    rw [hsub.getElem hl]
    exact List.dropWhile_eq_self_iff.1 (List.dropWhile_idempotent isBlank cs) hlen
  rw [hright (trimChars cs), hleft, hright cs, List.rdropWhile_idempotent]

/-- Trimming twice is trimming once. -/
theorem trim_trim (s : String) : trim (trim s) = trim s := by
  rw [trim, trim, String.toList_ofList, trimChars_trimChars]

end AddressSpace.Text
