import AddressSpace.Proofs.Cidr.Text
import AddressSpace.Proofs.Span.Shape
/-!
# Names that stay

A range is given its name once: trimming a trimmed name changes nothing, and the name that a span gives has no blanks to trim,
so that a range with a settled name is stored, saved and stored again as it is (`Range.named_named`).
-/

namespace AddressSpace

open Text

variable {F : Family}

/-- The name that a span gives has no blanks to trim. -/
theorem Span.trim_name (s : Span F) : trim s.name = s.name := by
  unfold Span.name
  split
  · rename_i c _
    rw [trim, Cidr.text, String.toList_ofList, c.solid_chars.trimChars]
  · rw [trim, String.toList_ofList, (Address.solid_charsWithLength _ _).trimChars]

namespace Range

/-- A range with its own name, trimmed, or with that of its span. -/
theorem named_name (r : Range F) : r.named.name = if trim r.name = "" then r.span.name else trim r.name := by rw [named]

/-- A range has a settled name when settling it gives the same name. -/
theorem named_eq_self_iff {r : Range F} : r.named = r ↔ r.named.name = r.name := by
  constructor
  · intro h
    rw [h]
  · intro h
    rw [named_name] at h
    rw [named]
    simp only [h]

/-- A range that has been given a name keeps it. -/
@[simp] theorem named_named (r : Range F) : r.named.named = r.named := by
  rw [named_eq_self_iff, named_name, named_span, named_name]
  by_cases h : trim r.name = ""
  · rw [if_pos h, Span.trim_name]
    exact ite_eq_right_iff.2 fun h' => h'.symm ▸ rfl
  · rw [if_neg h, trim_trim, if_neg h]

/-- A range that goes by the name of its span has its name. -/
theorem named_of_name {r : Range F} (h : r.name = r.span.name) : r.named = r := by
  rw [named_eq_self_iff, named_name, h, Span.trim_name]
  exact ite_eq_right_iff.2 fun _ => rfl

end Range

end AddressSpace
