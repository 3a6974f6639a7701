import AddressSpace.Text.Blank
import AddressSpace.Text.Lower
/-!
# Text search

A search term is looked for in a few texts of a row, without regard to case. A blank term finds everything.
-/

namespace AddressSpace.Text

/-- Whether `needle` occurs in the text as one piece. -/
def occursIn (needle : List Char) : List Char → Bool
  | [] => needle.isEmpty
  | c :: cs => needle.isPrefixOf (c :: cs) || occursIn needle cs

/-- Whether the lower-case form of `field` holds `needle`, which is in lower case already. -/
def holds (needle : List Char) (field : String) : Bool := occursIn needle (lowerChars field.toList)

/-- A search term as it is compared: trimmed, then in lower case. -/
def needle (term : String) : List Char := lowerChars (trimChars term.toList)

/-- Whether a search for `term` finds a row with these texts. -/
def found (term : String) (fields : List String) : Bool :=
  if trimChars term.toList = [] then true else fields.any (holds (needle term))

end AddressSpace.Text
