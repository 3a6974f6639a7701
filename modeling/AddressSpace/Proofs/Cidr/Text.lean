import AddressSpace.Cidr.Read
import AddressSpace.Proofs.Address.Spelling
/-!
# Networks that are written are read

The text of a network has no blanks (`Cidr.solid_chars`), and its first slash is the one in front of the length, so that it is
read as the network (`Cidr.parse_text`).
-/

namespace AddressSpace

open Text

/-- The first separator is the one behind a part without one. -/
theorem Text.splitFirst?_append {sep : Char} {part : List Char} (h : sep ∉ part) (rest : List Char) :
    splitFirst? sep (part ++ sep :: rest) = some (part, rest) := by
  induction part with
  | nil => rw [List.nil_append, splitFirst?, if_pos rfl]
  | cons c part ih =>
    rw [List.mem_cons, not_or] at h
    rw [List.cons_append, splitFirst?, if_neg (Ne.symm h.1), ih h.2]
    rfl

variable {F : Family}

namespace Address

/-- The text of an address has no slash. -/
theorem slash_not_mem_chars (a : Address F) : '/' ∉ a.chars := by
  intro h
  rcases mem_chars h with h | h | ⟨d, hd, h⟩
  · exact absurd h (by decide)
  · exact absurd h (by decide)
  · exact digitChar_ne rfl hd h.symm

/-- An address that is written is read. -/
theorem parse_text (a : Address F) : parse F a.text = .ok a := by
  have hread : ofChars? F a.chars = some a := by
    have h := ofText?_text a
    rwa [ofText?, text, String.toList_ofList] at h
  rw [parse, text, String.toList_ofList, a.solid_chars.trimChars, hread]

/-- An address with a length has no blanks. -/
theorem solid_charsWithLength (a : Address F) (plen : Nat) : Solid (a.charsWithLength plen) :=
  a.solid_chars.append (.cons (by decide) (solid_digits (by decide) (by decide) plen))

end Address

namespace Cidr

/-- The text of a network has no blanks. -/
theorem solid_chars (c : Cidr F) : Solid c.chars := c.addr.solid_charsWithLength c.plen

/-- The text of a network is that of its address, a slash and its length. -/
theorem text_eq (c : Cidr F) : c.text = c.addr.text ++ "/" ++ decimal c.plen := by
  rw [text, chars, Address.charsWithLength, Address.text, decimal, String.append_assoc, ← List.singleton_append, String.ofList_append, String.ofList_append]

/-- The text of a network is read as the network. -/
theorem parse_text (c : Cidr F) : parse F c.text = .ok c := by
  have hplen : c.plen < 256 := by
    have := c.plen_le
    have := F.width_le
    omega
  have hparts : ofParts c.addr c.plen = .ok c := by rw [ofParts, dif_pos c.plen_le]
  unfold parse
  rw [text, String.toList_ofList, c.solid_chars.trimChars, chars, Address.charsWithLength, splitFirst?_append c.addr.slash_not_mem_chars]
  show (Address.parse F c.addr.text).bind _ = _
  rw [Address.parse_text]
  simp only [Except.bind, unsigned?_digits hplen, hparts]

/-- Different networks have different texts. -/
theorem text_injective : Function.Injective (text : Cidr F → String) := by
  intro c d h
  have hd := d.parse_text
  rw [← h, c.parse_text] at hd
  exact Except.ok.inj hd

end Cidr

end AddressSpace
