import AddressSpace.Text.Numeral
/-!
# Identifiers

Rows and journal records are named by 128-bit identifiers, written as 32 lower-case hexadecimal digits in groups of 8,
4, 4, 4 and 12. Reading also takes the digits in upper case or without hyphens, and the hyphenated form in braces or
behind `urn:uuid:`, whose letters may be in either case as well.
-/

namespace AddressSpace

/-- The name of a row. -/
structure Identifier where
  bits : Nat
  isLt : bits < 1 <<< 128
  deriving DecidableEq

namespace Identifier

open Text

/-- The identifier that the low 128 bits of `n` stand for. -/
def ofBits (n : Nat) : Identifier := ⟨n % (1 <<< 128), Nat.mod_lt _ (by decide)⟩

/-- The identifier of a row that was never stored. -/
def nil : Identifier := ofBits 0

instance : Inhabited Identifier := ⟨nil⟩

/-- Identifiers with the same number are the same. -/
theorem ext_bits {a b : Identifier} (h : a.bits = b.bits) : a = b := by
  cases a
  cases b
  simp_all

/-- Puts the hyphens between 32 digits. -/
def hyphenate (ds : List Char) : List Char :=
  ds.take 8 ++ '-' :: (ds.drop 8).take 4 ++ '-' :: (ds.drop 12).take 4 ++ '-' :: (ds.drop 16).take 4 ++
    '-' :: ds.drop 20

/-- The 32 hexadecimal digits in five groups. -/
def chars (i : Identifier) : List Char := hyphenate (paddedDigits 16 32 i.bits)

/-- The text of an identifier. -/
def text (i : Identifier) : String := String.ofList i.chars

/-- Exactly 32 digits. -/
def ofDigits? (cs : List Char) : Option Identifier :=
  if cs.length = 32 then (value? 16 cs).map ofBits else none

/-- Groups of 8, 4, 4, 4 and 12 digits with hyphens. -/
def ofHyphenated? (cs : List Char) : Option Identifier :=
  let ds := cs.take 8 ++ (cs.drop 9).take 4 ++ (cs.drop 14).take 4 ++ (cs.drop 19).take 4 ++ cs.drop 24
  if cs = hyphenate ds then ofDigits? ds else none

/-- The text without its hyphenated form's wrapping: braces, or the name of the scheme in either case. -/
def unwrapped (cs : List Char) : List Char :=
  match cs with
  | '\x7b' :: rest => if rest.length = 37 ∧ rest.getLast? = some '\x7d' then rest.dropLast else cs
  | _ => if (cs.take 9).map Char.toLower = "urn:uuid:".toList then cs.drop 9 else cs

/-- The identifier that the characters stand for, in any of the accepted spellings. -/
def ofChars? (cs : List Char) : Option Identifier :=
  (ofDigits? cs).or (ofHyphenated? (unwrapped cs))

/-- The identifier a text stands for. -/
def ofText? (s : String) : Option Identifier := ofChars? s.toList

end Identifier

end AddressSpace
