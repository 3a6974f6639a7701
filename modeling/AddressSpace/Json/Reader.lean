import AddressSpace.Json
/-!
# Reading JSON

Readers take the characters that are left. Each gives what it could read and, when the text follows the rules so far,
the characters behind it. What stands behind the first value does not matter.
-/

namespace AddressSpace.Json

open Text

/-- The blanks between the parts of a text. -/
def isSpace (c : Char) : Bool := c == ' ' || c == '\n' || c == '\t' || c == '\r'

/-- What is left behind the blanks in front. -/
def skipSpace (cs : List Char) : List Char := cs.dropWhile isSpace

/-! ## Strings -/

/-- The value of four hexadecimal digits. -/
def hex4? (a b c d : Char) : Option Nat := readDigits 16 0 [a, b, c, d]

/-- What a single character behind a backslash stands for. -/
def unescape? (c : Char) : Option Nat :=
  if c = '"' then some 0x22
  else if c = '\\' then some 0x5C
  else if c = '/' then some 0x2F
  else if c = 'b' then some 0x08
  else if c = 'f' then some 0x0C
  else if c = 'n' then some 0x0A
  else if c = 'r' then some 0x0D
  else if c = 't' then some 0x09
  else none

/-- The code points of a string literal up to its closing quote, halves of surrogate pairs included. -/
def readUnits : List Char → Option (List Nat × List Char)
  | [] => none
  | '"' :: rest => some ([], rest)
  | '\\' :: 'u' :: a :: b :: c :: d :: rest =>
    (hex4? a b c d).bind fun u => (readUnits rest).map fun p => (u :: p.1, p.2)
  | '\\' :: c :: rest => (unescape? c).bind fun u => (readUnits rest).map fun p => (u :: p.1, p.2)
  | c :: rest => if c.toNat < 0x20 then none else (readUnits rest).map fun p => (c.toNat :: p.1, p.2)

/-- The characters that code points stand for, a high half with the low half behind it for one. -/
def joinHalves : List Nat → Option (List Char)
  | [] => some []
  | u :: us =>
    if 0xD800 ≤ u ∧ u < 0xDC00 then
      match us with
      | v :: vs =>
        if 0xDC00 ≤ v ∧ v < 0xE000 then
          (joinHalves vs).map (Char.ofNat (0x10000 + (u - 0xD800) * 0x400 + (v - 0xDC00)) :: ·)
        else none
      | [] => none
    else if 0xDC00 ≤ u ∧ u < 0xE000 then none
    else (joinHalves us).map (Char.ofNat u :: ·)

/-- A string literal behind its opening quote; a garbled one is no text. -/
def readString (cs : List Char) : Option (Option String × List Char) :=
  (readUnits cs).map fun p => ((joinHalves p.1).map String.ofList, p.2)

/-! ## Numbers -/

/-- Whether the character is a decimal digit. -/
def isDigit (c : Char) : Bool := '0' ≤ c && c ≤ '9'

/-- One or more digits. -/
def digits1 (cs : List Char) : Option (List Char × List Char) :=
  let ds := cs.takeWhile isDigit
  if ds.isEmpty then none else some (ds, cs.dropWhile isDigit)

/-- The digits before the point, without a leading zero. -/
def wholePart (cs : List Char) : Option (List Char × List Char) :=
  (digits1 cs).filter fun p => p.1.length == 1 || p.1.head? != some '0'

/-- A point with digits behind it, or nothing. -/
def pointPart (cs : List Char) : Option (List Char × List Char) :=
  match cs with
  | '.' :: rest => (digits1 rest).map fun p => ('.' :: p.1, p.2)
  | _ => some ([], cs)

/-- An exponent, or nothing. -/
def exponentPart (cs : List Char) : Option (List Char × List Char) :=
  match cs with
  | e :: rest =>
    if e = 'e' ∨ e = 'E' then
      match rest with
      | s :: more =>
        if s = '+' ∨ s = '-' then (digits1 more).map fun p => (e :: s :: p.1, p.2)
        else (digits1 rest).map fun p => (e :: p.1, p.2)
      | [] => none
    else some ([], cs)
  | [] => some ([], [])

/-- The literal of a number, without its sign. -/
def readNumber (cs : List Char) : Option (List Char × List Char) := do
  let (whole, cs) ← wholePart cs
  let (point, cs) ← pointPart cs
  let (exponent, cs) ← exponentPart cs
  return (whole ++ point ++ exponent, cs)

/-! ## Values -/

/-- The word itself, and what stands behind it. -/
def readWord (word : String) (value : Json) (cs : List Char) : Json × Option (List Char) :=
  if word.toList.isPrefixOf cs then (value, some (cs.drop word.length)) else (.gap, none)

mutual

/-- A value. The fuel is used up by one with every value, and no text has more values than characters. -/
def readValue : Nat → List Char → Json × Option (List Char)
  | 0, _ => (.gap, none)
  | fuel + 1, cs =>
    match skipSpace cs with
    | [] => (.gap, none)
    | c :: rest =>
      if c = '"' then
        match readString rest with
        | some (some s, rest) => (.string s, some rest)
        | some (none, rest) => (.garbled, some rest)
        | none => (.gap, none)
      else if c = '[' then
        match skipSpace rest with
        | [] => (.array [] false, none)
        | ']' :: rest => (.array [] true, some rest)
        | _ =>
          let (items, behind) := readItems fuel rest
          (.array items behind.isSome, behind)
      else if c = '\x7b' then
        match skipSpace rest with
        | '\x7d' :: rest => (.object [] .closed, some rest)
        | _ =>
          let (members, ending, behind) := readMembers fuel rest
          (.object members ending, behind)
      else if c = 'n' then readWord "null" .null (c :: rest)
      else if c = 't' then readWord "true" (.bool true) (c :: rest)
      else if c = 'f' then readWord "false" (.bool false) (c :: rest)
      else if c = '-' then
        match readNumber rest with
        | some (literal, rest) => (.number ('-' :: literal), some rest)
        | none => (.gap, none)
      else
        match readNumber (c :: rest) with
        | some (literal, rest) => (.number literal, some rest)
        | none => (.gap, none)

/-- One or more items, up to the closing bracket. A comma that no item follows ends them, too. -/
def readItems : Nat → List Char → List Json × Option (List Char)
  | 0, _ => ([], none)
  | fuel + 1, cs =>
    match readValue fuel cs with
    | (item, none) => ([item], none)
    | (item, some rest) =>
      match skipSpace rest with
      | ',' :: rest =>
        match skipSpace rest with
        | [] => ([item], none)
        | ']' :: _ => ([item], none)
        | _ =>
          let (items, behind) := readItems fuel rest
          (item :: items, behind)
      | ']' :: rest => ([item], some rest)
      | _ => ([item], none)

/-- One or more members, up to the closing brace. -/
def readMembers : Nat → List Char → List (Option String × Json) × Ending × Option (List Char)
  | 0, _ => ([], .nameless, none)
  | fuel + 1, cs =>
    match skipSpace cs with
    | '"' :: rest =>
      match readString rest with
      | none => ([], .nameless, none)
      | some (name, rest) =>
        match skipSpace rest with
        | ':' :: rest =>
          match readValue fuel rest with
          | (value, none) => ([(name, value)], .nameless, none)
          | (value, some rest) =>
            match skipSpace rest with
            | ',' :: rest =>
              let (members, ending, behind) := readMembers fuel rest
              ((name, value) :: members, ending, behind)
            | '\x7d' :: rest => ([(name, value)], .closed, some rest)
            | _ => ([(name, value)], .nameless, none)
        | _ => ([], if name.isSome then .colonless else .nameless, none)
    | _ => ([], .nameless, none)

end

/-- The value that a text starts with. -/
def ofChars (cs : List Char) : Json := (readValue (2 * cs.length + 1) cs).1

/-- The value that a text starts with. -/
def ofText (s : String) : Json := ofChars s.toList

end AddressSpace.Json
