import AddressSpace.Json
/-!
# Writing JSON

Values are written over several lines, indented by two blanks a level. In strings, the quote, the backslash and the
control characters are escaped and everything else stands for itself.
-/

namespace AddressSpace.Json

open Text

/-- How a character stands in a string. -/
def escape (c : Char) : List Char :=
  if c = '"' then ['\\', '"']
  else if c = '\\' then ['\\', '\\']
  else if c.toNat = 0x08 then ['\\', 'b']
  else if c.toNat = 0x0C then ['\\', 'f']
  else if c = '\n' then ['\\', 'n']
  else if c = '\r' then ['\\', 'r']
  else if c = '\t' then ['\\', 't']
  else if c.toNat < 0x20 then '\\' :: 'u' :: paddedDigits 16 4 c.toNat
  else [c]

/-- A string literal. -/
def quote (s : String) : List Char := '"' :: s.toList.flatMap escape ++ ['"']

/-- A new line, indented. -/
def newLine (level : Nat) : List Char := '\n' :: List.replicate (2 * level) ' '

mutual

/-- A value whose inner lines are indented by one level more than `level`. -/
def write (level : Nat) : Json → List Char
  | null => "null".toList
  | bool true => "true".toList
  | bool false => "false".toList
  | number literal => literal
  | string s => quote s
  | array [] _ => "[]".toList
  | array (item :: items) _ =>
    '[' :: newLine (level + 1) ++ write (level + 1) item ++ writeItems (level + 1) items ++ newLine level ++ [']']
  | object [] _ => ['\x7b', '\x7d']
  | object (m :: members) _ =>
    '\x7b' :: newLine (level + 1) ++ writeMember (level + 1) m ++ writeMembers (level + 1) members ++ newLine level ++
      ['\x7d']
  | garbled => []
  | gap => []

/-- The items behind the first. -/
def writeItems (level : Nat) : List Json → List Char
  | [] => []
  | item :: items => ',' :: newLine level ++ write level item ++ writeItems level items

/-- A name with its value. -/
def writeMember (level : Nat) : Option String × Json → List Char
  | (name, value) => quote (name.getD "") ++ ':' :: ' ' :: write level value

/-- The members behind the first. -/
def writeMembers (level : Nat) : List (Option String × Json) → List Char
  | [] => []
  | m :: members => ',' :: newLine level ++ writeMember level m ++ writeMembers level members

end

/-- The text of a value. -/
def text (j : Json) : String := String.ofList (write 0 j)

end AddressSpace.Json
