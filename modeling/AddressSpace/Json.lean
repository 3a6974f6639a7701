import AddressSpace.Text.Numeral
/-!
# JSON values

A JSON value, as far as its text could be read: where the text breaks off or breaks the rules, the value has a gap, and
everything behind the gap is missing. Values that are written have no gaps.
-/

namespace AddressSpace

/-- How the members of an object end. -/
inductive Json.Ending where
  /-- With the closing brace. -/
  | closed
  /-- Where a comma and a name, or the closing brace, should stand and do not. -/
  | nameless
  /-- Behind a name that no colon follows. -/
  | colonless
  deriving DecidableEq

open Json (Ending)

/-- A JSON value. -/
inductive Json where
  | null
  | bool (b : Bool)
  /-- A number, by its literal. -/
  | number (literal : List Char)
  | string (s : String)
  /-- A string literal that names half a surrogate pair, and so no text. -/
  | garbled
  /-- The items of which something could be read, and whether the closing bracket follows them. -/
  | array (items : List Json) (closed : Bool)
  /-- The members that could be read up to their colon, and how they end. A garbled name is none. -/
  | object (members : List (Option String × Json)) (ending : Ending)
  /-- Nothing that could be read. -/
  | gap

namespace Json

/-- A natural number. -/
def ofNat (n : Nat) : Json := .number (Text.digits 10 n)

/-- A list of values. -/
def ofList (items : List Json) : Json := .array items true

/-- Named values. -/
def ofMembers (members : List (String × Json)) : Json := .object (members.map fun m => (some m.1, m.2)) .closed

/-- A value or null. -/
def ofOption {α : Type} (f : α → Json) : Option α → Json
  | some a => f a
  | none => .null

end Json

end AddressSpace
