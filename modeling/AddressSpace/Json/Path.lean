import AddressSpace.Text.Numeral
/-!
# Paths

Where in a JSON value something stands: positions in arrays and names in objects, from the outside in.
-/

namespace AddressSpace.Json

/-- One step into a value. -/
inductive Step where
  | index (n : Nat)
  | name (s : String)
  /-- Where a name is missing. -/
  | nameless
  deriving DecidableEq

/-- The steps from the innermost out. -/
abbrev Path := List Step

namespace Path

/-- A step with a point in front of a name, unless it is the first. -/
def stepText (first : Bool) : Step → String
  | .index n => "[" ++ Text.decimal n ++ "]"
  | .name s => (if first then "" else ".") ++ s
  | .nameless => if first then "?" else ".?"

/-- The text of a path, a lone point for the whole value. -/
def text (p : Path) : String :=
  match p.reverse with
  | [] => "."
  | s :: ss => stepText true s ++ String.join (ss.map (stepText false))

end Path

end AddressSpace.Json
