import AddressSpace.Cidr.Read
import AddressSpace.Json
/-!
# Networks as JSON values

A network is saved as its text, and read from a text by the rules for texts from outside.
-/

namespace AddressSpace.Cidr

/-- Why a JSON value is no network. -/
inductive JsonFailure where
  /-- It is no text. -/
  | notText
  /-- Its text is refused. -/
  | refused (cause : Failure)
  deriving DecidableEq

variable {F : Family}

/-- A network is encoded as its text. -/
def toJson (c : Cidr F) : Json := .string c.text

/-- The network a JSON value stands for. -/
def ofJson (F : Family) : Json → Except JsonFailure (Cidr F)
  | .string s => (parse F s).mapError .refused
  | _ => .error .notText

end AddressSpace.Cidr
