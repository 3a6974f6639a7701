import AddressSpace.Json.Double
import AddressSpace.Json.Path
/-!
# Decoding JSON

A decoder turns a JSON value into something else or tells the path of the first fault, first in the order of the text.
An object is decoded by its fields: names that are not among them are skipped, a name among them may not come twice,
and one that must be there is missed only at the end. An array of the values in the order of the fields can stand for
an object. A fault has a value's own path only where the value should start or later: a name without a colon is a fault
of the object, and a comma that no item follows one of the array.
-/

namespace AddressSpace.Json

/-- Decodes a value that stands at a path. -/
abbrev Decoder (α : Type) := Path → Json → Except Path α

/-! ## Values that are not decoded -/

mutual

/-- Whether the value is free of gaps. -/
def complete : Json → Bool
  | gap => false
  | array items closed => allComplete items && closed
  | object members ending => allMembersComplete members && ending == .closed
  | _ => true

/-- Whether no value of the list is cut short. -/
def allComplete : List Json → Bool
  | [] => true
  | item :: items => item.complete && allComplete items

/-- Whether every member has its name, and no value of them is cut short. -/
def allMembersComplete : List (Option String × Json) → Bool
  | [] => true
  | (_, value) :: members => value.complete && allMembersComplete members

end

/-- Refuses an object that is not closed: where a name is missing if no name can be read, as a whole if a colon is. -/
def Ending.check (path : Path) : Ending → Except Path Unit
  | closed => .ok ()
  | nameless => .error (.nameless :: path)
  | colonless => .error path

mutual

/-- Refuses a value that could not be read whole, that holds a garbled string or a number beyond all doubles, or that
is nested more than `depth` deep. -/
def checkContent (depth : Nat) (path : Path) : Json → Except Path Unit
  | gap => .error path
  | garbled => .error path
  | number literal => if beyondDouble literal then .error path else .ok ()
  | array items closed => if depth = 0 then .error path else checkItems (depth - 1) path 0 items closed
  | object members ending => if depth = 0 then .error path else checkMembers (depth - 1) path members ending
  | _ => .ok ()

/-- Refuses the first item that is not sound, from the `n`-th on, and an array that is not closed. -/
def checkItems (depth : Nat) (path : Path) (n : Nat) : List Json → (closed : Bool) → Except Path Unit
  | [], closed => if closed then .ok () else .error path
  | item :: items, closed => do
    checkContent depth (.index n :: path) item
    checkItems depth path (n + 1) items closed

/-- Refuses the first member that is not sound, and an object that is not closed. -/
def checkMembers (depth : Nat) (path : Path) : List (Option String × Json) → Ending → Except Path Unit
  | [], ending => ending.check path
  | (none, _) :: _, _ => .error (.nameless :: path)
  | (some name, value) :: members, ending => do
    checkContent depth (.name name :: path) value
    checkMembers depth path members ending

end

/-! ## Single values -/

namespace Decoder

variable {α β : Type}

/-- A string that `read` understands. -/
def text (read : String → Option α) : Decoder α := fun path j =>
  match j with
  | .string s => match read s with
    | some a => .ok a
    | none => .error path
  | _ => .error path

/-- Any string. -/
def string : Decoder String := text some

/-- A natural number below `bound`, written with digits alone. -/
def nat (bound : Nat) : Decoder Nat := fun path j =>
  match j with
  | .number literal => match (Text.value? 10 literal).filter (· < bound) with
    | some n => .ok n
    | none => .error path
  | _ => .error path

/-- A number of 8 bits. -/
def word8 : Decoder UInt8 := fun path j => (nat UInt8.size path j).map UInt8.ofNat

/-- A number of 32 bits. -/
def word32 : Decoder UInt32 := fun path j => (nat UInt32.size path j).map UInt32.ofNat

/-- A number of 64 bits. -/
def word64 : Decoder UInt64 := fun path j => (nat UInt64.size path j).map UInt64.ofNat

/-- A value or null. -/
def orNull (d : Decoder α) : Decoder (Option α) := fun path j =>
  match j with
  | .null => .ok none
  | j => (d path j).map some

/-- One of a few words, alone or as the only name of an object, whose value `unit` judges. -/
def choice (read : String → Option α) (unit : Decoder Unit) : Decoder α := fun path j =>
  match j with
  | .object ((some name, value) :: others) ending => do
    let a ← text read path (.string name)
    unit (.name name :: path) value
    if others.isEmpty && ending == .closed then .ok a else .error path
  | j => text read path j

/-- Null. -/
def null : Decoder Unit := fun path j =>
  match j with
  | .null => .ok ()
  | _ => .error path

/-- Null or an empty object. -/
def nullOrEmpty : Decoder Unit := fun path j =>
  match j with
  | .object [] .closed => .ok ()
  | j => null path j

/-- The items of an array, from the `n`-th on. -/
def items (d : Decoder α) (path : Path) (n : Nat) : List Json → (closed : Bool) → Except Path (List α)
  | [], closed => if closed then .ok [] else .error path
  | item :: rest, closed => do
    let a ← d (.index n :: path) item
    let as ← items d path (n + 1) rest closed
    return a :: as

/-- An array. -/
def list (d : Decoder α) : Decoder (List α) := fun path j =>
  match j with
  | .array js closed => items d path 0 js closed
  | _ => .error path

end Decoder

/-! ## Objects -/

/-- A field that an object may have, with a check of its value, and whether an array in the place of the object may end
before it. -/
structure Member where
  name : String
  check : Decoder Unit
  omissible : Bool

/-- What is made of the fields of an object: the names that are looked at, and how the values under them become a
result. -/
structure Fields (α : Type) where
  members : List Member
  build : Path → (String → Option Json) → Except Path α

namespace Fields

variable {α β : Type}

/-- A field that must be there. -/
def required (name : String) (d : Decoder α) : Fields α where
  members := [⟨name, fun path j => discard (d path j), false⟩]
  build path value := match value name with
    | some j => d (.name name :: path) j
    | none => .error path

/-- A field that may be left out. -/
def optional (name : String) (d : Decoder α) (default : α) : Fields α where
  members := [⟨name, fun path j => discard (d path j), true⟩]
  build path value := match value name with
    | some j => d (.name name :: path) j
    | none => .ok default

/-- A field that may be null, or left out if the fields are named. -/
def nullable (name : String) (d : Decoder α) : Fields (Option α) where
  members := [⟨name, fun path j => discard (d.orNull path j), false⟩]
  build path value := match value name with
    | some j => d.orNull (.name name :: path) j
    | none => .ok none

/-- No field at all. -/
def const (a : α) : Fields α := ⟨[], fun _ _ => .ok a⟩

/-- The fields of both, one after the other. -/
def and (f : Fields (α → β)) (g : Fields α) : Fields β where
  members := f.members ++ g.members
  build path value := do
    let h ← f.build path value
    let a ← g.build path value
    return h a

/-- Checks members in their order. `other` judges the values under names that are not looked at. -/
def check (fields : List Member) (other : Decoder Unit) (path : Path) (seen : List String) :
    List (Option String × Json) → Ending → Except Path Unit
  | [], ending => ending.check path
  | (none, _) :: _, _ => .error (.nameless :: path)
  | (some name, value) :: members, ending => do
    match fields.find? (·.name == name) with
    | some f =>
      if seen.contains name then
        throw path
      f.check (.name name :: path) value
    | none => other (.name name :: path) value
    check fields other path (name :: seen) members ending

/-- The value under a name. -/
def value? (members : List (Option String × Json)) (name : String) : Option Json :=
  (members.find? (·.1 == some name)).map (·.2)

/-- Skips a value. -/
def skip : Decoder Unit := fun path j => if j.complete then .ok () else .error path

/-- An object with these fields. -/
def object (f : Fields α) : Decoder α := fun path j =>
  match j with
  | .object members ending => do
    check f.members skip path [] members ending
    f.build path (value? members)
  | _ => .error path

/-- Checks values, from the `n`-th on, as those of the fields in their order. -/
def checkInOrder (path : Path) (n : Nat) : List Member → List Json → (closed : Bool) → Except Path Unit
  | [], items, closed => if items.isEmpty && closed then .ok () else .error path
  | f :: fields, item :: items, closed => do
    f.check (.index n :: path) item
    checkInOrder path (n + 1) fields items closed
  | f :: fields, [], closed => if closed && (f :: fields).all (·.omissible) then .ok () else .error path

/-- An object with these fields, or an array of their values in order. -/
def objectOrArray (f : Fields α) : Decoder α := fun path j =>
  match j with
  | .array items closed => do
    checkInOrder path 0 f.members items closed
    f.build path (value? ((f.members.map (some ·.name)).zip items))
  | j => f.object path j

end Fields

end AddressSpace.Json
