import AddressSpace.Address
import AddressSpace.Text.Numeral
import AddressSpace.Text.Split
/-!
# The text of an address

An address of the 32-bit family is written as four decimal octets with dots. One of the 128-bit family is written as
eight hexadecimal groups with colons, the longest run of at least two zero groups (the first of several) as a double
colon; an address that carries a 32-bit address behind sixteen one bits shows that address with dots. Reading takes
any spelling with up to four digits a group, at most one double colon, which stands for at least one group, and dotted
octets in place of the last two groups.
-/

namespace AddressSpace.Address

open Text

/-! ## Dotted octets -/

/-- The four octets of a number of 32 bits, with dots. -/
def dotted (n : Nat) : List Char :=
  join '.' ([(n >>> 24) % 256, (n >>> 16) % 256, (n >>> 8) % 256, n % 256].map (digits 10))

/-- One octet: up to three digits, no leading zero. -/
def octet? (cs : List Char) : Option Nat :=
  if cs.length ≤ 3 ∧ (cs.length ≤ 1 ∨ cs.head? ≠ some '0') then (value? 10 cs).filter (· < 256) else none

/-- Reads four octets with dots. -/
def readDotted? (cs : List Char) : Option Nat :=
  match (split '.' cs).mapM octet? with
  | some [a, b, c, d] => some (((a * 256 + b) * 256 + c) * 256 + d)
  | _ => none

/-! ## Groups -/

/-- The eight groups of a number of 128 bits. -/
def groups (n : Nat) : List Nat := (List.range 8).map fun i => (n >>> (16 * (7 - i))) % 0x10000

/-- The number that groups stand for. -/
def ofGroups (gs : List Nat) : Nat := gs.foldl (fun n g => n * 0x10000 + g) 0

/-- How many zero groups stand at position `i` and right after it. -/
def zerosAt (gs : List Nat) (i : Nat) : Nat := ((gs.drop i).takeWhile (· == 0)).length

/-- Where the longest run of zero groups starts, the first of several. -/
def longestZeros (gs : List Nat) : Nat :=
  (List.range gs.length).foldl (fun best i => if zerosAt gs best < zerosAt gs i then i else best) 0

/-- Groups with colons. -/
def colons (gs : List Nat) : List Char := join ':' (gs.map (digits 16))

/-- Groups with colons, the longest run of zeros left out if there are at least two. -/
def compressed (gs : List Nat) : List Char :=
  let i := longestZeros gs
  let n := zerosAt gs i
  if 1 < n then colons (gs.take i) ++ ':' :: ':' :: colons (gs.drop (i + n)) else colons gs

/-- The text of a number of 128 bits. -/
def grouped (n : Nat) : List Char :=
  if n >>> 32 = 0xffff then "::ffff:".toList ++ dotted (n % Family.v4.size) else compressed (groups n)

/-- One group: up to four digits. -/
def group? (cs : List Char) : Option Nat := if cs.length ≤ 4 then value? 16 cs else none

/-- Reads groups, the last of which may be two groups in dotted octets. -/
def readParts? : List (List Char) → Option (List Nat)
  | [] => some []
  | [part] =>
    if part.contains '.' then (readDotted? part).map fun n => [n / 0x10000, n % 0x10000]
    else (group? part).map fun g => [g]
  | part :: parts => do
    let g ← group? part
    let gs ← readParts? parts
    return g :: gs

/-- The parts between the colons; an empty text has none. -/
def colonParts (cs : List Char) : List (List Char) := if cs = [] then [] else split ':' cs

/-- Reads eight groups, or fewer around a double colon. -/
def readGrouped? (cs : List Char) : Option Nat :=
  match splitDouble? ':' cs with
  | none => do
    let gs ← readParts? (split ':' cs)
    if gs.length = 8 then some (ofGroups gs) else none
  | some (before, after) => do
    let head ← (colonParts before).mapM group?
    let tail ← readParts? (colonParts after)
    if head.length + tail.length < 8 then
      some (ofGroups (head ++ List.replicate (8 - head.length - tail.length) 0 ++ tail))
    else none

/-! ## Either family -/

/-- The text of an address. -/
def chars {F : Family} (a : Address F) : List Char :=
  match F with
  | .v4 => dotted a.bits
  | .v6 => grouped a.bits

/-- The text of an address. -/
def text {F : Family} (a : Address F) : String := String.ofList a.chars

/-- The address a text stands for, blanks not allowed. -/
def ofChars? (F : Family) (cs : List Char) : Option (Address F) :=
  (match F with
    | .v4 => readDotted? cs
    | .v6 => readGrouped? cs).map (ofBits F)

/-- The address a text stands for, blanks not allowed. -/
def ofText? (F : Family) (s : String) : Option (Address F) := ofChars? F s.toList

end AddressSpace.Address
