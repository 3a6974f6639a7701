import AddressSpace.Mask.Checked
import AddressSpace.Text.Blank
/-!
# Reading addresses and networks

Texts from outside may have blanks around them. A network's text is cut at its first slash; the address in front of it
may again have blanks around it, the length behind it may not.
-/

namespace AddressSpace

open Text

/-- The address a text stands for, blanks around it aside. -/
def Address.parse (F : Family) (s : String) : Except Failure (Address F) :=
  match Address.ofChars? F (trimChars s.toList) with
  | some a => .ok a
  | none => .error (.badAddress F (trim s))

namespace Cidr

variable {F : Family}

/-- An address with a length that is checked. -/
def ofParts (addr : Address F) (plen : Nat) : Except Failure (Cidr F) :=
  if h : plen ≤ F.width then .ok ⟨addr, plen, h⟩ else .error (.lengthOutOfRange plen F.width)

/-- The network a text stands for. -/
def parse (F : Family) (s : String) : Except Failure (Cidr F) :=
  match splitFirst? '/' (trimChars s.toList) with
  | none => .error (.noSlash (trim s))
  | some (before, after) => do
    let addr ← Address.parse F (String.ofList before)
    match unsigned? 256 after with
    | none => .error (.badLength (String.ofList after))
    | some plen => ofParts addr plen

/-- The network of length `plen` that holds the address. -/
def around (addr : Address F) (plen : Nat) : Except Failure (Cidr F) := do
  let c ← ofParts addr plen
  return c.network

end Cidr

/-- Whether both addresses stand in one network of length `plen`. -/
def Address.sameNetwork {F : Family} (a b : Address F) (plen : Nat) : Bool := a.cut plen == b.cut plen

/-- Whether both addresses stand in one network of the length, which is checked. -/
def Address.sameNetworkOf {F : Family} (a b : Address F) (plen : Nat) : Except Failure Bool := do
  Mask.require F.width plen
  return a.sameNetwork b plen

namespace Span

variable {F : Family}

/-- The span between two addresses given as texts; of two bad addresses the first is reported. -/
def parse (F : Family) (start stop : String) (plen : UInt8) : Except Failure (Span F) := do
  let start ← Address.parse F start
  let stop ← Address.parse F stop
  return ⟨start, stop, plen⟩

/-- Refuses a span whose length is beyond the width, whose ends are in the wrong order, or whose ends stand in different
networks of its length. -/
def checkShape (s : Span F) : Except Failure Unit := do
  Mask.require F.width s.plen.toNat
  if s.stop < s.start then
    throw (.reversed s)
  if !s.start.sameNetwork s.stop s.plen.toNat then
    throw (.networksDiffer (s.start.cut s.plen.toNat) (s.stop.cut s.plen.toNat) s.plen)

end Span

end AddressSpace
