import AddressSpace.Cidr
import AddressSpace.Interval
/-!
# Spans

The addresses from a first to a last one, both included, with the length of the network that governs them. A span may
be the clipped part of a network, so neither end need be the network's own.
-/

namespace AddressSpace

/-- The bounds of a range. -/
structure Span (F : Family) where
  start : Address F
  stop : Address F
  plen : UInt8
  deriving DecidableEq

namespace Span

variable {F : Family}

/-- Whether the address lies within the bounds. -/
def contains (s : Span F) (a : Address F) : Bool := s.start ≤ a && a ≤ s.stop

/-- Whether some address may lie in both: neither ends before the other starts. -/
def meets (s t : Span F) : Bool := s.start ≤ t.stop && t.start ≤ s.stop

/-- The number of addresses. -/
def size (s : Span F) : Nat := s.stop.bits + 1 - s.start.bits

/-- The bounds as numbers. -/
def interval (s : Span F) : Interval := ⟨s.start.bits, s.stop.bits⟩

/-- The network of the first address, unless the length is beyond the family's width. -/
def network? (s : Span F) : Option (Cidr F) :=
  if h : s.plen.toNat ≤ F.width then some (Cidr.network ⟨s.start, s.plen.toNat, h⟩) else none

/-- The whole network. -/
def ofCidr (c : Cidr F) : Span F := ⟨c.lo, c.hi, UInt8.ofNat c.plen⟩

/-- The text of a span that is asked for. -/
def text (s : Span F) : String := s.start.text ++ "-" ++ s.stop.text ++ " /" ++ Text.decimal s.plen.toNat

/-- The text of a span that is held by a stored row. -/
def storedText (s : Span F) : String := s.start.text ++ " - " ++ s.stop.text ++ " /" ++ Text.decimal s.plen.toNat

/-- The size as listings show it, the whole 128-bit space as a power. -/
def sizeText (s : Span F) : String := if s.size = Family.v6.size then "2^128" else Text.decimal s.size

end Span

end AddressSpace
