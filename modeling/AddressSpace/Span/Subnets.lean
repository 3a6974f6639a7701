import AddressSpace.Cidr.Read
/-!
# Subnets

A span is cut into the networks of one length that meet it. The networks at its two ends are clipped to the span. They are found
one after the other, from the network of the span's first address on; by their numbers they can be given at once.
-/

namespace AddressSpace.Span

variable {F : Family}

/-- The part of the span that lies in the `n`-th network of length `target`. -/
def piece (s : Span F) (target : UInt8) (n : Nat) : Span F :=
  let size := 1 <<< (F.width - target.toNat)
  ⟨.ofBits F (max (n * size) s.start.bits), .ofBits F (min (n * size + (size - 1)) s.stop.bits), target⟩

/-- The parts of the span, one for each network of length `target` that meets it, in ascending order. -/
def pieces (s : Span F) (target : UInt8) : List (Span F) :=
  let size := 1 <<< (F.width - target.toNat)
  let first := s.start.bits / size
  let last := s.stop.bits / size
  (List.range' first (last + 1 - first)).map (s.piece target)

/-- The part of the span that lies in the network of length `target` that starts at `cursor`. -/
def subnetAt (s : Span F) (target : UInt8) (cursor : Address F) : Span F :=
  ⟨.ofBits F (max cursor.bits s.start.bits), .ofBits F (min (cursor.last target.toNat).bits s.stop.bits), target⟩

/-- The parts that lie in the network that starts at `cursor` and in those behind it, added to the parts already found. The search
ends with the network that holds the end of the span, and so does not leave the address space. -/
def subnetsFrom (s : Span F) (target : UInt8) (found : Array (Span F)) (cursor : Address F) : Array (Span F) :=
  if h : cursor.last target.toNat < s.stop then
    s.subnetsFrom target (found.push (s.subnetAt target cursor)) (Address.next h)
  else found.push (s.subnetAt target cursor)
termination_by s.stop.bits - cursor.bits
decreasing_by
  have hcursor : cursor.bits ≤ (cursor.last target.toNat).bits := cursor.le_last target.toNat
  have hlast : (cursor.last target.toNat).bits < s.stop.bits := h
  simp only [Address.next_bits]
  omega

/-- The subnets of a span, for a length that must not be shorter than the span's own. -/
def subnets (s : Span F) (target : UInt8) : Except Failure (List (Span F)) := do
  Mask.require F.width s.plen.toNat
  Mask.require F.width target.toNat
  if target < s.plen then
    throw (.subnetCoarser target s)
  if s.stop < s.start then
    throw (.badBounds s)
  return (s.subnetsFrom target #[] (s.start.cut target.toNat)).toList

end AddressSpace.Span
