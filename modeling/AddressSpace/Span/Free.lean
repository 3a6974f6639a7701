import AddressSpace.Cidr.Read
/-!
# Free blocks

The part of a span that nothing occupies, as networks that are as large as they can be. What is occupied is walked through
in ascending order, and each gap on the way is filled from its first address on, every time with the largest network that
starts there and fits.
-/

namespace AddressSpace.Span

variable {F : Family}

/-- The least length from `plen` on that lets the network at `start` end no later than `limit`. -/
def fittingLength (start limit : Address F) (plen : Nat) : Except Failure Nat :=
  if F.width < plen then .error (.lengthOutOfRange plen F.width)
  else if start.last plen ≤ limit then .ok plen
  else fittingLength start limit (plen + 1)
termination_by F.width + 1 - plen

/-- The networks that fill the gap from `start` to `stop`, in ascending order: each is the largest that starts where the
one before it ends, lies in the gap and has no shorter length than `least`. -/
def fillGap (least : Nat) (stop start : Address F) : Except Failure (List (Cidr F)) := do
  let plen ← fittingLength start stop (max least (Mask.shortest start.bits F.width))
  let c ← Cidr.ofParts start plen
  if h : start.last plen < stop then
    let others ← fillGap least stop (Address.next h)
    return c :: others
  else return [c]
termination_by stop.bits - start.bits
decreasing_by
  have hstart : start.bits ≤ (start.last plen).bits := start.le_last plen
  have hstop : (start.last plen).bits < stop.bits := h
  simp only [Address.next_bits]
  omega

/-- The networks that fill the gap from the address `cursor` to the span `taken`. -/
def gapBefore (outer taken : Span F) (cursor : Address F) : Except Failure (List (Cidr F)) :=
  if h : cursor < taken.start then fillGap outer.plen.toNat (Address.previous h) cursor else .ok []

/-- The address of `outer` behind the span `taken`, unless `outer` ends there or before. -/
def behind? (outer taken : Span F) : Option (Address F) :=
  if h : taken.stop < outer.stop then some (Address.next h) else none

/-- The networks that fill the gaps between the spans `occupied`, from the address `cursor` to the end of `outer`. Spans
behind the cursor or after the end are passed over. -/
def freeFrom (outer : Span F) : Option (Address F) → List (Span F) → Except Failure (List (Cidr F))
  | none, _ => .ok []
  | some cursor, [] => fillGap outer.plen.toNat outer.stop cursor
  | some cursor, taken :: occupied =>
    if taken.stop < cursor ∨ outer.stop < taken.start then freeFrom outer (some cursor) occupied
    else do
      let before ← outer.gapBefore taken cursor
      let behind ← freeFrom outer (outer.behind? taken) occupied
      return before ++ behind

/-- The largest networks inside the span that meet none of `occupied`, which are in ascending order and do not meet each
other. None is larger than the span's own network. -/
def free (outer : Span F) (occupied : List (Span F)) : Except Failure (List (Cidr F)) := do
  outer.checkShape
  outer.freeFrom (some outer.start) occupied

end AddressSpace.Span
