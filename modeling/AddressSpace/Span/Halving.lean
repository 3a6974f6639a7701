import AddressSpace.Span.Subnets
/-!
# Halving plans

Cutting a large span straight into small subnets makes many rows. A halving plan instead halves only the lowest piece,
one bit of length at a time, until it is `depth` bits short of the target, and cuts that piece into target subnets;
every other piece stays as large as it can be. When the lowest piece yields less than half of the subnets that `depth`
bits can tell apart, as it may when the span does not start at a network's first address, the next piece is treated in
the same way.
-/

namespace AddressSpace.Span

variable {F : Family}

/-- Cuts the lowest of the pieces into subnets. There is a lowest piece whenever this is called. -/
def cutLowest (target : UInt8) : List (Span F) → Except Failure (List (Span F))
  | [] => .ok []
  | lowest :: others => do
    let parts ← lowest.subnets target
    return parts ++ others

/-- Halves the lowest piece until it is `depth` bits short of `target`. -/
def halved (s : Span F) (target : UInt8) (depth : Nat) : Except Failure (List (Span F)) :=
  (List.range' (s.plen.toNat + 1) (target.toNat - depth - s.plen.toNat)).foldlM (fun pieces n => cutLowest (.ofNat n) pieces) [s]

/-- Cuts the lowest piece into target subnets, and when these are too few, the lowest part of the next piece as well. Halving leaves
at least one piece, so that there is a lowest one. -/
def cutToTarget (target : UInt8) (depth : Nat) : List (Span F) → Except Failure (List (Span F))
  | [] => .ok []
  | [only] => only.subnets target
  | first :: second :: rest => do
    let plan ← first.subnets target
    if 1 <<< (depth - 1) ≤ plan.length then
      return plan ++ second :: rest
    let pieces ← second.halved target (max (depth - 1) 1)
    let top ← cutLowest target pieces
    return (plan ++ top ++ rest).mergeSort fun x y => x.start ≤ y.start

/-- The halving plan of a span, without the checks. -/
def halvingPieces (s : Span F) (target : UInt8) (depth : Nat) : Except Failure (List (Span F)) := do
  let pieces ← s.halved target depth
  cutToTarget target depth pieces

/-- The halving plan of a span: an ordered partition of it, mostly into large pieces. -/
def halvingPlan (s : Span F) (target depth : UInt8) : Except Failure (List (Span F)) := do
  Mask.require F.width target.toNat
  if target ≤ s.plen then
    throw (.targetNotLonger target s)
  if depth = 0 ∨ F.maxHalvingDepth < depth.toNat then
    throw (.depthOutOfRange F depth)
  s.checkShape
  s.halvingPieces target depth.toNat

end AddressSpace.Span
