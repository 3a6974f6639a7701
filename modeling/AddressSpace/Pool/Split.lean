import AddressSpace.Pool
import AddressSpace.Span.Halving
import AddressSpace.Span.Partition
/-!
# Splitting ranges

A range that is not assigned can be split into all its subnets of one length, or along a plan. Its row is replaced by
the rows of its parts, which take over its AS, status, consumer, time of assignment and admin remark.
-/

namespace AddressSpace.Pool

variable {F : Family}

/-- The subnets of one length that a range may be split into. -/
def uniformPlan (limits : Limits) (source : Range F) (target : UInt8) : Except Failure (List (Span F)) := do
  if F.width < target.toNat then
    throw (.splitTooLong F target)
  if target ≤ source.span.plen then
    throw (.splitNotLonger target source.span)
  if limits.splitDepth < target - source.span.plen then
    throw (.splitTooWide target source.span limits.splitDepth)
  requireMutable source .split
  source.span.subnets target

/-- The row of a part. -/
def part (source : Range F) (now : Instant) (id : Identifier) (span : Span F) : Range F :=
  { Range.build id "" span source.asn now with
    status := source.status, org := source.org, assignedAt := source.assignedAt, adminRemark := source.adminRemark }

/-- The rows of the parts, with the `n`-th identifier for the `n`-th part. -/
def parts (source : Range F) (now : Instant) (ids : Nat → Identifier) (spans : List (Span F)) : List (Range F) :=
  (spans.zipIdx).map fun s => part source now (ids s.2) s.1

/-- Replaces a locked row by the rows of its parts. -/
def writeParts (stamp : Stamp) (tx : Transaction F) (source : Range F) (spans : List (Span F)) :
    Action (Store F) (List (Range F)) :=
  Action.rewording (Failure.rewrap .validation (.splitBreaksTable source.span)) <|
    Store.write tx [source.id] (parts source stamp.now stamp.rowId spans)

/-- What a uniform split would give: rows that are not stored. -/
def splitPreview (p : Pool F) (stamp : Stamp) (id : Identifier) (target : UInt8) : Except Failure (List (Range F)) := do
  let source ← p.store.row id
  let spans ← uniformPlan p.limits source target
  return parts source stamp.now (fun _ => .nil) spans

/-- Splits a range into its subnets of one length, which are clipped to it. -/
def split (stamp : Stamp) (id : Identifier) (target : UInt8) (user : Option String) :
    Action (Pool F) (Announced F (List (Range F))) := do
  let limits := (← get).limits
  let (source, spans, rows) ← onStore <| Store.locking [id] fun tx => do
    let source ← tx.row id
    let spans ← uniformPlan limits source target
    let rows ← writeParts stamp tx source spans
    return (source, spans, rows)
  record stamp user (.split source.span spans)
  return ⟨rows, [source.span]⟩

/-- Splits a range along a plan. A plan of the range itself changes nothing. -/
def splitAlong (stamp : Stamp) (id : Identifier) (plan : List (Span F)) (user : Option String) :
    Action (Pool F) (Announced F (List (Range F))) := do
  let limits := (← get).limits
  let (source, rows) ← onStore <| Store.locking [id] fun tx => do
    let source ← tx.row id
    requireMutable source .split
    source.span.checkPlan plan (limits.planEntries F)
    if plan = [source.span] then
      return (source, none)
    let rows ← writeParts stamp tx source plan
    return (source, some rows)
  match rows with
  | none => return ⟨[source], []⟩
  | some rows =>
    record stamp user (.split source.span plan)
    return ⟨rows, [source.span]⟩

/-- The halving plan of a stored range. -/
def halvingPlan (p : Pool F) (id : Identifier) (target depth : UInt8) : Except Failure (List (Span F)) := do
  let r ← p.store.row id
  r.span.halvingPlan target depth

end AddressSpace.Pool
