import AddressSpace.Cidr.Read
/-!
# Explicit plans

A caller may say into which parts a span is to be split. The parts must follow each other from the span's start to its
end without a gap, and none may have a shorter length than the span.
-/

namespace AddressSpace.Span

variable {F : Family}

/-- Refuses an entry that is out of order, too coarse or too fine, or that does not follow the entry before it. -/
def checkEntry (source : Span F) (before : Option (Span F)) (entry : Span F) : Except Failure Unit := do
  if entry.plen < source.plen then
    throw (.entryCoarser entry source.plen)
  if F.width < entry.plen.toNat then
    throw (.entryTooLong entry)
  if entry.stop < entry.start then
    throw (.entryReversed entry)
  if let some before := before then
    if !before.stop.contiguous entry.start then
      throw (.entriesApart before entry)

/-- Checks the entries in order, each against the one before it. -/
def checkEntries (source : Span F) : Option (Span F) → List (Span F) → Except Failure Unit
  | _, [] => .ok ()
  | before, entry :: entries => do
    checkEntry source before entry
    checkEntries source (some entry) entries

/-- Refuses a plan that is not an ordered partition of `source` into at most `most` entries. -/
def checkPlan (source : Span F) (plan : List (Span F)) (most : Nat) : Except Failure Unit :=
  match plan.head?, plan.getLast? with
  | some first, some last => do
    if most < plan.length then
      throw (.planTooLong plan.length most)
    if first.start ≠ source.start then
      throw (.planStart first.start source.start)
    if last.stop ≠ source.stop then
      throw (.planStop last.stop source.stop)
    checkEntries source none plan
  | _, _ => .error .planEmpty

end AddressSpace.Span
