import AddressSpace.Pool
/-!
# Merging ranges

Neighbouring ranges with the same status, AS and, when they are reserved, consumer are replaced by one range of a
shorter length. They must follow each other without a gap inside one network of that length.
-/

namespace AddressSpace.Pool

variable {F : Family}

/-- Refuses a request to merge that is empty, too large or about no length. -/
def checkMergeRequest (limits : Limits) (ids : List Identifier) (target : UInt8) : Except Failure Unit := do
  if ids.isEmpty then
    throw .mergeEmpty
  if limits.mergeMembers.toNat < ids.length then
    throw (.mergeTooMany ids.length limits.mergeMembers.toNat)
  if target = 0 ∨ F.width < target.toNat then
    throw (.mergeLength F target)

/-- Refuses a member that is assigned, or shorter than the length asked for. -/
def checkMember (target : UInt8) (m : Range F) : Except Failure Unit := do
  requireMutable m .merged
  if m.span.plen < target then
    throw (.mergeFiner target m.span)

/-- Refuses two neighbours that cannot become one. -/
def checkNeighbours (target : UInt8) (a b : Range F) : Except Failure Unit := do
  if a.status ≠ b.status then
    throw (.statusDiffers a.span a.status b.span b.status)
  if a.asn.number ≠ b.asn.number then
    throw (.asnDiffers a.span a.asn.number b.span b.asn.number)
  if a.status = .reserved ∧ a.org ≠ b.org then
    throw (.orgDiffers a.span b.span)
  if !a.span.stop.contiguous b.span.start then
    throw (.apart a.span b.span)
  if !a.span.start.sameNetwork b.span.start target.toNat then
    throw (.networkDiffers a.span b.span target)

/-- Checks each row against the one after it. -/
def checkAllNeighbours (target : UInt8) : List (Range F) → Except Failure Unit
  | a :: b :: rest => do
    checkNeighbours target a b
    checkAllNeighbours target (b :: rest)
  | _ => .ok ()

/-- Refuses rows, in ascending order, that cannot become one range of the length. -/
def checkMembers (target : UInt8) (members : List (Range F)) : Except Failure Unit := do
  members.forM (checkMember target)
  checkAllNeighbours target members

/-- The range over all members. -/
def mergedRange (now : Instant) (id : Identifier) (target : UInt8) (first last : Range F) : Range F :=
  { Range.build id "" ⟨first.span.start, last.span.stop, target⟩ first.asn now with
    status := first.status, org := if first.status = .reserved then first.org else none }

/-- What members in ascending order become: a single one of the right length stays what it is. -/
inductive Merger (F : Family) where
  | unchanged (row : Range F)
  | merged (row : Range F)

/-- What checked members become. -/
def merger (now : Instant) (id : Identifier) (target : UInt8) (members : List (Range F)) :
    Except Failure (Merger F) := do
  checkMembers target members
  match members.head?, members.getLast? with
  | some first, some last =>
    if members.length = 1 ∧ first.span.plen = target then
      return .unchanged first
    else
      return .merged (mergedRange now id target first last)
  | _, _ => throw .mergeEmpty

/-- What a merge would give: a row that is not stored. -/
def mergePreview (p : Pool F) (stamp : Stamp) (ids : List Identifier) (target : UInt8) : Except Failure (Range F) := do
  let ids := Locks.distinct ids
  checkMergeRequest (F := F) p.limits ids target
  let members ← (ids.mapM p.store.row).mapError (Failure.rewrap .targetNotExist .memberMissing)
  match ← merger stamp.now .nil target (members.mergeSort Store.lockOrder) with
  | .unchanged row => return row
  | .merged row =>
    p.store.checkFree row.span ids
    return row

/-- Merges ranges into one. -/
def merge (stamp : Stamp) (ids : List Identifier) (target : UInt8) (user : Option String) :
    Action (Pool F) (Announced F (Range F)) := do
  let ids := Locks.distinct ids
  checkMergeRequest (F := F) (← get).limits ids target
  let (members, row, changed) ← onStore do
    let tx ← Action.rewording (Failure.rewrap .targetNotExist .memberMissing) (Store.lock ids)
    Store.finishing tx do
      match ← Action.ofExcept (merger stamp.now (stamp.rowId 0) target tx.rows) with
      | .unchanged row => return (tx.rows, row, false)
      | .merged row =>
        let rows ← Store.write tx ids [row]
        let row ← Action.demand .mergeEmpty rows.head?
        return (tx.rows, row, true)
  if changed then
    record stamp user (.merge row.span (members.map (·.span)))
    return ⟨row, [row.span]⟩
  else
    return ⟨row, []⟩

end AddressSpace.Pool
