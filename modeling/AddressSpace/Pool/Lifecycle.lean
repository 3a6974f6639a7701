import AddressSpace.Pool
/-!
# The life of a range

A range waits, is reserved for a consumer or assigned to one, and comes back:

    wait ── reserve ──> reserved ── assign ──> assigned
      └──────────────── assign ──────────────────^
    wait <── recover ── reserved, assigned

Ranges that are not assigned may be edited and deleted. Every change of bounds, status or consumer is recorded; an edit
that leaves the bounds alone and a new remark are not.
-/

namespace AddressSpace

/-- A range to be created. -/
structure NewRange (F : Family) where
  /-- Taken from the span's network when blank. -/
  name : String
  span : Span F
  asn : Asn
  adminRemark : String
  userRemark : String

/-- An edit of a range. What is not given stays as it is. -/
structure RangeEdit (F : Family) where
  /-- Ignored when blank. -/
  name : Option String
  span : Option (Span F)
  asn : Option Asn
  adminRemark : Option String

namespace RangeEdit

variable {F : Family}

/-- The name that an edit gives. -/
def newName (e : RangeEdit F) (old : String) : String :=
  match e.name with
  | some name => if Text.trim name = "" then old else Text.trim name
  | none => old

/-- The range after the edit. -/
def apply (e : RangeEdit F) (r : Range F) : Range F :=
  { r with name := e.newName r.name, span := e.span.getD r.span, asn := e.asn.getD r.asn,
           adminRemark := e.adminRemark.getD r.adminRemark }

end RangeEdit

namespace Pool

variable {F : Family}

/-- Adds a waiting range. -/
def create (stamp : Stamp) (new : NewRange F) (user : Option String) : Action (Pool F) (Announced F (Range F)) := do
  let r := Range.build (stamp.rowId 0) new.name new.span new.asn stamp.now
  let r ← onStore (Store.insert { r with adminRemark := new.adminRemark, userRemark := new.userRemark })
  record stamp user (.add r.span)
  return ⟨r, [r.span]⟩

/-- Edits a range that is not assigned. -/
def update (stamp : Stamp) (id : Identifier) (edit : RangeEdit F) (user : Option String) :
    Action (Pool F) (Announced F (Range F)) := do
  let (old, new) ← onStore <| Store.locking [id] fun tx => do
    let old ← tx.row id
    requireMutable old .edited
    let r := edit.apply old
    if r = old then
      return (old, old)
    let r ← renew tx { r with updatedAt := stamp.now }
    return (old, r)
  if new.span = old.span then
    return ⟨new, []⟩
  record stamp user (.change old.span new.span)
  return ⟨new, [old.span, new.span]⟩

/-- Deletes a range that is not assigned, and gives it as it was. -/
def delete (stamp : Stamp) (id : Identifier) (user : Option String) : Action (Pool F) (Announced F (Range F)) := do
  let r ← onStore <| Store.locking [id] fun tx => do
    let r ← tx.row id
    requireMutable r .deleted
    let _ ← Store.write tx [id] []
    return r
  record stamp user (.delete r.span r.org)
  return ⟨r, [r.span]⟩

/-- Reserves a waiting range. -/
def reserve (stamp : Stamp) (id : Identifier) (org : Consumer) (user : Option String) :
    Action (Pool F) (Announced F (Range F)) := do
  let (old, r) ← onStore <| Store.locking [id] fun tx => do
    let old ← tx.row id
    if old.status ≠ .wait then
      throw (.notWaiting old.span old.status)
    let r ← renew tx
      { old with status := .reserved, org := some org, assignedAt := none, userRemark := "", updatedAt := stamp.now }
    return (old, r)
  record stamp user (.reserve r.span org old.status)
  return ⟨r, [r.span]⟩

/-- Refuses to assign a range that is assigned, or reserved for somebody else. -/
def requireAssignable (r : Range F) (org : Consumer) : Except Failure Unit :=
  match r.status with
  | .wait => .ok ()
  | .reserved => if r.org = some org then .ok () else .error (.reservedForOther r.span)
  | .assigned => .error (.alreadyAssigned r.span)

/-- Assigns a range that waits, or that is reserved for the same consumer. -/
def assign (stamp : Stamp) (id : Identifier) (org : Consumer) (user : Option String) :
    Action (Pool F) (Announced F (Range F)) := do
  let (old, r) ← onStore <| Store.locking [id] fun tx => do
    let old ← tx.row id
    requireAssignable old org
    let r ← renew tx
      { old with status := .assigned, org := some org, assignedAt := some stamp.now, userRemark := "",
                 updatedAt := stamp.now }
    return (old, r)
  record stamp user (.assign r.span org old.status)
  return ⟨r, [r.span]⟩

/-- Takes a range back from its consumer. A waiting range stays as it is. -/
def recover (stamp : Stamp) (id : Identifier) (user : Option String) : Action (Pool F) (Announced F (Range F)) := do
  let (old, r) ← onStore <| Store.locking [id] fun tx => do
    let old ← tx.row id
    if old.status = .wait then
      return (old, old)
    let r ← renew tx
      { old with status := .wait, org := none, assignedAt := none, userRemark := "", updatedAt := stamp.now }
    return (old, r)
  if old.status = .wait then
    return ⟨r, []⟩
  record stamp user (.recover r.span old.org old.status)
  return ⟨r, [r.span]⟩

/-- Sets the remark of the user, of the administrator or both. The one needs an assigned range, the other privilege. -/
def remark (stamp : Stamp) (id : Identifier) (userRemark adminRemark : Option String) (privileged : Bool) :
    Action (Pool F) (Range F) := do
  if userRemark.isNone && adminRemark.isNone then
    throw .noRemark
  if adminRemark.isSome && !privileged then
    throw .notPrivileged
  onStore <| Store.locking [id] fun tx => do
    let r ← tx.row id
    if userRemark.isSome && r.status ≠ .assigned then
      throw (.remarkUnassigned r.span r.status)
    renew tx { r with userRemark := userRemark.getD r.userRemark, adminRemark := adminRemark.getD r.adminRemark,
                      updatedAt := stamp.now }

end Pool

end AddressSpace
