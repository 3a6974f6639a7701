import AddressSpace.Pool.Lifecycle
import AddressSpace.Pool.Split
import AddressSpace.Pool.Merge
import AddressSpace.Supernet.Warehouse
import AddressSpace.External
import AddressSpace.Note
import AddressSpace.Registry
/-!
# The engine

The pools of both families with everything beside them. The rollups of the supernets follow the ranges of the 32-bit
family: after every operation on that pool they are derived anew where the operation said that ranges came or went.
-/

namespace AddressSpace

/-- Both pools, the supernets, the external ranges, the notes and the AS registry. -/
structure Engine where
  v4 : Pool .v4
  v6 : Pool .v6
  supernets : Table Supernet
  externals : Table ExternalRange
  v4Notes : Notes .v4
  v6Notes : Notes .v6
  registry : Registry
  deriving DecidableEq

namespace Engine

variable {α : Type}

/-- The engine without any rows, numbers and records. -/
def empty (limits : Limits) : Engine :=
  ⟨.empty .v4 limits, .empty .v6 limits, .empty, .empty, .empty, .empty, .empty⟩

/-! ## Parts -/

/-- The pool of a family. -/
def pool : (F : Family) → Engine → Pool F
  | .v4, e => e.v4
  | .v6, e => e.v6

/-- The engine with another pool of a family. -/
def withPool : (F : Family) → Engine → Pool F → Engine
  | .v4, e, p => { e with v4 := p }
  | .v6, e, p => { e with v6 := p }

/-- The notes of a family. -/
def notes : (F : Family) → Engine → Notes F
  | .v4, e => e.v4Notes
  | .v6, e => e.v6Notes

/-- The engine with other notes of a family. -/
def withNotes : (F : Family) → Engine → Notes F → Engine
  | .v4, e, n => { e with v4Notes := n }
  | .v6, e, n => { e with v6Notes := n }

/-- An operation on the pool of a family. -/
def onPool (F : Family) (a : Action (Pool F) α) : Action Engine α := Action.on (pool F) (withPool F) a

/-- An operation on the supernets. -/
def onSupernets (a : Action (Table Supernet) α) : Action Engine α :=
  Action.on supernets (fun e supernets => { e with supernets }) a

/-- An operation on the external ranges. -/
def onExternals (a : Action (Table ExternalRange) α) : Action Engine α :=
  Action.on externals (fun e externals => { e with externals }) a

/-! ## Ranges -/

/-- Derives the rollups of the supernets that meet spans in which ranges came or went. -/
def rangesChanged : (F : Family) → List (Span F) → Engine → Engine
  | .v4, spans, e => { e with supernets := (Warehouse.refresh e.v4.store spans e.supernets).2 }
  | .v6, _, e => e

/-- Runs an operation on a pool and lets the supernets follow. -/
def manage (F : Family) (a : Action (Pool F) (Announced F α)) : Action Engine α := do
  let out ← onPool F a
  modify (rangesChanged F out.spans)
  return out.value

variable {F : Family}

/-- Adds a waiting range. -/
def create (stamp : Stamp) (new : NewRange F) (user : Option String) : Action Engine (Range F) :=
  manage F (Pool.create stamp new user)

/-- Edits a range that is not assigned. -/
def update (stamp : Stamp) (id : Identifier) (edit : RangeEdit F) (user : Option String) : Action Engine (Range F) :=
  manage F (Pool.update stamp id edit user)

/-- Deletes a range that is not assigned. -/
def delete (F : Family) (stamp : Stamp) (id : Identifier) (user : Option String) : Action Engine (Range F) :=
  manage F (Pool.delete stamp id user)

/-- Reserves a waiting range. -/
def reserve (F : Family) (stamp : Stamp) (id : Identifier) (org : Consumer) (user : Option String) :
    Action Engine (Range F) := manage F (Pool.reserve stamp id org user)

/-- Assigns a range that waits, or that is reserved for the same consumer. -/
def assign (F : Family) (stamp : Stamp) (id : Identifier) (org : Consumer) (user : Option String) :
    Action Engine (Range F) := manage F (Pool.assign stamp id org user)

/-- Takes a range back from its consumer. -/
def recover (F : Family) (stamp : Stamp) (id : Identifier) (user : Option String) : Action Engine (Range F) :=
  manage F (Pool.recover stamp id user)

/-- Sets remarks on a range. -/
def remark (F : Family) (stamp : Stamp) (id : Identifier) (userRemark adminRemark : Option String)
    (privileged : Bool) : Action Engine (Range F) :=
  onPool F (Pool.remark stamp id userRemark adminRemark privileged)

/-- Splits a range into its subnets of one length. -/
def split (F : Family) (stamp : Stamp) (id : Identifier) (target : UInt8) (user : Option String) :
    Action Engine (List (Range F)) := manage F (Pool.split stamp id target user)

/-- Splits a range along a plan. -/
def splitAlong (stamp : Stamp) (id : Identifier) (plan : List (Span F)) (user : Option String) :
    Action Engine (List (Range F)) := manage F (Pool.splitAlong stamp id plan user)

/-- Merges ranges into one. -/
def merge (F : Family) (stamp : Stamp) (ids : List Identifier) (target : UInt8) (user : Option String) :
    Action Engine (Range F) := manage F (Pool.merge stamp ids target user)

/-! ## The AS registry, notes and journals -/

/-- The registry's entry for an AS number, which is made when it is missing. -/
def register (number : UInt32) : Action Engine Asn := do
  let e ← get
  let (asn, registry) := e.registry.register number
  set { e with registry }
  return asn

/-- Sets remarks on an address. -/
def annotate (stamp : Stamp) (address : Address F) (userRemark adminRemark : Option String) :
    Action Engine (Note F) :=
  Action.on (notes F) (withNotes F) (Notes.remark stamp.now address userRemark adminRemark)

/-- Takes a user's name off the records of one family, and tells how many those are. -/
def forgetIn (F : Family) (user : String) : Action Engine Nat := onPool F do
  let p ← get
  let (n, journal) := p.journal.forget user
  set { p with journal }
  return n

/-- Takes a user's name off all records, and tells how many those are. -/
def forget (user : String) : Action Engine Nat := do
  let n ← forgetIn .v4 user
  let m ← forgetIn .v6 user
  return n + m

/-- Lets a journal take no more records. -/
def closeJournal (F : Family) : Action Engine Unit :=
  onPool F (modify fun p => { p with journal := p.journal.close })

/-! ## Supernets and external ranges -/

/-- Creates a supernet, whose rollup is derived from the stored ranges. -/
def createSupernet (stamp : Stamp) (input : SupernetInput) (operator : String) : Action Engine Supernet := do
  onSupernets (Warehouse.create (← get).v4.store stamp input operator)

/-- Changes the fields of a supernet, and derives its rollup anew. -/
def updateSupernet (stamp : Stamp) (id : Identifier) (input : SupernetInput) (operator : String) :
    Action Engine Supernet := do
  onSupernets (Warehouse.update (← get).v4.store stamp id input operator)

/-- Removes a supernet. -/
def deleteSupernet (id : Identifier) : Action Engine Supernet := onSupernets (Warehouse.delete id)

/-- Derives rollups anew, and tells how many changed: of the supernets that meet one of the spans, or of all. -/
def refreshSupernets (spans : Option (List (Span .v4))) : Action Engine Nat := do
  let e ← get
  let (n, supernets) := match spans with
    | some spans => Warehouse.refresh e.v4.store spans e.supernets
    | none => Warehouse.refreshAll e.v4.store e.supernets
  set { e with supernets }
  return n

/-- Covers an empty supernet with one waiting range under a given AS. -/
def stockUnder (stamp : Stamp) (id : Identifier) (asn : Asn) (user : Option String) :
    Action Engine (Supernet × Range .v4) := do
  let s ← Warehouse.row (← get).supernets id
  if s.rollup ≠ .outOfWarehouse then
    throw (.notOutOfWarehouse s.span s.rollup)
  let r ← create stamp ⟨"", s.span, asn, s.remark, ""⟩ user
  modify fun e => { e with supernets := (Warehouse.refreshIds e.v4.store [id] e.supernets).2 }
  let s ← Warehouse.row (← get).supernets id
  return (s, r)

/-- Covers an empty supernet with one waiting range under the supernet's AS, which is registered first. -/
def stock (stamp : Stamp) (id : Identifier) (user : Option String) : Action Engine (Supernet × Range .v4) := do
  let s ← Warehouse.row (← get).supernets id
  let asn ← register s.asn
  stockUnder stamp id asn user

/-- Creates an external range. -/
def createExternal (stamp : Stamp) (input : ExternalInput) (operator : String) : Action Engine ExternalRange :=
  onExternals (External.create stamp input operator)

/-- Changes the fields of an external range. -/
def updateExternal (stamp : Stamp) (id : Identifier) (input : ExternalInput) (operator : String) :
    Action Engine ExternalRange := onExternals (External.update stamp id input operator)

/-- Removes an external range. -/
def deleteExternal (id : Identifier) : Action Engine ExternalRange := onExternals (External.delete id)

end Engine

end AddressSpace
