import AddressSpace.Engine
import AddressSpace.Engine.Restore
/-!
# Operations and runs

What callers can ask of an engine, as data: the operations on the ranges of one family, those on supernets, external ranges,
notes and the AS registry, and those that go past the pools and work on stored rows or on the journals. A run is any sequence
of operations, of which some may fail; `Reached` says which engines runs lead to.
-/

namespace AddressSpace

/-- An operation on the ranges of one family. -/
inductive RangeOperation (F : Family) where
  | create (new : NewRange F)
  | update (id : Identifier) (edit : RangeEdit F)
  | delete (id : Identifier)
  | reserve (id : Identifier) (org : Consumer)
  | assign (id : Identifier) (org : Consumer)
  | recover (id : Identifier)
  | remark (id : Identifier) (userRemark adminRemark : Option String) (privileged : Bool)
  | split (id : Identifier) (target : UInt8)
  | splitAlong (id : Identifier) (plan : List (Span F))
  | merge (ids : List Identifier) (target : UInt8)
  /-- What a split would give. -/
  | splitPreview (id : Identifier) (target : UInt8)
  /-- What a merge would give. -/
  | mergePreview (ids : List Identifier) (target : UInt8)

/-- Runs the operation, whose value is dropped. -/
def RangeOperation.perform {F : Family} (stamp : Stamp) (user : Option String) : RangeOperation F → Action Engine Unit
  | create new => discard (Engine.create stamp new user)
  | update id edit => discard (Engine.update stamp id edit user)
  | delete id => discard (Engine.delete F stamp id user)
  | reserve id org => discard (Engine.reserve F stamp id org user)
  | assign id org => discard (Engine.assign F stamp id org user)
  | recover id => discard (Engine.recover F stamp id user)
  | remark id userRemark adminRemark privileged => discard (Engine.remark F stamp id userRemark adminRemark privileged)
  | split id target => discard (Engine.split F stamp id target user)
  | splitAlong id plan => discard (Engine.splitAlong stamp id plan user)
  | merge ids target => discard (Engine.merge F stamp ids target user)
  | splitPreview id target => discard do
    Action.ofExcept (Pool.splitPreview (Engine.pool F (← get)) stamp id target)
  | mergePreview ids target => discard do
    Action.ofExcept (Pool.mergePreview (Engine.pool F (← get)) stamp ids target)

/-- The splits and merges among the operations on ranges. -/
def RangeOperation.regroups {F : Family} : RangeOperation F → Bool
  | split .. | splitAlong .. | merge .. => true
  | _ => false

/-- The range that the operation is to take back from its consumer. -/
def RangeOperation.takesBack {F : Family} : RangeOperation F → Option Identifier
  | recover id => some id
  | _ => none

/-- The stored ranges that the operation names. -/
def RangeOperation.names {F : Family} : RangeOperation F → List Identifier
  | update id _ | delete id | reserve id _ | assign id _ | recover id | remark id .. | split id _ | splitAlong id _ => [id]
  | merge ids _ => ids
  | create _ | splitPreview .. | mergePreview .. => []

/-- The ranges among these that are not there any more when the operation succeeds. -/
def RangeOperation.removes {F : Family} : RangeOperation F → List Identifier
  | delete id | split id _ | splitAlong id _ => [id]
  | merge ids _ => ids
  | _ => []

/-- The kind of the event that the operation may write down. -/
def RangeOperation.kind {F : Family} : RangeOperation F → Option EventKind
  | create _ => some .add
  | update .. => some .change
  | delete _ => some .delete
  | reserve .. => some .reserve
  | assign .. => some .assign
  | recover _ => some .recover
  | split .. | splitAlong .. => some .split
  | merge .. => some .merge
  | remark .. | splitPreview .. | mergePreview .. => none

/-- An operation on an engine. -/
inductive Operation where
  | onRanges (F : Family) (stamp : Stamp) (user : Option String) (op : RangeOperation F)
  | stock (stamp : Stamp) (id : Identifier) (user : Option String)
  | stockUnder (stamp : Stamp) (id : Identifier) (asn : Asn) (user : Option String)
  | createSupernet (stamp : Stamp) (input : SupernetInput) (operator : String)
  | updateSupernet (stamp : Stamp) (id : Identifier) (input : SupernetInput) (operator : String)
  | deleteSupernet (id : Identifier)
  | refreshSupernets (spans : Option (List (Span .v4)))
  | createExternal (stamp : Stamp) (input : ExternalInput) (operator : String)
  | updateExternal (stamp : Stamp) (id : Identifier) (input : ExternalInput) (operator : String)
  | deleteExternal (id : Identifier)
  | annotate (F : Family) (stamp : Stamp) (address : Address F) (userRemark adminRemark : Option String)
  | register (number : UInt32)
  /-- Adds a range to the store of a family as it is. -/
  | insertRow (F : Family) (r : Range F)
  /-- Locks rows of the store of a family, takes out some of its rows and puts in others. -/
  | transact (F : Family) (lock remove : List Identifier) (add : List (Range F))
  | closeJournal (F : Family)
  | forget (user : String)

namespace Operation

/-- Runs the operation, whose value is dropped. -/
def perform : Operation → Action Engine Unit
  | onRanges _ stamp user op => op.perform stamp user
  | stock stamp id user => discard (Engine.stock stamp id user)
  | stockUnder stamp id asn user => discard (Engine.stockUnder stamp id asn user)
  | createSupernet stamp input operator => discard (Engine.createSupernet stamp input operator)
  | updateSupernet stamp id input operator => discard (Engine.updateSupernet stamp id input operator)
  | deleteSupernet id => discard (Engine.deleteSupernet id)
  | refreshSupernets spans => discard (Engine.refreshSupernets spans)
  | createExternal stamp input operator => discard (Engine.createExternal stamp input operator)
  | updateExternal stamp id input operator => discard (Engine.updateExternal stamp id input operator)
  | deleteExternal id => discard (Engine.deleteExternal id)
  | annotate _ stamp address userRemark adminRemark => discard (Engine.annotate stamp address userRemark adminRemark)
  | register number => discard (Engine.register number)
  | insertRow F r => Engine.onPool F (Pool.onStore (discard (Store.insert r)))
  | transact F lock remove add => Engine.onPool F <| Pool.onStore do
    let tx ← Store.lock lock
    discard (Store.commit tx remove add)
  | closeJournal F => Engine.closeJournal F
  | forget user => discard (Engine.forget user)

/-- The engine after the operation, whether it has failed or not. -/
def after (op : Operation) (e : Engine) : Engine := (op.perform.run e).2

/-- Operations that keep the journals along with the ranges: all but those on stored rows and on the journals. -/
def ordinary : Operation → Bool
  | insertRow .. | transact .. | closeJournal .. | forget .. => false
  | _ => true

/-- Operations that leave the stored ranges to the pools: all but those on stored rows. -/
def managed : Operation → Bool
  | insertRow .. | transact .. => false
  | _ => true

/-- All operations but the one that registers an AS number before it can fail. -/
def atomic : Operation → Bool
  | stock .. => false
  | _ => true

/-- The operations on supernets and external ranges alone. -/
def aside : Operation → Bool
  | createSupernet .. | updateSupernet .. | deleteSupernet .. | refreshSupernets .. | createExternal .. | updateExternal ..
  | deleteExternal .. => true
  | _ => false

/-- The range that the operation is to take back from its consumer, with its family. -/
def takesBack : Operation → Option (Family × Identifier)
  | onRanges F _ _ op => op.takesBack.map (F, ·)
  | _ => none

end Operation

/-- The engines that operations of one kind lead to from a given one. -/
inductive Reached (allowed : Operation → Bool) (start : Engine) : Engine → Prop where
  | start : Reached allowed start start
  | step {e : Engine} (op : Operation) : Reached allowed start e → allowed op = true → Reached allowed start (op.after e)

/-- The engine after a sequence of operations. -/
def Operation.afterAll (ops : List Operation) (e : Engine) : Engine := ops.foldl (fun e op => op.after e) e

/-- A sequence of allowed operations is a run. -/
theorem reached_afterAll {allowed : Operation → Bool} {start : Engine} (ops : List Operation)
    (h : ops.all allowed = true) : Reached allowed start (Operation.afterAll ops start) := by
  have hrun : ∀ e, Reached allowed start e → Reached allowed start (Operation.afterAll ops e) := by
    induction ops with
    | nil => exact fun e he => he
    | cons op ops ih =>
      rw [List.all_cons, Bool.and_eq_true] at h
      exact fun e he => ih h.2 (op.after e) (.step op he h.1)
  exact hrun start .start

/-! ## A run to look at -/

/-- A stamp whose identifiers count up from a number. -/
def Stamp.counting (n : Nat) : Stamp := ⟨default, fun k => .ofBits (n + k), .ofBits n⟩

/-- It counts without repeating itself as long as there are identifiers left. -/
theorem Stamp.nodup_counting {n k : Nat} (h : n + k ≤ 1 <<< 128) : ((List.range k).map (Stamp.counting n).rowId).Nodup := by
  refine List.pairwise_map.2 (List.nodup_range.imp_of_mem fun {i j} hi hj hne he => hne ?_)
  have hbits : (n + i) % (1 <<< 128) = (n + j) % (1 <<< 128) := congrArg Identifier.bits he
  rw [List.mem_range] at hi hj
  rw [Nat.mod_eq_of_lt (by omega), Nat.mod_eq_of_lt (by omega)] at hbits
  omega

/-- A supernet of four networks of length 24, of which the second is assigned and the third is reserved. -/
def Operation.sample : List Operation :=
  let asn : Asn := ⟨1, 64512, "AS64512"⟩
  let network (n : Nat) : Span .v4 := ⟨.ofBits .v4 (n * 256), .ofBits .v4 (n * 256 + 255), 24⟩
  [.createSupernet (.counting 1) ⟨⟨some (.ofBits .v4 0), some (.ofBits .v4 1023), 22⟩, 64512, ""⟩ "",
    .onRanges .v4 (.counting 16) none (.create ⟨"web", network 1, asn, "", ""⟩),
    .onRanges .v4 (.counting 17) none (.create ⟨"mail", network 2, asn, "", ""⟩),
    .onRanges .v4 (.counting 18) none (.assign (.ofBits 16) ⟨"object", "org"⟩),
    .onRanges .v4 (.counting 19) none (.reserve (.ofBits 17) ⟨"object", "org"⟩)]

end AddressSpace
