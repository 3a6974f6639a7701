import AddressSpace.Span
import AddressSpace.Identifier
import AddressSpace.Status
/-!
# Failures

Every way in which an operation can be refused. A failure is a cause with what it is about; its kind and its wording
follow from the cause. A few causes wrap another one: a row whose shape is wrong is refused as invalid, a merge names
the member that is missing, and a split says which range it was about.
-/

namespace AddressSpace

open Text (decimal)

/-- The four kinds of failure. -/
inductive FailureKind where
  /-- The request makes no sense. -/
  | invalidArgument
  /-- The target is in the wrong state, or the request is too large. -/
  | conflict
  /-- The write would break the table. -/
  | validation
  /-- Nothing is stored under the name or at the address. -/
  | targetNotExist
  deriving DecidableEq, Repr

namespace FailureKind

/-- The code that callers see. -/
def code : FailureKind → String
  | invalidArgument => "InvalidArgument"
  | conflict => "ConflictError"
  | validation => "ValidationError"
  | targetNotExist => "TargetNotExist"

/-- A message with the kind in front. -/
def describe (kind : FailureKind) (message : String) : String :=
  (match kind with
    | invalidArgument => "invalid argument: "
    | conflict => "conflict: "
    | validation => "validation failed: "
    | targetNotExist => "target does not exist: ") ++ message

end FailureKind

/-- What only ranges that are not assigned can undergo. -/
inductive Change where
  | edited
  | deleted
  | split
  | merged
  deriving DecidableEq, Repr

/-- The verb that messages use for a change. -/
def Change.text : Change → String
  | edited => "edited"
  | deleted => "deleted"
  | split => "split"
  | merged => "merged"

/-- The tables whose rows carry identifiers. -/
inductive Shelf where
  | ranges (F : Family)
  | supernets
  | externals
  deriving DecidableEq

/-- What a row of the shelf is called. -/
def Shelf.noun : Shelf → String
  | ranges F => F.label ++ " range"
  | supernets => "supernet"
  | externals => "external range"

/-- Why an operation is refused. -/
inductive Failure where
  -- texts
  | badAddress (F : Family) (text : String)
  | noSlash (text : String)
  | badLength (text : String)
  -- spans
  | lengthOutOfRange (plen width : Nat)
  | reversed {F : Family} (span : Span F)
  | networksDiffer {F : Family} (start stop : Address F) (plen : UInt8)
  | subnetCoarser {F : Family} (target : UInt8) (span : Span F)
  | badBounds {F : Family} (span : Span F)
  -- halving plans
  | targetNotLonger {F : Family} (target : UInt8) (span : Span F)
  | depthOutOfRange (F : Family) (depth : UInt8)
  -- explicit plans
  | planEmpty
  | planTooLong (entries most : Nat)
  | planStart {F : Family} (start wanted : Address F)
  | planStop {F : Family} (stop wanted : Address F)
  | entryCoarser {F : Family} (entry : Span F) (plen : UInt8)
  | entryTooLong {F : Family} (entry : Span F)
  | entryReversed {F : Family} (entry : Span F)
  | entriesApart {F : Family} (before entry : Span F)
  -- tables
  | rowExists (id : Identifier)
  | overlap (id : Identifier)
  | noRow (id : Identifier)
  | unknown (shelf : Shelf) (id : Identifier)
  | nothingAt {F : Family} (shelf : Shelf) (addr : Address F)
  | notLocked (F : Family) (id : Identifier)
  -- the life of a range
  | notMutable {F : Family} (change : Change) (range : Span F) (status : Status)
  | notWaiting {F : Family} (range : Span F) (status : Status)
  | reservedForOther {F : Family} (range : Span F)
  | alreadyAssigned {F : Family} (range : Span F)
  | noRemark
  | notPrivileged
  | remarkUnassigned {F : Family} (range : Span F) (status : Status)
  -- splits
  | splitTooLong (F : Family) (target : UInt8)
  | splitNotLonger {F : Family} (target : UInt8) (source : Span F)
  | splitTooWide {F : Family} (target : UInt8) (source : Span F) (most : UInt8)
  -- merges
  | mergeEmpty
  | mergeTooMany (members most : Nat)
  | mergeLength (F : Family) (target : UInt8)
  | mergeFiner {F : Family} (target : UInt8) (member : Span F)
  | statusDiffers {F : Family} (a : Span F) (aStatus : Status) (b : Span F) (bStatus : Status)
  | asnDiffers {F : Family} (a : Span F) (aNumber : UInt32) (b : Span F) (bNumber : UInt32)
  | orgDiffers {F : Family} (a b : Span F)
  | apart {F : Family} (a b : Span F)
  | networkDiffers {F : Family} (a b : Span F) (target : UInt8)
  -- supernets and external ranges
  | boundsMissing
  | notOutOfWarehouse {F : Family} (supernet : Span F) (rollup : Rollup)
  -- wrapped
  | invalidRow (cause : Failure)
  | memberMissing (cause : Failure)
  | splitBreaksTable {F : Family} (source : Span F) (cause : Failure)
  deriving DecidableEq

namespace Failure

/-- The kind of a failure. -/
def kind : Failure → FailureKind
  | splitTooWide .. | notWaiting .. | reservedForOther .. | alreadyAssigned .. | remarkUnassigned .. | notLocked ..
  | notOutOfWarehouse .. => .conflict
  | notMutable change .. => if change = .merged then .validation else .conflict
  | rowExists _ | overlap _ | mergeEmpty | mergeLength .. | mergeFiner .. | statusDiffers .. | asnDiffers ..
  | orgDiffers .. | apart .. | networkDiffers .. | invalidRow _ | memberMissing _ | splitBreaksTable .. => .validation
  | noRow _ | unknown .. | nothingAt .. => .targetNotExist
  | _ => .invalidArgument

/-- The wording of a failure. Where a split of the whole 128-bit space into single addresses is refused, the number of subnets is one
that 128 bits cannot hold; the wording names it all the same. -/
def message : Failure → String
  | badAddress F text => "invalid " ++ F.label ++ " address '" ++ text ++ "'"
  | noSlash text => "invalid address/prefix '" ++ text ++ "'"
  | badLength text => "invalid prefix length '" ++ text ++ "'"
  | lengthOutOfRange plen width => s!"prefix length /{decimal plen} is out of range 0-{decimal width}"
  | reversed span => s!"end address must not be lower than start address ({span.text})"
  | networksDiffer start stop plen =>
    s!"start network {start.text}/{decimal plen.toNat} and end network {stop.text}/{decimal plen.toNat} differ"
  | subnetCoarser target span =>
    s!"subnet prefix /{decimal target.toNat} must not be shorter than /{decimal span.plen.toNat}"
  | badBounds span => s!"invalid bounds {span.text}"
  | targetNotLonger target span =>
    s!"target prefix /{decimal target.toNat} must be longer than /{decimal span.plen.toNat} of {span.text}"
  | depthOutOfRange F depth => s!"prefixlen_diff must be 1-{decimal F.maxHalvingDepth}, got {decimal depth.toNat}"
  | planEmpty => "split plan is empty"
  | planTooLong entries most => s!"split plan has {decimal entries} entries, at most {decimal most} allowed"
  | planStart start wanted => s!"plan starts at {start.text}, range starts at {wanted.text}"
  | planStop stop wanted => s!"plan ends at {stop.text}, range ends at {wanted.text}"
  | entryCoarser entry plen => s!"subnet {entry.text} has a shorter prefix than /{decimal plen.toNat}"
  | @entryTooLong F entry => s!"subnet {entry.text} has a prefix longer than /{decimal F.width}"
  | entryReversed entry => s!"subnet {entry.text} ends before it starts"
  | entriesApart before entry => s!"adjacent subnets are not contiguous: {before.text}; {entry.text}"
  | rowExists id => s!"row {id.text} already exists"
  | overlap id => s!"address range overlaps existing row {id.text}"
  | noRow id => s!"row {id.text}"
  | unknown shelf id => s!"{shelf.noun} {id.text}"
  | nothingAt shelf addr => s!"no {shelf.noun} contains {addr.text}"
  | notLocked F id => s!"{F.label} range {id.text} is not locked"
  | notMutable change range status =>
    s!"only wait or reserved ranges can be {change.text}, {range.storedText} is {status.text}"
  | notWaiting range status => s!"only wait ranges can be reserved, {range.storedText} is {status.text}"
  | reservedForOther range => s!"{range.storedText} is reserved for another organization object"
  | alreadyAssigned range => s!"{range.storedText} is already assigned"
  | noRemark => "a remark or an admin remark is required"
  | notPrivileged => "changing the admin remark needs system-wide privilege"
  | remarkUnassigned range status =>
    s!"the user remark can only be set on an assigned range, {range.storedText} is {status.text}"
  | splitTooLong F target => s!"subnet prefix /{decimal target.toNat} is longer than /{decimal F.width}"
  | splitNotLonger target source =>
    s!"subnet prefix /{decimal target.toNat} must be longer than /{decimal source.plen.toNat} of {source.storedText}"
  | splitTooWide target source most =>
    let yields := decimal (1 <<< (target.toNat - source.plen.toNat))
    let allowed := decimal (1 <<< most.toNat)
    s!"splitting /{decimal source.plen.toNat} into /{decimal target.toNat} yields {yields} subnets, " ++
      s!"at most {allowed} allowed"
  | mergeEmpty => "no ranges to merge"
  | mergeTooMany members most => s!"cannot merge {decimal members} ranges, at most {decimal most} allowed"
  | mergeLength F target => s!"merge prefix /{decimal target.toNat} is outside 1-{decimal F.width}"
  | mergeFiner target member =>
    s!"merge prefix /{decimal target.toNat} is longer than /{decimal member.plen.toNat} of {member.storedText}"
  | statusDiffers a aStatus b bStatus =>
    s!"status differs: {a.storedText} is {aStatus.text}, {b.storedText} is {bStatus.text}"
  | asnDiffers a aNumber b bNumber =>
    s!"AS differs: {a.storedText} is AS{decimal aNumber.toNat}, {b.storedText} is AS{decimal bNumber.toNat}"
  | orgDiffers a b => s!"reserved ranges {a.storedText} and {b.storedText} belong to different organizations"
  | apart a b => s!"ranges are not contiguous: {a.storedText}; {b.storedText}"
  | networkDiffers a b target =>
    s!"{a.storedText} and {b.storedText} are not in the same /{decimal target.toNat} network"
  | boundsMissing => "start and end address are required"
  | notOutOfWarehouse supernet rollup => s!"supernet {supernet.storedText} is {rollup.text}, not out-warehouse"
  | invalidRow cause => cause.message
  | memberMissing cause => "merge member missing: " ++ cause.message
  | splitBreaksTable source cause => s!"subnets of {source.storedText} break the range table: " ++ cause.message

/-- The wording with the kind in front. -/
def describe (f : Failure) : String := f.kind.describe f.message

/-- A failure of the kind that callers may not see, as one of another kind. -/
def rewrap (kind : FailureKind) (wrap : Failure → Failure) (f : Failure) : Failure :=
  if f.kind = kind then wrap f else f

end Failure

end AddressSpace
