import AddressSpace.Engine.Restore
import AddressSpace.Snapshot.Encode
import AddressSpace.Snapshot.Decode
import AddressSpace.Listing.Csv
/-!
# Reports

What the program prints of a saved snapshot: the listings of both families and of the supernets. A snapshot that cannot
be read or restored gives a failure and no report.
-/

namespace AddressSpace

/-- Why a snapshot's text gives no engine. -/
inductive LoadFailure where
  /-- The text is at fault at the path. -/
  | text (path : Json.Path)
  /-- A row is refused. -/
  | row (cause : Failure)
  deriving DecidableEq

/-- The wording of a failure to load a snapshot. -/
def LoadFailure.message : LoadFailure → String
  | text path => "snapshot JSON error at path=" ++ path.text
  | row cause => "snapshot row rejected: " ++ cause.describe

namespace Engine

/-- The engine that a snapshot's text describes. -/
def load (limits : Limits) (text : String) : Except LoadFailure Engine := do
  let s ← (Snapshot.ofText text).mapError .text
  (restore s limits).mapError .row

/-- The text of an engine's snapshot. -/
def save (e : Engine) : String := e.snapshot.text

/-- The listings of an engine. -/
def report (e : Engine) : Except Failure String := do
  let v4 ← Csv.ranges e.v4.store.toList
  let v6 ← Csv.ranges e.v6.store.toList
  return v4 ++ v6 ++ Csv.supernets e.supernets.toList

end Engine

/-- What the program prints of a snapshot's text. -/
def report (limits : Limits) (text : String) : Except LoadFailure String := do
  let e ← Engine.load limits text
  e.report.mapError .row

end AddressSpace
