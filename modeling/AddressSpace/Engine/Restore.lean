import AddressSpace.Engine
import AddressSpace.Snapshot
/-!
# Saving and restoring

An engine gives all its rows as a snapshot, and is rebuilt from one. Restored rows pass the checks of new ones, and the
rollups of supernets are derived anew from the restored ranges.
-/

namespace AddressSpace.Engine

/-- All that the engine holds, as it is saved. -/
def snapshot (e : Engine) : Snapshot where
  asns := e.registry.values
  v4Ranges := e.v4.store.toList
  v6Ranges := e.v6.store.toList
  supernets := e.supernets.toList
  externals := e.externals.toList
  v4Notes := e.v4Notes.values
  v6Notes := e.v6Notes.values
  v4Records := e.v4.journal.records
  v6Records := e.v6.journal.records

/-- Adds saved ranges. -/
def restoreRanges (F : Family) (ranges : List (Range F)) : Action Engine Unit :=
  onPool F <| Pool.onStore <| ranges.forM fun r => discard (Store.insert r)

/-- Adds the rows of a snapshot that are checked. -/
def restoreRows (s : Snapshot) : Action Engine Unit := do
  restoreRanges .v4 s.v4Ranges
  restoreRanges .v6 s.v6Ranges
  let ranges := (← get).v4.store
  onSupernets (s.supernets.forM (Warehouse.restore ranges))
  onExternals (s.externals.forM External.restore)

/-- The engine that a snapshot describes. -/
def restore (s : Snapshot) (limits : Limits) : Except Failure Engine :=
  let e := empty limits
  let start : Engine :=
    { e with
      v4 := { e.v4 with journal := .ofRecords s.v4Records }
      v6 := { e.v6 with journal := .ofRecords s.v6Records }
      registry := .ofList s.asns
      v4Notes := .ofList s.v4Notes
      v6Notes := .ofList s.v6Notes }
  match (restoreRows s).run start with
  | (.ok (), e) => .ok e
  | (.error f, _) => .error f

end AddressSpace.Engine
