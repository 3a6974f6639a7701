import AddressSpace.Journal
import AddressSpace.Supernet
import AddressSpace.External
import AddressSpace.Note
/-!
# Snapshots

The plain rows of every table of an engine, in the order in which they are listed.
-/

namespace AddressSpace

/-- Everything an engine holds. -/
structure Snapshot where
  asns : List Asn
  v4Ranges : List (Range .v4)
  v6Ranges : List (Range .v6)
  supernets : List Supernet
  externals : List ExternalRange
  v4Notes : List (Note .v4)
  v6Notes : List (Note .v6)
  v4Records : List (Record .v4)
  v6Records : List (Record .v6)
  deriving DecidableEq

/-- The snapshot of nothing. -/
def Snapshot.empty : Snapshot := ⟨[], [], [], [], [], [], [], [], []⟩

end AddressSpace
