import AddressSpace.Main
import AddressSpace.Proofs.Engine.Sound
import AddressSpace.Proofs.Engine.Rollups
import AddressSpace.Proofs.Engine.Coherent
import AddressSpace.Proofs.Journal
import AddressSpace.Proofs.Lookup
import AddressSpace.Proofs.Assigned
import AddressSpace.Proofs.AllOrNothing
import AddressSpace.Proofs.Restore
import AddressSpace.Proofs.Restore.Accepted
import AddressSpace.Proofs.Restore.Rollups
import AddressSpace.Proofs.Preview
import AddressSpace.Proofs.Plan
import AddressSpace.Proofs.Rejoin
import AddressSpace.Proofs.Independent
import AddressSpace.Proofs.Frame
import AddressSpace.Proofs.Hidden
import AddressSpace.Proofs.Mergeable
import AddressSpace.Proofs.Span.Economy
import AddressSpace.Proofs.Store.Shared
import AddressSpace.Proofs.Snapshot.Text
import AddressSpace.Proofs.Table.Exact
import AddressSpace.Proofs.Pool.Uniform
import AddressSpace.Proofs.Pool.Planned
import AddressSpace.Proofs.Span.Subnets
import AddressSpace.Proofs.Stock
import AddressSpace.Proofs.Cidr.Json
import AddressSpace.Proofs.Listing
import AddressSpace.Proofs.Resplit
import AddressSpace.Proofs.Search
import AddressSpace.Proofs.Mask.Arithmetic
import AddressSpace.Proofs.Limits
import AddressSpace.Proofs.Snapshot.Extent
import AddressSpace.Proofs.Listing.Csv
import AddressSpace.Proofs.Locks
