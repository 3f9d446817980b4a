import Parcel.Registry.Batch
import Parcel.Sample
import Parcel.Proofs.Action
import Parcel.Proofs.Owners
import Parcel.Proofs.Storage
import Parcel.Proofs.Capture
import Parcel.Proofs.Passes
import Parcel.Proofs.Numbering
import Parcel.Proofs.Sound
import Parcel.Proofs.Alike
import Parcel.Proofs.Operations
import Parcel.Proofs.Reading
import Parcel.Proofs.Calls
import Parcel.Proofs.Reachable
import Parcel.Proofs.Refinement
import Parcel.Proofs.History
import Parcel.Proofs.Codec
import Parcel.Proofs.Layout
import Parcel.Proofs.Writes
import Parcel.Proofs.Snapshot
import Parcel.Proofs.Canonical
import Parcel.Proofs.Rebuilding
import Parcel.Proofs.Fields
import Parcel.Proofs.RoundTrip
import Parcel.Proofs.Cuts
import Parcel.Proofs.Scanning
import Parcel.Proofs.Tearing
import Parcel.Proofs.Reposition
import Parcel.Proofs.Sweeping
import Parcel.Proofs.Items
import Parcel.Proofs.Samples
import Parcel.Proofs.Growth
import Parcel.Proofs.Mutations
import Parcel.Proofs.Appending
import Parcel.Proofs.Joining
import Parcel.Proofs.Compaction
import Parcel.Proofs.Requests
import Parcel.Proofs.Weaving
import Parcel.Proofs.Batches
import Parcel.Proofs.Handles
import Parcel.Proofs.Shelf
import Parcel.Proofs.Faults
import Parcel.Proofs.Advancing
import Parcel.Proofs.Arrays
import Parcel.Proofs.Tokens
import Parcel.Proofs.Replacement
import Parcel.Proofs.Framing
import Parcel.Proofs.Quarantine
import Parcel.Proofs.Containment
import Parcel.Proofs.Callers
import Parcel.Proofs.Unambiguous
import Parcel.Proofs.Shortfall
import Parcel.Proofs.Overhang
import Parcel.Proofs.Copies
import Parcel.Proofs.Survivors
