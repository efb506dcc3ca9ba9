import HandleHeap.Main
import HandleHeap.Object
import HandleHeap.Scalar.RoundTrip
import HandleHeap.Proofs.Addresses
import HandleHeap.Proofs.SizeClasses
import HandleHeap.Proofs.ChunkPools
import HandleHeap.Proofs.BlockTables
import HandleHeap.Proofs.Memory
import HandleHeap.Proofs.Allocations
import HandleHeap.Proofs.Sessions
import HandleHeap.Proofs.Frames
import HandleHeap.Proofs.Ranges
import HandleHeap.Proofs.Refusals
import HandleHeap.Proofs.Contents
import HandleHeap.Proofs.Outcomes
import HandleHeap.Proofs.Counts
import HandleHeap.Proofs.Chains
import HandleHeap.Proofs.BlockRuns
import HandleHeap.Proofs.Peaks
import HandleHeap.Proofs.Stability
import HandleHeap.Proofs.Reliability
import HandleHeap.Proofs.Capacities
import HandleHeap.Proofs.Actions
import HandleHeap.Proofs.Realms
import HandleHeap.Proofs.Releases
import HandleHeap.Proofs.Reports
import HandleHeap.Proofs.Guards
import HandleHeap.Proofs.Bounds
import HandleHeap.Proofs.Faults
import HandleHeap.Proofs.Codec
import HandleHeap.Proofs.Ascents
import HandleHeap.Proofs.Layouts
import HandleHeap.Proofs.Registries
import HandleHeap.Proofs.Objects
import HandleHeap.Proofs.Inheritance
import HandleHeap.Proofs.Collections
import HandleHeap.Proofs.FirstFit
import HandleHeap.Proofs.Views
import HandleHeap.Proofs.Stocks
import HandleHeap.Proofs.Schedules
import HandleHeap.Proofs.Searches
import HandleHeap.Proofs.Places
import HandleHeap.Proofs.Batches
import HandleHeap.Proofs.Transfers
import HandleHeap.Proofs.SlotCounts
import HandleHeap.Proofs.Extents
import HandleHeap.Proofs.ByteArrays
import HandleHeap.Proofs.Windows
import HandleHeap.Proofs.Elements
import HandleHeap.Proofs.Numerals
import HandleHeap.Proofs.Documents
import HandleHeap.Proofs.Fractions
import HandleHeap.Proofs.Libraries
import HandleHeap.Proofs.Sources
import HandleHeap.Proofs.Layers
import HandleHeap.Proofs.WrittenSettings
import HandleHeap.Proofs.Listings
