import BlockCache.Block
import BlockCache.Cache.Access
import BlockCache.Cache.Basic
import BlockCache.Cache.Check
import BlockCache.Cache.Drop
import BlockCache.Cache.Read
import BlockCache.Cache.Run
import BlockCache.Config
import BlockCache.Decimal.Notation
import BlockCache.Decimal.Shortest
import BlockCache.Error
import BlockCache.Event
import BlockCache.Index
import BlockCache.Json.Codec
import BlockCache.Json.Failure
import BlockCache.Json.Number
import BlockCache.Json.Record
import BlockCache.Json.Text
import BlockCache.Json.Value
import BlockCache.OsError
import BlockCache.Proofs.Cache.Accesses
import BlockCache.Proofs.Cache.Coherence
import BlockCache.Proofs.Cache.Contents
import BlockCache.Proofs.Cache.Counters
import BlockCache.Proofs.Cache.Drops
import BlockCache.Proofs.Cache.Equivalence
import BlockCache.Proofs.Cache.EventLog
import BlockCache.Proofs.Cache.FailedReads
import BlockCache.Proofs.Cache.Fallback
import BlockCache.Proofs.Cache.Fetches
import BlockCache.Proofs.Cache.FileDrops
import BlockCache.Proofs.Cache.Journal
import BlockCache.Proofs.Cache.Keys
import BlockCache.Proofs.Cache.ListWork
import BlockCache.Proofs.Cache.Moments
import BlockCache.Proofs.Cache.Plain
import BlockCache.Proofs.Cache.Policies
import BlockCache.Proofs.Cache.Progress
import BlockCache.Proofs.Cache.Provenance
import BlockCache.Proofs.Cache.Ranges
import BlockCache.Proofs.Cache.RawReads
import BlockCache.Proofs.Cache.ReadParts
import BlockCache.Proofs.Cache.Reads
import BlockCache.Proofs.Cache.Recasting
import BlockCache.Proofs.Cache.Recency
import BlockCache.Proofs.Cache.Recording
import BlockCache.Proofs.Cache.Runs
import BlockCache.Proofs.Cache.SegmentBalance
import BlockCache.Proofs.Cache.Sessions
import BlockCache.Proofs.Cache.Shelf
import BlockCache.Proofs.Cache.Slots
import BlockCache.Proofs.Cache.Soundness
import BlockCache.Proofs.Cache.SpecialSizes
import BlockCache.Proofs.Cache.Totals
import BlockCache.Proofs.Cache.Transparency
import BlockCache.Proofs.Cache.Warnings
import BlockCache.Proofs.Cache.WorkingSet
import BlockCache.Proofs.Completion
import BlockCache.Proofs.FileLog
import BlockCache.Proofs.FileTable
import BlockCache.Proofs.Index
import BlockCache.Proofs.Json.Forms
import BlockCache.Proofs.Json.Layouts
import BlockCache.Proofs.Json.Members
import BlockCache.Proofs.Json.Numbers
import BlockCache.Proofs.Json.Records
import BlockCache.Proofs.Json.RoundTrips
import BlockCache.Proofs.Json.Strings
import BlockCache.Proofs.Json.Values
import BlockCache.Proofs.PartialReads
import BlockCache.Proofs.RecencyList.BoundaryMoves
import BlockCache.Proofs.RecencyList.Check
import BlockCache.Proofs.RecencyList.CutSequence
import BlockCache.Proofs.RecencyList.Links
import BlockCache.Proofs.RecencyList.Operations
import BlockCache.Proofs.RecencyList.Refinement
import BlockCache.Proofs.RecencyList.Stages
import BlockCache.Proofs.RecencyList.Walks
import BlockCache.Proofs.RecencyList.Zones
import BlockCache.Proofs.Tiling
import BlockCache.RecencyList.Basic
import BlockCache.RecencyList.Check
import BlockCache.RecencyList.Operations
import BlockCache.RecencyList.Rebalance
import BlockCache.RecencyList.Run
import BlockCache.Segment
import BlockCache.Source.Basic
import BlockCache.Source.Contents
import BlockCache.Source.Disk
import BlockCache.Source.FileTable
import BlockCache.Source.Memory
import BlockCache.Span
import BlockCache.Stats
import BlockCache.Text.Quoted
import BlockCache.Text.Visible
import BlockCache.Units
import BlockCache.Word
