import Waloy.Data.Numerals
import Waloy.Data.Pieces
import Waloy.Effect.Prog
import Waloy.Effect.Operation
import Waloy.Effect.Session
import Waloy.Effect.Runs
import Waloy.Effect.Within
import Waloy.Effect.Interleaving
import Waloy.Effect.Alongside
import Waloy.Effect.Observed
import Waloy.Effect.Keeping
import Waloy.Effect.Made
import Waloy.Effect.Crash
import Waloy.Effect.Unhalted
import Waloy.Source.Text
import Waloy.Source.Manifest
import Waloy.Source.Config
import Waloy.Source.Calls
import Waloy.Source.Pipeline
import Waloy.Source.S3
import Waloy.Source.Wal
import Waloy.Source.Manager
import Waloy.Source.Restore
import Waloy.Source.Cli
import Waloy.Spec.World
import Waloy.Spec.Objects
import Waloy.Spec.Restored
import Waloy.Spec.Rules
import Waloy.Spec.Snapshot
import Waloy.Spec.Sync
import Waloy.Spec.Checkpoint
import Waloy.Spec.Segments
import Waloy.Spec.Opening
import Waloy.Spec.Lifecycle
import Waloy.Spec.Json
import Waloy.Spec.Machine
import Waloy.Spec.Faultless
import Waloy.Spec.Growing
import Waloy.Spec.Compaction
import Waloy.Spec.Retention
import Waloy.Spec.Directory
import Waloy.Spec.Frames
import Waloy.Spec.Progress
import Waloy.Spec.Selection
import Waloy.Spec.Archive
import Waloy.Spec.Filing
import Waloy.Spec.Confined
import Waloy.Spec.Territory
import Waloy.Spec.Sharing
import Waloy.Spec.Reading
import Waloy.Spec.Births
import Waloy.Spec.Registering
import Waloy.Spec.Purging
import Waloy.Spec.Sightings
import Waloy.Spec.Primitives
import Waloy.Spec.Attested
import Waloy.Spec.Attesting
import Waloy.Spec.Merging
import Waloy.Spec.Transactions
import Waloy.Spec.Cutting
import Waloy.Spec.Aligned
import Waloy.Spec.Stock
import Waloy.Spec.Sweep
import Waloy.Spec.WalWriter
import Waloy.Spec.Deposits
import Waloy.Spec.Depositing
import Waloy.Guarantees.Publication
import Waloy.Guarantees.Retention
import Waloy.Guarantees.Representation
import Waloy.Guarantees.FailedSync
import Waloy.Guarantees.FailedCompaction
import Waloy.Guarantees.CrashSafety
import Waloy.Guarantees.PointInTime
import Waloy.Guarantees.CompactionInTime
import Waloy.Guarantees.Lossless
import Waloy.Guarantees.Container
import Waloy.Guarantees.Mismatch
import Waloy.Guarantees.CommandLine
import Waloy.Guarantees.LocalFiles
import Waloy.Guarantees.FailedReads
import Waloy.Guarantees.AutoRestore
import Waloy.Guarantees.Prefixes
import Waloy.Guarantees.Pinned
import Waloy.Guarantees.Shutdown
import Waloy.Guarantees.ResetWal
import Waloy.Guarantees.PartialRetention
import Waloy.Guarantees.ReplayPrefix
import Waloy.Guarantees.RetentionWindow
import Waloy.Guarantees.RepeatedSnapshot
import Waloy.Guarantees.Reclamation
import Waloy.Guarantees.NoFuture
import Waloy.Guarantees.TransactionFlag
import Waloy.Guarantees.ChunkingEnds
import Waloy.Guarantees.Recutting
import Waloy.Guarantees.ListingOrder
import Waloy.Guarantees.FrameBoundaries
import Waloy.Guarantees.ExactRetention
import Waloy.Guarantees.LongerRetention
import Waloy.Guarantees.CommittedFrames
import Waloy.Guarantees.RestoreBeside
import Waloy.Guarantees.TransientFaults
import Waloy.Guarantees.Backoff
import Waloy.Guarantees.RoundTrip
import Waloy.Guarantees.Crashes
import Waloy.Guarantees.Footprint
import Waloy.Guarantees.Healing
import Waloy.Guarantees.Sealing
import Waloy.Guarantees.Operator
import Waloy.Guarantees.WholeOrGone
import Waloy.Guarantees.Statistics
import Waloy.Guarantees.SharedBucket
import Waloy.Guarantees.Recovery
