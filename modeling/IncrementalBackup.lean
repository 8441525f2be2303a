import IncrementalBackup.Comparison
import IncrementalBackup.OrderedMap
import IncrementalBackup.Text.Utf8
import IncrementalBackup.Text.Blank
import IncrementalBackup.Text.Decimal
import IncrementalBackup.Text.Quoted
import IncrementalBackup.Path.Basic
import IncrementalBackup.Time.Rfc3339
import IncrementalBackup.Digest.Blake3
import IncrementalBackup.Digest.Hex
import IncrementalBackup.Json.Reader
import IncrementalBackup.Json.Writer
import IncrementalBackup.Json.Format
import IncrementalBackup.Storage.MemoryTree
import IncrementalBackup.Storage.FaultyTree
import IncrementalBackup.HotPaths.Snapshot
import IncrementalBackup.Evaluation.Decision
import IncrementalBackup.Dedup.Store
import IncrementalBackup.Dedup.Locks
import IncrementalBackup.Storage.LocalTree
import IncrementalBackup.Storage.Files
import IncrementalBackup.Config.File
import IncrementalBackup.CommandLine.Run
import IncrementalBackup.Main
import IncrementalBackup.Proofs.Scan.FullScan
import IncrementalBackup.Proofs.OrderedMap
import IncrementalBackup.Proofs.Path.Location
import IncrementalBackup.Proofs.Path.Names
import IncrementalBackup.Proofs.Evaluation.Decision
import IncrementalBackup.Proofs.Dedup.Store
import IncrementalBackup.Proofs.Dedup.Prune
import IncrementalBackup.Proofs.Dedup.Key
import IncrementalBackup.Proofs.Dedup.Match
import IncrementalBackup.Proofs.Dedup.Effect
import IncrementalBackup.Proofs.Dedup.Run
import IncrementalBackup.Proofs.Scan.Scope
import IncrementalBackup.Proofs.Dedup.Garbage
import IncrementalBackup.Proofs.Dedup.KeyDir
import IncrementalBackup.Proofs.Dedup.Decoding
import IncrementalBackup.Proofs.Dedup.Contributions
import IncrementalBackup.Proofs.Dedup.Fallback
import IncrementalBackup.Proofs.Text.Decimal
import IncrementalBackup.Proofs.Storage.Listing
import IncrementalBackup.Proofs.Storage.Agreement
import IncrementalBackup.Proofs.Scan.Sight
import IncrementalBackup.Proofs.Scan.Replay
import IncrementalBackup.Proofs.Scan.Links
import IncrementalBackup.Proofs.HotPaths.Cache
import IncrementalBackup.Proofs.HotPaths.Snapshot
import IncrementalBackup.Proofs.Evaluation.Calls
import IncrementalBackup.Proofs.Path.Text
import IncrementalBackup.Proofs.Scan.FoundPath
import IncrementalBackup.Proofs.Json.Format
import IncrementalBackup.Proofs.Json.Numbers
import IncrementalBackup.Proofs.Json.Scanning
import IncrementalBackup.Proofs.Json.RoundTrip
import IncrementalBackup.Proofs.HotPaths.Stored
import IncrementalBackup.Proofs.Evaluation.Invariant
import IncrementalBackup.Proofs.Evaluation.Persistence
import IncrementalBackup.Proofs.Evaluation.Repeat
import IncrementalBackup.Proofs.Time.Calendar
import IncrementalBackup.Proofs.Time.Digits
import IncrementalBackup.Proofs.Time.Moment
import IncrementalBackup.Proofs.Time.Timestamp
import IncrementalBackup.Proofs.Config.Stored
import IncrementalBackup.Proofs.Storage.Walk
import IncrementalBackup.Proofs.Storage.Directories
import IncrementalBackup.Proofs.Storage.Writing
import IncrementalBackup.Proofs.Config.Load
import IncrementalBackup.Proofs.Config.Raise
import IncrementalBackup.Proofs.Dedup.Again
import IncrementalBackup.Proofs.Dedup.Unseen
import IncrementalBackup.Proofs.Dedup.Spelling
import IncrementalBackup.Proofs.Scan.Failures
import IncrementalBackup.Proofs.CommandLine.Since
import IncrementalBackup.Proofs.Storage.Effects
import IncrementalBackup.Proofs.Storage.Shape
import IncrementalBackup.Proofs.Dedup.SafeName
