import Inventory.Activity
import Inventory.Agent.Caching
import Inventory.Agent.OnDemand
import Inventory.Agent.Profile
import Inventory.Agent.Registry
import Inventory.Blob
import Inventory.Bytes
import Inventory.Cache.Backend
import Inventory.Cache.KeyValue.Layout
import Inventory.Cache.KeyValue.Read
import Inventory.Cache.KeyValue.Write
import Inventory.Cache.Memory
import Inventory.Cache.Request
import Inventory.Collections
import Inventory.Decimal.Binary64
import Inventory.Decimal.Numeral
import Inventory.Deflate.Bits
import Inventory.Deflate.Code
import Inventory.Deflate.Inflate
import Inventory.Digest.Crc32
import Inventory.Digest.Sha256
import Inventory.Duration
import Inventory.Entity
import Inventory.Error
import Inventory.Glob.Match
import Inventory.Glob.Pattern
import Inventory.Gzip
import Inventory.Json.Document
import Inventory.Json.Token
import Inventory.Json.Value
import Inventory.Key.Basic
import Inventory.Key.Parsers
import Inventory.Key.Segment
import Inventory.Merge.Engine
import Inventory.Merge.Stats
import Inventory.Plan
import Inventory.Proofs.Agent.Authority
import Inventory.Proofs.Agent.Reports
import Inventory.Proofs.Blob
import Inventory.Proofs.Cache.Agreement
import Inventory.Proofs.Cache.Answers
import Inventory.Proofs.Cache.Causes
import Inventory.Proofs.Cache.Equivalence
import Inventory.Proofs.Cache.Following
import Inventory.Proofs.Cache.Matching
import Inventory.Proofs.Cache.Memory
import Inventory.Proofs.Cache.Mirror
import Inventory.Proofs.Cache.Refused
import Inventory.Proofs.Cache.Written
import Inventory.Proofs.Collections
import Inventory.Proofs.Entity
import Inventory.Proofs.Glob.Places
import Inventory.Proofs.Glob.Wildcards
import Inventory.Proofs.Gzip
import Inventory.Proofs.Json.Documents
import Inventory.Proofs.Json.Tokens
import Inventory.Proofs.Json.Values
import Inventory.Proofs.Key.Grammar
import Inventory.Proofs.Key.Providers
import Inventory.Proofs.Key.Segments
import Inventory.Proofs.KeyValue.Attributes
import Inventory.Proofs.KeyValue.Batching
import Inventory.Proofs.KeyValue.Chunks
import Inventory.Proofs.KeyValue.Concurrent
import Inventory.Proofs.KeyValue.Consistent
import Inventory.Proofs.KeyValue.Footprint
import Inventory.Proofs.KeyValue.Frames
import Inventory.Proofs.KeyValue.Hashing
import Inventory.Proofs.KeyValue.Interrupted
import Inventory.Proofs.KeyValue.Keys
import Inventory.Proofs.KeyValue.Listed
import Inventory.Proofs.KeyValue.Overlapping
import Inventory.Proofs.KeyValue.Reading
import Inventory.Proofs.KeyValue.Removing
import Inventory.Proofs.KeyValue.Requests
import Inventory.Proofs.KeyValue.Retry
import Inventory.Proofs.KeyValue.Single
import Inventory.Proofs.KeyValue.Versions
import Inventory.Proofs.KeyValue.Written
import Inventory.Proofs.Merge.Attributes
import Inventory.Proofs.Merge.Backends
import Inventory.Proofs.Merge.Cascade
import Inventory.Proofs.Merge.Commuting
import Inventory.Proofs.Merge.Contributions
import Inventory.Proofs.Merge.Disjoint
import Inventory.Proofs.Merge.Entries
import Inventory.Proofs.Merge.Evictions
import Inventory.Proofs.Merge.Expiry
import Inventory.Proofs.Merge.Ids
import Inventory.Proofs.Merge.Index
import Inventory.Proofs.Merge.Informative
import Inventory.Proofs.Merge.Media
import Inventory.Proofs.Merge.Phases
import Inventory.Proofs.Merge.References
import Inventory.Proofs.Merge.Refreshing
import Inventory.Proofs.Merge.Refusal
import Inventory.Proofs.Merge.Repairing
import Inventory.Proofs.Merge.Repeating
import Inventory.Proofs.Merge.Scene
import Inventory.Proofs.Merge.Sights
import Inventory.Proofs.Merge.Unlinking
import Inventory.Proofs.Merge.Written
import Inventory.Proofs.Plan.Alongside
import Inventory.Proofs.Plan.Causes
import Inventory.Proofs.Plan.Failing
import Inventory.Proofs.Plan.Interrupted
import Inventory.Proofs.Plan.Run
import Inventory.Proofs.Plan.Terms
import Inventory.Proofs.Schedule.Completions
import Inventory.Proofs.Schedule.Deregistration
import Inventory.Proofs.Schedule.Chronicle
import Inventory.Proofs.Schedule.Discarded
import Inventory.Proofs.Schedule.DueTimes
import Inventory.Proofs.Schedule.Executions
import Inventory.Proofs.Schedule.History
import Inventory.Proofs.Schedule.Merges
import Inventory.Proofs.Schedule.Operations
import Inventory.Proofs.Schedule.Permits
import Inventory.Proofs.Schedule.Punctual
import Inventory.Proofs.Schedule.Registered
import Inventory.Proofs.Schedule.Rejected
import Inventory.Proofs.Schedule.Remnants
import Inventory.Proofs.Schedule.Retirement
import Inventory.Proofs.Schedule.Shutdown
import Inventory.Proofs.Schedule.Snapshots
import Inventory.Proofs.Schedule.Standing
import Inventory.Proofs.Schedule.Turns
import Inventory.Proofs.Settings.Endpoint
import Inventory.Proofs.Staging.Calls
import Inventory.Proofs.Staging.OnDemand
import Inventory.Proofs.Staging.Report
import Inventory.Proofs.Store.Cells
import Inventory.Proofs.Store.Expiry
import Inventory.Proofs.Store.Routing
import Inventory.Proofs.Store.Sharding
import Inventory.Relationships
import Inventory.Report
import Inventory.Schedule.Scheduler
import Inventory.Schedule.Slots
import Inventory.Schedule.Timeline
import Inventory.Scope
import Inventory.Settings.Basic
import Inventory.Settings.CommandLine
import Inventory.Settings.Endpoint
import Inventory.Staging
import Inventory.Store.Command
import Inventory.Store.Node
import Inventory.Store.Shards
