import WikiEcon.Lib.KWayMerge
import WikiEcon.Lib.PrefixCode
import WikiEcon.Lib.SortedMap
import WikiEcon.Lib.AnyOrder
import WikiEcon.Lib.SortedTable
import WikiEcon.Lib.Workers
import WikiEcon.Lib.Permits
import WikiEcon.Lib.Routing
import WikiEcon.Lib.Grouping
import WikiEcon.Lib.Fallible
import WikiEcon.Lib.Faults
import WikiEcon.Lib.Reports
import WikiEcon.Lib.Transition
import WikiEcon.Lib.Programs
import WikiEcon.Lib.StaleLock
import WikiEcon.Lib.Spans
import WikiEcon.Lib.Civil
import WikiEcon.Rust
import WikiEcon.Publication.Preflight
import WikiEcon.Publication.Registry
import WikiEcon.ResourceGovernor
import WikiEcon.Compute.Frames
import WikiEcon.Compute.Activity
import WikiEcon.Compute.ActivityStream
import WikiEcon.Compute.ActivityAgreement
import WikiEcon.Compute.Weekly
import WikiEcon.Compute.WeeklyExternal
import WikiEcon.Compute.WeeklyBuckets
import WikiEcon.Compute.WeeklyReconcile
import WikiEcon.Compute.WeeklyRouting
import WikiEcon.Compute.WeeklyAgreement
import WikiEcon.Compute.WeeklyWaves
import WikiEcon.Compute.Lifecycle
import WikiEcon.Compute.LifecycleCheckpoint
import WikiEcon.Compute.LifecycleExternal
import WikiEcon.Compute.LifecycleAgreement
import WikiEcon.CanonicalMonth
import WikiEcon.Fleet.Queue
import WikiEcon.Fleet.Operations
import WikiEcon.Fleet.Discipline
import WikiEcon.Fleet.Interleaving
import WikiEcon.Fleet.Leases
import WikiEcon.Fleet.Pending
import WikiEcon.Fleet.Sessions
import WikiEcon.Fleet.Recovery
import WikiEcon.Fleet.RetryRounds
import WikiEcon.Toolforge.Pipeline
import WikiEcon.Toolforge.PipelineOrder
import WikiEcon.Toolforge.StateLock
import WikiEcon.Toolforge.Exclusion
import WikiEcon.Toolforge.Admission
import WikiEcon.Toolforge.AdmissionBudget
import WikiEcon.Patrol.Rights
import WikiEcon.Patrol.RightsTimeline
import WikiEcon.Patrol.RightsSpool
import WikiEcon.Patrol.RightsWalk
import WikiEcon.Patrol.Logging
import WikiEcon.Patrol.LogItems
import WikiEcon.Patrol.ExternalSort
import WikiEcon.Patrol.BlockState
import WikiEcon.Patrol.AccountCreations
import WikiEcon.Patrol.AccountCounts
import WikiEcon.Patrol.AccountOrder
import WikiEcon.Ingest.Convert
import WikiEcon.Ingest.Cleanup
import WikiEcon.Ingest.SourceWindow
import WikiEcon.Lib.Ancestry
import WikiEcon.Publication.Lineage
import WikiEcon.Publication.GenerationLifecycle
import WikiEcon.Lib.Tiling
import WikiEcon.Storage.SequentialParquet
import WikiEcon.Ingest.Chunking
import WikiEcon.Ingest.Compaction
import WikiEcon.Ingest.CompactionShards
import WikiEcon.Ingest.CompactionRecovery
import WikiEcon.Fetch.Download
import WikiEcon.Toolforge.GuardedAction
import WikiEcon.Retention
import WikiEcon.Compute.Inequality
import WikiEcon.Lib.Concentration
import WikiEcon.Stages.ArtifactReceipt
import WikiEcon.Stages.Fingerprint
import WikiEcon.Stages.Recordings
import WikiEcon.Stages.Reuse
import WikiEcon.Publication.Selection
import WikiEcon.Publication.SelectionRollback
import WikiEcon.Patrol.AccountIdentities
