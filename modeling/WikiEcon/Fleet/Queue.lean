import Mathlib.Data.List.AList
import Mathlib.Logic.Function.Basic
import WikiEcon.Lib.Programs
import WikiEcon.Rust

/-!
# The fleet queue

A controller puts one task per wiki into a directory on shared storage, and
workers take them out. Nothing else coordinates them: a lease is a directory only
one `mkdir` can make, everything known about a task is a JSON document, and
documents are replaced by an atomic rename.

`Queue` is that directory, with the clock all processes read. `Call` has one
constructor for each file-system call the fleet makes and `Queue.perform` says
what it answers and leaves behind. A directory entry is known by what its name is
made of. `Host` is what comes from elsewhere: the digest and the order in which a
directory is read.
-/

namespace WikiEcon.Fleet

open Programs (Program)

def taskSchemaVersion : ℕ := 1
def leaseSchemaVersion : ℕ := 1
def notificationSchemaVersion : ℕ := 1
def readyIndexSchemaVersion : ℕ := 2
def queueAlgorithmVersion : String := "fleet-queue-v2"
def legacyQueueAlgorithmVersion : String := "fleet-queue-v1"
def defaultMaxAttempts : ℕ := 3
def maxErrorBytes : ℕ := 500

/-! ## Documents -/

inductive ResourceClass
  | small
  | mediumLarge
  | isolated
  deriving DecidableEq

def ResourceClass.asStr : ResourceClass → String
  | .small => "small"
  | .mediumLarge => "medium_large"
  | .isolated => "isolated"

inductive SourceLayout
  | allTime
  | yearly
  | monthly
  deriving DecidableEq

def SourceLayout.asStr : SourceLayout → String
  | .allTime => "all_time"
  | .yearly => "yearly"
  | .monthly => "monthly"

structure SchedulingSignals where
  sourceLayout : SourceLayout
  sourceCount : ℕ
  compressedSourceBytes : Option ℕ
  priorRows : Option ℕ
  fragmentCount : Option ℕ
  historicalMemoryPeakBytes : Option ℕ
  historicalScratchPeakBytes : Option ℕ
  observedThroughputRowsPerSecond : Option ℕ
  deriving DecidableEq

structure FleetTask where
  schemaVersion : ℕ
  queueAlgorithmVersion : String
  taskId : String
  wiki : String
  snapshot : String
  resourceClass : ResourceClass
  signals : SchedulingSignals
  attempt : ℕ
  notBeforeUnix : ℕ
  discoveredAtUnix : ℕ
  controllerRunId : String
  deriving DecidableEq

structure FleetClaim where
  schemaVersion : ℕ
  task : FleetTask
  workerId : String
  leaseId : String
  claimedAtUnix : ℕ
  heartbeatAtUnix : ℕ
  leaseTimeoutSecs : ℕ
  deriving DecidableEq

structure ReadyNotification where
  schemaVersion : ℕ
  taskId : String
  wiki : String
  snapshot : String
  workerId : String
  readyReceipt : String
  completedAtUnix : ℕ

structure QuarantinedTask where
  schemaVersion : ℕ
  reason : String
  error : String
  failedAtUnix : ℕ
  claim : FleetClaim

structure FailedTask where
  schemaVersion : ℕ
  error : String
  failedAtUnix : ℕ
  workerId : String
  task : FleetTask

structure DeferredTask where
  schemaVersion : ℕ
  reason : String
  deferredAtUnix : ℕ
  notBeforeUnix : ℕ
  attempt : ℕ
  claim : FleetClaim

/-- What is noted beside an artifact that was moved out of the way. -/
structure AmbiguousReceipt where
  schemaVersion : ℕ
  reason : String
  quarantinedAtUnix : ℕ
  artifact : String

/-- What the fleet reads of a ready index. -/
structure ReadyIndex where
  schemaVersion : Option ℕ
  wiki : Option String
  newestValidReadySnapshot : Option String

/-- Documents other than pending tasks and lease owners, by what their names are
made of. -/
inductive Record
  | completed (wiki taskId : String)
  | notification (wiki taskId : String)
  | superseded (wiki taskId : String)
  | failure (wiki taskId : String) (attempt : ℕ)
  | deferred (wiki taskId : String) (now : ℕ)
  | quarantine (wiki taskId : String) (attempt : ℕ)
  | ambiguous (name : String) (now : ℕ)
  | readyIndex (path : String)
  deriving DecidableEq

/-- What is in the document. -/
def Record.Content : Record → Type
  | .completed .. => FleetTask
  | .notification .. => ReadyNotification
  | .superseded .. => FleetTask
  | .failure .. => FailedTask
  | .deferred .. => DeferredTask
  | .quarantine .. => QuarantinedTask
  | .ambiguous .. => AmbiguousReceipt
  | .readyIndex .. => ReadyIndex

/-! ## Calls -/

/-- A lease is a directory that may have an `owner.json` in it. -/
structure Queue where
  pending : AList fun _ : String => FleetTask := ∅
  leases : AList fun _ : String => Option FleetClaim := ∅
  records : (record : Record) → Option record.Content := fun _ => none
  /-- Leases moved to `quarantine/ambiguous-<name>-<now>`. -/
  ambiguousLeases : String → ℕ → Option (Option FleetClaim) := fun _ _ => none
  clock : ℕ := 0

/-- A ready index is a record of its own. -/
theorem Queue.records_publishReady (q : Queue) (path : String) (index : Option ReadyIndex)
    {record : Record} (h : ∀ path, record ≠ .readyIndex path) :
    Function.update q.records (.readyIndex path) index record = q.records record :=
  Function.update_of_ne (h path) ..

inductive Call
  | nowUnix
  | readLeases
  | isLeaseDir (wiki : String)
  | readOwner (wiki : String)
  | writeOwner (wiki : String) (claim : FleetClaim)
  | createLease (wiki : String)
  | removeLease (wiki : String)
  | renameLease (wiki : String) (now : ℕ)
  | readPendingDir
  | isPending (wiki : String)
  | readPending (wiki : String)
  | writePending (wiki : String) (task : FleetTask)
  | removePending (wiki : String)
  | isRecord (record : Record)
  | readRecord (record : Record)
  | writeRecord (record : Record) (content : record.Content)

/-- `mkdir` tells whether it made the directory. -/
def Call.Answer : Call → Type
  | .nowUnix => ℕ
  | .readLeases | .readPendingDir => List String
  | .isLeaseDir _ | .isPending _ | .isRecord _ | .createLease _ => Bool
  | .readOwner _ => Except String FleetClaim
  | .readPending _ => Except String FleetTask
  | .readRecord record => Except String record.Content
  | .writeOwner .. | .removeLease _ | .renameLease .. | .writePending .. | .removePending _
  | .writeRecord .. => Except String Unit

def noSuchFile : String := "No such file or directory (os error 2)"

/-- What comes from outside the fleet: `hex::encode(Sha256::digest(_))`, the order
a directory is listed in, and the number of a process. -/
structure Host where
  sha256 : String → String
  sha256_hex : ∀ text, (sha256 text).toList.length = 64 ∧
    ∀ c ∈ (sha256 text).toList, c.isDigit ∨ c ∈ ['a', 'b', 'c', 'd', 'e', 'f']
  listing : List String → List String
  listing_perm : ∀ names, (listing names).Perm names

/-- One call: its answer and what it leaves. Renaming onto an empty directory
replaces it; one with an owner in it is in the way. -/
def Queue.perform (host : Host) (q : Queue) : (c : Call) → c.Answer × Queue
  | .nowUnix => (q.clock, q)
  | .readLeases => (host.listing q.leases.keys, q)
  | .isLeaseDir wiki => ((q.leases.lookup wiki).isSome, q)
  | .readOwner wiki => (context (q.leases.lookup wiki).join noSuchFile, q)
  | .writeOwner wiki claim => (.ok (), { q with leases := q.leases.insert wiki (some claim) })
  | .createLease wiki =>
    if (q.leases.lookup wiki).isSome then (false, q)
    else (true, { q with leases := q.leases.insert wiki none })
  | .removeLease wiki =>
    if (q.leases.lookup wiki).isSome then (.ok (), { q with leases := q.leases.erase wiki })
    else (.error noSuchFile, q)
  | .renameLease wiki now =>
    match q.leases.lookup wiki with
    | none => (.error noSuchFile, q)
    | some lease =>
      if (q.ambiguousLeases wiki now).join.isSome then
        (.error "Directory not empty (os error 39)", q)
      else (.ok (), { q with
        leases := q.leases.erase wiki
        ambiguousLeases := Function.update q.ambiguousLeases wiki
          (Function.update (q.ambiguousLeases wiki) now (some lease)) })
  | .readPendingDir => (host.listing q.pending.keys, q)
  | .isPending wiki => ((q.pending.lookup wiki).isSome, q)
  | .readPending wiki => (context (q.pending.lookup wiki) noSuchFile, q)
  | .writePending wiki task => (.ok (), { q with pending := q.pending.insert wiki task })
  | .removePending wiki =>
    if (q.pending.lookup wiki).isSome then (.ok (), { q with pending := q.pending.erase wiki })
    else (.error noSuchFile, q)
  | .isRecord record => ((q.records record).isSome, q)
  | .readRecord record => (context (q.records record) noSuchFile, q)
  | .writeRecord record content =>
    (.ok (), { q with records := Function.update q.records record (some content) })

/-- The text of an error. A worker that finds another one in its lease fails apart
from all else. -/
inductive Failure
  | notOwner (message : String)
  | other (message : String)

/-- What a process of the fleet does. -/
abbrev Steps (α : Type) := Program Failure Call Call.Answer α

/-- `?`. -/
def require {α : Type} (result : Except String α) : Steps α :=
  Program.check (result.mapError .other)

/-- A call that can fail, with `?`. -/
def attempt {α : Type} (answer : Steps (Except String α)) : Steps α := answer >>= require

end WikiEcon.Fleet
