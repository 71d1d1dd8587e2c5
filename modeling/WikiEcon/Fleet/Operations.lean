import Mathlib.Data.List.Sort
import WikiEcon.Fleet.Queue

/-!
# The operations of the fleet

Each function of the scheduler is the program of its file-system calls, in the
order it makes them. `initialize` and `sync_dir` are left out: the directories of
the queue exist, and what a call did is durable when it returns.

`recoverStaleAt` runs first in discovery and in claiming, so every process of the
fleet may find itself failing another worker's claim.
-/

namespace WikiEcon.Fleet

open Programs Program

/-! ## Validation -/

/-- A name that can stand in a path: short, not empty, and of ASCII letters, digits, dashes and
underscores. -/
def validateComponent (value label : String) : Except String Unit :=
  ensure (value ≠ "" ∧ value.utf8ByteSize ≤ 160 ∧
      value.toList.all fun c => c.isAlphanum || c == '-' || c == '_')
    ("unsafe " ++ label ++ " " ++ value.quote)

/-- `YYYY-MM`, with a month that exists. -/
def validateSnapshotVersion (snapshotVersion : String) : Except String Unit := do
  match snapshotVersion.toList with
  | [y, z, u, v, dash, m, n] => do
    ensure ([y, z, u, v, m, n].all Char.isDigit ∧ dash = '-')
      ("invalid snapshot version " ++ snapshotVersion.quote ++ "; expected YYYY-MM")
    let month := 10 * (m.toNat - '0'.toNat) + (n.toNat - '0'.toNat)
    ensure (1 ≤ month ∧ month ≤ 12) ("invalid snapshot month in " ++ snapshotVersion.quote)
  | _ => .error ("invalid snapshot version " ++ snapshotVersion.quote ++ "; expected YYYY-MM")

/-- A field of a JSON object. -/
def jsonField (name value : String) : String := "\"" ++ name ++ "\":" ++ value

/-- A JSON string without anything to escape. -/
def jsonString (text : String) : String := "\"" ++ text ++ "\""

/-- Numbers as serde writes them. -/
def jsonNumber (n : ℕ) : String := toString n

def jsonOption (value : Option ℕ) : String := value.elim "null" jsonNumber

/-- Fields in the order they are declared in, as `serde_json::to_vec` writes a struct. -/
def jsonObject (fields : List String) : String := "\x7b" ++ ",".intercalate fields ++ "\x7d"

def SchedulingSignals.toJson (signals : SchedulingSignals) : String := jsonObject [
  jsonField "source_layout" (jsonString signals.sourceLayout.asStr),
  jsonField "source_count" (jsonNumber signals.sourceCount),
  jsonField "compressed_source_bytes" (jsonOption signals.compressedSourceBytes),
  jsonField "prior_rows" (jsonOption signals.priorRows),
  jsonField "fragment_count" (jsonOption signals.fragmentCount),
  jsonField "historical_memory_peak_bytes" (jsonOption signals.historicalMemoryPeakBytes),
  jsonField "historical_scratch_peak_bytes" (jsonOption signals.historicalScratchPeakBytes),
  jsonField "observed_throughput_rows_per_second"
    (jsonOption signals.observedThroughputRowsPerSecond)]

section Identity

variable (host : Host)

/-- The identity of the work, which a refresh of its scheduling does not change. -/
def taskIdentity (wiki snapshot : String) : String := host.sha256 (jsonObject [
  jsonField "algorithm" (jsonString queueAlgorithmVersion),
  jsonField "wiki" (jsonString wiki),
  jsonField "snapshot" (jsonString snapshot)])

/-- The identity under the earlier algorithm, which the scheduling was part of. -/
def legacyTaskIdentity (wiki snapshot : String) (resourceClass : ResourceClass)
    (signals : SchedulingSignals) : String := host.sha256 (jsonObject [
  jsonField "algorithm" (jsonString legacyQueueAlgorithmVersion),
  jsonField "wiki" (jsonString wiki),
  jsonField "snapshot" (jsonString snapshot),
  jsonField "resource_class" (jsonString resourceClass.asStr),
  jsonField "signals" signals.toJson])

/-- A record that is read is checked against its own fields: its identity is computed anew, under
the algorithm it names. -/
def FleetTask.validate (task : FleetTask) : Except String Unit := do
  ensure (task.schemaVersion = taskSchemaVersion ∧
      (task.queueAlgorithmVersion = Fleet.queueAlgorithmVersion ∨
        task.queueAlgorithmVersion = legacyQueueAlgorithmVersion))
    "unsupported fleet task schema"
  validateComponent task.wiki "task wiki"
  validateSnapshotVersion task.snapshot
  validateComponent task.controllerRunId "controller run ID"
  let identity :=
    if task.queueAlgorithmVersion = legacyQueueAlgorithmVersion then
      legacyTaskIdentity host task.wiki task.snapshot task.resourceClass task.signals
    else taskIdentity host task.wiki task.snapshot
  ensure (task.taskId = identity) "fleet task identity mismatch"
  ensure (task.signals.sourceCount > 0) "fleet task has no sources"

/-- `char::is_ascii_hexdigit`. -/
def isAsciiHexdigit (c : Char) : Bool :=
  c.isDigit || ('a' ≤ c && c ≤ 'f') || ('A' ≤ c && c ≤ 'F')

/-- A claim vouches for its task, and its lease id must have the form of a digest. -/
def FleetClaim.validate (claim : FleetClaim) : Except String Unit := do
  ensure (claim.schemaVersion = leaseSchemaVersion) "unsupported fleet lease schema"
  claim.task.validate host
  validateComponent claim.workerId "worker ID"
  ensure (claim.leaseId.toList.length = 64 ∧ claim.leaseId.toList.all isAsciiHexdigit)
    "invalid fleet lease ID"
  ensure (claim.leaseTimeoutSecs > 0) "invalid fleet lease timeout"
  ensure (claim.heartbeatAtUnix ≥ claim.claimedAtUnix) "fleet heartbeat predates claim"

end Identity

/-! ## Calls -/

/-- A call, as a program of one step. -/
def once (c : Call) : Steps c.Answer := ask c

def nowUnix : Steps ℕ := once .nowUnix

def readLeases : Steps (List String) := once .readLeases

def isLeaseDir (wiki : String) : Steps Bool := once (.isLeaseDir wiki)

def readOwner (wiki : String) : Steps (Except String FleetClaim) := once (.readOwner wiki)

def writeOwner (wiki : String) (claim : FleetClaim) : Steps (Except String Unit) :=
  once (.writeOwner wiki claim)

/-- `acquire_lease`. -/
def createLease (wiki : String) : Steps Bool := once (.createLease wiki)

def removeLease (wiki : String) : Steps (Except String Unit) := once (.removeLease wiki)

def renameLease (wiki : String) (now : ℕ) : Steps (Except String Unit) :=
  once (.renameLease wiki now)

def readPendingDir : Steps (List String) := once .readPendingDir

def isPending (wiki : String) : Steps Bool := once (.isPending wiki)

def readPending (wiki : String) : Steps (Except String FleetTask) := once (.readPending wiki)

def writePending (wiki : String) (task : FleetTask) : Steps (Except String Unit) :=
  once (.writePending wiki task)

def removePending (wiki : String) : Steps (Except String Unit) := once (.removePending wiki)

def isRecord (record : Record) : Steps Bool := once (.isRecord record)

def readRecord (record : Record) : Steps (Except String record.Content) :=
  once (.readRecord record)

def writeRecord (record : Record) (content : record.Content) : Steps (Except String Unit) :=
  once (.writeRecord record content)

/-! ## Recovery -/

/-- Five minutes, doubled with every attempt up to the sixth. -/
def retryDelaySecs (attempt : ℕ) : ℕ := saturatingMul u64Max 300 (1 <<< min attempt 6)

def conciseError (error : String) : String :=
  let text := error.toList.map fun c => if c = '\r' ∨ c = '\n' then ' ' else c
  String.ofList ((trim text).take maxErrorBytes)

/-- The lease is moved away, with a note of the reason. -/
def quarantineUnknown (name reason : String) (now : ℕ) : Steps Unit := do
  attempt (renameLease name now)
  attempt (writeRecord (.ambiguous name now) {
    schemaVersion := 1
    reason := reason
    quarantinedAtUnix := now
    artifact := "ambiguous-" ++ name ++ "-" ++ toString now })

/-- The task as it is put back after a failure. -/
def retryTask (task : FleetTask) (nextAttempt now : ℕ) : FleetTask := { task with
  attempt := nextAttempt
  notBeforeUnix := saturatingAdd u64Max now (retryDelaySecs nextAttempt) }

/-- The task goes back to the pending records with one attempt more, or to quarantine if that was
the last. The lease is removed at the end, so that a crash before that leaves the task leased. -/
def failClaimAt (claim : FleetClaim) (error : String) (maxAttempts now : ℕ) : Steps Bool := do
  let nextAttempt ← require
    (context (checkedAdd u32Max claim.task.attempt 1) "fleet attempt overflow")
  let concise := conciseError error
  if nextAttempt ≥ maxAttempts then
    attempt (writeRecord (.quarantine claim.task.wiki claim.task.taskId nextAttempt) {
      schemaVersion := 1
      reason := "retry_limit_exhausted"
      error := concise
      failedAtUnix := now
      claim := claim })
    attempt (removePending claim.task.wiki)
    attempt (removeLease claim.task.wiki)
    return true
  else
    let task := retryTask claim.task nextAttempt now
    attempt (writePending task.wiki task)
    attempt (writeRecord (.failure task.wiki task.taskId nextAttempt) {
      schemaVersion := 1
      error := concise
      failedAtUnix := now
      workerId := claim.workerId
      task := task })
    attempt (removeLease claim.task.wiki)
    return false

/-- `saturating_sub`: a heartbeat from the future is no older than now. -/
def isExpired (claim : FleetClaim) (now : ℕ) : Bool :=
  ¬ now - claim.heartbeatAtUnix ≤ claim.leaseTimeoutSecs

/-- One lease: whether it was recovered. -/
def recoverLease (host : Host) (now maxAttempts : ℕ) (wiki : String) : Steps Bool := do
  if ¬ (← isLeaseDir wiki) then
    quarantineUnknown wiki "lease entry is not a directory" now
    return false
  else
    match ← readOwner wiki with
    | .error _ =>
      quarantineUnknown wiki "lease owner is missing or invalid" now
      return false
    | .ok claim =>
      if (claim.validate host).isOk = false ∨ claim.task.wiki ≠ wiki then
        quarantineUnknown wiki "lease identity is invalid" now
        return false
      else if isExpired claim now then
        let _ ← failClaimAt claim "worker lease heartbeat expired" maxAttempts now
        return true
      else
        return false

/-- Every expired lease is failed in the name of its owner; an entry whose owner cannot be read is
moved away. -/
def recoverStaleAt (host : Host) (now maxAttempts : ℕ) : Steps ℕ := do
  let wikis ← readLeases
  wikis.foldlM (fun recovered wiki => do
    let wasStale ← recoverLease host now maxAttempts wiki
    return if wasStale then recovered + 1 else recovered) 0

/-! ## Discovery -/

/-- What one call of discovery reports. -/
structure DiscoveryReport where
  scheduled : ℕ := 0
  unchanged : ℕ := 0
  leased : ℕ := 0
  replacedObsolete : ℕ := 0
  recoveredStale : ℕ := 0
  byResourceClass : List (String × ℕ) := []
  deriving DecidableEq

/-- The index of the wiki names a candidate of this snapshot. -/
def readyIndexMatches (ready : ReadyIndex) (wiki snapshot : String) : Bool :=
  ready.schemaVersion = some readyIndexSchemaVersion ∧ ready.wiki = some wiki ∧
    ready.newestValidReadySnapshot = some snapshot

/-- A completion counts with its notification, as long as the ready index that this names is there
and is still for the same snapshot. -/
def completedEvidenceValid (host : Host) (task : FleetTask) : Steps Bool := do
  if ¬ (← isRecord (.completed task.wiki task.taskId)) then
    return false
  else if ¬ (← isRecord (.notification task.wiki task.taskId)) then
    return false
  else
    let completed : FleetTask ← attempt (readRecord (.completed task.wiki task.taskId))
    require (completed.validate host)
    require (ensure (completed.taskId = task.taskId ∧ completed.wiki = task.wiki ∧
      completed.snapshot = task.snapshot) "completed fleet task evidence drifted")
    let notification : ReadyNotification ←
      attempt (readRecord (.notification task.wiki task.taskId))
    require (ensure (notification.schemaVersion = notificationSchemaVersion ∧
        notification.taskId = task.taskId ∧ notification.wiki = task.wiki ∧
        notification.snapshot = task.snapshot ∧ notification.completedAtUnix > 0)
      "fleet ready notification does not match its completed task")
    if ¬ (← isRecord (.readyIndex notification.readyReceipt)) then
      return false
    else
      let ready : ReadyIndex ← attempt (readRecord (.readyIndex notification.readyReceipt))
      return readyIndexMatches ready task.wiki task.snapshot

/-- The end of `enqueue_at`: the record is written and reported. -/
def schedule (task : FleetTask) (report : DiscoveryReport) : Steps DiscoveryReport := do
  attempt (writePending task.wiki task)
  return { report with
    scheduled := 1
    byResourceClass := [(task.resourceClass.asStr, 1)] }

/-- Discovery of one wiki: leases are recovered first. A wiki that is leased, or whose snapshot is
completed, is left alone; the pending record of another snapshot is superseded. -/
def enqueueAt (host : Host) (wiki snapshot : String) (resourceClass : ResourceClass)
    (signals : SchedulingSignals) (controllerRunId : String) (now : ℕ) : Steps DiscoveryReport := do
  require (validateComponent wiki "wiki")
  require (validateSnapshotVersion snapshot)
  require (validateComponent controllerRunId "controller run ID")
  let recovered ← recoverStaleAt host now defaultMaxAttempts
  let report : DiscoveryReport := { recoveredStale := recovered }
  if ← isLeaseDir wiki then
    return { report with leased := 1 }
  else
    let task : FleetTask := {
      schemaVersion := taskSchemaVersion
      queueAlgorithmVersion := queueAlgorithmVersion
      taskId := taskIdentity host wiki snapshot
      wiki := wiki
      snapshot := snapshot
      resourceClass := resourceClass
      signals := signals
      attempt := 0
      notBeforeUnix := now
      discoveredAtUnix := now
      controllerRunId := controllerRunId }
    require (task.validate host)
    if ← completedEvidenceValid host task then
      return { report with unchanged := 1 }
    else if ← isPending wiki then
      let existing ← attempt (readPending wiki)
      require (existing.validate host)
      if existing.taskId = task.taskId then
        -- refreshed: classification and observations are scheduling metadata
        attempt (writePending wiki task)
        return { report with unchanged := 1 }
      else
        attempt (writeRecord (.superseded existing.wiki existing.taskId) existing)
        schedule task { report with replacedObsolete := 1 }
    else
      schedule task report

/-! ## Workers -/

/-- The tasks of the directory. One that disappears while it is listed is passed
over, unless that happens between the two looks at it. -/
def pendingTasks (host : Host) : Steps (List FleetTask) := do
  let names ← readPendingDir
  names.foldlM (fun tasks wiki => do
    if ¬ (← isPending wiki) then
      return tasks
    else
      let task ← attempt (readPending wiki)
      require (task.validate host)
      require (ensure (wiki = task.wiki) "fleet pending filename does not match task wiki")
      return tasks ++ [task]) []

/-- The order workers take tasks in. -/
def FleetTask.le (a b : FleetTask) : Bool :=
  a.attempt < b.attempt || (a.attempt = b.attempt && (a.notBeforeUnix < b.notBeforeUnix ||
    (a.notBeforeUnix = b.notBeforeUnix && (a.wiki < b.wiki ||
      (a.wiki = b.wiki && a.taskId ≤ b.taskId)))))

/-- The first task that can be had. -/
def claimFirst (host : Host) (resourceClass : ResourceClass) (workerId : String)
    (leaseTimeoutSecs processId now : ℕ) : List FleetTask → Steps (Option FleetClaim)
  | [] => return none
  | task :: tasks => do
    if task.resourceClass ≠ resourceClass ∨ task.notBeforeUnix > now then
      claimFirst host resourceClass workerId leaseTimeoutSecs processId now tasks
    else if ← createLease task.wiki then
      let leaseId := host.sha256 (task.taskId ++ "\x00" ++ workerId ++ "\x00"
        ++ toString processId ++ "\x00" ++ toString now)
      let claim : FleetClaim := {
        schemaVersion := leaseSchemaVersion
        task := task
        workerId := workerId
        leaseId := leaseId
        claimedAtUnix := now
        heartbeatAtUnix := now
        leaseTimeoutSecs := leaseTimeoutSecs }
      match ← writeOwner task.wiki claim with
      | .error _ =>
        let _ ← removeLease task.wiki
        fail (.other "failed to publish fleet lease owner")
      | .ok () => return some claim
    else
      claimFirst host resourceClass workerId leaseTimeoutSecs processId now tasks

/-- A worker takes the first pending task of its class whose time has come and whose lease
directory it can make. -/
def claimAt (host : Host) (resourceClass : ResourceClass) (workerId : String)
    (leaseTimeoutSecs processId now : ℕ) : Steps (Option FleetClaim) := do
  require (validateComponent workerId "worker ID")
  require (ensure (leaseTimeoutSecs > 0) "lease timeout must be positive")
  let _ ← recoverStaleAt host now defaultMaxAttempts
  let tasks ← pendingTasks host
  claimFirst host resourceClass workerId leaseTimeoutSecs processId now
    (tasks.insertionSort fun a b => a.le b)

/-- The owner of a lease, checked like any other record. -/
def readLiveClaim (host : Host) (wiki : String) : Steps FleetClaim := do
  let claim ← attempt (readOwner wiki)
  require (claim.validate host)
  return claim

/-- `ensure!` on the owner of a lease. -/
def ensureOwner (condition : Prop) [Decidable condition] (message : String) : Steps Unit :=
  check (if condition then .ok () else .error (.notOwner message))

/-- The answer to a worker that has lost its lease. -/
def notHeartbeatOwner : String := "fleet heartbeat does not own the live lease"

/-- `heartbeat`, from the claim in the worker's receipt on. -/
def heartbeat (host : Host) (claim : FleetClaim) : Steps FleetClaim := do
  require (claim.validate host)
  let live ← readLiveClaim host claim.task.wiki
  ensureOwner (live.leaseId = claim.leaseId ∧ live.workerId = claim.workerId) notHeartbeatOwner
  let now ← nowUnix
  let claim := { claim with heartbeatAtUnix := now }
  attempt (writeOwner claim.task.wiki claim)
  return claim

def notLiveOwner : String := "fleet completion does not own the live lease"

/-- A worker acts on a lease only while the lease is its own. The lease is read before the action
and not held during it. -/
def ensureLiveOwner (host : Host) (claim : FleetClaim) : Steps Unit := do
  let live ← readLiveClaim host claim.task.wiki
  ensureOwner (live.leaseId = claim.leaseId ∧ live.workerId = claim.workerId ∧
    live.task.taskId = claim.task.taskId) notLiveOwner

/-- The ready index of a wiki, below the output directory. -/
def readyIndexPath (outputDir wiki : String) : String :=
  outputDir ++ "/_ready-index/" ++ wiki ++ ".json"

/-- The evidence is written before the pending record and the lease are removed. -/
def complete (host : Host) (claim : FleetClaim) (outputDir : String) : Steps Unit := do
  require (claim.validate host)
  ensureLiveOwner host claim
  let readyIndex := readyIndexPath outputDir claim.task.wiki
  let ready : ReadyIndex ← attempt (readRecord (.readyIndex readyIndex))
  require (ensure (readyIndexMatches ready claim.task.wiki claim.task.snapshot)
    "fleet completion ready index does not match the claimed wiki and snapshot")
  let now ← nowUnix
  attempt (writeRecord (.notification claim.task.wiki claim.task.taskId) {
    schemaVersion := notificationSchemaVersion
    taskId := claim.task.taskId
    wiki := claim.task.wiki
    snapshot := claim.task.snapshot
    workerId := claim.workerId
    readyReceipt := readyIndex
    completedAtUnix := now })
  attempt (writeRecord (.completed claim.task.wiki claim.task.taskId) claim.task)
  attempt (removePending claim.task.wiki)
  attempt (removeLease claim.task.wiki)

/-- The failure a worker reports itself. -/
def failClaim (host : Host) (claim : FleetClaim) (error : String) (maxAttempts : ℕ) :
    Steps Bool := do
  require (ensure (maxAttempts > 0) "maximum attempts must be positive")
  require (claim.validate host)
  ensureLiveOwner host claim
  let now ← nowUnix
  failClaimAt claim error maxAttempts now

/-- The task waits without an attempt being counted. -/
def defer (host : Host) (claim : FleetClaim) (reason : String) (retryAfterSecs : ℕ) :
    Steps Unit := do
  require (ensure (retryAfterSecs > 0) "fleet defer interval must be positive")
  require (claim.validate host)
  ensureLiveOwner host claim
  let now ← nowUnix
  let task := { claim.task with notBeforeUnix := saturatingAdd u64Max now retryAfterSecs }
  attempt (writePending task.wiki task)
  attempt (writeRecord (.deferred task.wiki task.taskId now) {
    schemaVersion := 1
    reason := conciseError reason
    deferredAtUnix := now
    notBeforeUnix := task.notBeforeUnix
    attempt := task.attempt
    claim := claim })
  attempt (removeLease task.wiki)

/-! ## Processes -/

/-- What a process of the fleet is started to do. -/
inductive Operation
  | enqueue (wiki snapshot : String) (resourceClass : ResourceClass)
    (signals : SchedulingSignals) (controllerRunId : String)
  | claim (resourceClass : ResourceClass) (workerId : String) (leaseTimeoutSecs processId : ℕ)
  | heartbeat (held : FleetClaim)
  | complete (held : FleetClaim) (outputDir : String)
  | fail (held : FleetClaim) (error : String) (maxAttempts : ℕ)
  | defer (held : FleetClaim) (reason : String) (retryAfterSecs : ℕ)
  | recoverStale (maxAttempts : ℕ)

/-- What an operation answers. -/
inductive Outcome
  | discovered (report : DiscoveryReport)
  | claimed (claim : Option FleetClaim)
  | beaten (claim : FleetClaim)
  | completed
  | failed (quarantined : Bool)
  | deferred
  | recovered (leases : ℕ)

/-- An operation begins by reading the clock; every later step uses that time. -/
def Operation.program (host : Host) : Operation → Steps Outcome
  | .enqueue wiki snapshot resourceClass signals controllerRunId => do
    let now ← nowUnix
    return .discovered (← enqueueAt host wiki snapshot resourceClass signals controllerRunId now)
  | .claim resourceClass workerId leaseTimeoutSecs processId => do
    let now ← nowUnix
    return .claimed (← claimAt host resourceClass workerId leaseTimeoutSecs processId now)
  | .heartbeat held => return .beaten (← Fleet.heartbeat host held)
  | .complete held outputDir => do
    Fleet.complete host held outputDir
    return .completed
  | .fail held error maxAttempts => return .failed (← failClaim host held error maxAttempts)
  | .defer held reason retryAfterSecs => do
    Fleet.defer host held reason retryAfterSecs
    return .deferred
  | .recoverStale maxAttempts => do
    let now ← nowUnix
    return .recovered (← recoverStaleAt host now maxAttempts)

end WikiEcon.Fleet
