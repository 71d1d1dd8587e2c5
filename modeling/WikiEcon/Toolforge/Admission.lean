import WikiEcon.Lib.StaleLock
import WikiEcon.Toolforge.Pipeline

/-!
# Capacity admission

A job asks for memory and CPU before it runs. Under a guard, which is a directory, the
process reads the leases of all jobs, moves away the stale ones, and writes a lease of
its own if what it requests fits beside them. It renews its lease while its job runs,
without the guard, and removes it at the end.

Each call to the file system is a step; it fails where what it asks for is not there,
or is. A process may be killed between two steps. The identity of a process is its
number; `maker` is who made the guard, which the program does not know.
-/

namespace WikiEcon.Toolforge.Admission

open Pipeline (isSafeInteger jsSort failIf)

def leaseStaleMs : ℕ := 15 * 60 * 1000
def lockStaleMs : ℕ := 30 * 1000
def guardAttempts : ℕ := 100

/-! ## The policy -/

inductive Field
  | namespaceMemoryLimitBytes | namespaceCpuLimitMillicores
  | perJobMemoryLimitBytes | perJobCpuLimitMillicores
  | residentServiceMemoryBytes | residentServiceCpuMillicores
  | minimumSchedulableJobBytes | minimumSchedulableJobMillicores
  deriving DecidableEq

def Field.name : Field → String
  | .namespaceMemoryLimitBytes => "namespace_memory_limit_bytes"
  | .namespaceCpuLimitMillicores => "namespace_cpu_limit_millicores"
  | .perJobMemoryLimitBytes => "per_job_memory_limit_bytes"
  | .perJobCpuLimitMillicores => "per_job_cpu_limit_millicores"
  | .residentServiceMemoryBytes => "resident_service_memory_bytes"
  | .residentServiceCpuMillicores => "resident_service_cpu_millicores"
  | .minimumSchedulableJobBytes => "minimum_schedulable_job_bytes"
  | .minimumSchedulableJobMillicores => "minimum_schedulable_job_millicores"

def allFields : List Field :=
  [.namespaceMemoryLimitBytes, .namespaceCpuLimitMillicores, .perJobMemoryLimitBytes,
    .perJobCpuLimitMillicores, .residentServiceMemoryBytes, .residentServiceCpuMillicores,
    .minimumSchedulableJobBytes, .minimumSchedulableJobMillicores]

/-- The configuration file; a value that is no number is `none`. -/
structure Config where
  schemaVersion : Option ℤ
  field : Field → Option ℤ
  workerReserveResourceClasses : Option (List String)
  resourceRequests : List (String × Option ℤ)
  resourceCpuRequestsMillicores : List (String × Option ℤ)

inductive Resource
  | memory | cpu
  deriving DecidableEq

/-- What a job requests. -/
structure Request where
  bytes : ℤ
  millicores : ℤ
  deriving DecidableEq

def Request.of (request : Request) : Resource → ℤ
  | .memory => request.bytes
  | .cpu => request.millicores

def positive (value : Option ℤ) : Bool := value.any fun n => isSafeInteger n && 0 < n

def requestFor (config : Config) (resourceClass : String) : Except String Request := do
  let requestedBytes := (config.resourceRequests.lookup resourceClass).join
  let requestedMillicores := (config.resourceCpuRequestsMillicores.lookup resourceClass).join
  failIf (!positive requestedBytes) ("No capacity request is configured for " ++ resourceClass)
  failIf (!positive requestedMillicores)
    ("No CPU capacity request is configured for " ++ resourceClass)
  let request : Request := ⟨requestedBytes.getD 0, requestedMillicores.getD 0⟩
  failIf ((config.field .perJobMemoryLimitBytes).any fun limit => limit < request.bytes)
    ("Memory request for " ++ resourceClass ++ " exceeds the Toolforge per-job limit")
  failIf ((config.field .perJobCpuLimitMillicores).any fun limit => limit < request.millicores)
    ("CPU request for " ++ resourceClass ++ " exceeds the Toolforge per-job limit")
  return request

def validatedConfig (config : Config) : Except String Unit := do
  failIf (config.schemaVersion ≠ some 1) "Invalid capacity configuration"
  allFields.forM fun field =>
    failIf (!(config.field field).any fun n => isSafeInteger n && 0 ≤ n)
      ("Invalid capacity field " ++ field.name)
  let reserve ← context config.workerReserveResourceClasses
    "Invalid capacity field worker_reserve_resource_classes"
  let memoryClasses := jsSort (config.resourceRequests.map Prod.fst)
  let cpuClasses := jsSort (config.resourceCpuRequestsMillicores.map Prod.fst)
  failIf (memoryClasses ≠ cpuClasses) "Memory and CPU resource request classes must match"
  memoryClasses.forM fun resourceClass => do
    let _ ← requestFor config resourceClass
  failIf (reserve.dedup.length ≠ reserve.length)
    "Capacity field worker_reserve_resource_classes contains duplicates"
  reserve.forM fun resourceClass => do
    failIf (!positive (config.resourceRequests.lookup resourceClass).join)
      ("No resource_requests capacity request is configured for reserved class " ++ resourceClass)
    failIf (!positive (config.resourceCpuRequestsMillicores.lookup resourceClass).join)
      ("No resource_cpu_requests_millicores capacity request is configured for reserved class "
        ++ resourceClass)

def reservedCapacity (config : Config) : Except String Request :=
  (config.workerReserveResourceClasses.getD []).foldlM (fun total resourceClass => do
    let request ← requestFor config resourceClass
    return ⟨total.bytes + request.bytes, total.millicores + request.millicores⟩) ⟨0, 0⟩

/-- What the jobs may request together. -/
def workerBudget (config : Config) : Except String Request := do
  let reserved ← reservedCapacity config
  return {
    bytes := (config.field .namespaceMemoryLimitBytes).getD 0
      - (config.field .residentServiceMemoryBytes).getD 0 - reserved.bytes
    millicores := (config.field .namespaceCpuLimitMillicores).getD 0
      - (config.field .residentServiceCpuMillicores).getD 0 - reserved.millicores }

/-! ## Leases -/

/-- A lease file. -/
structure Lease where
  identity : ℕ
  resourceClass : String
  requestedBytes : ℤ
  requestedMillicores : ℤ
  acquiredAt : ℕ
  heartbeatAt : ℕ
  deriving DecidableEq

/-- The CPU a lease counts for. -/
def Lease.millicores (config : Config) (lease : Lease) : ℤ :=
  if isSafeInteger lease.requestedMillicores then lease.requestedMillicores
  else (config.resourceCpuRequestsMillicores.lookup lease.resourceClass).join.getD 0

/-- What `acquire` answers. -/
structure Decision where
  admitted : Bool
  admittedBytes : ℤ
  admittedMillicores : ℤ
  workerBudget : Request
  limitingResources : List String
  active : ℕ
  deriving DecidableEq

/-- The decision of `acquire`, from the leases that are not stale. -/
def admission (config : Config) (request : Request) (leases : List Lease) :
    Except String Decision := do
  let budget ← workerBudget config
  let admittedBytes ← leases.foldlM (fun total lease => do
    failIf (!(isSafeInteger lease.requestedBytes && 0 < lease.requestedBytes))
      "Active capacity lease has an invalid memory request"
    return total + lease.requestedBytes) (0 : ℤ)
  let admittedMillicores ← leases.foldlM (fun total lease => do
    failIf (!(0 < lease.millicores config)) "Active capacity lease has an invalid CPU request"
    return total + lease.millicores config) (0 : ℤ)
  let limitingResources :=
    (if budget.bytes < 0 ∨ budget.bytes < admittedBytes + request.bytes then ["memory"] else [])
    ++ (if budget.millicores < 0 ∨ budget.millicores < admittedMillicores + request.millicores
      then ["cpu"] else [])
  return {
    admitted := limitingResources.isEmpty
    admittedBytes := admittedBytes
    admittedMillicores := admittedMillicores
    workerBudget := budget
    limitingResources := limitingResources
    active := leases.length }

/-! ## Calls -/

structure Guard where
  maker : ℕ
  mtime : ℕ

structure Disk where
  now : ℕ
  guard : Option Guard
  leases : ℕ → Option Lease

/-- Where a process is: the call it makes next, and what it knows. `since` is when it
made the guard, `beatAt` the heartbeat it wrote last. -/
inductive Phase
  /-- `mkdirSync(guard)`, with so many attempts left -/
  | create (left : ℕ)
  /-- `statSync(guard)` -/
  | look (left : ℕ)
  /-- `Date.now() - mtimeMs > LOCK_STALE_MS` -/
  | judge (left : ℕ) (mtime : ℕ)
  /-- `rmdirSync(guard)` of another -/
  | takeAway (left : ℕ)
  /-- `Atomics.wait` -/
  | pause (left : ℕ)
  /-- `readdirSync(root)` -/
  | list (since : ℕ)
  /-- `readJson(file)` -/
  | read (since : ℕ) (name : ℕ) (names : List ℕ) (leases : List Lease)
  /-- `renameSync(file, archived)` -/
  | archive (since : ℕ) (name : ℕ) (names : List ℕ) (leases : List Lease)
  /-- `openSync(temporary, "wx")`, and what is written to it -/
  | openTemporary (since : ℕ) (admission : Decision)
  /-- `renameSync(temporary, file)` -/
  | publish (since : ℕ) (admission : Decision)
  /-- `rmdirSync(guard)` -/
  | leave (since : ℕ) (result : Except String Decision)
  /-- the job runs -/
  | running (beatAt : ℕ)
  /-- `readJson(admission.file)`, in a heartbeat -/
  | beatRead (beatAt : ℕ)
  /-- `new Date()`, and `openSync(temporary, "wx")` -/
  | beatOpen (beatAt : ℕ) (current : Lease)
  /-- `renameSync(temporary, file)` -/
  | beatPublish (beatAt : ℕ) (lease : Lease)
  /-- the job has ended: `readJson(admission.file)` -/
  | finish
  /-- `unlinkSync(admission.file)` -/
  | unlink
  | ended (result : Except String Bool)
  | killed

/-- Since when the process is inside the guarded section. -/
def Phase.since : Phase → Option ℕ
  | .list since => some since
  | .read since .. => some since
  | .archive since .. => some since
  | .openTemporary since _ => some since
  | .publish since _ => some since
  | .leave since _ => some since
  | _ => none

structure Process where
  resourceClass : String
  request : Request
  /-- `now`, read when `acquire` is called -/
  now : ℕ
  phase : Phase

/-- The heartbeat of the lease of a job that is admitted and has not ended. -/
def Process.admittedAt (p : Process) : Option ℕ :=
  match p.phase with
  | .leave _ (.ok admission) => if admission.admitted then some p.now else none
  | .running beatAt => some beatAt
  | .beatRead beatAt => some beatAt
  | .beatOpen beatAt _ => some beatAt
  | .beatPublish beatAt _ => some beatAt
  | _ => none

/-- The lease a process writes when it is admitted. -/
def Process.lease (i : ℕ) (p : Process) : Lease where
  identity := i
  resourceClass := p.resourceClass
  requestedBytes := p.request.bytes
  requestedMillicores := p.request.millicores
  acquiredAt := p.now
  heartbeatAt := p.now

/-- The loop of `activeLeases`, and the decision after it. -/
def counting (config : Config) (request : Request) (since : ℕ) (names : List ℕ)
    (leases : List Lease) : Phase :=
  match names with
  | name :: rest => .read since name rest leases
  | [] =>
    match admission config request leases with
    | .error e => .leave since (.error e)
    | .ok admission =>
      if admission.admitted then .openTemporary since admission else .leave since (.ok admission)

/-- A lease that `activeLeases` does not keep. -/
def isStale (now : ℕ) (lease : Lease) : Bool := leaseStaleMs < now - lease.heartbeatAt

/-- The next call of process `i`; `readdirSync` is apart. -/
def Process.call (config : Config) (i : ℕ) (p : Process) (disk : Disk) : Option (Disk × Phase) :=
  match p.phase with
  | .create left =>
    match disk.guard with
    | none => some ({ disk with guard := some ⟨i, disk.now⟩ }, .list disk.now)
    | some _ => some (disk, .look left)
  | .look left =>
    match disk.guard with
    | none => some (disk, .pause left)
    | some guard => some (disk, .judge left guard.mtime)
  | .judge left mtime =>
    some (disk, if lockStaleMs < disk.now - mtime then .takeAway left else .pause left)
  | .takeAway left => some ({ disk with guard := none }, .pause left)
  | .pause left =>
    some (disk, if left ≤ 1 then .ended (.error "capacity admission lock remained busy")
      else .create (left - 1))
  | .list _ => none
  | .read since name names leases =>
    match disk.leases name with
    | none => some (disk, .archive since name names leases)
    | some lease =>
      if isStale p.now lease then some (disk, .archive since name names leases)
      else some (disk, counting config p.request since names (leases ++ [lease]))
  | .archive since name names leases =>
    some ({ disk with leases := Function.update disk.leases name none },
      counting config p.request since names leases)
  | .openTemporary since admission => some (disk, .publish since admission)
  | .publish since admission =>
    some ({ disk with leases := Function.update disk.leases i (some (p.lease i)) },
      .leave since (.ok admission))
  | .leave _ result =>
    match disk.guard with
    | none => some (disk, .ended (.error "ENOENT: rmdir"))
    | some _ =>
      some ({ disk with guard := none }, match result with
        | .error e => .ended (.error e)
        | .ok admission => if admission.admitted then .running p.now else .ended (.ok false))
  | .running _ => none
  | .beatRead beatAt =>
    match disk.leases i with
    | none => some (disk, .running beatAt)
    | some current =>
      some (disk, if current.identity = i then .beatOpen beatAt current else .running beatAt)
  | .beatOpen beatAt current =>
    some (disk, .beatPublish beatAt { current with heartbeatAt := disk.now })
  | .beatPublish _ lease =>
    some ({ disk with leases := Function.update disk.leases i (some lease) },
      .running lease.heartbeatAt)
  | .finish =>
    match disk.leases i with
    | none => some (disk, .ended (.ok true))
    | some current =>
      some (disk, if current.identity = i then .unlink else .ended (.ok true))
  | .unlink =>
    some ({ disk with leases := Function.update disk.leases i none }, .ended (.ok true))
  | .ended _ => none
  | .killed => none

/-! ## Processes side by side -/

structure Shared where
  disk : Disk
  processes : List Process

inductive Event
  | start (resourceClass : String)
  | advance (process : ℕ)
  /-- `readdirSync` of a process, with what it is answered -/
  | readdir (process : ℕ) (names : List ℕ)
  /-- the timer of a heartbeat -/
  | beat (process : ℕ)
  /-- the job ends -/
  | exit (process : ℕ)
  | kill (process : ℕ)
  | tick (ms : ℕ)

def Shared.enter (s : Shared) (i : ℕ) (p : Process) (disk : Disk) (phase : Phase) : Shared where
  disk := disk
  processes := s.processes.set i { p with phase := phase }

/-- `acquire`, up to `withGuard`. -/
def acquire (config : Config) (resourceClass : String) (now : ℕ) : Process :=
  match (do validatedConfig config; requestFor config resourceClass) with
  | .error e => ⟨resourceClass, ⟨0, 0⟩, now, .ended (.error e)⟩
  | .ok request => ⟨resourceClass, request, now, .create guardAttempts⟩

/-- What an event other than a call makes of a phase. -/
def Phase.turn (disk : Disk) (known : ℕ) (config : Config) (request : Request) :
    Event → Phase → Option Phase
  | .readdir _ names, .list since =>
    -- the names of the files there are, in any order
    if names.Perm ((List.range known).filter fun j => (disk.leases j).isSome)
    then some (counting config request since names []) else none
  | .beat _, .running beatAt => some (.beatRead beatAt)
  | .exit _, .running _ => some .finish
  | .kill _, _ => some .killed
  | _, _ => none

def Shared.turn (config : Config) (s : Shared) (i : ℕ) (e : Event) : Option Shared := do
  let p ← s.processes[i]?
  let phase ← p.phase.turn s.disk s.processes.length config p.request e
  return s.enter i p s.disk phase

def Shared.step (config : Config) (s : Shared) : Event → Option Shared
  | .start resourceClass =>
    some { s with processes := s.processes ++ [acquire config resourceClass s.disk.now] }
  | .advance i => do
    let p ← s.processes[i]?
    let (disk, phase) ← p.call config i s.disk
    return s.enter i p disk phase
  | .readdir i names => s.turn config i (.readdir i names)
  | .beat i => s.turn config i (.beat i)
  | .exit i => s.turn config i (.exit i)
  | .kill i => s.turn config i (.kill i)
  | .tick ms => some { s with disk := { s.disk with now := s.disk.now + ms } }

/-- Since when process `i` is inside the guarded section, if it is. -/
def Shared.holding (s : Shared) (i : ℕ) : Option ℕ := s.processes[i]?.bind fun p => p.phase.since

/-- The heartbeat of the job of process `i`, if it is admitted and has not ended. -/
def Shared.admittedAt (s : Shared) (i : ℕ) : Option ℕ :=
  s.processes[i]?.bind fun p => p.admittedAt

/-- Every holder of the guard that is not killed finishes in time. -/
def Shared.prompt (s : Shared) : Bool :=
  s.processes.all fun p => p.phase.since.all fun since => s.disk.now ≤ since + lockStaleMs

/-- Every job that runs has had a heartbeat in time. -/
def Shared.alive (s : Shared) : Bool :=
  s.processes.all fun p => p.admittedAt.all fun beatAt => s.disk.now ≤ beatAt + leaseStaleMs

/-- A step of a run in which holders and heartbeats are in time. -/
def Shared.next (config : Config) (s : Shared) (e : Event) : Option Shared :=
  (s.step config e).filter fun t => t.prompt && t.alive

end WikiEcon.Toolforge.Admission
