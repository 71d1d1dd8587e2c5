import Mathlib.Algebra.Order.BigOperators.Group.List
import Mathlib.Algebra.Order.Group.Nat
import Mathlib.Algebra.Order.Ring.Int
import Mathlib.Algebra.Order.Ring.Nat
import WikiEcon.Lib.Fallible
import WikiEcon.Lib.Transition
import WikiEcon.Rust

/-!
# The resource governor

One mutex guards five counters: how many source and bucket workers hold a
permit, and how many persistent, memory and scratch bytes those permits have
reserved. An admission samples the machine, checks its gates against the sample
and the counters, raises the counters and hands out a permit; dropping the
permit lowers them again with saturating arithmetic.

Every operation holds the mutex throughout, so an interleaving of threads is a
list of operations. What the machine reports at each of them is an input
(`Telemetry`), as is whether the target is Linux, where memory telemetry is
mandatory.

`Inv` ties the counters to the permits in circulation. From it follow the sums,
the limits and that no release ever saturates (`reservations_exact`).
-/

namespace WikiEcon.ResourceGovernor

open Fallible Transition

def maxSourceWorkerMemoryReservationBytes : ℕ := 512 * 1024 * 1024
def sourceFdAllowance : ℕ := 8
def bucketFdAllowance : ℕ := 4

/-- The largest `usize` of a 64-bit target. -/
def usizeMax : ℕ := u64Max

/-! ## The budget -/

structure ResourceBudget where
  memoryCeilingBytes : ℕ
  memoryReserveBytes : ℕ
  persistentStorageReserveBytes : ℕ
  boundedScratchReserveBytes : ℕ
  rollbackGenerationReserveBytes : ℕ
  scratchLimitBytes : ℕ
  maxOpenFiles : ℕ
  sourceWorkerLimit : ℕ
  threadLimit : ℕ
  maxLogicalPartitionBytes : ℕ
  maxActiveParquetWriters : ℕ
  weeklyWorkerLimit : ℕ
  deriving DecidableEq

def ResourceBudget.validate (b : ResourceBudget) : Except String Unit := do
  ensure (b.memoryCeilingBytes > 0) "memory ceiling must be positive"
  ensure (b.memoryReserveBytes < b.memoryCeilingBytes)
    "memory reserve must be smaller than the memory ceiling"
  ensure (b.scratchLimitBytes > 0) "scratch limit must be positive"
  ensure (b.maxOpenFiles > sourceFdAllowance)
    s!"maximum open files must exceed the per-source allowance of {sourceFdAllowance}"
  ensure (b.sourceWorkerLimit > 0) "source worker limit must be positive"
  ensure (b.sourceWorkerLimit ≤ b.threadLimit)
    "source worker limit must not exceed the governed thread limit"
  ensure (b.threadLimit > 0) "thread limit must be positive"
  ensure (b.maxLogicalPartitionBytes > 0) "maximum logical partition size must be positive"
  ensure (b.maxActiveParquetWriters > 0) "maximum active Parquet writers must be positive"
  ensure (b.weeklyWorkerLimit > 0 ∧ b.weeklyWorkerLimit ≤ b.threadLimit)
    "weekly worker limit must be positive and no greater than the governed thread limit"

/-- A budget that passed `validate`, as `from_environment` hands it on. -/
structure ValidBudget extends ResourceBudget where
  valid : toResourceBudget.validate = .ok ()

namespace ResourceBudget

variable (b : ResourceBudget)

def memoryAdmissionBytes : ℕ := b.memoryCeilingBytes - b.memoryReserveBytes

def sourceWorkerMemoryReservationBytes : ℕ :=
  let concurrentReservations := max (saturatingMul u64Max b.sourceWorkerLimit 2) 1
  min (b.memoryAdmissionBytes / concurrentReservations) maxSourceWorkerMemoryReservationBytes

def persistentAdmissionReserveBytes : Except String ℕ :=
  context ((checkedAdd u64Max b.persistentStorageReserveBytes b.boundedScratchReserveBytes).bind
    fun value => checkedAdd u64Max value b.rollbackGenerationReserveBytes)
    "persistent storage reserve overflow"

end ResourceBudget

/-! ## Samples -/

structure MemorySnapshot where
  rssBytes : Option ℕ
  cgroupCurrentBytes : Option ℕ
  cgroupPeakBytes : Option ℕ
  cgroupLimitBytes : Option ℕ

structure CpuSnapshot where
  usageUsec : Option ℕ
  userUsec : Option ℕ
  systemUsec : Option ℕ
  nrPeriods : Option ℕ
  throttledUsec : Option ℕ
  nrThrottled : Option ℕ

structure IoSnapshot where
  readBytes : Option ℕ
  writeBytes : Option ℕ

/-- What the machine reports when a sample is taken. Scanning the scratch
directory is the one part that can fail. -/
structure Telemetry where
  sampledAtEpochMs : ℕ
  memory : MemorySnapshot
  cpu : CpuSnapshot
  pageCacheBytes : Option ℕ
  io : IoSnapshot
  scratchBytes : Except String ℕ
  persistentTotalBytes : Option ℕ
  persistentAvailableBytes : Option ℕ
  openFileDescriptors : Option ℕ

structure ResourceSample where
  sampledAtEpochMs : ℕ
  memory : MemorySnapshot
  cpu : CpuSnapshot
  pageCacheBytes : Option ℕ
  io : IoSnapshot
  scratchBytes : ℕ
  persistentFilesystemUsedBytes : Option ℕ
  persistentAvailableBytes : Option ℕ
  openFileDescriptors : Option ℕ
  activeSourceWorkers : ℕ
  activeBucketWorkers : ℕ
  reservedPersistentBytes : ℕ
  reservedBucketMemoryBytes : ℕ
  reservedBucketScratchBytes : ℕ
  downloadedBytes : ℕ
  ingestedRows : ℕ
  downloadElapsedMs : ℕ
  ingestElapsedMs : ℕ
  downloadBytesPerSecond : Option ℕ
  ingestRowsPerSecond : Option ℕ

structure ResourceObservation where
  samples : ℕ := 0
  rssPeakBytes : Option ℕ := none
  cgroupCurrentPeakBytes : Option ℕ := none
  cgroupReportedPeakBytes : Option ℕ := none
  pageCachePeakBytes : Option ℕ := none
  scratchPeakBytes : ℕ := 0

structure ObservationBoundary where
  cpu : CpuSnapshot
  io : IoSnapshot

/-! ## The state -/

/-- The five counters a permit raises. -/
structure Counters where
  activeSourceWorkers : ℕ := 0
  activeBucketWorkers : ℕ := 0
  reservedPersistentBytes : ℕ := 0
  reservedBucketMemoryBytes : ℕ := 0
  reservedBucketScratchBytes : ℕ := 0
  deriving DecidableEq

structure GovernorState extends Counters where
  downloadedBytes : ℕ := 0
  ingestedRows : ℕ := 0
  downloadElapsedMs : ℕ := 0
  ingestElapsedMs : ℕ := 0
  observation : ResourceObservation := {}
  firstObservation : Option ObservationBoundary := none
  latestObservation : Option ObservationBoundary := none

def throughput (units elapsedMs : ℕ) : Option ℕ :=
  if elapsedMs > 0 then some (saturatingMul u64Max units 1000 / elapsedMs) else none

def maxOption : Option ℕ → Option ℕ → Option ℕ
  | some left, some right => some (max left right)
  | left, none => left
  | none, right => right

def GovernorState.observe (state : GovernorState) (sample : ResourceSample) : GovernorState :=
  let boundary : ObservationBoundary := { cpu := sample.cpu, io := sample.io }
  { state with
    observation := {
      samples := saturatingAdd u64Max state.observation.samples 1
      rssPeakBytes := maxOption state.observation.rssPeakBytes sample.memory.rssBytes
      cgroupCurrentPeakBytes :=
        maxOption state.observation.cgroupCurrentPeakBytes sample.memory.cgroupCurrentBytes
      cgroupReportedPeakBytes :=
        maxOption state.observation.cgroupReportedPeakBytes sample.memory.cgroupPeakBytes
      pageCachePeakBytes := maxOption state.observation.pageCachePeakBytes sample.pageCacheBytes
      scratchPeakBytes := max state.observation.scratchPeakBytes sample.scratchBytes }
    firstObservation := some (state.firstObservation.getD boundary)
    latestObservation := some boundary }

@[simp] theorem GovernorState.observe_counters (state : GovernorState) (sample : ResourceSample) :
    (state.observe sample).toCounters = state.toCounters := rfl

def sampleWithState (telemetry : Telemetry) (state : GovernorState) :
    Except String ResourceSample := do
  let scratchBytes ← telemetry.scratchBytes
  return {
    sampledAtEpochMs := telemetry.sampledAtEpochMs
    memory := telemetry.memory
    cpu := telemetry.cpu
    pageCacheBytes := telemetry.pageCacheBytes
    io := telemetry.io
    scratchBytes := scratchBytes
    persistentFilesystemUsedBytes := telemetry.persistentTotalBytes.bind fun total =>
      telemetry.persistentAvailableBytes.map fun available => total - available
    persistentAvailableBytes := telemetry.persistentAvailableBytes
    openFileDescriptors := telemetry.openFileDescriptors
    activeSourceWorkers := state.activeSourceWorkers
    activeBucketWorkers := state.activeBucketWorkers
    reservedPersistentBytes := state.reservedPersistentBytes
    reservedBucketMemoryBytes := state.reservedBucketMemoryBytes
    reservedBucketScratchBytes := state.reservedBucketScratchBytes
    downloadedBytes := state.downloadedBytes
    ingestedRows := state.ingestedRows
    downloadElapsedMs := state.downloadElapsedMs
    ingestElapsedMs := state.ingestElapsedMs
    downloadBytesPerSecond := throughput state.downloadedBytes state.downloadElapsedMs
    ingestRowsPerSecond := throughput state.ingestedRows state.ingestElapsedMs }

/-! ## Admission -/

structure SourcePermit where
  reservedPersistentBytes : ℕ
  reservedMemoryBytes : ℕ
  completed : Bool

structure BucketPermit where
  reservedMemoryBytes : ℕ
  reservedScratchBytes : ℕ

section Operations

variable (budget : ValidBudget) (linux : Bool)

/-- The memory in use: the cgroup's figure, else the resident set. Only Linux
insists on having one. -/
def currentMemory (memory : MemorySnapshot) : Option ℕ :=
  let current := memory.cgroupCurrentBytes.or memory.rssBytes
  if linux then current else some (current.getD 0)

def validateSample (sample : ResourceSample) (additionalBytes : ℕ) : Except String Unit := do
  let observedMemory ← context (currentMemory linux sample.memory)
    "resource governor requires memory telemetry"
  ensure (observedMemory ≤ budget.memoryAdmissionBytes)
    s!"resource governor memory gate closed at {observedMemory} bytes; admission ceiling is {budget.memoryAdmissionBytes} bytes"
  ensure (sample.scratchBytes ≤ budget.scratchLimitBytes)
    s!"resource governor scratch gate closed at {sample.scratchBytes} bytes; limit is {budget.scratchLimitBytes} bytes"
  (match sample.openFileDescriptors with
  | some openFiles =>
    ensure (saturatingAdd usizeMax openFiles sourceFdAllowance ≤ budget.maxOpenFiles)
      s!"resource governor file-descriptor gate closed at {openFiles} open files; limit is {budget.maxOpenFiles}"
  | none => .ok ())
  let available ← context sample.persistentAvailableBytes
    "resource governor requires persistent filesystem availability"
  let reserve ← budget.persistentAdmissionReserveBytes
  let required ← context (checkedAdd u64Max reserve additionalBytes)
    "resource admission storage requirement overflow"
  ensure (available ≥ required)
    s!"resource governor storage gate closed: {available} bytes available, {required} required"

/-- The memory gate both admissions share: current use, what is reserved
already, the new reservation and the reserve must fit under the ceiling. -/
def admittedMemory (current reserved additional : ℕ) : Option ℕ :=
  ((checkedAdd u64Max current reserved).bind fun value =>
    checkedAdd u64Max value additional).bind fun value =>
      checkedAdd u64Max value budget.memoryReserveBytes

def admitSourceWithSample (expectedRawBytes : ℕ) (sample : ResourceSample) :
    Fallible String GovernorState SourcePermit := do
  update (·.observe sample)
  let state ← read
  lift (match sample.openFileDescriptors with
    | some openFiles =>
      let reservedFiles := saturatingMul usizeMax
        (saturatingAdd usizeMax state.activeSourceWorkers 1) sourceFdAllowance
      let requiredFiles := saturatingAdd usizeMax openFiles reservedFiles
      ensure (requiredFiles ≤ budget.maxOpenFiles)
        s!"resource governor source file-descriptor gate closed at {requiredFiles}; limit is {budget.maxOpenFiles}"
    | none => .ok ())
  let reservedMemoryBytes := budget.sourceWorkerMemoryReservationBytes
  let current ← lift (context (currentMemory linux sample.memory)
    "resource governor requires current cgroup or RSS memory for source admission")
  let admitted ← lift (context
    (admittedMemory budget current state.reservedBucketMemoryBytes reservedMemoryBytes)
    "source memory admission overflow")
  lift (ensure (admitted ≤ budget.memoryCeilingBytes)
    s!"resource governor source memory gate closed: {admitted} bytes including reserve exceeds {budget.memoryCeilingBytes} bytes")
  let additionalBytes ← lift (context
    (checkedAdd u64Max state.reservedPersistentBytes expectedRawBytes)
    "source storage reservation overflow")
  let reservedWorkMemoryBytes ← lift (context
    (checkedAdd u64Max state.reservedBucketMemoryBytes reservedMemoryBytes)
    "source memory reservation overflow")
  lift (validateSample budget linux sample additionalBytes)
  update fun state => { state with
    activeSourceWorkers := state.activeSourceWorkers + 1
    reservedPersistentBytes := additionalBytes
    reservedBucketMemoryBytes := reservedWorkMemoryBytes }
  return {
    reservedPersistentBytes := expectedRawBytes
    reservedMemoryBytes := reservedMemoryBytes
    completed := false }

def admitSource (telemetry : Telemetry) (expectedRawBytes : ℕ) :
    Fallible String GovernorState SourcePermit := do
  let state ← read
  lift (ensure (state.activeSourceWorkers < budget.sourceWorkerLimit)
    "resource governor source-worker limit reached")
  let sample ← lift (sampleWithState telemetry state)
  admitSourceWithSample budget linux expectedRawBytes sample

def validateBucketAdmission (state : GovernorState) (sample : ResourceSample)
    (estimatedMemoryBytes estimatedScratchBytes : ℕ) : Except String Unit := do
  let current ← context (currentMemory linux sample.memory)
    "resource governor requires current cgroup or RSS memory for bucket admission"
  let admitted ← context
    (admittedMemory budget current state.reservedBucketMemoryBytes estimatedMemoryBytes)
    "bucket memory admission overflow"
  ensure (admitted ≤ budget.memoryCeilingBytes)
    s!"resource governor bucket memory gate closed: {admitted} bytes including reserve exceeds {budget.memoryCeilingBytes} bytes"
  let admittedScratch ← context
    ((checkedAdd u64Max sample.scratchBytes state.reservedBucketScratchBytes).bind fun value =>
      checkedAdd u64Max value estimatedScratchBytes)
    "bucket scratch admission overflow"
  ensure (admittedScratch ≤ budget.scratchLimitBytes)
    s!"resource governor bucket scratch gate closed: {admittedScratch} bytes exceeds {budget.scratchLimitBytes} bytes"
  (match sample.openFileDescriptors with
  | some openFiles => do
    let allowance := bucketFdAllowance * saturatingAdd usizeMax state.activeBucketWorkers 1
    let required ← context
      (if allowance ≤ usizeMax then checkedAdd usizeMax openFiles allowance else none)
      "bucket file-descriptor admission overflow"
    ensure (required ≤ budget.maxOpenFiles)
      s!"resource governor bucket file-descriptor gate closed at {required}; limit is {budget.maxOpenFiles}"
  | none => .ok ())
  let available ← context sample.persistentAvailableBytes
    "resource governor bucket admission requires filesystem availability"
  let reserve ← budget.persistentAdmissionReserveBytes
  let required ← context
    ((checkedAdd u64Max reserve state.reservedBucketScratchBytes).bind fun value =>
      checkedAdd u64Max value estimatedScratchBytes)
    "bucket persistent-storage admission overflow"
  ensure (available ≥ required)
    s!"resource governor bucket storage gate closed: {available} bytes available, {required} required"

def admitBucket (telemetry : Telemetry) (estimatedMemoryBytes estimatedScratchBytes : ℕ) :
    Fallible String GovernorState BucketPermit := do
  let state ← read
  lift (ensure (state.activeBucketWorkers < budget.weeklyWorkerLimit)
    "resource governor weekly-worker limit reached")
  let sample ← lift (sampleWithState telemetry state)
  update (·.observe sample)
  let state ← read
  lift (validateBucketAdmission budget linux state sample estimatedMemoryBytes
    estimatedScratchBytes)
  update fun state => { state with activeBucketWorkers := state.activeBucketWorkers + 1 }
  -- from here an early return would leak the worker count raised above
  let memory ← lift (context
    (checkedAdd u64Max state.reservedBucketMemoryBytes estimatedMemoryBytes)
    "bucket memory reservation overflow")
  update fun state => { state with reservedBucketMemoryBytes := memory }
  let scratch ← lift (context
    (checkedAdd u64Max state.reservedBucketScratchBytes estimatedScratchBytes)
    "bucket scratch reservation overflow")
  update fun state => { state with reservedBucketScratchBytes := scratch }
  return {
    reservedMemoryBytes := estimatedMemoryBytes
    reservedScratchBytes := estimatedScratchBytes }

/-! ## Observation and progress -/

def sample (telemetry : Telemetry) : Fallible String GovernorState ResourceSample := do
  let state ← read
  let sample ← lift (sampleWithState telemetry state)
  update (·.observe sample)
  return sample

def checkpoint (telemetry : Telemetry) : Fallible String GovernorState ResourceSample := do
  let sample ← sample telemetry
  lift (validateSample budget linux sample 0)
  return sample

def recordSourceProgress (telemetry : Telemetry)
    (downloadedBytes downloadElapsedMs ingestedRows ingestElapsedMs : ℕ) :
    Fallible String GovernorState ResourceSample := do
  let state ← read
  let value ← lift (context (checkedAdd u64Max state.downloadedBytes downloadedBytes)
    "download byte counter overflow")
  update fun state => { state with downloadedBytes := value }
  let value ← lift (context (checkedAdd u64Max state.ingestedRows ingestedRows)
    "ingest row counter overflow")
  update fun state => { state with ingestedRows := value }
  let value ← lift (context (checkedAdd u64Max state.downloadElapsedMs downloadElapsedMs)
    "download duration counter overflow")
  update fun state => { state with downloadElapsedMs := value }
  let value ← lift (context (checkedAdd u64Max state.ingestElapsedMs ingestElapsedMs)
    "ingest duration counter overflow")
  update fun state => { state with ingestElapsedMs := value }
  let state ← read
  let sample ← lift (sampleWithState telemetry state)
  update (·.observe sample)
  return sample

end Operations

/-! ## Release -/

/-- `Drop for SourcePermit`; natural subtraction is `saturating_sub`. -/
def SourcePermit.drop (permit : SourcePermit) (state : GovernorState) : GovernorState :=
  { state with
    activeSourceWorkers := state.activeSourceWorkers - 1
    reservedPersistentBytes := state.reservedPersistentBytes - permit.reservedPersistentBytes
    reservedBucketMemoryBytes := state.reservedBucketMemoryBytes - permit.reservedMemoryBytes }

/-- `complete` marks the permit and drops it. -/
def SourcePermit.complete (permit : SourcePermit) (state : GovernorState) : GovernorState :=
  SourcePermit.drop { permit with completed := true } state

/-- The mark `complete` leaves is not part of what the permit gives back. -/
theorem SourcePermit.complete_eq_drop (permit : SourcePermit) (state : GovernorState) :
    permit.complete state = permit.drop state := rfl

/-- `Drop for BucketPermit`. -/
def BucketPermit.drop (permit : BucketPermit) (state : GovernorState) : GovernorState :=
  { state with
    activeBucketWorkers := state.activeBucketWorkers - 1
    reservedBucketMemoryBytes := state.reservedBucketMemoryBytes - permit.reservedMemoryBytes
    reservedBucketScratchBytes := state.reservedBucketScratchBytes - permit.reservedScratchBytes }

/-! ## What an admission does -/

section Cases

variable {budget : ValidBudget} {linux : Bool}

theorem admittedMemory_eq_some {current reserved additional admitted : ℕ}
    (h : admittedMemory budget current reserved additional = some admitted) :
    admitted = current + reserved + additional + budget.memoryReserveBytes ∧
      admitted ≤ u64Max := by
  simp only [admittedMemory, Option.bind_eq_some_iff, checkedAdd_eq_some] at h
  obtain ⟨_, ⟨_, ⟨-, rfl⟩, -, rfl⟩, hle, rfl⟩ := h
  exact ⟨rfl, hle⟩

theorem sampleWithState_ok {telemetry : Telemetry} {state : GovernorState}
    {sample : ResourceSample} (h : sampleWithState telemetry state = .ok sample) :
    sample.memory = telemetry.memory := by
  obtain ⟨_, -, hsample⟩ := bind_eq_ok.mp h
  obtain rfl := Except.ok.inj hsample
  rfl

/-- What a successful admission of either kind found: room under the ceiling for
the memory in use, what is reserved already and the new reservation. -/
def MemoryFits (budget : ValidBudget) (linux : Bool) (memory : MemorySnapshot)
    (reserved : ℕ) : Prop :=
  ∃ current, currentMemory linux memory = some current ∧
    current + reserved + budget.memoryReserveBytes ≤ budget.memoryCeilingBytes

/-- An admission of a source fails and leaves the counters, or raises them by
exactly what its permit records. -/
theorem admitSource_cases {telemetry : Telemetry} {expectedRawBytes : ℕ}
    {state state' : GovernorState} {result : Except String SourcePermit}
    (h : (admitSource budget linux telemetry expectedRawBytes).exec state = (result, state')) :
    (∃ e, result = .error e ∧ state'.toCounters = state.toCounters) ∨
    ∃ permit, result = .ok permit ∧ permit.reservedPersistentBytes = expectedRawBytes ∧
      permit.reservedMemoryBytes = budget.sourceWorkerMemoryReservationBytes ∧
      state.activeSourceWorkers < budget.sourceWorkerLimit ∧
      MemoryFits budget linux telemetry.memory
        (state.reservedBucketMemoryBytes + permit.reservedMemoryBytes) ∧
      state'.toCounters = { state.toCounters with
        activeSourceWorkers := state.activeSourceWorkers + 1
        reservedPersistentBytes := state.reservedPersistentBytes + permit.reservedPersistentBytes
        reservedBucketMemoryBytes :=
          state.reservedBucketMemoryBytes + permit.reservedMemoryBytes } := by
  unfold admitSource at h
  rw [exec_read_bind] at h
  rcases lift_bind_cases h with ⟨e, rfl, rfl, -⟩ | ⟨_, hlimit, h⟩
  · exact Or.inl ⟨e, rfl, rfl⟩
  rcases lift_bind_cases h with ⟨e, rfl, rfl, -⟩ | ⟨sample, hsample, h⟩
  · exact Or.inl ⟨e, rfl, rfl⟩
  unfold admitSourceWithSample at h
  rw [exec_update_bind, exec_read_bind] at h
  -- from here on every early return leaves the state just observed
  rcases lift_bind_cases h with ⟨e, rfl, rfl, -⟩ | ⟨_, -, h⟩
  · exact Or.inl ⟨e, rfl, rfl⟩
  rcases lift_bind_cases h with ⟨e, rfl, rfl, -⟩ | ⟨current, hcurrent, h⟩
  · exact Or.inl ⟨e, rfl, rfl⟩
  rcases lift_bind_cases h with ⟨e, rfl, rfl, -⟩ | ⟨admitted, hadmitted, h⟩
  · exact Or.inl ⟨e, rfl, rfl⟩
  rcases lift_bind_cases h with ⟨e, rfl, rfl, -⟩ | ⟨_, hceiling, h⟩
  · exact Or.inl ⟨e, rfl, rfl⟩
  rcases lift_bind_cases h with ⟨e, rfl, rfl, -⟩ | ⟨additional, hadditional, h⟩
  · exact Or.inl ⟨e, rfl, rfl⟩
  rcases lift_bind_cases h with ⟨e, rfl, rfl, -⟩ | ⟨work, hwork, h⟩
  · exact Or.inl ⟨e, rfl, rfl⟩
  rcases lift_bind_cases h with ⟨e, rfl, rfl, -⟩ | ⟨_, -, h⟩
  · exact Or.inl ⟨e, rfl, rfl⟩
  rw [exec_update_bind, exec_pure] at h
  obtain ⟨rfl, rfl⟩ := Prod.mk.inj h
  have hfit := (admittedMemory_eq_some (context_eq_ok.mp hadmitted)).1
  have hle := ensure_eq_ok.mp hceiling
  have hadd := (checkedAdd_eq_some.mp (context_eq_ok.mp hadditional)).2
  have hsum := (checkedAdd_eq_some.mp (context_eq_ok.mp hwork)).2
  rw [context_eq_ok, sampleWithState_ok hsample] at hcurrent
  refine Or.inr ⟨_, rfl, rfl, rfl, ensure_eq_ok.mp hlimit, ⟨current, hcurrent, ?_⟩, ?_⟩
  · rw [hfit] at hle
    simpa only [GovernorState.observe_counters, Nat.add_assoc] using hle
  · rw [hadd, hsum]
    rfl

/-- The gates of a bucket admission leave no room for the reservation sums made
after them to overflow. -/
theorem validateBucketAdmission_ok {state : GovernorState} {sample : ResourceSample}
    {estimatedMemoryBytes estimatedScratchBytes : ℕ} {u : Unit}
    (h : validateBucketAdmission budget linux state sample estimatedMemoryBytes
      estimatedScratchBytes = .ok u) :
    MemoryFits budget linux sample.memory
      (state.reservedBucketMemoryBytes + estimatedMemoryBytes) ∧
    state.reservedBucketMemoryBytes + estimatedMemoryBytes ≤ u64Max ∧
    state.reservedBucketScratchBytes + estimatedScratchBytes ≤ u64Max := by
  obtain ⟨current, hcurrent, h⟩ := bind_eq_ok.mp h
  obtain ⟨admitted, hadmitted, h⟩ := bind_eq_ok.mp h
  obtain ⟨_, hceiling, h⟩ := bind_eq_ok.mp h
  obtain ⟨admittedScratch, hscratch, -⟩ := bind_eq_ok.mp h
  obtain ⟨hfit, hmax⟩ := admittedMemory_eq_some (context_eq_ok.mp hadmitted)
  have hle := ensure_eq_ok.mp hceiling
  rw [context_eq_ok, Option.bind_eq_some_iff] at hscratch
  obtain ⟨_, hfirst, hsecond⟩ := hscratch
  obtain ⟨-, rfl⟩ := checkedAdd_eq_some.mp hfirst
  obtain ⟨hscratchMax, -⟩ := checkedAdd_eq_some.mp hsecond
  refine ⟨⟨current, context_eq_ok.mp hcurrent, ?_⟩, ?_, ?_⟩
  · omega
  · omega
  · omega

/-- An admission of a bucket fails and leaves the counters, or raises them by
exactly what its permit records: past the gates nothing can fail any more. -/
theorem admitBucket_cases {telemetry : Telemetry}
    {estimatedMemoryBytes estimatedScratchBytes : ℕ} {state state' : GovernorState}
    {result : Except String BucketPermit}
    (h : (admitBucket budget linux telemetry estimatedMemoryBytes estimatedScratchBytes).exec
      state = (result, state')) :
    (∃ e, result = .error e ∧ state'.toCounters = state.toCounters) ∨
    ∃ permit, result = .ok permit ∧ permit.reservedMemoryBytes = estimatedMemoryBytes ∧
      permit.reservedScratchBytes = estimatedScratchBytes ∧
      state.activeBucketWorkers < budget.weeklyWorkerLimit ∧
      MemoryFits budget linux telemetry.memory
        (state.reservedBucketMemoryBytes + permit.reservedMemoryBytes) ∧
      state'.toCounters = { state.toCounters with
        activeBucketWorkers := state.activeBucketWorkers + 1
        reservedBucketMemoryBytes := state.reservedBucketMemoryBytes + permit.reservedMemoryBytes
        reservedBucketScratchBytes :=
          state.reservedBucketScratchBytes + permit.reservedScratchBytes } := by
  unfold admitBucket at h
  rw [exec_read_bind] at h
  rcases lift_bind_cases h with ⟨e, rfl, rfl, -⟩ | ⟨_, hlimit, h⟩
  · exact Or.inl ⟨e, rfl, rfl⟩
  rcases lift_bind_cases h with ⟨e, rfl, rfl, -⟩ | ⟨sample, hsample, h⟩
  · exact Or.inl ⟨e, rfl, rfl⟩
  rw [exec_update_bind, exec_read_bind] at h
  rcases lift_bind_cases h with ⟨e, rfl, rfl, -⟩ | ⟨_, hgates, h⟩
  · exact Or.inl ⟨e, rfl, rfl⟩
  obtain ⟨hfits, hmemory, hscratch⟩ := validateBucketAdmission_ok hgates
  rw [sampleWithState_ok hsample] at hfits
  have hmemory' := checkedAdd_eq_some.mpr ⟨hmemory, rfl⟩
  have hscratch' := checkedAdd_eq_some.mpr ⟨hscratch, rfl⟩
  rw [exec_update_bind, context_eq_ok.mpr hmemory', exec_lift_bind] at h
  simp only [context_eq_ok.mpr hscratch', exec_update_bind, exec_lift_bind, exec_pure] at h
  obtain ⟨rfl, rfl⟩ := Prod.mk.inj h
  exact Or.inr ⟨_, rfl, rfl, rfl, ensure_eq_ok.mp hlimit, hfits, rfl⟩

theorem sample_counters {telemetry : Telemetry} {state state' : GovernorState}
    {result : Except String ResourceSample}
    (h : (sample telemetry).exec state = (result, state')) :
    state'.toCounters = state.toCounters := by
  unfold sample at h
  rw [exec_read_bind] at h
  rcases lift_bind_cases h with ⟨_, -, rfl, -⟩ | ⟨sample, -, h⟩
  · rfl
  · rw [exec_update_bind, exec_pure] at h
    obtain ⟨-, rfl⟩ := Prod.mk.inj h
    rfl

theorem checkpoint_counters {telemetry : Telemetry} {state state' : GovernorState}
    {result : Except String ResourceSample}
    (h : (checkpoint budget linux telemetry).exec state = (result, state')) :
    state'.toCounters = state.toCounters := by
  unfold checkpoint at h
  rcases bind_cases h with ⟨_, -, hsample⟩ | ⟨_, _, hsample, h⟩
  · exact sample_counters hsample
  · rcases lift_bind_cases h with ⟨_, -, rfl, -⟩ | ⟨_, -, h⟩
    · exact sample_counters hsample
    · rw [exec_pure] at h
      obtain ⟨-, rfl⟩ := Prod.mk.inj h
      exact sample_counters hsample

/-- Progress is recorded beside the counters, also when it stops halfway. -/
theorem recordSourceProgress_counters {telemetry : Telemetry}
    {downloadedBytes downloadElapsedMs ingestedRows ingestElapsedMs : ℕ}
    {state state' : GovernorState} {result : Except String ResourceSample}
    (h : (recordSourceProgress telemetry downloadedBytes downloadElapsedMs ingestedRows
      ingestElapsedMs).exec state = (result, state')) :
    state'.toCounters = state.toCounters := by
  unfold recordSourceProgress at h
  rw [exec_read_bind] at h
  rcases lift_bind_cases h with ⟨_, -, rfl, -⟩ | ⟨_, -, h⟩
  · rfl
  rw [exec_update_bind] at h
  rcases lift_bind_cases h with ⟨_, -, rfl, -⟩ | ⟨_, -, h⟩
  · rfl
  rw [exec_update_bind] at h
  rcases lift_bind_cases h with ⟨_, -, rfl, -⟩ | ⟨_, -, h⟩
  · rfl
  rw [exec_update_bind] at h
  rcases lift_bind_cases h with ⟨_, -, rfl, -⟩ | ⟨_, -, h⟩
  · rfl
  rw [exec_update_bind, exec_read_bind] at h
  rcases lift_bind_cases h with ⟨_, -, rfl, -⟩ | ⟨_, -, h⟩
  · rfl
  rw [exec_update_bind, exec_pure] at h
  obtain ⟨-, rfl⟩ := Prod.mk.inj h
  rfl

end Cases

/-! ## Governor runs -/

/-- The governor and the permits in circulation. -/
structure Governor where
  state : GovernorState := {}
  sources : List SourcePermit := []
  buckets : List BucketPermit := []

/-- One call or one drop, by whichever thread holds the mutex next. A permit is
named by its place among the live ones. -/
inductive Op
  | admitSource (telemetry : Telemetry) (expectedRawBytes : ℕ)
  | admitBucket (telemetry : Telemetry) (estimatedMemoryBytes estimatedScratchBytes : ℕ)
  | checkpoint (telemetry : Telemetry)
  | recordSourceProgress (telemetry : Telemetry)
      (downloadedBytes downloadElapsedMs ingestedRows ingestElapsedMs : ℕ)
  | dropSource (place : ℕ)
  | completeSource (place : ℕ)
  | dropBucket (place : ℕ)

section Runs

variable (budget : ValidBudget) (linux : Bool)

def step (g : Governor) : Op → Governor
  | .admitSource telemetry expectedRawBytes =>
    match (admitSource budget linux telemetry expectedRawBytes).exec g.state with
    | (.ok permit, state) => { g with state := state, sources := permit :: g.sources }
    | (.error _, state) => { g with state := state }
  | .admitBucket telemetry estimatedMemoryBytes estimatedScratchBytes =>
    match (admitBucket budget linux telemetry estimatedMemoryBytes estimatedScratchBytes).exec
      g.state with
    | (.ok permit, state) => { g with state := state, buckets := permit :: g.buckets }
    | (.error _, state) => { g with state := state }
  | .checkpoint telemetry =>
    { g with state := ((checkpoint budget linux telemetry).exec g.state).2 }
  | .recordSourceProgress telemetry downloadedBytes downloadElapsedMs ingestedRows
      ingestElapsedMs =>
    { g with state := ((recordSourceProgress telemetry downloadedBytes downloadElapsedMs
        ingestedRows ingestElapsedMs).exec g.state).2 }
  | .dropSource place =>
    match g.sources[place]? with
    | none => g
    | some permit =>
      { g with state := permit.drop g.state, sources := g.sources.eraseIdx place }
  | .completeSource place =>
    match g.sources[place]? with
    | none => g
    | some permit =>
      { g with state := permit.complete g.state, sources := g.sources.eraseIdx place }
  | .dropBucket place =>
    match g.buckets[place]? with
    | none => g
    | some permit =>
      { g with state := permit.drop g.state, buckets := g.buckets.eraseIdx place }

/-- Every interleaving of the operations, from a fresh governor. -/
def system : System Governor Op := System.ofFun {} (step budget linux)

/-- What the permits in circulation account for. -/
def Governor.held (g : Governor) : Counters where
  activeSourceWorkers := g.sources.length
  activeBucketWorkers := g.buckets.length
  reservedPersistentBytes := (g.sources.map SourcePermit.reservedPersistentBytes).sum
  reservedBucketMemoryBytes := (g.sources.map SourcePermit.reservedMemoryBytes).sum
    + (g.buckets.map BucketPermit.reservedMemoryBytes).sum
  reservedBucketScratchBytes := (g.buckets.map BucketPermit.reservedScratchBytes).sum

/-- The counters are what the permits account for, within the limits. -/
structure Inv (g : Governor) : Prop where
  exact : g.state.toCounters = g.held
  sources_le : g.sources.length ≤ budget.sourceWorkerLimit
  buckets_le : g.buckets.length ≤ budget.weeklyWorkerLimit

end Runs

/-- Taking a permit out of the list takes its share out of a sum over the list. -/
theorem sum_eraseIdx {α : Type} {f : α → ℕ} {l : List α} {place : ℕ} {a : α}
    (h : l[place]? = some a) :
    f a ≤ (l.map f).sum ∧ ((l.eraseIdx place).map f).sum = (l.map f).sum - f a := by
  have hperm : l.Perm (a :: l.eraseIdx place) := by
    obtain ⟨hlt, rfl⟩ := List.getElem?_eq_some_iff.mp h
    exact (List.getElem_cons_eraseIdx_perm hlt).symm
  have hsum : (l.map f).sum = f a + ((l.eraseIdx place).map f).sum :=
    (hperm.map f).sum_eq
  omega

section Invariant

variable {budget : ValidBudget} {linux : Bool} {g : Governor}

/-- An operation that leaves the counters and the permits keeps the invariant. -/
theorem Inv.of_counters {state : GovernorState} (h : Inv budget g)
    (hstate : state.toCounters = g.state.toCounters) : Inv budget { g with state := state } where
  exact := hstate.trans h.exact
  sources_le := h.sources_le
  buckets_le := h.buckets_le

theorem Inv.admitSource {telemetry : Telemetry} {expectedRawBytes : ℕ} (h : Inv budget g) :
    Inv budget (step budget linux g (.admitSource telemetry expectedRawBytes)) := by
  rw [step]
  cases hexec : (ResourceGovernor.admitSource budget linux telemetry expectedRawBytes).exec
      g.state with
  | mk result state =>
    rcases admitSource_cases hexec with ⟨e, rfl, hstate⟩ | ⟨permit, rfl, -, -, hlimit, -, hstate⟩
    · exact h.of_counters hstate
    · have hlen : g.state.activeSourceWorkers = g.sources.length :=
        congrArg Counters.activeSourceWorkers h.exact
      refine ⟨?_, ?_, h.buckets_le⟩
      · rw [hstate, h.exact]
        simp only [Governor.held, List.length_cons, List.map_cons, List.sum_cons]
        congr 1
        · omega
        · omega
      · rw [List.length_cons]
        omega

theorem Inv.admitBucket {telemetry : Telemetry} {estimatedMemoryBytes estimatedScratchBytes : ℕ}
    (h : Inv budget g) :
    Inv budget (step budget linux g
      (.admitBucket telemetry estimatedMemoryBytes estimatedScratchBytes)) := by
  rw [step]
  cases hexec : (ResourceGovernor.admitBucket budget linux telemetry estimatedMemoryBytes
      estimatedScratchBytes).exec g.state with
  | mk result state =>
    rcases admitBucket_cases hexec with
      ⟨e, rfl, hstate⟩ | ⟨permit, rfl, -, -, hlimit, -, hstate⟩
    · exact h.of_counters hstate
    · have hlen : g.state.activeBucketWorkers = g.buckets.length :=
        congrArg Counters.activeBucketWorkers h.exact
      refine ⟨?_, h.sources_le, ?_⟩
      · rw [hstate, h.exact]
        simp only [Governor.held, List.length_cons, List.map_cons, List.sum_cons]
        congr 1
        · omega
        · omega
      · rw [List.length_cons]
        omega

/-- Dropping a source permit gives back exactly its share. -/
theorem Inv.dropSource {place : ℕ} {permit : SourcePermit} (h : Inv budget g)
    (hpermit : g.sources[place]? = some permit) :
    Inv budget
      { g with state := permit.drop g.state, sources := g.sources.eraseIdx place } := by
  have hlen : (g.sources.eraseIdx place).length = g.sources.length - 1 :=
    List.length_eraseIdx_of_lt (List.getElem?_eq_some_iff.mp hpermit).1
  have hpersistent := sum_eraseIdx (f := SourcePermit.reservedPersistentBytes) hpermit
  have hmemory := sum_eraseIdx (f := SourcePermit.reservedMemoryBytes) hpermit
  refine ⟨?_, ?_, h.buckets_le⟩
  · have hstate : (permit.drop g.state).toCounters = { g.state.toCounters with
        activeSourceWorkers := g.state.toCounters.activeSourceWorkers - 1
        reservedPersistentBytes :=
          g.state.toCounters.reservedPersistentBytes - permit.reservedPersistentBytes
        reservedBucketMemoryBytes :=
          g.state.toCounters.reservedBucketMemoryBytes - permit.reservedMemoryBytes } := rfl
    rw [hstate, h.exact]
    simp only [Governor.held, hlen, hpersistent.2, hmemory.2]
    congr 1
    omega
  · have hle := h.sources_le
    rw [hlen]
    omega

/-- Dropping a bucket permit gives back exactly its share. -/
theorem Inv.dropBucket {place : ℕ} {permit : BucketPermit} (h : Inv budget g)
    (hpermit : g.buckets[place]? = some permit) :
    Inv budget
      { g with state := permit.drop g.state, buckets := g.buckets.eraseIdx place } := by
  have hlen : (g.buckets.eraseIdx place).length = g.buckets.length - 1 :=
    List.length_eraseIdx_of_lt (List.getElem?_eq_some_iff.mp hpermit).1
  have hmemory := sum_eraseIdx (f := BucketPermit.reservedMemoryBytes) hpermit
  have hscratch := sum_eraseIdx (f := BucketPermit.reservedScratchBytes) hpermit
  refine ⟨?_, h.sources_le, ?_⟩
  · have hstate : (permit.drop g.state).toCounters = { g.state.toCounters with
        activeBucketWorkers := g.state.toCounters.activeBucketWorkers - 1
        reservedBucketMemoryBytes :=
          g.state.toCounters.reservedBucketMemoryBytes - permit.reservedMemoryBytes
        reservedBucketScratchBytes :=
          g.state.toCounters.reservedBucketScratchBytes - permit.reservedScratchBytes } := rfl
    rw [hstate, h.exact]
    simp only [Governor.held, hlen, hmemory.2, hscratch.2]
    congr 1
    omega
  · have hle := h.buckets_le
    rw [hlen]
    omega

/-- Every operation keeps the invariant. -/
theorem Inv.step (h : Inv budget g) (op : Op) :
    Inv budget (ResourceGovernor.step budget linux g op) := by
  cases op with
  | admitSource telemetry expectedRawBytes => exact h.admitSource
  | admitBucket telemetry estimatedMemoryBytes estimatedScratchBytes => exact h.admitBucket
  | checkpoint telemetry => exact h.of_counters (checkpoint_counters rfl)
  | recordSourceProgress telemetry _ _ _ _ =>
    exact h.of_counters (recordSourceProgress_counters rfl)
  | dropSource place =>
    rw [ResourceGovernor.step]
    split
    · exact h
    next permit hpermit => exact h.dropSource hpermit
  | completeSource place =>
    rw [ResourceGovernor.step]
    split
    · exact h
    next permit hpermit =>
      rw [SourcePermit.complete_eq_drop]
      exact h.dropSource hpermit
  | dropBucket place =>
    rw [ResourceGovernor.step]
    split
    · exact h
    next permit hpermit => exact h.dropBucket hpermit

theorem inv_inductive : (system budget linux).Inductive (Inv budget) where
  init := by
    rintro g rfl
    exact ⟨rfl, Nat.zero_le _, Nat.zero_le _⟩
  step := by
    rintro g op _ h rfl
    exact h.step op

/-- What a live source permit gives back is covered by the counters. -/
theorem Inv.source_covered (h : Inv budget g) {permit : SourcePermit}
    (hpermit : permit ∈ g.sources) :
    1 ≤ g.state.activeSourceWorkers ∧
      permit.reservedPersistentBytes ≤ g.state.reservedPersistentBytes ∧
      permit.reservedMemoryBytes ≤ g.state.reservedBucketMemoryBytes := by
  have hpos := List.length_pos_of_mem hpermit
  have hpersistent := List.single_le_sum (fun _ _ => Nat.zero_le _) _
    (List.mem_map_of_mem (f := SourcePermit.reservedPersistentBytes) hpermit)
  have hmemory := List.single_le_sum (fun _ _ => Nat.zero_le _) _
    (List.mem_map_of_mem (f := SourcePermit.reservedMemoryBytes) hpermit)
  rw [h.exact]
  simp only [Governor.held]
  omega

/-- What a live bucket permit gives back is covered by the counters. -/
theorem Inv.bucket_covered (h : Inv budget g) {permit : BucketPermit}
    (hpermit : permit ∈ g.buckets) :
    1 ≤ g.state.activeBucketWorkers ∧
      permit.reservedMemoryBytes ≤ g.state.reservedBucketMemoryBytes ∧
      permit.reservedScratchBytes ≤ g.state.reservedBucketScratchBytes := by
  have hpos := List.length_pos_of_mem hpermit
  have hmemory := List.single_le_sum (fun _ _ => Nat.zero_le _) _
    (List.mem_map_of_mem (f := BucketPermit.reservedMemoryBytes) hpermit)
  have hscratch := List.single_le_sum (fun _ _ => Nat.zero_le _) _
    (List.mem_map_of_mem (f := BucketPermit.reservedScratchBytes) hpermit)
  rw [h.exact]
  simp only [Governor.held]
  omega

/-- What an admission reports about its outcome: the permit reserves what was asked for
and the permits then in circulation fit under the ceiling, or the counters are as they
were. -/
def Atomic (budget : ValidBudget) (linux : Bool) (g : Governor) (telemetry : Telemetry)
    {Permit : Type} (issue : Permit → Governor) (asked : Permit → Prop) :
    Except String Permit × GovernorState → Prop
  | (.ok permit, _) => asked permit ∧
    MemoryFits budget linux telemetry.memory (issue permit).held.reservedBucketMemoryBytes
  | (.error _, state) => state.toCounters = g.state.toCounters

end Invariant

/-- **Reservations are exact and admissions atomic.** In every reachable state
the counters are the permits' own sums and within the limits, no drop of a live
permit saturates, and an admission tried there either reserves what was asked for
and fits under the memory ceiling with everything outstanding, or leaves the
counters alone. -/
theorem reservations_exact (budget : ValidBudget) (linux : Bool) {g : Governor}
    (hg : (system budget linux).Reachable g) :
    g.state.toCounters = g.held ∧
    g.sources.length ≤ budget.sourceWorkerLimit ∧ g.buckets.length ≤ budget.weeklyWorkerLimit ∧
    (∀ permit ∈ g.sources, 1 ≤ g.state.activeSourceWorkers ∧
      permit.reservedPersistentBytes ≤ g.state.reservedPersistentBytes ∧
      permit.reservedMemoryBytes ≤ g.state.reservedBucketMemoryBytes) ∧
    (∀ permit ∈ g.buckets, 1 ≤ g.state.activeBucketWorkers ∧
      permit.reservedMemoryBytes ≤ g.state.reservedBucketMemoryBytes ∧
      permit.reservedScratchBytes ≤ g.state.reservedBucketScratchBytes) ∧
    (∀ telemetry expectedRawBytes,
      Atomic budget linux g telemetry (fun permit => { g with sources := permit :: g.sources })
        (fun permit => permit.reservedPersistentBytes = expectedRawBytes ∧
          permit.reservedMemoryBytes = budget.sourceWorkerMemoryReservationBytes)
        ((admitSource budget linux telemetry expectedRawBytes).exec g.state)) ∧
    (∀ telemetry estimatedMemoryBytes estimatedScratchBytes,
      Atomic budget linux g telemetry (fun permit => { g with buckets := permit :: g.buckets })
        (fun permit => permit.reservedMemoryBytes = estimatedMemoryBytes ∧
          permit.reservedScratchBytes = estimatedScratchBytes)
        ((admitBucket budget linux telemetry estimatedMemoryBytes estimatedScratchBytes).exec
          g.state)) := by
  -- The counters are the sums of the live permits in every reachable state; the rest reads off.
  have h : Inv budget g := inv_inductive.reachable hg
  have hmemory : g.state.reservedBucketMemoryBytes = g.held.reservedBucketMemoryBytes :=
    congrArg Counters.reservedBucketMemoryBytes h.exact
  refine ⟨h.exact, h.sources_le, h.buckets_le, fun _ => h.source_covered,
    fun _ => h.bucket_covered, ?_, ?_⟩
  · intro telemetry expectedRawBytes
    cases hexec : (admitSource budget linux telemetry expectedRawBytes).exec g.state with
    | mk result state =>
      rcases admitSource_cases hexec with
        ⟨e, rfl, hstate⟩ | ⟨permit, rfl, hpersistent, hreserved, -,
        hfits, -⟩
      · exact hstate
      · rw [hmemory] at hfits
        have hheld : g.held.reservedBucketMemoryBytes + permit.reservedMemoryBytes
            = ({ g with sources := permit :: g.sources } :
              Governor).held.reservedBucketMemoryBytes := by
          simp only [Governor.held, List.map_cons, List.sum_cons]
          omega
        rw [hheld] at hfits
        exact ⟨⟨hpersistent, hreserved⟩, hfits⟩
  · intro telemetry estimatedMemoryBytes estimatedScratchBytes
    cases hexec : (admitBucket budget linux telemetry estimatedMemoryBytes
        estimatedScratchBytes).exec g.state with
    | mk result state =>
      rcases admitBucket_cases hexec with
        ⟨e, rfl, hstate⟩ | ⟨permit, rfl, hmemoryAsked, hscratchAsked,
        -, hfits, -⟩
      · exact hstate
      · rw [hmemory] at hfits
        have hheld : g.held.reservedBucketMemoryBytes + permit.reservedMemoryBytes
            = ({ g with buckets := permit :: g.buckets } :
              Governor).held.reservedBucketMemoryBytes := by
          simp only [Governor.held, List.map_cons, List.sum_cons]
          omega
        rw [hheld] at hfits
        exact ⟨⟨hmemoryAsked, hscratchAsked⟩, hfits⟩

/-- Two workers of each kind under a ceiling of 6 GiB. -/
def toolforgeBudget : ValidBudget where
  memoryCeilingBytes := 6442450944
  memoryReserveBytes := 1610612736
  persistentStorageReserveBytes := 0
  boundedScratchReserveBytes := 0
  rollbackGenerationReserveBytes := 0
  scratchLimitBytes := 68719476736
  maxOpenFiles := 512
  sourceWorkerLimit := 2
  threadLimit := 2
  maxLogicalPartitionBytes := 8589934592
  maxActiveParquetWriters := 16
  weeklyWorkerLimit := 2
  valid := by decide

/-- A machine with 1 GB in use and 100 GB of disk free. -/
def idleTelemetry : Telemetry where
  sampledAtEpochMs := 0
  memory := ⟨some 1000000000, none, none, none⟩
  cpu := ⟨none, none, none, none, none, none⟩
  pageCacheBytes := none
  io := ⟨none, none⟩
  scratchBytes := .ok 0
  persistentTotalBytes := none
  persistentAvailableBytes := some 100000000000
  openFileDescriptors := some 20

theorem reservations_exact_toolforge :
    let g := [Op.admitSource idleTelemetry 5000, Op.admitBucket idleTelemetry 700 30,
      Op.dropSource 0].foldl (step toolforgeBudget true) {}
    g.state.toCounters = g.held ∧ g.sources.length = 0 ∧ g.buckets.length = 1 := by
  have hreach : (system toolforgeBudget true).Reachable ([Op.admitSource idleTelemetry 5000,
      Op.admitBucket idleTelemetry 700 30, Op.dropSource 0].foldl (step toolforgeBudget true) {}) :=
    ⟨{}, _, rfl, System.ofFun_run.mpr rfl⟩
  exact ⟨(reservations_exact toolforgeBudget true hreach).1, by decide, by decide⟩

end WikiEcon.ResourceGovernor
