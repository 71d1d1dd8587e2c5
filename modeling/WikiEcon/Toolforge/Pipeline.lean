import Mathlib.Algebra.Order.Ring.Int
import Mathlib.Data.List.Lex
import Mathlib.Data.List.Sort
import Mathlib.Data.Rat.Floor
import WikiEcon.Lib.Fallible
import WikiEcon.Lib.Transition
import WikiEcon.Rust

/-!
# The pipeline coordinator

Each stage of the low-memory pipeline runs in a pod of its own, and one JSON
document says which have run. A stage asks to `begin`, sends heartbeats while it
works, and ends with `complete` or `fail`. Every command reads the document, checks
the stage and its run id against it and writes it back; one that is refused leaves
it alone, except that `begin` keeps what it has recovered from stages that went
silent.

The commands are atomic here: they run under the lock of `withStateLock`. A
document is what `JSON.parse` gives, with times in milliseconds.
-/

namespace WikiEcon.Toolforge.Pipeline

open Fallible

/-! ## The document -/

inductive Stage
  | ingest | metrics | lifecycle | pageWeek | patrol | publish
  deriving DecidableEq

def Stage.name : Stage → String
  | .ingest => "ingest"
  | .metrics => "metrics"
  | .lifecycle => "lifecycle"
  | .pageWeek => "page-week"
  | .patrol => "patrol"
  | .publish => "publish"

/-- `STAGES`. -/
def allStages : List Stage := [.ingest, .metrics, .lifecycle, .pageWeek, .patrol, .publish]

def parallelComputeStages : List Stage := [.metrics, .lifecycle, .pageWeek, .patrol]

def prerequisites : Stage → List Stage
  | .ingest => []
  | .metrics => [.ingest]
  | .lifecycle => [.ingest]
  | .pageWeek => [.ingest]
  | .patrol => [.ingest]
  | .publish => [.metrics, .lifecycle, .pageWeek, .patrol]

inductive Status
  | pending | running | succeeded | failed
  deriving DecidableEq

structure PreviousFailure where
  runId : Option String
  failedAt : Option ℤ
  error : Option String
  deriving DecidableEq

/-- What the document says of a stage. -/
structure Entry where
  status : Status := .pending
  runId : Option String := none
  startedAt : Option ℤ := none
  heartbeatAt : Option ℤ := none
  completedAt : Option ℤ := none
  failedAt : Option ℤ := none
  error : Option String := none
  previousFailure : Option PreviousFailure := none
  deriving DecidableEq

structure PipelineState where
  schemaVersion : ℕ
  pipelineId : String
  snapshot : String
  wikis : List String
  state : Status
  currentStage : Option Stage
  activeStages : Option (List Stage)
  stages : Stage → Entry
  createdAt : ℤ
  updatedAt : ℤ

def schemaVersion : ℕ := 1

def blankStages : Stage → Entry := fun _ => {}

/-- `[...new Set(list)]`: each element where it first occurs. -/
def distinct : List Stage → List Stage
  | [] => []
  | stage :: rest => stage :: (distinct rest).filter (· ≠ stage)

def activeStages (state : PipelineState) : List Stage :=
  match state.activeStages with
  | some active => distinct active
  | none => state.currentStage.toList

def setActiveStages (state : PipelineState) (stages : List Stage) : PipelineState :=
  { state with
    activeStages := some (distinct stages)
    currentStage := (distinct stages).head? }

def setStage (state : PipelineState) (stage : Stage) (entry : Entry) : PipelineState :=
  { state with stages := Function.update state.stages stage entry }

def anyFailed (state : PipelineState) : Bool :=
  allStages.any fun stage => (state.stages stage).status = .failed

def joined (stages : List Stage) : String := String.intercalate ", " (stages.map Stage.name)

/-! ## Checks -/

/-- `fail(message)` where the condition holds. -/
def failIf (condition : Bool) (message : String) : Except String Unit :=
  if condition then .error message else .ok ()

def required (value : Option String) (name : String) : Except String String :=
  match value with
  | none => .error ("missing --" ++ name)
  | some text => if text = "" then .error ("missing --" ++ name) else .ok text

def validStage (stage : String) : Except String Stage :=
  context (allStages.find? fun known => known.name = stage)
    ("unknown pipeline stage " ++ stage.quote)

def validSnapshot (snapshot : String) : Except String Unit :=
  match snapshot.toList with
  | [y, z, u, v, dash, m, n] =>
    failIf (!([y, z, u, v, m, n].all Char.isDigit && dash == '-'))
      ("invalid pipeline snapshot " ++ snapshot.quote)
  | _ => .error ("invalid pipeline snapshot " ++ snapshot.quote)

/-- What `JSON.parse` makes of `--wikis-json`; an item that is no string is `none`. -/
inductive WikisJson
  | invalid (message : String)
  | notArray
  | array (items : List (Option String))

/-- The code units a JavaScript string is made of. -/
def utf16 (text : String) : List ℕ :=
  text.toList.flatMap fun c =>
    if c.toNat < 0x10000 then [c.toNat]
    else [0xD800 + (c.toNat - 0x10000) / 0x400, 0xDC00 + (c.toNat - 0x10000) % 0x400]

/-- `text.slice(0, length)`, less half a surrogate pair at the cut. -/
def slice (text : String) (length : ℕ) : String :=
  String.ofList ((text.toList.foldl (fun (taken, units) c =>
    let units := units + if c.toNat < 0x10000 then 1 else 2
    (if units ≤ length then taken ++ [c] else taken, units)) (([] : List Char), 0)).1)

/-- `[...list].sort()`. -/
def jsSort (list : List String) : List String := list.insertionSort fun a b => utf16 a ≤ utf16 b

def parseWikis (value : Option WikisJson) : Except String (List String) :=
  match value with
  | none => .error "missing --wikis-json"
  | some (.invalid message) => .error ("invalid --wikis-json: " ++ message)
  | some .notArray => .error "--wikis-json must be a non-empty JSON string array"
  | some (.array items) => do
    failIf (items.isEmpty || items.any fun item => item.getD "" = "")
      "--wikis-json must be a non-empty JSON string array"
    return jsSort (items.filterMap id)

/-- `readState`, from what the file holds. -/
def readState (file : Option PipelineState) : Except String (Option PipelineState) :=
  match file with
  | none => .ok none
  | some state => do
    failIf (state.schemaVersion ≠ schemaVersion || state.pipelineId = "" || state.snapshot = "")
      "pipeline state is not schema 1"
    validSnapshot state.snapshot
    return some (setActiveStages state (activeStages state))

/-! ## Capacity -/

/-- `config/toolforge-capacity.json`; a field that is no number is `none`. -/
structure CapacityPolicy where
  workerReserveResourceClasses : Option (List String)
  resourceRequests : String → Option ℤ
  resourceCpuRequestsMillicores : String → Option ℤ
  namespaceMemoryLimitBytes : Option ℤ
  residentServiceMemoryBytes : Option ℤ
  namespaceCpuLimitMillicores : Option ℤ
  residentServiceCpuMillicores : Option ℤ

def isSafeInteger (n : ℤ) : Bool := -(2 ^ 53 - 1) ≤ n && n ≤ 2 ^ 53 - 1

/-- The sum of what the reserve classes request. -/
def reserved (classes : List String) (requests : String → Option ℤ) (what : String) :
    Except String ℤ :=
  classes.foldlM (fun total name => do
    let value ← context (requests name) ("invalid " ++ what ++ " reserve for " ++ name)
    failIf (!(isSafeInteger value && 0 ≤ value)) ("invalid " ++ what ++ " reserve for " ++ name)
    return total + value) 0

def parallelStageCapacity (capacity : CapacityPolicy) : Except String ℕ := do
  let reserveClasses ← context capacity.workerReserveResourceClasses
    "Toolforge capacity policy has no worker reserve classes"
  let reservedMemory ← reserved reserveClasses capacity.resourceRequests "memory"
  let reservedCpu ← reserved reserveClasses capacity.resourceCpuRequestsMillicores "CPU"
  let bounds ← context (do
    let memoryLimit ← capacity.namespaceMemoryLimitBytes
    let residentMemory ← capacity.residentServiceMemoryBytes
    let cpuLimit ← capacity.namespaceCpuLimitMillicores
    let residentCpu ← capacity.residentServiceCpuMillicores
    let perJobMemory ← capacity.resourceRequests "pipeline"
    let perJobCpu ← capacity.resourceCpuRequestsMillicores "pipeline"
    let availableMemory := memoryLimit - residentMemory - reservedMemory
    let availableCpu := cpuLimit - residentCpu - reservedCpu
    if [availableMemory, availableCpu, perJobMemory, perJobCpu].all fun n =>
      isSafeInteger n && 0 < n
    then some (availableMemory / perJobMemory, availableCpu / perJobCpu)
    else none) "Toolforge capacity policy cannot admit a compute stage"
  let limit := min (parallelComputeStages.length : ℤ) (min bounds.1 bounds.2)
  failIf (limit < 1) "Toolforge capacity reserves leave no room for a pipeline compute stage"
  return limit.toNat

/-! ## Commands -/

/-- A reading of the clock. -/
inductive Reading
  | staleCheck (stage : Stage)
  | recoveredStage (stage : Stage)
  | recovered
  | created
  | updated
  | entered

/-- The arguments of a command and the clock while it runs. -/
structure Args where
  stage : Option String := none
  runId : Option String := none
  wikisJson : Option WikisJson := none
  snapshot : Option String := none
  /-- `Number(args["stale-after-secs"] || 0)`, if finite. -/
  staleAfterSecs : Option ℚ := some 0
  error : Option String := none
  clock : Reading → ℤ := fun _ => 0

/-- What a command prints. -/
structure Answer where
  stage : Stage
  pipelineId : Option String := none
  snapshot : Option String := none
  active : Option Bool := none
  state : Option Status := none
  deriving DecidableEq

/-- Whether a stage has been silent for longer than allowed. -/
def isStale (args : Args) (staleAfterSecs : ℚ) (stage : Stage) (entry : Entry) : Bool :=
  match entry.heartbeatAt <|> entry.startedAt with
  | none => false
  | some started => staleAfterSecs * 1000 < (args.clock (.staleCheck stage) - started : ℤ)

def revoked (args : Args) (staleAfterSecs : ℚ) (stage : Stage) (entry : Entry) : Entry :=
  { entry with
    status := .failed
    failedAt := some (args.clock (.recoveredStage stage))
    error := some ("stage lease expired after " ++ toString ⌊staleAfterSecs⌋ ++ " seconds") }

/-- One turn of the loop: the stage is kept, or its lease is revoked. -/
def recoverStage (args : Args) (staleAfterSecs : ℚ) (found : PipelineState × List Stage)
    (stage : Stage) : PipelineState × List Stage :=
  let entry := found.1.stages stage
  if isStale args staleAfterSecs stage entry then
    (setStage found.1 stage (revoked args staleAfterSecs stage entry), found.2)
  else (found.1, found.2 ++ [stage])

/-- `recoverStaleStages`; nothing where no stage is stale. -/
def recoverStaleStages (args : Args) (state : PipelineState) : Option PipelineState :=
  match args.staleAfterSecs with
  | none => none
  | some staleAfterSecs =>
    if staleAfterSecs ≤ 0 then none
    else
      let active := activeStages state
      if active.any fun stage => isStale args staleAfterSecs stage (state.stages stage) then
        let (state, remaining) := active.foldl (recoverStage args staleAfterSecs) (state, [])
        some { setActiveStages state remaining with
          state := if remaining.isEmpty then .failed else .running
          updatedAt := args.clock .recovered }
      else none

abbrev Command := Fallible String (Option PipelineState)

def writeState (state : PipelineState) : Command Unit := update fun _ => some state

/-- What is recovered is written even where `begin` is then refused. -/
def recover (args : Args) (state : PipelineState) : Command PipelineState :=
  match recoverStaleStages args state with
  | none => return state
  | some recovered => do
    writeState recovered
    return recovered

/-- The guards of ingest, and the document it resets. -/
def beginIngest (runId : String) (suppliedSnapshot : Option String) (state : PipelineState) :
    Except String PipelineState := do
  let active := activeStages state
  failIf (!active.isEmpty)
    ("pipeline stages " ++ joined active ++ " are already running; refusing ingest reset")
  let snapshot ← context suppliedSnapshot "retrying ingest requires --snapshot"
  return { state with
    pipelineId := runId
    snapshot := snapshot
    stages := blankStages }

/-- The guards of the other stages. -/
def beginLater (capacity : CapacityPolicy) (stage : Stage) (suppliedSnapshot : Option String)
    (state : PipelineState) : Except String Unit := do
  failIf (suppliedSnapshot.any (· ≠ state.snapshot))
    ("pipeline snapshot does not match state: expected " ++ state.snapshot ++ ", got "
      ++ suppliedSnapshot.getD "")
  let active := activeStages state
  failIf (active.contains stage)
    ("pipeline stage " ++ stage.name ++ " is already running; refusing duplicate work")
  (prerequisites stage).forM fun prerequisite =>
    failIf ((state.stages prerequisite).status ≠ .succeeded)
      ("pipeline stage " ++ stage.name ++ " requires completed " ++ prerequisite.name)
  failIf (stage = .publish && !active.isEmpty)
    ("publish requires all compute stages to stop; still running: " ++ joined active)
  if parallelComputeStages.contains stage then do
    failIf (active.any fun activeStage => !parallelComputeStages.contains activeStage)
      ("pipeline stage " ++ stage.name ++ " cannot overlap " ++ joined active)
    failIf (!active.isEmpty && anyFailed state)
      "pipeline has a failed compute stage; wait for active stages to finish before retrying"
    let limit ← parallelStageCapacity capacity
    failIf (limit ≤ active.length)
      ("pipeline compute-stage concurrency limit " ++ toString limit ++ " is full: " ++
        joined active)
  else
    failIf (!active.isEmpty) ("pipeline stage " ++ stage.name ++ " cannot overlap " ++
      joined active)

/-- The end of `begin`: the stage is running. -/
def started (args : Args) (stage : Stage) (runId : String) (state : PipelineState) :
    PipelineState :=
  let previousStage := state.stages stage
  { setStage (setActiveStages state (activeStages state ++ [stage])) stage {
      status := .running
      runId := some runId
      startedAt := some (args.clock .entered)
      previousFailure := if previousStage.status = .failed then some {
          runId := previousStage.runId
          failedAt := previousStage.failedAt
          error := previousStage.error }
        else none } with
    updatedAt := args.clock .updated }

/-- An argument that is absent or empty. -/
def supplied (value : Option String) : Option String := value.filter (· ≠ "")

def begin (capacity : CapacityPolicy) (args : Args) : Command Answer := do
  let name ← lift (required args.stage "stage")
  let runId ← lift (required args.runId "run-id")
  let stage ← lift (validStage name)
  let wikis ← lift (parseWikis args.wikisJson)
  let suppliedSnapshot := supplied args.snapshot
  lift (suppliedSnapshot.forM validSnapshot)
  let state ← lift (readState (← read))
  let state ← (match state with
    | none => lift (do
      failIf (stage ≠ .ingest) "the ingest stage must create pipeline state with --snapshot first"
      let snapshot ← context suppliedSnapshot
        "the ingest stage must create pipeline state with --snapshot first"
      return {
        schemaVersion := schemaVersion
        pipelineId := runId
        snapshot := snapshot
        wikis := wikis
        state := .running
        currentStage := some stage
        activeStages := some [stage]
        stages := blankStages
        createdAt := args.clock .created
        updatedAt := args.clock .created })
    | some state => do
      lift (failIf (jsSort state.wikis ≠ wikis)
        ("pipeline wiki set does not match state: expected " ++ String.intercalate "," state.wikis
          ++ ", got " ++ String.intercalate "," wikis))
      let state ← recover args state
      let state ← lift (if stage = .ingest then beginIngest runId suppliedSnapshot state
        else do
          beginLater capacity stage suppliedSnapshot state
          return state)
      return { state with state := .running, updatedAt := args.clock .updated })
  let state := started args stage runId state
  writeState state
  return { stage := stage, pipelineId := some state.pipelineId, snapshot := some state.snapshot }

/-- Whether the stage is running under this run id. -/
def owns (state : PipelineState) (stage : Stage) (runId : String) : Bool :=
  (activeStages state).contains stage && (state.stages stage).status = .running
    && (state.stages stage).runId = some runId

def heartbeat (args : Args) : Command Answer := do
  let name ← lift (required args.stage "stage")
  let runId ← lift (required args.runId "run-id")
  let stage ← lift (validStage name)
  match ← lift (readState (← read)) with
  | none =>
    if stage = .ingest then return { stage := stage, active := some false }
    else lift (.error "pipeline state does not exist")
  | some state =>
    let entry := state.stages stage
    lift (failIf (entry.runId = some runId && entry.status = .failed)
      ("cannot heartbeat " ++ stage.name ++ ": its pipeline lease was revoked"))
    if entry.runId = some runId ∧ entry.status = .succeeded then
      return { stage := stage, active := some false }
    else if owns state stage runId then do
      let state := { setStage state stage { entry with
          heartbeatAt := some (args.clock .entered) } with
        updatedAt := args.clock .updated }
      writeState state
      return { stage := stage, pipelineId := some state.pipelineId, active := some true }
    else if stage = .ingest ∧ ¬ (activeStages state).contains stage then
      return { stage := stage, active := some false }
    else lift (.error ("cannot heartbeat " ++ stage.name ++ ": it is not owned by " ++ runId))

/-- The end of a stage: the new entry, and one stage fewer running. -/
def ended (args : Args) (state : PipelineState) (stage : Stage) (entry : Entry)
    (whenDrained : PipelineState → Status) : PipelineState :=
  let state := setStage state stage entry
  let active := (activeStages state).filter (· ≠ stage)
  { setActiveStages state active with
    state := if active.isEmpty then whenDrained state else .running
    updatedAt := args.clock .updated }

/-- The checks of `complete` and `fail`: the stage, run id and document of a stage
that is running under this run id. -/
def ownedStage (args : Args) (verb : String) : Command (Stage × PipelineState) := do
  let name ← lift (required args.stage "stage")
  let runId ← lift (required args.runId "run-id")
  let stage ← lift (validStage name)
  let state ← lift (readState (← read))
  let state ← lift (context state "pipeline state does not exist")
  lift (failIf (!owns state stage runId)
    ("cannot " ++ verb ++ " " ++ stage.name ++ ": it is not owned by " ++ runId))
  return (stage, state)

def complete (args : Args) : Command Answer := do
  let (stage, state) ← ownedStage args "complete"
  let state := ended args state stage { state.stages stage with
      status := .succeeded
      completedAt := some (args.clock .entered) }
    fun state => if stage = .publish then .succeeded else if anyFailed state then .failed
      else .running
  writeState state
  return { stage := stage, pipelineId := some state.pipelineId, snapshot := some state.snapshot
           state := some state.state }

def failStage (args : Args) : Command Answer := do
  let (stage, state) ← ownedStage args "fail"
  let message := (supplied args.error).getD "stage failed"
  let state := ended args state stage { state.stages stage with
      status := .failed
      failedAt := some (args.clock .entered)
      error := some (slice message 2000) }
    fun _ => .failed
  writeState state
  return { stage := stage, pipelineId := some state.pipelineId, snapshot := some state.snapshot
           state := some state.state }

inductive CommandName
  | begin | heartbeat | complete | fail

def main (capacity : CapacityPolicy) (command : CommandName) (args : Args) : Command Answer :=
  match command with
  | .begin => begin capacity args
  | .heartbeat => heartbeat args
  | .complete => complete args
  | .fail => failStage args

end WikiEcon.Toolforge.Pipeline
