import WikiEcon.Lib.StaleLock
import WikiEcon.Toolforge.Pipeline

/-!
# The lock of the pipeline's document

`withStateLock` call by call. A process makes the lock directory, writes its token to
`owner.json` in it, runs its command and removes the directory if the token in it is
still its own. A process that finds the directory there looks at its age, and moves a
stale one away under a name of its own before it tries again.

The shared state is the lock directory, the document and the clock. A process may be
killed between two calls, and a call may fail. `maker` is who made the directory; the
program does not know it. A token is the number of its process.
-/

namespace WikiEcon.Toolforge.Pipeline

open Fallible

def stateLockStaleMs : ℕ := 120000
def stateLockWaitMs : ℕ := 30000

/-! ## What a command writes -/

/-- What `begin` has written before it is refused or goes on: the document without the
stages that went silent. -/
def recoveredBy (args : Args) (document : Option PipelineState) :
    Except String (Option PipelineState) := do
  let name ← required args.stage "stage"
  let _ ← required args.runId "run-id"
  let _ ← validStage name
  let wikis ← parseWikis args.wikisJson
  (supplied args.snapshot).forM validSnapshot
  let state ← readState document
  match state with
  | none => return none
  | some state => do
    failIf (jsSort state.wikis ≠ wikis)
      ("pipeline wiki set does not match state: expected " ++ String.intercalate "," state.wikis
        ++ ", got " ++ String.intercalate "," wikis)
    return recoverStaleStages args state

/-- What a command writes before the document it ends with. -/
def recoveredFirst (command : CommandName) (args : Args) (document : Option PipelineState) :
    List PipelineState :=
  match command with
  | .begin => match recoveredBy args document with
    | .ok (some recovered) => [recovered]
    | _ => []
  | _ => []

/-- Whether a command that was not refused has written: a heartbeat of a stage that is
not running does not. -/
def wrote (answer : Answer) : Bool := answer.active ≠ some false

/-- The documents a command writes, one after the other, when it reads this one. -/
def writes (capacity : CapacityPolicy) (command : CommandName) (args : Args)
    (document : Option PipelineState) : List PipelineState :=
  let last := match (main capacity command args).exec document with
    | (.ok answer, state) => if wrote answer then state.toList else []
    | (.error _, _) => []
  recoveredFirst command args document ++ last

/-- What a command answers when it reads this document. -/
def answers (capacity : CapacityPolicy) (command : CommandName) (args : Args)
    (document : Option PipelineState) : Except String Answer :=
  ((main capacity command args).exec document).1

/-! ## Calls -/

structure LockDir where
  maker : ℕ
  mtime : ℕ
  owner : Option ℕ

structure Disk where
  now : ℕ
  lock : Option LockDir
  document : Option PipelineState

/-- Where a process is: the call it makes next, and what it knows. `since` is when it
made the lock directory. -/
inductive Phase
  /-- `mkdirSync(lock)` -/
  | create
  /-- `writeFileSync(owner.json)` -/
  | own (since : ℕ)
  /-- `rmSync(lock)` where `owner.json` could not be written -/
  | undo (since : ℕ)
  /-- `statSync(lock)` -/
  | look
  /-- `Date.now() - lockStat.mtimeMs > STATE_LOCK_STALE_MS` -/
  | judge (mtime : ℕ)
  /-- `renameSync(lock, stale)` -/
  | steal
  /-- `rmSync(stale)` -/
  | clear
  /-- `Date.now() >= deadline`, and `Atomics.wait` -/
  | pause
  /-- `readFileSync(file)` -/
  | load (since : ℕ)
  /-- `writeFileSync(temporary)`, of a document computed from `base` -/
  | write (since : ℕ) (base : Option PipelineState) (document : PipelineState)
      (rest : List PipelineState) (result : Except String Answer)
  /-- `renameSync(temporary, file)` -/
  | replace (since : ℕ) (base : Option PipelineState) (document : PipelineState)
      (rest : List PipelineState) (result : Except String Answer)
  /-- `readFileSync(owner.json)` -/
  | readOwner (since : ℕ) (result : Except String Answer)
  /-- `rmSync(lock)` -/
  | release (since : ℕ) (result : Except String Answer)
  | ended (result : Except String Answer)
  | killed

/-- Since when the process is between acquisition and release. -/
def Phase.since : Phase → Option ℕ
  | .own since => some since
  | .undo since => some since
  | .load since => some since
  | .write since .. => some since
  | .replace since .. => some since
  | .readOwner since _ => some since
  | .release since _ => some since
  | _ => none

structure Process where
  command : CommandName
  args : Args
  deadline : ℕ
  phase : Phase

/-- The documents that are still to be written, and then the end of the command. -/
def operating (since : ℕ) (base : Option PipelineState) (todo : List PipelineState)
    (result : Except String Answer) : Phase :=
  match todo with
  | [] => .readOwner since result
  | document :: rest => .write since base document rest result

/-- The next call of process `i`. -/
def Process.call (capacity : CapacityPolicy) (i : ℕ) (p : Process) (disk : Disk) :
    Option (Disk × Phase) :=
  match p.phase with
  | .create =>
    match disk.lock with
    | none => some ({ disk with lock := some ⟨i, disk.now, none⟩ }, .own disk.now)
    | some _ => some (disk, .look)
  | .own since =>
    match disk.lock with
    | none => some (disk, .undo since)
    | some lock =>
      -- a new entry changes the directory, new content of an old one does not
      let mtime := if lock.owner.isNone then disk.now else lock.mtime
      some ({ disk with lock := some ⟨lock.maker, mtime, some i⟩ }, .load since)
  | .undo _ => some ({ disk with lock := none }, .ended (.error "cannot write owner.json"))
  | .look =>
    match disk.lock with
    | none => some (disk, .create)
    | some lock => some (disk, .judge lock.mtime)
  | .judge mtime => some (disk, if stateLockStaleMs < disk.now - mtime then .steal else .pause)
  | .steal =>
    match disk.lock with
    | none => some (disk, .pause)
    | some _ => some ({ disk with lock := none }, .clear)
  | .clear => some (disk, .create)
  | .pause =>
    some (disk, if p.deadline ≤ disk.now then .ended
      (.error "timed out acquiring pipeline state lock")
      else .create)
  | .load since =>
    some (disk, operating since disk.document (writes capacity p.command p.args disk.document)
      (answers capacity p.command p.args disk.document))
  | .write since base document rest result => some (disk, .replace since base document rest result)
  | .replace since _ document rest result =>
    some ({ disk with document := some document }, operating since (some document) rest result)
  | .readOwner since result =>
    match disk.lock with
    | none => some (disk, .ended result)
    | some lock => some (disk, if lock.owner = some i then .release since result else .ended result)
  | .release _ result => some ({ disk with lock := none }, .ended result)
  | .ended _ => none
  | .killed => none

/-- Where a process goes when its call fails for another reason than that the lock is
there, or is not. -/
def Phase.fault : Phase → Option Phase
  | .create => some (.ended (.error "cannot create the lock"))
  | .own since => some (.undo since)
  | .undo _ => some (.ended (.error "cannot remove the lock"))
  | .look => some (.ended (.error "cannot stat the lock"))
  | .judge _ => none
  | .steal => some .pause
  | .clear => some .pause
  | .pause => none
  | .load since => some (.readOwner since (.error "invalid pipeline state"))
  | .write since .. => some (.readOwner since (.error "cannot write the state"))
  | .replace since .. => some (.readOwner since (.error "cannot replace the state"))
  | .readOwner _ result => some (.ended result)
  | .release _ result => some (.ended result)
  | .ended _ => none
  | .killed => none

/-! ## Processes side by side -/

structure Shared where
  disk : Disk
  processes : List Process

inductive Event
  | start (command : CommandName) (args : Args)
  | advance (process : ℕ)
  | fault (process : ℕ)
  | kill (process : ℕ)
  | tick (ms : ℕ)

def Shared.enter (s : Shared) (i : ℕ) (p : Process) (disk : Disk) (phase : Phase) : Shared where
  disk := disk
  processes := s.processes.set i { p with phase := phase }

def Shared.step (capacity : CapacityPolicy) (s : Shared) : Event → Option Shared
  | .start command args => some { s with
      processes := s.processes ++ [⟨command, args, s.disk.now + stateLockWaitMs, .create⟩] }
  | .advance i => do
    let p ← s.processes[i]?
    let (disk, phase) ← p.call capacity i s.disk
    return s.enter i p disk phase
  | .fault i => do
    let p ← s.processes[i]?
    let phase ← p.phase.fault
    return s.enter i p s.disk phase
  | .kill i => do
    let p ← s.processes[i]?
    return s.enter i p s.disk .killed
  | .tick ms => some { s with disk := { s.disk with now := s.disk.now + ms } }

/-- Since when process `i` is between acquisition and release, if it is. -/
def Shared.holding (s : Shared) (i : ℕ) : Option ℕ := s.processes[i]?.bind fun p => p.phase.since

/-- Every holder that is not killed finishes in time. -/
def Shared.prompt (s : Shared) : Bool :=
  s.processes.all fun p => p.phase.since.all fun since => s.disk.now ≤ since + stateLockStaleMs

/-- A step of a run in which holders finish in time. -/
def Shared.next (capacity : CapacityPolicy) (s : Shared) (e : Event) : Option Shared :=
  (s.step capacity e).filter fun t => t.prompt

end WikiEcon.Toolforge.Pipeline
