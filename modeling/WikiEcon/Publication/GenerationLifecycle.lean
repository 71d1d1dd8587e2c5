import Mathlib.Data.List.Chain
import WikiEcon.Lib.Faults
import WikiEcon.Publication.Lineage

/-!
# The life of a candidate generation

`generation_lifecycle.rs`: every candidate has a record of the states it went through, read and
replaced as a whole. There is no lock, so several processes may hold the same record at once.

Each record is a life whoever wrote it (`generations_valid`); a process that works alone only
ever adds to one (`histories_grow`). Two that work side by side may drop what the other added,
which leaves a life all the same.

The temporary file of an atomic write is named after the process alone. Processes on two hosts
that have the same number would share it, which is left out.
-/

namespace WikiEcon.Publication.Lifecycle

open Programs Transition

/-! ## Records -/

def schemaVersion : ℕ := 1

structure StateTransition where
  state : GenerationState
  atUnix : ℕ
  reason : String
  publicationRunId : Option String
  deriving DecidableEq

structure GenerationRecord where
  schemaVersion : ℕ
  wiki : String
  snapshot : String
  runId : String
  candidateRelative : String
  state : GenerationState
  createdAtUnix : ℕ
  updatedAtUnix : ℕ
  history : List StateTransition
  deriving DecidableEq

/-- The wiki, the snapshot and the run, which `state_path` makes a path of. -/
structure Key where
  wiki : String
  snapshot : String
  runId : String
  deriving DecidableEq

def Key.candidateRelative (key : Key) : String :=
  "_candidates/" ++ key.wiki ++ "/" ++ key.snapshot ++ "/" ++ key.runId

def GenerationRecord.key (record : GenerationRecord) : Key :=
  ⟨record.wiki, record.snapshot, record.runId⟩

def statePath (key : Key) : Except String Unit := do
  ensure (validComponent key.wiki = true) "unsafe generation wiki"
  ensure (isSnapshotVersion key.snapshot = true) "invalid snapshot version"
  ensure (validComponent key.runId = true) "unsafe generation run ID"

/-- `Debug`. -/
def debugName : GenerationState → String
  | .building => "Building"
  | .validated => "Validated"
  | .ready => "Ready"
  | .published => "Published"
  | .superseded => "Superseded"
  | .retired => "Retired"

def transitionAllowed : GenerationState → GenerationState → Bool
  | .building, .validated => true
  | .validated, .ready => true
  | .ready, .published => true
  | .ready, .superseded => true
  | .published, .superseded => true
  | .superseded, .retired => true
  | .building, .retired => true
  | .validated, .retired => true
  | _, _ => false

def validateRecord (record : GenerationRecord) (key : Key) : Except String Unit := do
  ensure (record.schemaVersion = Lifecycle.schemaVersion)
    "unsupported candidate generation state schema"
  ensure (record.key = key) "candidate generation state identity mismatch"
  ensure (record.candidateRelative = key.candidateRelative) "candidate generation path mismatch"
  ensure (record.history.getLast?.map (·.state) = some record.state)
    "candidate generation history does not end at its current state"

/-! ## The store -/

structure Store where
  records : Key → Option GenerationRecord
  clock : ℕ

/-- `write` puts a record under its own key. -/
inductive Call
  | load (key : Key)
  | now
  | write (record : GenerationRecord)

def Call.Answer : Call → Type
  | .load _ => Option GenerationRecord
  | .now => ℕ
  | .write _ => Unit

def Store.perform (s : Store) : (c : Call) → Except String c.Answer × Store
  | .load key => (.ok (s.records key), s)
  | .now => (.ok s.clock, s)
  | .write record => (.ok (),
    { s with records := Function.update s.records record.key (some record) })

/-- Any call may fail. -/
abbrev performFaulty (s : Faulty Store) (c : Call) : Except String c.Answer × Faulty Store :=
  faulty (fun _ => true) Store.perform "I/O error" s c

abbrev Reply (c : Call) : Type := Except String c.Answer

abbrev Action (α : Type) : Type := Program String Call Reply α

def ask (c : Call) : Action c.Answer := Program.ask c >>= Program.check

/-! ## Operations -/

def load (key : Key) : Action (Option GenerationRecord) := do
  Program.check (statePath key)
  let found ← ask (.load key)
  match found with
  | none => return none
  | some record => do
    Program.check (validateRecord record key)
    return some record

def write (record : GenerationRecord) : Action Unit := do
  Program.check (statePath record.key)
  ask (.write record)

/-- A record that starts in a state. -/
def firstRecord (key : Key) (state : GenerationState) (reason : String) (now : ℕ) :
    GenerationRecord where
  schemaVersion := Lifecycle.schemaVersion
  wiki := key.wiki
  snapshot := key.snapshot
  runId := key.runId
  candidateRelative := key.candidateRelative
  state := state
  createdAtUnix := now
  updatedAtUnix := now
  history := [⟨state, now, reason, none⟩]

def create (key : Key) (state : GenerationState) (reason : String) : Action GenerationRecord := do
  let now ← ask .now
  write (firstRecord key state reason now)
  return firstRecord key state reason now

def begin (key : Key) : Action GenerationRecord := do
  let found ← load key
  match found with
  | some record => do
    Program.check (ensure (record.state = .building ∨ record.state = .validated)
      ("candidate generation already reached " ++ debugName record.state))
    return record
  | none => create key .building "candidate preparation started"

def adopt (key : Key) (state : GenerationState) (reason : String) : Action GenerationRecord := do
  let found ← load key
  match found with
  | some record => return record
  | none => create key state reason

/-- A record whose history goes on with these states. -/
def GenerationRecord.extend (record : GenerationRecord) (states : List GenerationState) (now : ℕ)
    (reason : String) (publicationRunId : Option String) : GenerationRecord :=
  { record with
    state := states.getLast?.getD record.state
    updatedAtUnix := now
    history := record.history ++ states.map fun state => ⟨state, now, reason, publicationRunId⟩ }

def extendTo (record : GenerationRecord) (states : List GenerationState) (reason : String)
    (publicationRunId : Option String) : Action GenerationRecord := do
  let now ← ask .now
  write (record.extend states now reason publicationRunId)
  return record.extend states now reason publicationRunId

/-- The record that an operation on a generation needs. -/
def loadExisting (key : Key) : Action GenerationRecord := do
  let found ← load key
  Program.check (context found ("candidate generation state is missing for "
    ++ key.wiki ++ "/" ++ key.snapshot ++ "/" ++ key.runId))

def transition (key : Key) (next : GenerationState) (reason : String)
    (publicationRunId : Option String) : Action GenerationRecord := do
  let record ← loadExisting key
  if record.state = next then return record
  else do
    Program.check (ensure (transitionAllowed record.state next = true)
      ("invalid candidate generation transition " ++ debugName record.state ++ " -> "
        ++ debugName next))
    extendTo record [next] reason publicationRunId

/-- Both transitions in one write. -/
def retireReady (key : Key) (reason : String) : Action GenerationRecord := do
  let record ← loadExisting key
  if record.state = .retired then return record
  else do
    Program.check (ensure (record.state = .ready)
      "only a ready candidate generation can be retired")
    extendTo record [.superseded, .retired] reason none

inductive Operation
  | begin (key : Key)
  | adopt (key : Key) (state : GenerationState) (reason : String)
  | transition (key : Key) (next : GenerationState) (reason : String)
      (publicationRunId : Option String)
  | retireReady (key : Key) (reason : String)

def Operation.program : Operation → Action GenerationRecord
  | .begin key => Lifecycle.begin key
  | .adopt key state reason => Lifecycle.adopt key state reason
  | .transition key next reason publicationRunId =>
    Lifecycle.transition key next reason publicationRunId
  | .retireReady key reason => Lifecycle.retireReady key reason

/-! ## Lives -/

/-- A record that passes its check and whose history goes along allowed transitions. -/
structure Valid (key : Key) (record : GenerationRecord) : Prop where
  checked : validateRecord record key = .ok ()
  path : record.history.IsChain fun a b => transitionAllowed a.state b.state = true

theorem validateRecord_eq_ok {record : GenerationRecord} {key : Key} :
    validateRecord record key = .ok () ↔ record.schemaVersion = Lifecycle.schemaVersion ∧
      record.key = key ∧ record.candidateRelative = key.candidateRelative ∧
      record.history.getLast?.map (·.state) = some record.state := by
  unfold validateRecord
  constructor
  · intro h
    obtain ⟨_, hschema, h⟩ := bind_eq_ok.mp h
    obtain ⟨_, hkey, h⟩ := bind_eq_ok.mp h
    obtain ⟨_, hpath, h⟩ := bind_eq_ok.mp h
    exact ⟨ensure_eq_ok.mp hschema, ensure_eq_ok.mp hkey, ensure_eq_ok.mp hpath, ensure_eq_ok.mp h⟩
  · rintro ⟨hschema, hkey, hpath, hlast⟩
    exact bind_eq_ok.mpr ⟨(), ensure_eq_ok.mpr hschema, bind_eq_ok.mpr ⟨(), ensure_eq_ok.mpr hkey,
      bind_eq_ok.mpr ⟨(), ensure_eq_ok.mpr hpath, ensure_eq_ok.mpr hlast⟩⟩⟩

theorem Valid.key_eq {key : Key} {record : GenerationRecord} (h : Valid key record) :
    record.key = key := (validateRecord_eq_ok.mp h.checked).2.1

theorem firstRecord_valid (key : Key) (state : GenerationState) (reason : String) (now : ℕ) :
    Valid key (firstRecord key state reason now) where
  checked := validateRecord_eq_ok.mpr ⟨rfl, rfl, rfl, rfl⟩
  path := List.isChain_singleton _

/-- A life goes on along allowed transitions. -/
theorem Valid.extend {key : Key} {record : GenerationRecord} (h : Valid key record)
    {states : List GenerationState}
    (hstates : (record.state :: states).IsChain fun a b => transitionAllowed a b = true)
    (now : ℕ) (reason : String) (publicationRunId : Option String) :
    Valid key (record.extend states now reason publicationRunId) := by
  obtain ⟨hschema, hkey, hpath, hlast⟩ := validateRecord_eq_ok.mp h.checked
  obtain ⟨last, hsome, hstate⟩ := Option.map_eq_some_iff.mp hlast
  refine ⟨validateRecord_eq_ok.mpr ⟨hschema, hkey, hpath, ?_⟩, ?_⟩
  · show (record.history ++ states.map _).getLast?.map _ = some (states.getLast?.getD record.state)
    rw [List.getLast?_append, List.getLast?_map]
    cases states.getLast? with
    | none => exact hlast
    | some state => rfl
  · show (record.history ++ states.map _).IsChain _
    rw [List.isChain_append]
    refine ⟨h.path, ?_, ?_⟩
    · rw [List.isChain_map]
      exact hstates.tail
    · intro a ha b hb
      obtain rfl := Option.some.inj (hsome.symm.trans ha)
      cases states with
      | nil => cases hb
      | cons next rest =>
        obtain rfl := Option.some.inj hb
        rw [hstate]
        exact (List.isChain_cons_cons.mp hstates).1

/-- How far a generation has come. -/
def rank : GenerationState → ℕ
  | .building => 0
  | .validated => 1
  | .ready => 2
  | .published => 3
  | .superseded => 4
  | .retired => 5

theorem rank_lt_of_transitionAllowed {a b : GenerationState} (h : transitionAllowed a b = true) :
    rank a < rank b := by
  revert h
  cases a <;> cases b <;> decide

/-- No state comes twice, and none comes back. -/
theorem Valid.ascending {key : Key} {record : GenerationRecord} (h : Valid key record) :
    record.history.Pairwise fun a b => rank a.state < rank b.state := by
  have hchain : record.history.IsChain fun a b => rank a.state < rank b.state :=
    h.path.imp fun a b hab => rank_lt_of_transitionAllowed hab
  have htrans : IsTrans StateTransition fun a b => rank a.state < rank b.state :=
    ⟨fun _ _ _ => lt_trans⟩
  exact List.isChain_iff_pairwise.mp hchain

/-- A generation is published by one publication at most. -/
theorem Valid.published_once {key : Key} {record : GenerationRecord} (h : Valid key record)
    {a b : StateTransition} (ha : a ∈ record.history) (hb : b ∈ record.history)
    (hsame : a.state = b.state) : a = b := by
  by_contra hne
  have hsymm : Std.Symm fun a b : StateTransition => rank a.state ≠ rank b.state :=
    ⟨fun _ _ => Ne.symm⟩
  have hranks : record.history.Pairwise fun a b => rank a.state ≠ rank b.state :=
    h.ascending.imp fun hlt => ne_of_lt hlt
  exact hranks.forall ha hb hne (congrArg rank hsame)

/-! ## Side by side -/

abbrev Learned : Type := List (Key × GenerationRecord)

/-- The records that were loaded. -/
def learn (learned : Learned) : (c : Call) → Reply c → Learned
  | .load key, .ok (some record) => (key, record) :: learned
  | _, _ => learned

def machine : Machine Operation Learned String Call Reply GenerationRecord (Faulty Store) where
  program := Operation.program
  fresh := []
  learn := learn
  perform := performFaulty

abbrev GenerationsState : Type :=
  Shared Operation Learned String Call Reply GenerationRecord (Faulty Store)

inductive Event
  | start (op : Operation)
  | advance (process : ℕ)
  | kill (process : ℕ)
  | clock (now : ℕ)

/-- Any number of processes, killed anywhere, and a clock that may be set. -/
def step (s : GenerationsState) : Event → Option GenerationsState
  | .start op => some (machine.start s op)
  | .advance i => machine.advance s i
  | .kill i => Machine.kill s i "killed"
  | .clock now => some { s with
    store := { s.store with store := { s.store.store with clock := now } } }

/-- Lives in, a life out. -/
def Allowed (learned : Learned) : Call → Prop
  | .write record => (∀ e ∈ learned, Valid e.1 e.2) → Valid record.key record
  | _ => True

abbrev Keeps {α : Type} (post : Learned → α → Prop) (learned : Learned) (action : Action α) :
    Prop :=
  action.Obeys learn Allowed (fun _ _ => True) post learned

theorem Keeps.check {α : Type} {learned : Learned} (x : Except String α) :
    Keeps (fun learned' a => learned' = learned ∧ x = .ok a) learned (Program.check x) := by
  cases x with
  | error message => trivial
  | ok a => exact ⟨rfl, rfl⟩

theorem Keeps.load {learned : Learned} (key : Key) :
    Keeps (fun learned' found => ∀ record, found = some record → (key, record) ∈ learned') learned
      (load key) := by
  refine (Keeps.check (statePath key)).bind fun k _ _ => ?_
  refine ⟨trivial, fun answer => ?_⟩
  cases answer with
  | error message => trivial
  | ok found =>
    cases found with
    | none => exact fun record h => by cases h
    | some record =>
      show Keeps _ ((key, record) :: k)
        (Program.check (validateRecord record key) >>= fun _ => Program.done (some record))
      cases validateRecord record key with
      | error message => trivial
      | ok u =>
        rintro _ ⟨⟩
        exact List.mem_cons_self

theorem Keeps.loadExisting {learned : Learned} (key : Key) :
    Keeps (fun learned' record => (key, record) ∈ learned') learned (loadExisting key) := by
  refine (Keeps.load key).bind fun k found hfound => ?_
  refine Program.Obeys.check (fun record h => ?_) fun _ _ => trivial
  exact hfound record (context_eq_ok.mp h)

/-- A write of what is a life if what was loaded is. -/
theorem Keeps.write {learned : Learned} {record : GenerationRecord}
    (hrecord : (∀ e ∈ learned, Valid e.1 e.2) → Valid record.key record) :
    Keeps (fun _ _ => True) learned (write record) := by
  unfold Lifecycle.write
  cases statePath record.key with
  | error message => trivial
  | ok u =>
    refine ⟨hrecord, fun answer => ?_⟩
    cases answer <;> trivial

theorem Keeps.create {learned : Learned} (key : Key) (state : GenerationState) (reason : String) :
    Keeps (fun _ _ => True) learned (create key state reason) := by
  refine ⟨trivial, fun answer => ?_⟩
  cases answer with
  | error message => trivial
  | ok now =>
    have hvalid : Valid (firstRecord key state reason now).key (firstRecord key state reason now) :=
      firstRecord_valid key state reason now
    exact (Keeps.write fun _ => hvalid).bind fun _ _ _ => trivial

theorem Keeps.extendTo {learned : Learned} {key : Key} {record : GenerationRecord}
    (hrecord : (key, record) ∈ learned) {states : List GenerationState}
    (hstates : (record.state :: states).IsChain fun a b => transitionAllowed a b = true)
    (reason : String) (publicationRunId : Option String) :
    Keeps (fun _ _ => True) learned (extendTo record states reason publicationRunId) := by
  refine ⟨trivial, fun answer => ?_⟩
  cases answer with
  | error message => trivial
  | ok now =>
    refine (Keeps.write fun hlearned => ?_).bind fun _ _ _ => trivial
    have hvalid := hlearned (key, record) hrecord
    have hkey : (record.extend states now reason publicationRunId).key = key := hvalid.key_eq
    rw [hkey]
    exact hvalid.extend hstates now reason publicationRunId

/-- Every operation writes lives only, as long as it reads lives. -/
theorem Operation.keeps (op : Operation) (learned : Learned) :
    Keeps (fun _ _ => True) learned op.program := by
  cases op with
  | begin key =>
    refine (Keeps.load key).bind fun k found _ => ?_
    cases found with
    | none => exact Keeps.create key _ _
    | some record =>
      exact (Keeps.check _).bind fun _ _ _ => trivial
  | adopt key state reason =>
    refine (Keeps.load key).bind fun k found _ => ?_
    cases found with
    | none => exact Keeps.create key _ _
    | some record => trivial
  | transition key next reason publicationRunId =>
    refine (Keeps.loadExisting key).bind fun k record hrecord => ?_
    show Keeps _ k (if record.state = next then pure record else _)
    split
    · trivial
    · refine (Keeps.check _).bind fun k' _ hk' => ?_
      obtain ⟨rfl, hallowed⟩ := hk'
      exact Keeps.extendTo hrecord (List.isChain_pair.mpr (ensure_eq_ok.mp hallowed)) reason
        publicationRunId
  | retireReady key reason =>
    refine (Keeps.loadExisting key).bind fun k record hrecord => ?_
    show Keeps _ k (if record.state = .retired then pure record else _)
    split
    · trivial
    · refine (Keeps.check _).bind fun k' _ hk' => ?_
      obtain ⟨rfl, hready⟩ := hk'
      refine Keeps.extendTo hrecord ?_ reason none
      rw [ensure_eq_ok.mp hready]
      decide

/-- Lives in the store, and processes that keep them. -/
structure Sound (s : GenerationsState) : Prop where
  records : ∀ key record, s.store.store.records key = some record → Valid key record
  processes : ∀ p ∈ s.processes, (∀ e ∈ p.knowledge, Valid e.1 e.2) ∧
    Keeps (fun _ _ => True) p.knowledge p.rest

/-- What a call does to the records. -/
theorem perform_records (s : Store) (c : Call) :
    (s.perform c).2.records = s.records ∨ ∃ record, c = .write record ∧
      (s.perform c).2.records = Function.update s.records record.key (some record) := by
  cases c with
  | load key => exact Or.inl rfl
  | now => exact Or.inl rfl
  | write record => exact Or.inr ⟨record, rfl, rfl⟩

/-- The same with faults. -/
theorem faulty_records (s : Faulty Store) (c : Call) :
    (machine.perform s c).2.store.records = s.store.records ∨ ∃ record, c = .write record ∧
      (machine.perform s c).2.store.records
        = Function.update s.store.records record.key (some record) := by
  rcases faulty_cases (fun _ => true) Store.perform "I/O error" s c with
    ⟨-, hstore⟩ | ⟨-, hstore | hstore⟩
  · exact hstore ▸ perform_records s.store c
  · exact Or.inl (congrArg Store.records hstore)
  · exact hstore ▸ perform_records s.store c

/-- What is learned is what the store holds. -/
theorem learn_valid {s : GenerationsState} (hs : Sound s) {learned : Learned}
    (hlearned : ∀ e ∈ learned, Valid e.1 e.2) (c : Call) :
    ∀ e ∈ learn learned c (machine.perform s.store c).1, Valid e.1 e.2 := by
  cases c with
  | load key =>
    cases hanswer : (machine.perform s.store (.load key)).1 with
    | error message => exact hlearned
    | ok found =>
      cases found with
      | none => exact hlearned
      | some record =>
        have hrecord : s.store.store.records key = some record :=
          Except.ok.inj (faulty_eq_ok hanswer).1
        exact List.forall_mem_cons.mpr ⟨hs.records key record hrecord, hlearned⟩
  | now => exact hlearned
  | write record => exact hlearned

theorem Sound.advance {s t : GenerationsState} (hs : Sound s) {i : ℕ}
    (h : machine.advance s i = some t) : Sound t := by
  obtain ⟨op, k, c, rest, hi, rfl⟩ := Machine.advance_eq_some.mp h
  obtain ⟨hknown, hallowed, hrest⟩ := hs.processes _ (List.mem_of_getElem? hi)
  refine ⟨fun key record hrecord => ?_, fun p hp => ?_⟩
  · rcases faulty_records s.store c with hsame | ⟨written, rfl, hnew⟩
    · rw [hsame] at hrecord
      exact hs.records key record hrecord
    · rw [hnew] at hrecord
      by_cases hkey : key = written.key
      · rw [hkey, Function.update_self] at hrecord
        obtain rfl := Option.some.inj hrecord
        rw [hkey]
        exact hallowed hknown
      · rw [Function.update_of_ne hkey] at hrecord
        exact hs.records key record hrecord
  · rcases List.mem_or_eq_of_mem_set hp with hp | rfl
    · exact hs.processes p hp
    · exact ⟨learn_valid hs hknown c, hrest _⟩

theorem Sound.step {s t : GenerationsState} (hs : Sound s) {event : Event}
    (h : step s event = some t) : Sound t := by
  cases event with
  | start op =>
    obtain rfl := Option.some.inj h
    refine ⟨hs.records, Machine.forall_start hs.processes ⟨fun e he => ?_, op.keeps []⟩⟩
    cases he
  | advance i => exact hs.advance h
  | kill i =>
    obtain ⟨op, k, c, rest, hi, rfl⟩ := Machine.kill_eq_some.mp h
    refine ⟨hs.records, fun p hp => ?_⟩
    rcases List.mem_or_eq_of_mem_set hp with hp | rfl
    · exact hs.processes p hp
    · exact ⟨(hs.processes _ (List.mem_of_getElem? hi)).1, trivial⟩
  | clock now =>
    obtain rfl := Option.some.inj h
    exact ⟨hs.records, hs.processes⟩

def generations : System GenerationsState Event where
  init s := s.processes = []
  step s event t := step s event = some t

/-- **Every record is a life.** Whatever processes begin, adopt, move and retire generations side
by side, killed anywhere and with calls that fail, each record they leave passes its check, its
history goes along allowed transitions and never through a state twice, so that it was published
by one publication at most. -/
theorem generations_valid {s t : GenerationsState} {events : List Event}
    (hrun : events.foldlM step s = some t) (hidle : s.processes = [])
    (hrecords : ∀ key record, s.store.store.records key = some record → Valid key record)
    (key : Key) (record : GenerationRecord) (h : t.store.store.records key = some record) :
    Valid key record ∧
      (record.history.Pairwise fun a b => rank a.state < rank b.state) ∧
      ∀ a ∈ record.history, ∀ b ∈ record.history, a.state = .published → b.state = .published →
        a.publicationRunId = b.publicationRunId := by
  have hsound : Sound s := ⟨hrecords, fun p hp => by rw [hidle] at hp; cases hp⟩
  have hrun' : generations.Run s events t := System.run_of_foldlM (fun _ _ _ h => h) hrun
  have hkept : Sound t := hrun'.preserves (fun _ _ _ hs h => hs.step h) hsound
  have hvalid := hkept.records key record h
  refine ⟨hvalid, hvalid.ascending, fun a ha b hb hpa hpb => ?_⟩
  rw [hvalid.published_once ha hb (hpa.trans hpb.symm)]

def augustKey : Key := ⟨"nlwiki", "2026-08", "run-1"⟩

/-- Nothing yet. -/
def noGenerations : GenerationsState := ⟨⟨⟨fun _ => none, 1785542400⟩, []⟩, []⟩

/-- Two processes validate a generation at once, both from the same record. -/
def validatedTwice : List Event :=
  [.start (.begin augustKey), .advance 0, .advance 0, .advance 0,
    .start (.transition augustKey .validated "first" none),
    .start (.transition augustKey .validated "second" none),
    .advance 1, .advance 2, .clock 1785542460, .advance 1, .advance 2, .advance 1, .advance 2]

/-- The second write replaces the first. -/
theorem generations_valid_validatedTwice :
    ∃ t record, validatedTwice.foldlM step noGenerations = some t ∧
      t.store.store.records augustKey = some record ∧ Valid augustKey record ∧
      record.history.map (·.reason) = ["candidate preparation started", "second"] := by
  have hrun : (validatedTwice.foldlM step noGenerations).any (fun t =>
      (t.store.store.records augustKey).any fun record =>
        record.history.map (·.reason) = ["candidate preparation started", "second"]) = true := by
    decide +kernel
  obtain ⟨t, ht, hrecord⟩ := (Option.any_eq_true _ _).mp hrun
  obtain ⟨record, hrecord, hreasons⟩ := (Option.any_eq_true _ _).mp hrecord
  exact ⟨t, record, ht, hrecord,
    (generations_valid ht rfl (fun key record h => by cases h) augustKey record hrecord).1,
    of_decide_eq_true hreasons⟩

/-! ## One after another -/

/-- An operation that is cut off after some calls, some of which fail, at some time. -/
structure Attempt where
  op : Operation
  calls : ℕ
  faults : List Fault
  now : ℕ

def attempt (s : Store) (a : Attempt) : Store :=
  (a.op.program.steps performFaulty a.calls
    ⟨{ s with clock := a.now }, a.faults⟩).2.store

/-- The later record goes on where the earlier one ends. -/
structure Continues (earlier later : GenerationRecord) : Prop where
  key : later.key = earlier.key
  created : later.createdAtUnix = earlier.createdAtUnix
  history : earlier.history <+: later.history

def Grows (s t : Store) : Prop :=
  ∀ key record, s.records key = some record →
    ∃ record', t.records key = some record' ∧ Continues record record'

theorem Grows.of_eq {s t : Store} (h : t.records = s.records) : Grows s t :=
  fun key record hrecord => ⟨record, by rw [h, hrecord], rfl, rfl, List.prefix_rfl⟩

theorem Grows.trans {s t u : Store} (hst : Grows s t) (htu : Grows t u) : Grows s u := by
  intro key record hrecord
  obtain ⟨record', hrecord', hkey, hcreated, hhistory⟩ := hst key record hrecord
  obtain ⟨record'', hrecord'', hkey', hcreated', hhistory'⟩ := htu key record' hrecord'
  exact ⟨record'', hrecord'', hkey'.trans hkey, hcreated'.trans hcreated, hhistory.trans hhistory'⟩

/-- Alone, a process finds the records as it loaded them. -/
abbrev Alone (s : Store) {α : Type} (post : α → Faulty Store → Prop) (action : Action α)
    (w : Faulty Store) : Prop :=
  action.Always performFaulty (fun w => Grows s w.store) post w

variable {s : Store} {w : Faulty Store}

theorem alone_check {α : Type} (hw : w.store.records = s.records) (x : Except String α) :
    Alone s (fun a w' => w'.store.records = s.records ∧ x = .ok a) (Program.check x) w := by
  cases x with
  | error message => exact Grows.of_eq hw
  | ok a => exact ⟨Grows.of_eq hw, hw, rfl⟩

/-- A call that only reads. -/
theorem alone_ask (hw : w.store.records = s.records) (c : Call)
    (hreads : ∀ t : Store, (t.perform c).2 = t) :
    Alone s (fun a w' => w'.store.records = s.records ∧ (w.store.perform c).1 = .ok a)
      (ask c) w := by
  have hstore : (performFaulty w c).2.store = w.store :=
    faulty_store_of_reads (hreads _)
  refine ⟨Grows.of_eq hw, ?_⟩
  cases hanswer : (performFaulty w c).1 with
  | error message => exact Grows.of_eq (hstore ▸ hw)
  | ok a => exact ⟨Grows.of_eq (hstore ▸ hw), hstore ▸ hw, (faulty_eq_ok hanswer).1⟩

theorem alone_load (hw : w.store.records = s.records) (key : Key) :
    Alone s (fun found w' => w'.store.records = s.records ∧ s.records key = found ∧
      ∀ record, found = some record → record.key = key) (load key) w := by
  refine (alone_check hw (statePath key)).bind fun _ w₁ _ h₁ => ?_
  refine (alone_ask h₁.1 (.load key) fun _ => rfl).bind fun found w₂ hgrows h₂ => ?_
  obtain ⟨hw₂, hanswer⟩ := h₂
  have hfound : s.records key = found := by
    rw [← h₁.1]
    exact Except.ok.inj hanswer
  cases found with
  | none => exact ⟨hgrows, hw₂, hfound, fun record h => by cases h⟩
  | some record =>
    refine (alone_check hw₂ (validateRecord record key)).bind fun _ w₃ hgrows₃ h₃ => ?_
    refine ⟨hgrows₃, h₃.1, hfound, ?_⟩
    rintro _ ⟨⟩
    exact (validateRecord_eq_ok.mp h₃.2).2.1

/-- A record that goes on where the stored one ends. -/
theorem alone_write (hw : w.store.records = s.records) {record : GenerationRecord}
    (hrecord : ∀ earlier, s.records record.key = some earlier → Continues earlier record) :
    Alone s (fun _ _ => True) (write record) w := by
  refine (alone_check hw (statePath record.key)).bind fun _ w₁ hgrows h₁ => ⟨hgrows, ?_⟩
  have hafter : Grows s (performFaulty w₁ (.write record)).2.store := by
    rcases faulty_records w₁ (.write record) with hsame | ⟨_, ⟨⟩, hnew⟩
    · exact Grows.of_eq (hsame.trans h₁.1)
    · intro key earlier hearlier
      by_cases hkey : key = record.key
      · refine ⟨record, ?_, hrecord earlier (hkey ▸ hearlier)⟩
        rw [hkey, show (performFaulty w₁ (.write record)).2.store.records
          = Function.update w₁.store.records record.key (some record) from hnew]
        exact Function.update_self ..
      · refine ⟨earlier, ?_, rfl, rfl, List.prefix_rfl⟩
        rw [show (performFaulty w₁ (.write record)).2.store.records
          = Function.update w₁.store.records record.key (some record) from hnew,
          Function.update_of_ne hkey, h₁.1, hearlier]
  cases (performFaulty w₁ (.write record)).1 with
  | error message => exact hafter
  | ok u => exact ⟨hafter, trivial⟩

theorem alone_create (hw : w.store.records = s.records) {key : Key} (hnone : s.records key = none)
    (state : GenerationState) (reason : String) :
    Alone s (fun _ _ => True) (create key state reason) w := by
  refine (alone_ask hw .now fun _ => rfl).bind fun now w₁ _ h₁ => ?_
  refine (alone_write h₁.1 fun earlier hearlier => ?_).bind fun _ w₂ hgrows _ => ⟨hgrows, trivial⟩
  rw [show (firstRecord key state reason now).key = key from rfl, hnone] at hearlier
  cases hearlier

theorem alone_extendTo (hw : w.store.records = s.records) {record : GenerationRecord}
    (hrecord : s.records record.key = some record) (states : List GenerationState) (reason : String)
    (publicationRunId : Option String) :
    Alone s (fun _ _ => True) (extendTo record states reason publicationRunId) w := by
  refine (alone_ask hw .now fun _ => rfl).bind fun now w₁ _ h₁ => ?_
  refine (alone_write h₁.1 fun earlier hearlier => ?_).bind fun _ w₂ hgrows _ => ⟨hgrows, trivial⟩
  rw [show (record.extend states now reason publicationRunId).key = record.key from rfl,
    hrecord] at hearlier
  obtain rfl := Option.some.inj hearlier
  exact ⟨rfl, rfl, List.prefix_append ..⟩

theorem alone_loadExisting (hw : w.store.records = s.records) (key : Key) :
    Alone s (fun record w' => w'.store.records = s.records ∧ s.records record.key = some record)
      (loadExisting key) w := by
  refine (alone_load hw key).bind fun found w₁ _ h₁ => ?_
  refine (alone_check h₁.1 _).mono fun record w₂ h₂ => ⟨h₂.1, ?_⟩
  have hfound := context_eq_ok.mp h₂.2
  rw [h₁.2.2 record hfound, h₁.2.1, hfound]

theorem Operation.alone (op : Operation) (hw : w.store.records = s.records) :
    Alone s (fun _ _ => True) op.program w := by
  cases op with
  | begin key =>
    refine (alone_load hw key).bind fun found w₁ _ h₁ => ?_
    cases found with
    | none => exact alone_create h₁.1 h₁.2.1 _ _
    | some record =>
      exact (alone_check h₁.1 _).bind fun _ w₂ hgrows _ => ⟨hgrows, trivial⟩
  | adopt key state reason =>
    refine (alone_load hw key).bind fun found w₁ hgrows h₁ => ?_
    cases found with
    | none => exact alone_create h₁.1 h₁.2.1 _ _
    | some record => exact ⟨hgrows, trivial⟩
  | transition key next reason publicationRunId =>
    refine (alone_loadExisting hw key).bind fun record w₁ hgrows h₁ => ?_
    show Alone s _ (if record.state = next then pure record else _) w₁
    split
    · exact ⟨hgrows, trivial⟩
    · exact (alone_check h₁.1 _).bind fun _ w₂ _ h₂ => alone_extendTo h₂.1 h₁.2 _ _ _
  | retireReady key reason =>
    refine (alone_loadExisting hw key).bind fun record w₁ hgrows h₁ => ?_
    show Alone s _ (if record.state = .retired then pure record else _) w₁
    split
    · exact ⟨hgrows, trivial⟩
    · exact (alone_check h₁.1 _).bind fun _ w₂ _ h₂ => alone_extendTo h₂.1 h₁.2 _ _ _

/-- **Histories only grow.** Operations that run one after another, each cut off anywhere and with
calls that fail, at whatever times, never take a record away, shorten its history or change when
it was created and whose it is. -/
theorem histories_grow (s : Store) (attempts : List Attempt) :
    ∀ key record, s.records key = some record → ∃ record',
      (attempts.foldl attempt s).records key = some record' ∧ record'.key = record.key ∧
      record'.createdAtUnix = record.createdAtUnix ∧ record.history <+: record'.history := by
  have hgrows : Grows s (attempts.foldl attempt s) := by
    induction attempts generalizing s with
    | nil => exact Grows.of_eq rfl
    | cons a attempts ih =>
      have hstep : Grows { s with clock := a.now } (attempt s a) :=
        ((a.op.alone (s := { s with clock := a.now }) (w := ⟨{ s with clock := a.now }, a.faults⟩)
          rfl).steps a.calls).now
      exact (Grows.trans (Grows.of_eq rfl) hstep).trans (ih (attempt s a))
  intro key record hrecord
  obtain ⟨record', hrecord', hkey, hcreated, hhistory⟩ := hgrows key record hrecord
  exact ⟨record', hrecord', hkey, hcreated, hhistory⟩

/-- A generation that has begun. -/
def begunAugust : Store :=
  attempt ⟨fun _ => none, 0⟩ ⟨.begin augustKey, 3, [], 1785542400⟩

/-- Validated once more after the process was killed before it wrote. -/
def validatedLater : List Attempt :=
  [⟨.transition augustKey .validated "killed" none, 2, [], 1785542460⟩,
    ⟨.transition augustKey .validated "again" none, 3, [], 1785542520⟩]

theorem histories_grow_validatedLater :
    ∃ record record', begunAugust.records augustKey = some record ∧
      (validatedLater.foldl attempt begunAugust).records augustKey = some record' ∧
      record.history <+: record'.history ∧
      record'.history.map (·.reason) = ["candidate preparation started", "again"] := by
  obtain ⟨record, hrecord⟩ := Option.isSome_iff_exists.mp
    (show (begunAugust.records augustKey).isSome = true by decide +kernel)
  obtain ⟨record', hrecord', -, -, hhistory⟩ :=
    histories_grow begunAugust validatedLater augustKey record hrecord
  have hreasons : ((validatedLater.foldl attempt begunAugust).records augustKey).map
      (fun record => record.history.map (·.reason))
        = some ["candidate preparation started", "again"] := by decide +kernel
  rw [hrecord'] at hreasons
  exact ⟨record, record', hrecord, hrecord', hhistory, Option.some.inj hreasons⟩

end WikiEcon.Publication.Lifecycle
