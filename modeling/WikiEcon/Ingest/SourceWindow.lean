import Mathlib.Data.List.Nodup
import Mathlib.Data.List.Range
import WikiEcon.Lib.Transition
import WikiEcon.Rust

/-!
# The bounded source executor

`execute_bounded` of `source_window.rs`: one thread dispatches items to at most
`worker_limit` workers and takes their completions off a channel. The workers, the answers
of `admit` and the moment at which each worker completes are the environment, so the
executor is a transition system: an event is a call of `admit` with its answer, a worker
that is done, or a completion that is taken off the channel.

`executor_keeps` is the invariant of its runs, with the events of the run as the history it
speaks about; `boundedExecutor` is what follows for a caller.
-/

namespace WikiEcon.Ingest

open Transition

def maxSourceWindowSize : ℕ := 4

variable {T P : Type}

/-! ## The executor -/

/-- A spawned worker that has not sent its completion. -/
structure Worker (T P : Type) where
  index : ℕ
  item : T
  permit : P

/-- How `process` ends. -/
inductive Outcome
  | ok (rows : ℕ)
  | err (error : String)
  | panicked

/-- What a worker sends: a panic is caught and becomes an error. -/
def Outcome.result : Outcome → Except String ℕ
  | .ok rows => .ok rows
  | .err error => .error error
  | .panicked => .error "source prefetch worker panicked during fetch or ingest"

/-- Where the executor is: about to call `admit`, waiting on the channel, or done. -/
inductive Place
  | admission
  | receive
  | returned (result : Except String (ℕ × ℕ))

structure Executor (T P : Type) where
  nextItem : ℕ
  activeWorkers : ℕ
  completedItems : ℕ
  ingestedRows : ℕ
  workers : List (Worker T P)
  channel : List (ℕ × Except String ℕ)
  place : Place

inductive Event (P : Type)
  | admission (index : ℕ) (answer : Except String P)
  | finish (index : ℕ) (outcome : Outcome)
  | receive (index : ℕ) (outcome : Except String ℕ)

section Code

variable (items : List T) (workerLimit : ℕ)

/-- The test of the inner loop. -/
def Executor.refill (s : Executor T P) : Place :=
  if s.nextItem < items.length ∧ s.activeWorkers < workerLimit then .admission else .receive

/-- The test of the outer loop. -/
def Executor.loop (s : Executor T P) : Place :=
  if s.nextItem < items.length ∨ 0 < s.activeWorkers then s.refill items workerLimit
  else .returned (.ok (s.completedItems, s.ingestedRows))

/-- `execute_bounded` up to the first call of `admit`, or to its end. -/
def Executor.start : Executor T P :=
  let s : Executor T P := ⟨0, 0, 0, 0, [], [], .receive⟩
  if 1 ≤ workerLimit ∧ workerLimit ≤ maxSourceWindowSize then
    { s with place := s.loop items workerLimit }
  else { s with
    place := .returned (.error
      s!"source-worker limit must be between 1 and {maxSourceWindowSize}, got {workerLimit}") }

def Executor.dispatch (s : Executor T P) (item : T) (permit : P) : Executor T P where
  nextItem := s.nextItem + 1
  activeWorkers := s.activeWorkers + 1
  completedItems := s.completedItems
  ingestedRows := s.ingestedRows
  workers := s.workers ++ [⟨s.nextItem, item, permit⟩]
  channel := s.channel
  place := s.place

/-- Item `index`'s worker sends its completion. -/
def Executor.send (s : Executor T P) (index : ℕ) (outcome : Outcome) : Executor T P :=
  { s with
    workers := s.workers.eraseP fun w => w.index == index
    channel := s.channel ++ [(index, outcome.result)] }

/-- A completion is taken off the channel. -/
def Executor.complete (s : Executor T P) (index : ℕ) (outcome : Except String ℕ) :
    Executor T P :=
  match outcome with
  | .ok rows =>
    match checkedAdd u64Max s.completedItems 1 with
    | none => { s with place := .returned (.error "completed source count overflow") }
    | some completed =>
      match checkedAdd u64Max s.ingestedRows rows with
      | none => { s with
          completedItems := completed
          place := .returned (.error "snapshot ingest row count overflow") }
      | some ingested =>
        let t := { s with completedItems := completed, ingestedRows := ingested }
        { t with place := t.loop items workerLimit }
  | .error _ =>
    { s with place := .returned (.error s!"source worker failed for item {index}") }

def Executor.next (s : Executor T P) : Event P → Option (Executor T P)
  | .admission index answer =>
    match s.place, items[s.nextItem]? with
    | .admission, some item =>
      if index ≠ s.nextItem then none else
      match answer with
      | .ok permit =>
        let t := s.dispatch item permit
        some { t with place := t.refill items workerLimit }
      | .error _ =>
        -- a concurrent task may release the headroom this source needs
        if 0 < s.activeWorkers then some { s with place := .receive }
        else some { s with
          place := .returned (.error "resource governor could not admit a source worker") }
    | _, _ => none
  | .finish index outcome =>
    -- also after the executor has returned: the scope joins its workers
    if s.workers.any fun w => w.index == index then some (s.send index outcome) else none
  | .receive index outcome =>
    match s.place, s.channel with
    | .receive, (i, o) :: rest =>
      if i = index ∧ o = outcome then
        some ({ s with channel := rest, activeWorkers := s.activeWorkers - 1 }.complete
          items workerLimit index outcome)
      else none
    | _, _ => none

/-- The executor among its workers. -/
def executeBounded : System (Executor T P) (Event P) where
  init s := s = .start items workerLimit
  step s e t := s.next items workerLimit e = some t

end Code

/-- The caller's check of the count. -/
def ensurePendingSourcesCompleted (completed expected : ℕ) : Except String Unit :=
  ensure (completed = expected)
    s!"bounded source executor completed {completed} of {expected} pending sources"

/-! ## What a run has done -/

section History

/-- The items whose `admit` was answered with a permit. -/
def dispatched (labels : List (Event P)) : List ℕ :=
  labels.filterMap fun
    | .admission index (.ok _) => some index
    | _ => none

/-- The workers that are done, in the order in which they were. -/
def finished (labels : List (Event P)) : List (ℕ × Outcome) :=
  labels.filterMap fun
    | .finish index outcome => some (index, outcome)
    | _ => none

/-- The completions taken off the channel. -/
def received (labels : List (Event P)) : List (ℕ × Except String ℕ) :=
  labels.filterMap fun
    | .receive index outcome => some (index, outcome)
    | _ => none

/-- The rows of a list of completions, failed ones counting for nothing. -/
def rowCount (completions : List (ℕ × Except String ℕ)) : ℕ :=
  (completions.map fun c => c.2.toOption.getD 0).sum

variable {labels : List (Event P)}

@[simp] theorem dispatched_snoc_ok {i : ℕ} {permit : P} :
    dispatched (labels ++ [.admission i (.ok permit)]) = dispatched labels ++ [i] := by
  simp [dispatched]

@[simp] theorem dispatched_snoc_error {i : ℕ} {e : String} :
    dispatched (labels ++ [.admission i (.error e)]) = dispatched labels := by
  simp [dispatched]

@[simp] theorem dispatched_snoc_finish {i : ℕ} {o : Outcome} :
    dispatched (labels ++ [.finish i o]) = dispatched labels := by
  simp [dispatched]

@[simp] theorem dispatched_snoc_receive {i : ℕ} {o : Except String ℕ} :
    dispatched (labels ++ [.receive i o]) = dispatched labels := by
  simp [dispatched]

@[simp] theorem finished_snoc_admission {i : ℕ} {answer : Except String P} :
    finished (labels ++ [.admission i answer]) = finished labels := by
  simp [finished]

@[simp] theorem finished_snoc_finish {i : ℕ} {o : Outcome} :
    finished (labels ++ [.finish i o]) = finished labels ++ [(i, o)] := by
  simp [finished]

@[simp] theorem finished_snoc_receive {i : ℕ} {o : Except String ℕ} :
    finished (labels ++ [.receive i o]) = finished labels := by
  simp [finished]

@[simp] theorem received_snoc_admission {i : ℕ} {answer : Except String P} :
    received (labels ++ [.admission i answer]) = received labels := by
  simp [received]

@[simp] theorem received_snoc_finish {i : ℕ} {o : Outcome} :
    received (labels ++ [.finish i o]) = received labels := by
  simp [received]

@[simp] theorem received_snoc_receive {i : ℕ} {o : Except String ℕ} :
    received (labels ++ [.receive i o]) = received labels ++ [(i, o)] := by
  simp [received]

@[simp] theorem rowCount_append {l l' : List (ℕ × Except String ℕ)} :
    rowCount (l ++ l') = rowCount l + rowCount l' := by
  simp [rowCount]

end History

/-! ## The invariant -/

section Kept

variable (items : List T) (workerLimit : ℕ)

/-- What the executor knows while it has not given up. -/
structure Running (labels : List (Event P)) (s : Executor T P) : Prop where
  active : s.activeWorkers = s.workers.length + s.channel.length
  ok : ∀ c ∈ received labels, ∃ rows, c.2 = .ok rows
  completed : s.completedItems = (received labels).length
  ingested : s.ingestedRows = rowCount (received labels)
  fits : s.ingestedRows ≤ u64Max

/-- Why the executor has given up, by the text of its error. -/
inductive GivenUp (labels : List (Event P)) (s : Executor T P) : String → Prop
  | failed {i : ℕ} {e : String} : (i, .error e) ∈ received labels →
      GivenUp labels s s!"source worker failed for item {i}"
  | refused {e : String} : .admission s.nextItem (.error e) ∈ labels → s.nextItem < items.length →
      s.workers = [] → s.channel = [] →
      GivenUp labels s "resource governor could not admit a source worker"
  | overflow : u64Max < rowCount (received labels) →
      GivenUp labels s "snapshot ingest row count overflow"

/-- What holds at each place of the two loops. -/
def AtPlace (labels : List (Event P)) (s : Executor T P) : Place → Prop
  | .admission => Running labels s ∧ s.nextItem < items.length ∧ s.activeWorkers < workerLimit
  | .receive => Running labels s ∧ 0 < s.activeWorkers
  | .returned (.ok result) => Running labels s ∧ s.nextItem = items.length ∧
      s.activeWorkers = 0 ∧ result = (s.completedItems, s.ingestedRows)
  | .returned (.error message) => GivenUp items labels s message

/-- Events that the place still pays for: a refusal is paid for by the completion after it. -/
def Place.credit : Place → ℕ
  | .admission => 0
  | _ => 1

structure Kept (labels : List (Event P)) (s : Executor T P) : Prop where
  order : dispatched labels = List.range s.nextItem
  bound : s.nextItem ≤ items.length
  own : ∀ w ∈ s.workers, items[w.index]? = some w.item
  fifo : received labels ++ s.channel = (finished labels).map fun c => (c.1, c.2.result)
  once : (s.workers.map Worker.index ++ (finished labels).map Prod.fst).Perm
    (List.range s.nextItem)
  limited : s.workers.length + s.channel.length ≤ workerLimit
  steps : labels.length ≤
    s.nextItem + (finished labels).length + 2 * (received labels).length + s.place.credit
  place : AtPlace items workerLimit labels s s.place

variable {items workerLimit} {labels : List (Event P)} {s t : Executor T P}

/-- The place itself is no part of what holds there. -/
theorem AtPlace.enter {place : Place} (h : AtPlace items workerLimit labels s place)
    (place' : Place) : AtPlace items workerLimit labels { s with place := place' } place := by
  have hrunning (h : Running labels s) : Running labels { s with place := place' } :=
    ⟨h.active, h.ok, h.completed, h.ingested, h.fits⟩
  cases place with
  | admission => exact ⟨hrunning h.1, h.2⟩
  | receive => exact ⟨hrunning h.1, h.2⟩
  | returned result =>
    cases result with
    | ok result => exact ⟨hrunning h.1, h.2⟩
    | error message =>
      cases h with
      | failed h => exact .failed h
      | refused h hlt hworkers hchannel => exact .refused h hlt hworkers hchannel
      | overflow h => exact .overflow h

theorem Running.refill (h : Running labels s) (hactive : 0 < workerLimit)
    (hpending : s.nextItem < items.length ∨ 0 < s.activeWorkers) :
    AtPlace items workerLimit labels s (s.refill items workerLimit) := by
  unfold Executor.refill
  split
  next hfree => exact ⟨h, hfree⟩
  next hfull => exact ⟨h, by omega⟩

theorem Running.loop (h : Running labels s) (hactive : 0 < workerLimit)
    (hbound : s.nextItem ≤ items.length) :
    AtPlace items workerLimit labels s (s.loop items workerLimit) := by
  unfold Executor.loop
  split
  next hpending => exact h.refill hactive hpending
  next hdone => exact ⟨h, by omega, by omega, rfl⟩

theorem Place.credit_le (place : Place) : place.credit ≤ 1 := by
  cases place <;> simp [Place.credit]

/-! ## One event -/

theorem next_admit_ok {index : ℕ} {permit : P}
    (h : s.next items workerLimit (.admission index (.ok permit)) = some t) :
    s.place = .admission ∧ index = s.nextItem ∧ ∃ item, items[s.nextItem]? = some item ∧
      t = { s.dispatch item permit with
        place := (s.dispatch item permit).refill items workerLimit } := by
  unfold Executor.next at h
  dsimp only at h
  split at h
  next item hplace hitem =>
    split at h
    · exact absurd h (by simp)
    next hindex => exact ⟨hplace, not_not.mp hindex, item, hitem, (Option.some.inj h).symm⟩
  · exact absurd h (by simp)

theorem next_admit_error {index : ℕ} {e : String}
    (h : s.next items workerLimit (.admission index (.error e)) = some t) :
    s.place = .admission ∧ index = s.nextItem ∧ t = { s with
      place := if 0 < s.activeWorkers then .receive
        else .returned (.error "resource governor could not admit a source worker") } := by
  unfold Executor.next at h
  dsimp only at h
  split at h
  next item hplace hitem =>
    split at h
    · exact absurd h (by simp)
    next hindex =>
      refine ⟨hplace, not_not.mp hindex, ?_⟩
      split at h
      next hactive =>
        rw [if_pos hactive]
        exact (Option.some.inj h).symm
      next hactive =>
        rw [if_neg hactive]
        exact (Option.some.inj h).symm
  · exact absurd h (by simp)

theorem next_finish {index : ℕ} {outcome : Outcome}
    (h : s.next items workerLimit (.finish index outcome) = some t) :
    (∃ w ∈ s.workers, w.index = index) ∧ t = s.send index outcome := by
  unfold Executor.next at h
  dsimp only at h
  split at h
  next hany => exact ⟨by simpa using hany, (Option.some.inj h).symm⟩
  · exact absurd h (by simp)

theorem next_receive {index : ℕ} {outcome : Except String ℕ}
    (h : s.next items workerLimit (.receive index outcome) = some t) :
    s.place = .receive ∧ ∃ rest, s.channel = (index, outcome) :: rest ∧
      t = { s with channel := rest, activeWorkers := s.activeWorkers - 1 }.complete
        items workerLimit index outcome := by
  unfold Executor.next at h
  dsimp only at h
  split at h
  next i o rest hplace hchannel =>
    split at h
    next heq =>
      obtain ⟨rfl, rfl⟩ := heq
      exact ⟨hplace, rest, hchannel, (Option.some.inj h).symm⟩
    · exact absurd h (by simp)
  · exact absurd h (by simp)

theorem Kept.dispatch (h : Kept items workerLimit labels s) (hplace : s.place = .admission)
    {item : T} (hitem : items[s.nextItem]? = some item) (permit : P) :
    Kept items workerLimit (labels ++ [.admission s.nextItem (.ok permit)])
      { s.dispatch item permit with
        place := (s.dispatch item permit).refill items workerLimit } := by
  have hat := h.place
  rw [hplace] at hat
  obtain ⟨hrunning, hlt, hfree⟩ := hat
  have hactive := hrunning.active
  have hrunning' : Running (labels ++ [.admission s.nextItem (.ok permit)])
      (s.dispatch item permit) := by
    refine ⟨?_, ?_, ?_, ?_, hrunning.fits⟩
    · show s.activeWorkers + 1 = (s.workers ++ [_]).length + s.channel.length
      rw [List.length_append, hactive]
      simp only [List.length_singleton]
      omega
    · rw [received_snoc_admission]
      exact hrunning.ok
    · rw [received_snoc_admission]
      exact hrunning.completed
    · rw [received_snoc_admission]
      exact hrunning.ingested
  constructor
  case order =>
    rw [dispatched_snoc_ok, h.order]
    exact List.range_succ.symm
  case bound => exact hlt
  case own =>
    intro w hw
    rcases List.mem_append.mp hw with hw | hw
    · exact h.own w hw
    · obtain rfl := List.mem_singleton.mp hw
      exact hitem
  case fifo =>
    rw [received_snoc_admission, finished_snoc_admission]
    exact h.fifo
  case once =>
    -- The new worker has the next index, at the end of what was dispatched.
    show ((s.workers ++ [_]).map Worker.index ++ _).Perm (List.range (s.nextItem + 1))
    rw [finished_snoc_admission, List.range_succ, List.map_append, List.append_assoc]
    have hswap : ([s.nextItem] ++ (finished labels).map Prod.fst).Perm
        ((finished labels).map Prod.fst ++ [s.nextItem]) := List.perm_append_comm
    refine (hswap.append_left _).trans ?_
    rw [← List.append_assoc]
    exact h.once.append_right _
  case limited =>
    show (s.workers ++ [_]).length + s.channel.length ≤ workerLimit
    rw [List.length_append]
    simp only [List.length_singleton]
    omega
  case steps =>
    have hsteps := h.steps
    rw [hplace] at hsteps
    rw [finished_snoc_admission, received_snoc_admission, List.length_append]
    simp only [Place.credit, List.length_singleton, Executor.dispatch] at hsteps ⊢
    omega
  case place =>
    refine (hrunning'.refill (by omega) (Or.inr ?_)).enter _
    exact Nat.succ_pos _

theorem Kept.refuse (h : Kept items workerLimit labels s) (hplace : s.place = .admission)
    (e : String) :
    Kept items workerLimit (labels ++ [.admission s.nextItem (.error e)])
      { s with place := if 0 < s.activeWorkers then .receive
          else .returned (.error "resource governor could not admit a source worker") } := by
  have hat := h.place
  rw [hplace] at hat
  obtain ⟨hrunning, hlt, hfree⟩ := hat
  have hactive := hrunning.active
  have hrunning' : Running (labels ++ [.admission s.nextItem (.error e)]) s := by
    refine ⟨hactive, ?_, ?_, ?_, hrunning.fits⟩
    · rw [received_snoc_admission]
      exact hrunning.ok
    · rw [received_snoc_admission]
      exact hrunning.completed
    · rw [received_snoc_admission]
      exact hrunning.ingested
  constructor
  case order => rw [dispatched_snoc_error, h.order]
  case bound => exact h.bound
  case own => exact h.own
  case fifo => simpa using h.fifo
  case once => simpa using h.once
  case limited => exact h.limited
  case steps =>
    have hsteps := h.steps
    rw [hplace] at hsteps
    rw [finished_snoc_admission, received_snoc_admission, List.length_append]
    have hcredit : Place.credit (if 0 < s.activeWorkers then .receive
        else .returned (.error "resource governor could not admit a source worker")) = 1 := by
      split <;> rfl
    rw [hcredit]
    simp only [Place.credit, List.length_singleton] at hsteps ⊢
    omega
  case place =>
    refine AtPlace.enter ?_ _
    dsimp only
    split
    next hothers => exact ⟨hrunning', hothers⟩
    next halone =>
      have hlength : s.workers.length = 0 ∧ s.channel.length = 0 := by omega
      exact .refused (e := e) (by simp) hlt (List.length_eq_zero_iff.mp hlength.1)
        (List.length_eq_zero_iff.mp hlength.2)

theorem Kept.send (h : Kept items workerLimit labels s) {index : ℕ} {outcome : Outcome}
    (hindex : ∃ w ∈ s.workers, w.index = index) :
    Kept items workerLimit (labels ++ [.finish index outcome]) (s.send index outcome) := by
  obtain ⟨w, hw, rfl⟩ := hindex
  obtain ⟨v, l₁, l₂, -, hv, hworkers, herase⟩ :=
    List.exists_of_eraseP hw (p := fun v => v.index == w.index) (by simp)
  have hv : v.index = w.index := by simpa using hv
  have hlength : (s.send w.index outcome).workers.length + 1 = s.workers.length := by
    show (s.workers.eraseP _).length + 1 = _
    rw [herase, hworkers]
    simp
    omega
  have hchannel : (s.send w.index outcome).channel.length = s.channel.length + 1 := by
    simp [Executor.send]
  have hrunning (hrunning : Running labels s) :
      Running (labels ++ [.finish w.index outcome]) (s.send w.index outcome) := by
    have hactive := hrunning.active
    refine ⟨?_, ?_, ?_, ?_, hrunning.fits⟩
    · show s.activeWorkers = _
      omega
    · rw [received_snoc_finish]
      exact hrunning.ok
    · rw [received_snoc_finish]
      exact hrunning.completed
    · rw [received_snoc_finish]
      exact hrunning.ingested
  constructor
  case order => rw [dispatched_snoc_finish]; exact h.order
  case bound => exact h.bound
  case own => exact fun u hu => h.own u (List.eraseP_subset hu)
  case fifo =>
    show received _ ++ (s.channel ++ [_]) = _
    rw [received_snoc_finish, finished_snoc_finish, List.map_append, ← h.fifo,
      List.append_assoc]
    rfl
  case once =>
    refine List.Perm.trans ?_ h.once
    show ((s.workers.eraseP _).map Worker.index ++ _).Perm _
    rw [herase, hworkers, finished_snoc_finish]
    simp only [List.map_append, List.map_cons, List.map_nil, hv, List.append_assoc]
    refine List.Perm.append_left _ ?_
    rw [← List.append_assoc]
    exact List.perm_append_comm
  case limited =>
    have hlimited := h.limited
    omega
  case steps =>
    have hsteps := h.steps
    rw [finished_snoc_finish, received_snoc_finish, List.length_append, List.length_append]
    show _ ≤ s.nextItem + _ + _ + s.place.credit
    simp only [List.length_singleton]
    omega
  case place =>
    show AtPlace _ _ _ _ s.place
    have hat := h.place
    generalize s.place = place at hat
    cases place with
    | admission => exact ⟨hrunning hat.1, hat.2⟩
    | receive => exact ⟨hrunning hat.1, hat.2⟩
    | returned result =>
      cases result with
      | ok result => exact ⟨hrunning hat.1, hat.2⟩
      | error message =>
        cases hat with
        | failed hfailed => exact .failed (by simpa using hfailed)
        | refused _ _ hnone _ =>
          -- a lone refusal leaves no worker that could still send
          rw [hnone] at hw
          exact absurd hw List.not_mem_nil
        | overflow hover => exact .overflow (by simpa using hover)

theorem Kept.receive (h : Kept items workerLimit labels s) (hplace : s.place = .receive)
    (hlimit : 0 < workerLimit) (hlength : items.length ≤ u64Max) {index : ℕ}
    {outcome : Except String ℕ} {rest : List (ℕ × Except String ℕ)}
    (hchannel : s.channel = (index, outcome) :: rest) :
    Kept items workerLimit (labels ++ [.receive index outcome])
      ({ s with channel := rest, activeWorkers := s.activeWorkers - 1 }.complete
        items workerLimit index outcome) := by
  have hat := h.place
  rw [hplace] at hat
  obtain ⟨hrunning, hpos⟩ := hat
  have hactive := hrunning.active
  have hcount : s.channel.length = rest.length + 1 := by rw [hchannel, List.length_cons]
  -- what was taken off is one of the dispatched items
  have hreceived : (received labels).length + 1 ≤ items.length := by
    have hfifo := congrArg List.length h.fifo
    have honce := h.once.length_eq
    have hbound := h.bound
    simp only [List.length_append, List.length_map, List.length_range] at hfifo honce
    omega
  have hkept {t : Executor T P} (hplace' : AtPlace items workerLimit
      (labels ++ [.receive index outcome]) t t.place) (hnext : t.nextItem = s.nextItem)
      (hworkers : t.workers = s.workers) (hrest : t.channel = rest) :
      Kept items workerLimit (labels ++ [.receive index outcome]) t := by
    constructor
    case order => rw [dispatched_snoc_receive, hnext, h.order]
    case bound => rw [hnext]; exact h.bound
    case own => rw [hworkers]; exact h.own
    case fifo =>
      rw [received_snoc_receive, finished_snoc_receive, hrest, ← h.fifo, hchannel,
        List.append_assoc]
      rfl
    case once => rw [hworkers, hnext, finished_snoc_receive]; exact h.once
    case limited =>
      have hlimited := h.limited
      rw [hworkers, hrest]
      omega
    case steps =>
      have hsteps := h.steps
      rw [hplace] at hsteps
      rw [hnext, finished_snoc_receive, received_snoc_receive, List.length_append,
        List.length_append]
      simp only [Place.credit, List.length_singleton] at hsteps ⊢
      omega
    case place => exact hplace'
  unfold Executor.complete
  cases outcome with
  | error e => exact hkept (.failed (e := e) (by simp)) rfl rfl rfl
  | ok rows =>
    dsimp only
    have hcompleted : s.completedItems = (received labels).length := hrunning.completed
    rw [checkedAdd_eq_some.mpr ⟨by omega, rfl⟩]
    dsimp only
    have hrows : rowCount (received (labels ++ [(.receive index (.ok rows) : Event P)]))
        = s.ingestedRows + rows := by
      rw [received_snoc_receive, rowCount_append, hrunning.ingested]
      rfl
    cases hadd : checkedAdd u64Max s.ingestedRows rows with
    | none =>
      refine hkept (.overflow ?_) rfl rfl rfl
      by_contra hle
      rw [hrows] at hle
      rw [checkedAdd_eq_some.mpr ⟨by omega, rfl⟩] at hadd
      exact absurd hadd (by simp)
    | some ingested =>
      obtain ⟨hfits, rfl⟩ := checkedAdd_eq_some.mp hadd
      let u : Executor T P := { s with
        channel := rest
        activeWorkers := s.activeWorkers - 1
        completedItems := s.completedItems + 1
        ingestedRows := s.ingestedRows + rows }
      suffices hrunning' : Running (labels ++ [.receive index (.ok rows)]) u from
        hkept ((hrunning'.loop hlimit h.bound).enter _) rfl rfl rfl
      refine ⟨?_, ?_, ?_, hrows.symm, hfits⟩
      · show s.activeWorkers - 1 = s.workers.length + rest.length
        omega
      · rw [received_snoc_receive]
        intro c hc
        rcases List.mem_append.mp hc with hc | hc
        · exact hrunning.ok c hc
        · obtain rfl := List.mem_singleton.mp hc
          exact ⟨rows, rfl⟩
      · rw [received_snoc_receive, List.length_append]
        exact congrArg (· + 1) hcompleted

theorem Kept.step (h : Kept items workerLimit labels s) (hlimit : 0 < workerLimit)
    (hlength : items.length ≤ u64Max) {e : Event P}
    (hstep : s.next items workerLimit e = some t) :
    Kept items workerLimit (labels ++ [e]) t := by
  cases e with
  | admission index answer =>
    cases answer with
    | ok permit =>
      obtain ⟨hplace, rfl, item, hitem, rfl⟩ := next_admit_ok hstep
      exact h.dispatch hplace hitem permit
    | error e =>
      obtain ⟨hplace, rfl, rfl⟩ := next_admit_error hstep
      exact h.refuse hplace e
  | finish index outcome =>
    obtain ⟨hindex, rfl⟩ := next_finish hstep
    exact h.send hindex
  | receive index outcome =>
    obtain ⟨hplace, rest, hchannel, rfl⟩ := next_receive hstep
    exact h.receive hplace hlimit hlength hchannel

theorem kept_start (hlimit : 1 ≤ workerLimit ∧ workerLimit ≤ maxSourceWindowSize) :
    Kept items workerLimit [] (.start items workerLimit : Executor T P) := by
  unfold Executor.start
  rw [if_pos hlimit]
  have hrunning : Running [] (⟨0, 0, 0, 0, [], [], .receive⟩ : Executor T P) :=
    ⟨rfl, fun c hc => absurd hc List.not_mem_nil, rfl, rfl, Nat.zero_le _⟩
  constructor
  case order => rfl
  case bound => exact Nat.zero_le _
  case own => exact fun w hw => absurd hw List.not_mem_nil
  case fifo => rfl
  case once => exact .refl _
  case limited => exact Nat.zero_le _
  case steps => exact Nat.zero_le _
  case place => exact (hrunning.loop hlimit.1 (Nat.zero_le _)).enter _

/-- **The invariant holds along every run.** -/
theorem executor_keeps (hlimit : 1 ≤ workerLimit ∧ workerLimit ≤ maxSourceWindowSize)
    (hlength : items.length ≤ u64Max)
    (hrun : (executeBounded items workerLimit).Run (.start items workerLimit) labels s) :
    Kept items workerLimit labels s := by
  generalize hstart : Executor.start items workerLimit = start at hrun
  induction hrun with
  | nil =>
    subst hstart
    exact kept_start hlimit
  | snoc _ hstep ih => exact ih.step hlimit.1 hlength hstep

/-! ## What follows for a caller -/

/-- The rows of the workers that are done, failed ones counting for nothing. -/
def finishedRows (labels : List (Event P)) : ℕ :=
  rowCount ((finished labels).map fun c => (c.1, c.2.result))

variable (items) in
/-- Every item was dispatched, and its worker was done without an error. -/
def AllCompleted (labels : List (Event P)) : Prop :=
  ∀ i < items.length, ∃ rows, (i, Outcome.ok rows) ∈ finished labels

/-- The executor learns of a failure that nothing can follow on. -/
def Executor.learnsFailure (s : Executor T P) : Event P → Prop
  | .receive _ (.error _) => True
  | .admission _ (.error _) => s.activeWorkers = 0
  | _ => False

theorem Kept.finished_lt (h : Kept items workerLimit labels s) {i : ℕ} {o : Outcome}
    (hmem : (i, o) ∈ finished labels) : i < s.nextItem :=
  List.mem_range.mp (h.once.subset (List.mem_append_right _ (List.mem_map_of_mem hmem)))

/-- No item has two completions. -/
theorem Kept.finished_unique (h : Kept items workerLimit labels s) {i : ℕ} {o o' : Outcome}
    (hmem : (i, o) ∈ finished labels) (hmem' : (i, o') ∈ finished labels) : o = o' := by
  have hnodup := (List.nodup_append.mp (h.once.nodup_iff.mpr List.nodup_range)).2.1
  exact congrArg Prod.snd (List.inj_on_of_nodup_map hnodup hmem hmem' rfl)

theorem Kept.received_le (h : Kept items workerLimit labels s) :
    rowCount (received labels) ≤ finishedRows labels := by
  unfold finishedRows
  rw [← h.fifo, rowCount_append]
  exact Nat.le_add_right ..

theorem Kept.finished_of_received (h : Kept items workerLimit labels s) {i : ℕ}
    {result : Except String ℕ} (hmem : (i, result) ∈ received labels) :
    ∃ o, (i, o) ∈ finished labels ∧ o.result = result := by
  have hmem : (i, result) ∈ (finished labels).map fun c => (c.1, c.2.result) := by
    rw [← h.fifo]
    exact List.mem_append_left _ hmem
  obtain ⟨c, hc, heq⟩ := List.mem_map.mp hmem
  obtain ⟨rfl, rfl⟩ := Prod.mk.inj heq
  exact ⟨c.2, hc, rfl⟩

/-- `Ok` is returned for all items and all their rows. -/
theorem Kept.returned_ok (h : Kept items workerLimit labels s) {n rows : ℕ}
    (hplace : s.place = .returned (.ok (n, rows))) :
    AllCompleted items labels ∧ finishedRows labels ≤ u64Max ∧ n = items.length ∧
      rows = finishedRows labels := by
  have hat := h.place
  rw [hplace] at hat
  obtain ⟨hrunning, hnext, hidle, hresult⟩ := hat
  obtain ⟨rfl, rfl⟩ := Prod.mk.inj hresult
  have hactive := hrunning.active
  have hworkers : s.workers = [] := List.length_eq_zero_iff.mp (by omega)
  have hchannel : s.channel = [] := List.length_eq_zero_iff.mp (by omega)
  have hfifo := h.fifo
  have honce := h.once
  rw [hchannel, List.append_nil] at hfifo
  rw [hworkers, List.map_nil, List.nil_append, hnext] at honce
  have hrows : s.ingestedRows = finishedRows labels := by
    unfold finishedRows
    rw [hrunning.ingested, hfifo]
  refine ⟨fun i hi => ?_, hrows ▸ hrunning.fits, ?_, hrows⟩
  · obtain ⟨c, hc, rfl⟩ := List.mem_map.mp (honce.symm.subset (List.mem_range.mpr hi))
    obtain ⟨rows, hok⟩ := hrunning.ok (c.1, c.2.result) (by
      rw [hfifo]
      exact List.mem_map.mpr ⟨c, hc, rfl⟩)
    cases houtcome : c.2 with
    | ok rows => exact ⟨rows, houtcome ▸ hc⟩
    | err e =>
      rw [houtcome] at hok
      exact absurd hok (by simp [Outcome.result])
    | panicked =>
      rw [houtcome] at hok
      exact absurd hok (by simp [Outcome.result])
  · have hcount := honce.length_eq
    rw [List.length_map, List.length_range] at hcount
    rw [hrunning.completed, hfifo, List.length_map, hcount]

/-- Nothing else is returned when all items completed and their rows can be counted. -/
theorem Kept.not_givenUp (h : Kept items workerLimit labels s) {message : String}
    (hall : AllCompleted items labels) (hfits : finishedRows labels ≤ u64Max) :
    ¬ GivenUp items labels s message := by
  intro hgiven
  cases hgiven with
  | failed hmem =>
    obtain ⟨o, ho, hresult⟩ := h.finished_of_received hmem
    obtain ⟨rows, hrows⟩ := hall _ ((h.finished_lt ho).trans_le h.bound)
    obtain rfl := h.finished_unique ho hrows
    exact absurd hresult (by simp [Outcome.result])
  | refused _ hlt _ _ =>
    obtain ⟨rows, hrows⟩ := hall _ hlt
    exact absurd (h.finished_lt hrows) (Nat.lt_irrefl _)
  | overflow hover =>
    have hle := h.received_le
    omega

/-- Once returned, the executor only joins its workers. -/
theorem next_returned {result : Except String (ℕ × ℕ)} (hplace : s.place = .returned result)
    {e : Event P} (hstep : s.next items workerLimit e = some t) :
    t.place = .returned result ∧ ∃ index outcome, e = .finish index outcome := by
  cases e with
  | admission index answer =>
    have hadmission : s.place = .admission := by
      cases answer with
      | ok permit => exact (next_admit_ok hstep).1
      | error e => exact (next_admit_error hstep).1
    rw [hplace] at hadmission
    exact absurd hadmission (by simp)
  | finish index outcome =>
    obtain ⟨-, rfl⟩ := next_finish hstep
    exact ⟨hplace, index, outcome, rfl⟩
  | receive index outcome =>
    have hreceive := (next_receive hstep).1
    rw [hplace] at hreceive
    exact absurd hreceive (by simp)

theorem next_learnsFailure {e : Event P} (hstep : s.next items workerLimit e = some t)
    (hlearns : s.learnsFailure e) : ∃ message, t.place = .returned (.error message) := by
  cases e with
  | admission index answer =>
    cases answer with
    | ok permit => exact hlearns.elim
    | error e =>
      obtain ⟨-, -, rfl⟩ := next_admit_error hstep
      have halone : s.activeWorkers = 0 := hlearns
      exact ⟨_, if_neg (by omega)⟩
  | finish index outcome => exact hlearns.elim
  | receive index outcome =>
    obtain ⟨-, rest, -, rfl⟩ := next_receive hstep
    cases outcome with
    | ok rows => exact hlearns.elim
    | error e => exact ⟨_, rfl⟩

/-- `admit` can be called, whatever it answers. -/
theorem Kept.can_be_admitted (h : Kept items workerLimit labels s) (hplace : s.place = .admission)
    (answer : Except String P) :
    ∃ t, s.next items workerLimit (.admission s.nextItem answer) = some t := by
  have hat := h.place
  rw [hplace] at hat
  have hitem := List.getElem?_eq_getElem hat.2.1
  unfold Executor.next
  simp only [hplace, hitem]
  rw [if_neg (by simp)]
  cases answer with
  | ok permit => exact ⟨_, rfl⟩
  | error e =>
    dsimp only
    split
    · exact ⟨_, rfl⟩
    · exact ⟨_, rfl⟩

variable (items workerLimit) in
/-- A completion on the channel can be taken. -/
theorem can_receive (hplace : s.place = .receive) {c : ℕ × Except String ℕ}
    {rest : List (ℕ × Except String ℕ)} (hchannel : s.channel = c :: rest) :
    ∃ t, s.next items workerLimit (.receive c.1 c.2) = some t := by
  unfold Executor.next
  simp only [hplace, hchannel]
  exact ⟨_, if_pos ⟨trivial, trivial⟩⟩

variable (items workerLimit) in
/-- A running worker can be done, in every way. -/
theorem can_finish {w : Worker T P} (hw : w ∈ s.workers) (outcome : Outcome) :
    ∃ t, s.next items workerLimit (.finish w.index outcome) = some t :=
  ⟨_, if_pos (List.any_eq_true.mpr ⟨w, hw, by simp⟩)⟩

/-- Where nothing can happen any more, the executor has returned and its workers are joined. -/
theorem Kept.stops (h : Kept items workerLimit labels s)
    (hstuck : ∀ e t, s.next items workerLimit e ≠ some t) :
    ∃ result, s.place = .returned result ∧ s.workers = [] := by
  have hworkers : s.workers = [] := by
    refine List.eq_nil_iff_forall_not_mem.mpr fun w hw => ?_
    obtain ⟨t, ht⟩ := can_finish items workerLimit hw .panicked
    exact hstuck _ _ ht
  cases hplace : s.place with
  | admission =>
    obtain ⟨t, ht⟩ := h.can_be_admitted hplace (.error "")
    exact absurd ht (hstuck _ _)
  | receive =>
    have hat := h.place
    rw [hplace] at hat
    have hactive := hat.1.active
    have hpos := hat.2
    -- somebody is active, nobody runs: a completion waits
    cases hchannel : s.channel with
    | nil =>
      rw [hworkers, hchannel] at hactive
      simp only [List.length_nil] at hactive
      omega
    | cons c rest =>
      obtain ⟨t, ht⟩ := can_receive items workerLimit hplace hchannel
      exact absurd ht (hstuck _ _)
  | returned result => exact ⟨result, rfl, hworkers⟩

theorem Kept.length_le (h : Kept items workerLimit labels s) :
    labels.length ≤ 4 * items.length + 1 := by
  have hsteps := h.steps
  have hcredit := s.place.credit_le
  have hbound := h.bound
  have hfifo := congrArg List.length h.fifo
  have honce := h.once.length_eq
  simp only [List.length_append, List.length_map, List.length_range] at hfifo honce
  omega

variable (items workerLimit labels s) in
/-- What the executor promises of a run and of the state it ends in. -/
structure Executes : Prop where
  /-- It waits on the channel only while a worker is active. -/
  waits : s.place = .receive →
    0 < s.activeWorkers ∧ s.activeWorkers = s.workers.length + s.channel.length
  bounded : s.workers.length + s.channel.length ≤ workerLimit
  /-- Items are dispatched in index order, each once. -/
  inOrder : dispatched labels = List.range s.nextItem ∧ s.nextItem ≤ items.length
  own : ∀ w ∈ s.workers, items[w.index]? = some w.item
  exact : ∀ result n rows, s.place = .returned result →
    (result = .ok (n, rows) ↔ AllCompleted items labels ∧ finishedRows labels ≤ u64Max ∧
      n = items.length ∧ rows = finishedRows labels)
  cause : ∀ message, s.place = .returned (.error message) → GivenUp items labels s message
  prompt : ∀ e t, (executeBounded items workerLimit).step s e t → s.learnsFailure e →
    ∃ message, t.place = .returned (.error message)
  final : ∀ result e t, s.place = .returned result →
    (executeBounded items workerLimit).step s e t →
    t.place = .returned result ∧ ∃ index outcome, e = .finish index outcome
  /-- No run goes on for longer than this. -/
  terminates : labels.length ≤ 4 * items.length + 1
  /-- A run that cannot go on has returned, and has joined its workers. -/
  stops : (∀ e t, ¬ (executeBounded items workerLimit).step s e t) →
    ∃ result, s.place = .returned result ∧ s.workers = []
  admits : s.place = .admission → ∀ answer, ∃ t,
    (executeBounded items workerLimit).step s (.admission s.nextItem answer) t
  takes : s.place = .receive → ∀ c rest, s.channel = c :: rest → ∃ t,
    (executeBounded items workerLimit).step s (.receive c.1 c.2) t

end Kept

/-- **The bounded executor**, along every run: for all answers of `admit`, all orders of
completion and all ways in which the workers end. -/
theorem boundedExecutor {items : List T} {workerLimit : ℕ}
    (hlimit : 1 ≤ workerLimit ∧ workerLimit ≤ maxSourceWindowSize)
    (hlength : items.length ≤ u64Max) {labels : List (Event P)} {s : Executor T P}
    (hrun : (executeBounded items workerLimit).Run (.start items workerLimit) labels s) :
    Executes items workerLimit labels s := by
  have h := executor_keeps hlimit hlength hrun
  have hat := h.place
  constructor
  case waits =>
    intro hplace
    rw [hplace] at hat
    exact ⟨hat.2, hat.1.active⟩
  case bounded => exact h.limited
  case inOrder => exact ⟨h.order, h.bound⟩
  case own => exact h.own
  case exact =>
    intro result n rows hplace
    constructor
    · rintro rfl
      exact h.returned_ok hplace
    · rintro ⟨hall, hfits, rfl, rfl⟩
      cases result with
      | error message =>
        rw [hplace] at hat
        exact absurd hat (h.not_givenUp hall hfits)
      | ok result =>
        obtain ⟨-, -, hn, hrows⟩ := h.returned_ok hplace
        rw [← hn, ← hrows]
  case cause =>
    intro message hplace
    rw [hplace] at hat
    exact hat
  case prompt => exact fun e t hstep => next_learnsFailure hstep
  case final => exact fun result e t hplace hstep => next_returned hplace hstep
  case terminates => exact h.length_le
  case stops => exact fun hstuck => h.stops fun e t => hstuck e t
  case admits => exact fun hplace answer => h.can_be_admitted hplace answer
  case takes => exact fun hplace c rest hchannel => can_receive _ _ hplace hchannel

/-- A count that is returned without an error passes the caller's check. -/
theorem ensurePendingSourcesCompleted_of_returned {items : List T} {workerLimit : ℕ}
    (hlimit : 1 ≤ workerLimit ∧ workerLimit ≤ maxSourceWindowSize)
    (hlength : items.length ≤ u64Max) {labels : List (Event P)} {s : Executor T P}
    (hrun : (executeBounded items workerLimit).Run (.start items workerLimit) labels s)
    {completed rows : ℕ} (hplace : s.place = .returned (.ok (completed, rows))) :
    ensurePendingSourcesCompleted completed items.length = .ok () := by
  obtain ⟨-, -, hcompleted, -⟩ := (executor_keeps hlimit hlength hrun).returned_ok hplace
  exact ensure_eq_ok.mpr hcompleted

/-- Two items on two workers, done in the other order. -/
theorem boundedExecutor_twoItems : ∃ s : Executor Unit Unit,
    Executes [(), ()] 2 [.admission 0 (.ok ()), .admission 1 (.ok ()), .finish 1 (.ok 5),
      .receive 1 (.ok 5), .finish 0 (.ok 7), .receive 0 (.ok 7)] s ∧
    s.place = .returned (.ok (2, 12)) :=
  ⟨⟨2, 0, 2, 12, [], [], .returned (.ok (2, 12))⟩,
    boundedExecutor (by decide) (by decide) (System.run_of_foldlM (fun _ _ _ h => h) rfl), rfl⟩

/-- Items that all completed, with more rows than can be counted; and an item dispatched
after a worker has failed. -/
theorem completed_without_ok :
    (∃ (labels : List (Event Unit)) (s : Executor Unit Unit),
      (executeBounded [(), ()] 2).Run (.start [(), ()] 2) labels s ∧
      AllCompleted [(), ()] labels ∧
      s.place = .returned (.error "snapshot ingest row count overflow")) ∧
    (∃ (labels : List (Event Unit)) (s t : Executor Unit Unit),
      (executeBounded [(), ()] 2).Run (.start [(), ()] 2) labels s ∧
      (0, .err "fetch failed") ∈ finished labels ∧
      (executeBounded [(), ()] 2).step s (.admission 1 (.ok ())) t ∧
      t.workers.map Worker.index = [1]) := by
  constructor
  · refine ⟨[.admission 0 (.ok ()), .admission 1 (.ok ()), .finish 0 (.ok u64Max),
      .finish 1 (.ok 1),
      .receive 0 (.ok u64Max), .receive 1 (.ok 1)],
      ⟨2, 0, 2, u64Max, [], [], .returned (.error "snapshot ingest row count overflow")⟩,
      System.run_of_foldlM (fun _ _ _ h => h) rfl, fun i hi => ?_, rfl⟩
    have hcases : i = 0 ∨ i = 1 := by
      simp only [List.length_cons, List.length_nil] at hi
      omega
    rcases hcases with rfl | rfl
    · exact ⟨u64Max, by simp [finished]⟩
    · exact ⟨1, by simp [finished]⟩
  · refine ⟨[.admission 0 (.ok ()), .finish 0 (.err "fetch failed")],
      ⟨1, 1, 0, 0, [], [(0, .error "fetch failed")], .admission⟩,
      ⟨2, 2, 0, 0, [⟨1, (), ()⟩], [(0, .error "fetch failed")], .receive⟩,
      System.run_of_foldlM (fun _ _ _ h => h) rfl, by simp [finished], rfl, rfl⟩

end WikiEcon.Ingest
