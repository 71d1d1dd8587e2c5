import WikiEcon.Fleet.Recovery

/-!
# The retry budget

Operations run to their ends, one after another, all with the same retry limit.
`RetryLaw` is what a task may expect of such a run: its attempts are counted up,
it is claimed no more often than the limit between two deferrals, it is gone for
good once it is quarantined, and a delay it was given is waited for.

Failures, deferrals and recovery keep to it. Discovery does not look at the past of
a task before it writes a fresh record, and recovery inside discovery and claiming
goes by a limit of its own. `Fresh` says when neither shows, and `retries_kept` that
the law then holds of every run. `Move` is all that can become of one wiki's record
and lease, `Kept` what a run remembers of one task.
-/

namespace WikiEcon.Fleet

open Programs Program Transition

/-! ## Runs -/

/-- An operation that was run to its end. -/
structure Round where
  op : Operation
  result : Except Failure Outcome
  before : Queue
  after : Queue

/-- The claim that was handed out. -/
def Round.claim (r : Round) : Option FleetClaim :=
  match r.result with
  | .ok (.claimed claim) => claim
  | _ => none

inductive Entry
  | ran (round : Round)
  | tick (seconds : ℕ)
  | publishReady (path : String) (index : Option ReadyIndex)

def rounds (entries : List Entry) : List Round :=
  entries.filterMap fun
    | .ran r => some r
    | _ => none

/-- The operations that are given a retry limit are given this one. -/
def Operation.HasLimit (op : Operation) (maxAttempts : ℕ) : Prop :=
  match op with
  | .fail _ _ limit => limit = maxAttempts
  | .recoverStale limit => limit = maxAttempts
  | _ => True

def Session.plays (host : Host) (maxAttempts : ℕ) (s : Session) : Entry → Session → Prop
  | .ran r, t => s.mayRun r.op ∧ r.op.HasLimit maxAttempts ∧ r.before = s.store ∧
      (r.op.program host).run (Queue.perform host) s.store = (r.result, r.after) ∧
      t = ⟨r.after, r.claim.toList ++ s.receipts⟩
  | .tick seconds, t => t = { s with store := { s.store with clock := s.store.clock + seconds } }
  | .publishReady path index, t => t = { s with store := { s.store with
      records := Function.update s.store.records (.readyIndex path) index } }

/-- All runs from an empty queue. -/
def retries (host : Host) (maxAttempts : ℕ) : System Session Entry where
  init s := (sessions host).init s ∧
    ∀ record, (∀ path, record ≠ .readyIndex path) → s.store.records record = none
  step := Session.plays host maxAttempts

/-! ## What a task may expect -/

def Round.claims (r : Round) (wiki taskId : String) : Bool :=
  r.claim.any fun claim => claim.task.wiki = wiki ∧ claim.task.taskId = taskId

def Round.defers (r : Round) (wiki taskId : String) : Bool :=
  match r.op, r.result with
  | .defer held _ _, .ok _ => held.task.wiki = wiki ∧ held.task.taskId = taskId
  | _, _ => false

def Operation.enqueues (op : Operation) (wiki : String) : Bool :=
  match op with
  | .enqueue w .. => w = wiki
  | _ => false

/-- The round put the record there, and not as discovery does. -/
def Round.putsBack (r : Round) (wiki : String) (task : FleetTask) : Prop :=
  r.after.pending.lookup wiki = some task ∧ r.before.pending.lookup wiki ≠ some task ∧
    r.op.enqueues wiki = false

/-- A task is known by its wiki and its identity, as its documents are. -/
structure RetryLaw (maxAttempts : ℕ) (rs : List Round) : Prop where
  attempts : ∀ a b, [a, b].Sublist rs → ∀ wiki task task',
    a.after.pending.lookup wiki = some task → b.after.pending.lookup wiki = some task' →
      task.taskId = task'.taskId → task.attempt ≤ task'.attempt
  budget : ∀ mid, mid <:+: rs → ∀ wiki taskId, (∀ r ∈ mid, r.defers wiki taskId = false) →
    mid.countP (·.claims wiki taskId) ≤ maxAttempts
  gone : ∀ r ∈ rs, ∀ wiki taskId, Quarantined r.after wiki taskId → ¬ Pends r.after wiki taskId
  quarantined : ∀ a b, [a, b].Sublist rs → ∀ wiki taskId, Quarantined a.after wiki taskId →
    ¬ Pends b.after wiki taskId ∧ b.claims wiki taskId = false
  backoff : ∀ a b, [a, b].Sublist rs → ∀ wiki task claim, a.putsBack wiki task →
    b.claim = some claim → claim.task.wiki = wiki → claim.task.taskId = task.taskId →
      task.notBeforeUnix ≤ claim.claimedAtUnix

/-! ## Fresh rounds -/

/-- A document of the task's past. -/
def Traced (q : Queue) (wiki taskId : String) : Prop :=
  (q.records (.completed wiki taskId)).isSome ∨ Quarantined q wiki taskId ∨
    (∃ attempt, (q.records (.failure wiki taskId attempt)).isSome) ∨
    ∃ now, (q.records (.deferred wiki taskId now)).isSome

/-- Discovery of the task would not make its past forgotten: the task is done, or
pending as discovery wrote it, or has no past. -/
def FreshTask (q : Queue) (wiki taskId snapshot : String) : Prop :=
  Evident q wiki taskId snapshot ∨
    (∃ task, q.pending.lookup wiki = some task ∧ task.taskId = taskId ∧ task.attempt = 0 ∧
      task.notBeforeUnix ≤ q.clock) ∨ ¬ Traced q wiki taskId

/-- The same, unless the wiki is leased and discovery stops there. -/
def FreshAt (q : Queue) (wiki taskId snapshot : String) : Prop :=
  (∃ claim, q.ownerOf wiki = some claim ∧ isExpired claim q.clock = false) ∨
    (q.leases.lookup wiki = none ∧ FreshTask q wiki taskId snapshot)

/-- The limit recovery has in discovery and claiming gives no claim another attempt
that the run's limit does not. -/
def SparesLeases (q : Queue) (maxAttempts : ℕ) : Prop :=
  ∀ wiki claim, Expired q q.clock wiki claim → claim.task.attempt + 1 ≥ maxAttempts →
    claim.task.attempt + 1 ≥ defaultMaxAttempts

/-- A lease that seems to be the worker's is about the record the worker was given:
no digest has come up twice. -/
def KnowsLease (q : Queue) (held : FleetClaim) : Prop :=
  ∀ owner, q.ownerOf held.task.wiki = some owner → owner.leaseId = held.leaseId →
    owner.workerId = held.workerId → owner.task.taskId = held.task.taskId →
      owner.task = held.task

def Fresh (host : Host) (maxAttempts : ℕ) (s : Session) : Entry → Prop
  | .ran r =>
    match r.op with
    | .enqueue wiki snapshot .. =>
      FreshAt s.store wiki (taskIdentity host wiki snapshot) snapshot ∧
        SparesLeases s.store maxAttempts
    | .claim .. => SparesLeases s.store maxAttempts
    | op => ∀ held ∈ op.held, KnowsLease s.store held
  | _ => True

/-- The runs of fresh rounds. -/
def freshRetries (host : Host) (maxAttempts : ℕ) : System Session Entry where
  init := (retries host maxAttempts).init
  step s e t := s.plays host maxAttempts e t ∧ Fresh host maxAttempts s e

/-! ## What can become of a wiki -/

/-- The documents of the queue stay. Ready indexes are not its own. -/
structure Grows (q q' : Queue) : Prop where
  kept : ∀ record, (∀ path, record ≠ .readyIndex path) → (q.records record).isSome →
    (q'.records record).isSome
  clock : q.clock ≤ q'.clock

theorem Grows.refl (q : Queue) : Grows q q := ⟨fun _ _ h => h, le_rfl⟩

theorem Grows.trans {q q' q'' : Queue} (h : Grows q q') (h' : Grows q' q'') : Grows q q'' :=
  ⟨fun record hrecord hthere => h'.kept record hrecord (h.kept record hrecord hthere),
    h.clock.trans h'.clock⟩

theorem Grows.quarantined {q q' : Queue} (h : Grows q q') {wiki taskId : String}
    (hquarantined : Quarantined q wiki taskId) : Quarantined q' wiki taskId := by
  obtain ⟨attempt, hattempt⟩ := hquarantined
  exact ⟨attempt, h.kept _ (by simp) hattempt⟩

theorem Grows.traced {q q' : Queue} (h : Grows q q') {wiki taskId : String}
    (htraced : Traced q wiki taskId) : Traced q' wiki taskId := by
  rcases htraced with hdone | hdone | ⟨attempt, hdone⟩ | ⟨now, hdone⟩
  · exact Or.inl (h.kept _ (by simp) hdone)
  · exact Or.inr (Or.inl (h.quarantined hdone))
  · exact Or.inr (Or.inr (Or.inl ⟨attempt, h.kept _ (by simp) hdone⟩))
  · exact Or.inr (Or.inr (Or.inr ⟨now, h.kept _ (by simp) hdone⟩))

/-- No task of the wiki is newly quarantined. -/
def SparesTasks (wiki : String) (q q' : Queue) : Prop :=
  ∀ taskId, Quarantined q' wiki taskId → Quarantined q wiki taskId

/-- One thing that can happen to the lease and the pending record of a wiki, without
a claim; `discovers` says whether discovery was asked for it. -/
inductive Move (maxAttempts : ℕ) (discovers : Prop) (wiki : String) (q q' : Queue) : Prop
  | stay (hleases : q'.leases.lookup wiki = q.leases.lookup wiki)
      (hpending : q'.pending.lookup wiki = q.pending.lookup wiki) (hspares : SparesTasks wiki q q')
  | putBack (claim : FleetClaim) (task : FleetTask) (howner : q.ownerOf wiki = some claim)
      (hid : task.taskId = claim.task.taskId)
      (hattempt : task.attempt = claim.task.attempt + 1 ∧ task.attempt < maxAttempts)
      (hleases : q'.leases.lookup wiki = none) (hpending : q'.pending.lookup wiki = some task)
      (htraced : Traced q' wiki task.taskId) (hspares : SparesTasks wiki q q')
  | finish (claim : FleetClaim) (howner : q.ownerOf wiki = some claim)
      (hleases : q'.leases.lookup wiki = none) (hpending : q'.pending.lookup wiki = none)
      (htraced : Traced q' wiki claim.task.taskId)
  | enqueue (task : FleetTask) (hdiscovers : discovers) (hfree : q.leases.lookup wiki = none)
      (hleases : q'.leases.lookup wiki = none) (hattempt : task.attempt = 0)
      (hpending : q'.pending.lookup wiki = some task)
      (hfresh : (∃ existing, q.pending.lookup wiki = some existing ∧
          existing.taskId = task.taskId ∧ existing.attempt = 0 ∧
          existing.notBeforeUnix ≤ q.clock) ∨ ¬ Traced q wiki task.taskId)
      (hspares : SparesTasks wiki q q')

/-- A deferral: the claim is given back with the attempt it had. -/
structure Deferral (wiki : String) (claim : FleetClaim) (task : FleetTask) (q q' : Queue) :
    Prop where
  owner : q.ownerOf wiki = some claim
  taskId : task.taskId = claim.task.taskId
  attempt : task.attempt = claim.task.attempt
  leases : q'.leases.lookup wiki = none
  pending : q'.pending.lookup wiki = some task
  traced : Traced q' wiki task.taskId
  spares : SparesTasks wiki q q'

/-- A claim: the pending record gets a lease. -/
structure Claiming (wiki : String) (claim : FleetClaim) (q q' : Queue) : Prop where
  free : q.leases.lookup wiki = none
  owner : q'.leases.lookup wiki = some (some claim)
  pending : q.pending.lookup wiki = some claim.task
  same : q'.pending.lookup wiki = some claim.task
  due : claim.task.notBeforeUnix ≤ claim.claimedAtUnix
  now : claim.claimedAtUnix = q.clock
  spares : SparesTasks wiki q q'

/-- A lease is about the very record that is pending, and was due. -/
structure Orderly (q : Queue) : Prop where
  leased : ∀ wiki lease, q.leases.lookup wiki = some lease → ∃ claim, lease = some claim ∧
    q.pending.lookup wiki = some claim.task ∧ claim.task.notBeforeUnix ≤ q.clock

theorem Orderly.owned {q : Queue} (h : Orderly q) {wiki : String} {claim : FleetClaim}
    (howner : q.ownerOf wiki = some claim) :
    q.pending.lookup wiki = some claim.task ∧ claim.task.notBeforeUnix ≤ q.clock := by
  unfold Queue.ownerOf at howner
  obtain ⟨claim', hclaim', hpending⟩ := h.leased wiki _ (Option.join_eq_some_iff.mp howner)
  obtain rfl := Option.some.inj hclaim'
  exact hpending

theorem Move.leased {q q' : Queue} {maxAttempts : ℕ} {discovers : Prop} {wiki : String}
    (h : Move maxAttempts discovers wiki q q') (horderly : Orderly q) (hgrows : Grows q q')
    {lease : Option FleetClaim} (hlease : q'.leases.lookup wiki = some lease) :
    ∃ claim, lease = some claim ∧ q'.pending.lookup wiki = some claim.task ∧
      claim.task.notBeforeUnix ≤ q'.clock := by
  cases h with
  | stay hleases hpending =>
    obtain ⟨claim, hclaim, hthere, hdue⟩ := horderly.leased wiki lease (hleases.symm.trans hlease)
    exact ⟨claim, hclaim, hpending.trans hthere, hdue.trans hgrows.clock⟩
  | putBack _ _ _ _ _ hleases => exact absurd (hleases.symm.trans hlease) (by simp)
  | finish _ _ hleases => exact absurd (hleases.symm.trans hlease) (by simp)
  | enqueue _ _ _ hleases => exact absurd (hleases.symm.trans hlease) (by simp)

theorem Orderly.move {q q' : Queue} (h : Orderly q) (hgrows : Grows q q')
    {maxAttempts : ℕ} {discovers : String → Prop}
    (hmove : ∀ wiki, Move maxAttempts (discovers wiki) wiki q q') : Orderly q' :=
  ⟨fun wiki _ hlease => (hmove wiki).leased h hgrows hlease⟩

/-! ## What a run remembers of a task -/

/-- What holds of a task, given the rounds of the past. -/
structure Kept (maxAttempts : ℕ) (wiki taskId : String) (past : List Round) (q : Queue) :
    Prop where
  below : ∀ task, q.pending.lookup wiki = some task → task.attempt < maxAttempts
  traced : ∀ task, q.pending.lookup wiki = some task → task.taskId = taskId → 0 < task.attempt →
    Traced q wiki taskId
  gone : Quarantined q wiki taskId → ¬ Pends q wiki taskId
  quarantined : ∀ r ∈ past, Quarantined r.after wiki taskId → Quarantined q wiki taskId
  attempts : ∀ r ∈ past, ∀ task, r.after.pending.lookup wiki = some task → task.taskId = taskId →
    (0 < task.attempt → Traced q wiki taskId) ∧ ∀ task', q.pending.lookup wiki = some task' →
      task'.taskId = taskId → task.attempt ≤ task'.attempt
  backoff : ∀ r ∈ past, ∀ task, r.putsBack wiki task → task.taskId = taskId →
    Traced q wiki taskId ∧ ∀ task', q.pending.lookup wiki = some task' → task'.taskId = taskId →
      task.notBeforeUnix ≤ task'.notBeforeUnix ∨ task.notBeforeUnix ≤ q.clock

/-- How often it was claimed since it was last deferred. -/
structure Budgeted (maxAttempts : ℕ) (wiki taskId : String) (past : List Round) (q : Queue) :
    Prop where
  budget : ∀ recent, recent <:+ past → (∀ r ∈ recent, r.defers wiki taskId = false) →
    recent.countP (·.claims wiki taskId) ≤ maxAttempts
  spent : ∀ recent, recent <:+ past → (∀ r ∈ recent, r.defers wiki taskId = false) →
    0 < recent.countP (·.claims wiki taskId) →
      (∃ claim, q.ownerOf wiki = some claim ∧ claim.task.taskId = taskId) ∨ Traced q wiki taskId
  waiting : ∀ recent, recent <:+ past → (∀ r ∈ recent, r.defers wiki taskId = false) →
    ∀ task, q.pending.lookup wiki = some task → task.taskId = taskId →
      recent.countP (·.claims wiki taskId)
        ≤ task.attempt + if (q.ownerOf wiki).isSome then 1 else 0

section Kept

variable {maxAttempts : ℕ} {wiki taskId : String} {past : List Round} {q q' : Queue}

theorem Queue.ownerOf_of_free (h : q.leases.lookup wiki = none) : q.ownerOf wiki = none := by
  unfold Queue.ownerOf
  rw [h]
  rfl

theorem Kept.move {discovers : Prop} (h : Kept maxAttempts wiki taskId past q)
    (horderly : Orderly q) (hgrows : Grows q q') (hpositive : 0 < maxAttempts)
    (hmove : Move maxAttempts discovers wiki q q') : Kept maxAttempts wiki taskId past q' := by
  have hquarantined : ∀ r ∈ past, Quarantined r.after wiki taskId → Quarantined q' wiki taskId :=
    fun r hr hwas => hgrows.quarantined (h.quarantined r hr hwas)
  cases hmove with
  | stay hleases hpending hspares =>
    -- The wiki has the same task as before; only the clock and the records grow.
    refine ⟨fun task htask => h.below task (hpending.symm.trans htask),
      fun task htask hid hpos => hgrows.traced (h.traced task (hpending.symm.trans htask) hid hpos),
      fun hnew hpends => ?_, hquarantined, fun r hr task htask hid => ?_,
      fun r hr task hback hid => ?_⟩
    · obtain ⟨task, htask, hid⟩ := hpends
      exact h.gone (hspares _ hnew) ⟨task, hpending.symm.trans htask, hid⟩
    · obtain ⟨htraced, hle⟩ := h.attempts r hr task htask hid
      exact ⟨fun hpos => hgrows.traced (htraced hpos), fun task' htask' =>
        hle task' (hpending.symm.trans htask')⟩
    · obtain ⟨htraced, hle⟩ := h.backoff r hr task hback hid
      refine ⟨hgrows.traced htraced, fun task' htask' hid' => ?_⟩
      exact (hle task' (hpending.symm.trans htask') hid').imp_right (·.trans hgrows.clock)
  | putBack claim put howner hput hattempt hleases hpending hnowTraced hspares =>
    -- The task of the claim goes back with one attempt more, and its record is there by now.
    obtain ⟨hthere, hdue⟩ := horderly.owned howner
    refine ⟨fun task htask => ?_, fun task htask hid _ => ?_, fun hnew hpends => ?_,
      hquarantined, fun r hr task htask hid => ?_, fun r hr task hback hid => ?_⟩
    · rw [← Option.some.inj (hpending.symm.trans htask)]
      exact hattempt.2
    · rw [← hid, ← Option.some.inj (hpending.symm.trans htask)]
      exact hnowTraced
    · obtain ⟨task, htask, hid⟩ := hpends
      obtain rfl := Option.some.inj (hpending.symm.trans htask)
      exact h.gone (hspares _ hnew) ⟨claim.task, hthere, hput.symm.trans hid⟩
    · obtain ⟨htraced, hle⟩ := h.attempts r hr task htask hid
      refine ⟨fun hpos => hgrows.traced (htraced hpos), fun task' htask' hid' => ?_⟩
      obtain rfl := Option.some.inj (hpending.symm.trans htask')
      have hbefore := hle claim.task hthere (hput.symm.trans hid')
      omega
    · obtain ⟨htraced, hle⟩ := h.backoff r hr task hback hid
      refine ⟨hgrows.traced htraced, fun task' htask' hid' => Or.inr ?_⟩
      obtain rfl := Option.some.inj (hpending.symm.trans htask')
      refine le_trans ?_ hgrows.clock
      rcases hle claim.task hthere (hput.symm.trans hid') with hsooner | hnow
      · exact hsooner.trans hdue
      · exact hnow
  | finish claim howner hleases hpending hnowTraced =>
    -- Nothing is pending afterwards, so there is nothing to compare.
    have hnone : ∀ task, q'.pending.lookup wiki ≠ some task := fun task htask =>
      absurd (hpending.symm.trans htask) (by simp)
    refine ⟨fun task htask => absurd htask (hnone task),
      fun task htask => absurd htask (hnone task), fun _ hpends => ?_, hquarantined,
      fun r hr task htask hid =>
        ⟨fun hpos => hgrows.traced ((h.attempts r hr task htask hid).1 hpos),
        fun task' htask' => absurd htask' (hnone task')⟩,
      fun r hr task hback hid => ⟨hgrows.traced (h.backoff r hr task hback hid).1,
        fun task' htask' => absurd htask' (hnone task')⟩⟩
    obtain ⟨task, htask, -⟩ := hpends
    exact absurd htask (hnone task)
  | enqueue put _ hfree hleases hattempt hpending hfresh hspares =>
    -- A fresh task has no attempts yet: it renews the same task at zero attempts, or its identity
    -- was never traced.
    refine ⟨fun task htask => ?_, fun task htask _ hpos => ?_, fun hnew hpends => ?_,
      hquarantined, fun r hr task htask hid => ?_, fun r hr task hback hid => ?_⟩
    · rw [← Option.some.inj (hpending.symm.trans htask)]
      omega
    · rw [← Option.some.inj (hpending.symm.trans htask)] at hpos
      omega
    · obtain ⟨task, htask, hid⟩ := hpends
      obtain rfl := Option.some.inj (hpending.symm.trans htask)
      have hwas := hspares _ hnew
      rcases hfresh with ⟨existing, hexisting, hsame, -⟩ | hnot
      · exact h.gone hwas ⟨existing, hexisting, hsame.trans hid⟩
      · rw [hid] at hnot
        exact hnot (Or.inr (Or.inl hwas))
    · obtain ⟨htraced, hle⟩ := h.attempts r hr task htask hid
      refine ⟨fun hpos => hgrows.traced (htraced hpos), fun task' htask' hid' => ?_⟩
      obtain rfl := Option.some.inj (hpending.symm.trans htask')
      rcases hfresh with ⟨existing, hexisting, hsame, hzero, -⟩ | hnot
      · have hbefore := hle existing hexisting (hsame.trans hid')
        omega
      · by_contra hlt
        rw [hid'] at hnot
        exact hnot (htraced (by omega))
    · obtain ⟨htraced, hle⟩ := h.backoff r hr task hback hid
      refine ⟨hgrows.traced htraced, fun task' htask' hid' => ?_⟩
      obtain rfl := Option.some.inj (hpending.symm.trans htask')
      rcases hfresh with ⟨existing, hexisting, hsame, -, hnow⟩ | hnot
      · right
        refine le_trans ?_ hgrows.clock
        rcases hle existing hexisting (hsame.trans hid') with hsooner | hpast
        · exact hsooner.trans hnow
        · exact hpast
      · rw [hid'] at hnot
        exact absurd htraced hnot

theorem Budgeted.move {discovers : Prop} (h : Budgeted maxAttempts wiki taskId past q)
    (horderly : Orderly q) (hgrows : Grows q q')
    (hmove : Move maxAttempts discovers wiki q q') : Budgeted maxAttempts wiki taskId past q' := by
  cases hmove with
  | stay hleases hpending hspares =>
    have howner : q'.ownerOf wiki = q.ownerOf wiki := by
      unfold Queue.ownerOf
      rw [hleases]
    refine ⟨h.budget, fun recent hrecent hnone hpos => ?_,
      fun recent hrecent hnone task htask hid => ?_⟩
    · rw [howner]
      exact (h.spent recent hrecent hnone hpos).imp_right hgrows.traced
    · rw [howner]
      exact h.waiting recent hrecent hnone task (hpending.symm.trans htask) hid
  | putBack claim put howner hput hattempt hleases hpending hnowTraced hspares =>
    -- Until now the wiki was owned, which the bound allowed for by one.
    obtain ⟨hthere, -⟩ := horderly.owned howner
    refine ⟨h.budget, fun recent hrecent hnone hpos => Or.inr ?_,
      fun recent hrecent hnone task htask hid => ?_⟩
    · rcases h.spent recent hrecent hnone hpos with ⟨owner, howner', hid⟩ | htraced
      · obtain rfl := Option.some.inj (howner.symm.trans howner')
        rw [← hid, ← hput]
        exact hnowTraced
      · exact hgrows.traced htraced
    · obtain rfl := Option.some.inj (hpending.symm.trans htask)
      have hbefore := h.waiting recent hrecent hnone claim.task hthere (hput.symm.trans hid)
      rw [howner, Option.isSome_some, if_pos rfl] at hbefore
      rw [Queue.ownerOf_of_free hleases]
      simp only [Option.isSome_none, Bool.false_eq_true, if_false]
      omega
  | finish claim howner hleases hpending hnowTraced =>
    -- What was claimed is on record as done or quarantined.
    refine ⟨h.budget, fun recent hrecent hnone hpos => Or.inr ?_,
      fun recent hrecent hnone task htask => absurd (hpending.symm.trans htask) (by simp)⟩
    rcases h.spent recent hrecent hnone hpos with ⟨owner, howner', hid⟩ | htraced
    · obtain rfl := Option.some.inj (howner.symm.trans howner')
      rw [← hid]
      exact hnowTraced
    · exact hgrows.traced htraced
  | enqueue put _ hfree hleases hattempt hpending hfresh hspares =>
    -- No claim is under way; a renewed task keeps its count, a new one has never been traced.
    have hfreeOwner := Queue.ownerOf_of_free hfree
    refine ⟨h.budget, fun recent hrecent hnone hpos => Or.inr ?_,
      fun recent hrecent hnone task htask hid => ?_⟩
    · rcases h.spent recent hrecent hnone hpos with ⟨owner, howner, -⟩ | htraced
      · rw [hfreeOwner] at howner
        exact absurd howner (by simp)
      · exact hgrows.traced htraced
    · obtain rfl := Option.some.inj (hpending.symm.trans htask)
      rcases hfresh with ⟨existing, hexisting, hsame, hzero, -⟩ | hnot
      · have hbefore := h.waiting recent hrecent hnone existing hexisting (hsame.trans hid)
        rw [hfreeOwner] at hbefore
        simp only [Option.isSome_none, Bool.false_eq_true, if_false] at hbefore
        omega
      · by_contra hlt
        rcases h.spent recent hrecent hnone (by omega) with ⟨owner, howner, -⟩ | htraced
        · rw [hfreeOwner] at howner
          exact absurd howner (by simp)
        · rw [hid] at hnot
          exact hnot htraced

/-! ## The end of a round -/

theorem suffix_snoc {α : Type} {l past : List α} {a : α} (h : l <:+ past ++ [a]) :
    l = [] ∨ ∃ recent, l = recent ++ [a] ∧ recent <:+ past := by
  rcases List.eq_nil_or_concat l with rfl | ⟨recent, b, rfl⟩
  · exact Or.inl rfl
  · right
    obtain ⟨rest, hrest⟩ := h
    rw [List.concat_eq_append, ← List.append_assoc] at hrest
    obtain ⟨hpast, hb⟩ := List.append_inj' hrest rfl
    obtain rfl := List.singleton_inj.mp hb
    exact ⟨recent, List.concat_eq_append, rest, hpast⟩

variable {r : Round}

/-- A round is remembered. -/
theorem Kept.remember (h : Kept maxAttempts wiki taskId past q) (hafter : r.after = q)
    (hback : ∀ task, r.putsBack wiki task → task.taskId = taskId → Traced q wiki taskId) :
    Kept maxAttempts wiki taskId (past ++ [r]) q where
  below := h.below
  traced := h.traced
  gone := h.gone
  quarantined r' hr' hwas := by
    rcases List.mem_append.mp hr' with hr' | hr'
    · exact h.quarantined r' hr' hwas
    · rw [List.mem_singleton.mp hr', hafter] at hwas
      exact hwas
  attempts r' hr' task htask hid := by
    rcases List.mem_append.mp hr' with hr' | hr'
    · exact h.attempts r' hr' task htask hid
    · rw [List.mem_singleton.mp hr', hafter] at htask
      refine ⟨h.traced task htask hid, fun task' htask' _ => ?_⟩
      rw [Option.some.inj (htask.symm.trans htask')]
  backoff r' hr' task hput hid := by
    rcases List.mem_append.mp hr' with hr' | hr'
    · exact h.backoff r' hr' task hput hid
    · rw [List.mem_singleton.mp hr'] at hput
      refine ⟨hback task hput hid, fun task' htask' _ => Or.inl ?_⟩
      have htask := hput.1
      rw [hafter] at htask
      rw [Option.some.inj (htask.symm.trans htask')]

theorem Budgeted.remember (h : Budgeted maxAttempts wiki taskId past q)
    (hnot : r.claims wiki taskId = false) :
    Budgeted maxAttempts wiki taskId (past ++ [r]) q := by
  have hsame : ∀ l, l <:+ past ++ [r] → (∀ r ∈ l, r.defers wiki taskId = false) →
      ∃ recent, recent <:+ past ∧ (∀ r ∈ recent, r.defers wiki taskId = false) ∧
        l.countP (·.claims wiki taskId) = recent.countP (·.claims wiki taskId) := by
    intro l hl hnone
    rcases suffix_snoc hl with rfl | ⟨recent, rfl, hrecent⟩
    · exact ⟨[], List.nil_suffix, by simp, rfl⟩
    · refine ⟨recent, hrecent, fun r' hr' => hnone r' (List.mem_append_left _ hr'), ?_⟩
      rw [List.countP_append, List.countP_singleton, hnot]
      rfl
  refine ⟨fun l hl hnone => ?_, fun l hl hnone hpos => ?_, fun l hl hnone task htask hid => ?_⟩
  · obtain ⟨recent, hrecent, hnone, heq⟩ := hsame l hl hnone
    rw [heq]
    exact h.budget recent hrecent hnone
  · obtain ⟨recent, hrecent, hnone, heq⟩ := hsame l hl hnone
    rw [heq] at hpos
    exact h.spent recent hrecent hnone hpos
  · obtain ⟨recent, hrecent, hnone, heq⟩ := hsame l hl hnone
    rw [heq]
    exact h.waiting recent hrecent hnone task htask hid

theorem Kept.deferred {claim : FleetClaim} {put : FleetTask}
    (h : Kept maxAttempts wiki taskId past q) (horderly : Orderly q) (hgrows : Grows q q')
    (hdefer : Deferral wiki claim put q q') : Kept maxAttempts wiki taskId past q' := by
  obtain ⟨hthere, hdue⟩ := horderly.owned hdefer.owner
  refine ⟨fun task htask => ?_, fun task htask hid _ => ?_, fun hnew hpends => ?_,
    fun r hr hwas => hgrows.quarantined (h.quarantined r hr hwas),
    fun r hr task htask hid => ?_, fun r hr task hback hid => ?_⟩
  · rw [← Option.some.inj (hdefer.pending.symm.trans htask), hdefer.attempt]
    exact h.below claim.task hthere
  · rw [← hid, ← Option.some.inj (hdefer.pending.symm.trans htask)]
    exact hdefer.traced
  · obtain ⟨task, htask, hid⟩ := hpends
    obtain rfl := Option.some.inj (hdefer.pending.symm.trans htask)
    exact h.gone (hdefer.spares _ hnew) ⟨claim.task, hthere, hdefer.taskId.symm.trans hid⟩
  · obtain ⟨htraced, hle⟩ := h.attempts r hr task htask hid
    refine ⟨fun hpos => hgrows.traced (htraced hpos), fun task' htask' hid' => ?_⟩
    obtain rfl := Option.some.inj (hdefer.pending.symm.trans htask')
    rw [hdefer.attempt]
    exact hle claim.task hthere (hdefer.taskId.symm.trans hid')
  · obtain ⟨htraced, hle⟩ := h.backoff r hr task hback hid
    refine ⟨hgrows.traced htraced, fun task' htask' hid' => Or.inr ?_⟩
    obtain rfl := Option.some.inj (hdefer.pending.symm.trans htask')
    refine le_trans ?_ hgrows.clock
    rcases hle claim.task hthere (hdefer.taskId.symm.trans hid') with hsooner | hnow
    · exact hsooner.trans hdue
    · exact hnow

/-- A deferral lets the count begin anew. -/
theorem Budgeted.deferred {claim : FleetClaim} {put : FleetTask}
    (h : Budgeted maxAttempts wiki taskId past q) (hgrows : Grows q q')
    (hdefer : Deferral wiki claim put q q')
    (hround : claim.task.taskId = taskId → r.defers wiki taskId = true)
    (hnot : r.claims wiki taskId = false) :
    Budgeted maxAttempts wiki taskId (past ++ [r]) q' := by
  by_cases hid : claim.task.taskId = taskId
  · have hempty : ∀ l, l <:+ past ++ [r] → (∀ r ∈ l, r.defers wiki taskId = false) → l = [] := by
      intro l hl hnone
      rcases suffix_snoc hl with rfl | ⟨recent, rfl, -⟩
      · rfl
      · have hdefers := hnone r (List.mem_append_right _ (List.mem_singleton_self r))
        rw [hround hid] at hdefers
        exact absurd hdefers (by simp)
    refine ⟨fun l hl hnone => ?_, fun l hl hnone hpos => ?_, fun l hl hnone task _ _ => ?_⟩
    · rw [hempty l hl hnone]
      exact Nat.zero_le _
    · rw [hempty l hl hnone] at hpos
      exact absurd hpos (lt_irrefl 0)
    · rw [hempty l hl hnone]
      exact Nat.zero_le _
  · refine Budgeted.remember ⟨h.budget, fun recent hrecent hnone hpos => Or.inr ?_,
      fun recent hrecent hnone task htask hother => ?_⟩ hnot
    · rcases h.spent recent hrecent hnone hpos with ⟨owner, howner, hother⟩ | htraced
      · rw [← Option.some.inj (hdefer.owner.symm.trans howner)] at hother
        exact absurd hother hid
      · exact hgrows.traced htraced
    · rw [← Option.some.inj (hdefer.pending.symm.trans htask), hdefer.taskId] at hother
      exact absurd hother hid

theorem Kept.claimed {claim : FleetClaim} (h : Kept maxAttempts wiki taskId past q)
    (hgrows : Grows q q') (hclaim : Claiming wiki claim q q') :
    Kept maxAttempts wiki taskId past q' := by
  have hpending : q'.pending.lookup wiki = q.pending.lookup wiki :=
    hclaim.same.trans hclaim.pending.symm
  refine ⟨fun task htask => h.below task (hpending.symm.trans htask),
    fun task htask hid hpos => hgrows.traced (h.traced task (hpending.symm.trans htask) hid hpos),
    fun hnew hpends => ?_, fun r hr hwas => hgrows.quarantined (h.quarantined r hr hwas),
    fun r hr task htask hid => ?_, fun r hr task hback hid => ?_⟩
  · obtain ⟨task, htask, hid⟩ := hpends
    exact h.gone (hclaim.spares _ hnew) ⟨task, hpending.symm.trans htask, hid⟩
  · obtain ⟨htraced, hle⟩ := h.attempts r hr task htask hid
    exact ⟨fun hpos => hgrows.traced (htraced hpos), fun task' htask' =>
      hle task' (hpending.symm.trans htask')⟩
  · obtain ⟨htraced, hle⟩ := h.backoff r hr task hback hid
    refine ⟨hgrows.traced htraced, fun task' htask' hid' => ?_⟩
    exact (hle task' (hpending.symm.trans htask') hid').imp_right (·.trans hgrows.clock)

/-- A claim uses up the attempt that was waiting. -/
theorem Budgeted.claimed {claim : FleetClaim} (h : Budgeted maxAttempts wiki taskId past q)
    (hkept : Kept maxAttempts wiki taskId past q) (hgrows : Grows q q')
    (hclaim : Claiming wiki claim q q')
    (hround : r.claims wiki taskId = true → claim.task.taskId = taskId) :
    Budgeted maxAttempts wiki taskId (past ++ [r]) q' := by
  have hfree := Queue.ownerOf_of_free hclaim.free
  have howner : q'.ownerOf wiki = some claim := by
    unfold Queue.ownerOf
    rw [hclaim.owner]
    rfl
  by_cases hid : claim.task.taskId = taskId
  · have hcount : ∀ l, l <:+ past ++ [r] → (∀ r ∈ l, r.defers wiki taskId = false) →
        l.countP (·.claims wiki taskId) ≤ claim.task.attempt + 1 := by
      intro l hl hnone
      rcases suffix_snoc hl with rfl | ⟨recent, rfl, hrecent⟩
      · exact Nat.zero_le _
      · have hbefore := h.waiting recent hrecent
          (fun r' hr' => hnone r' (List.mem_append_left _ hr')) claim.task hclaim.pending hid
        rw [hfree] at hbefore
        simp only [Option.isSome_none, Bool.false_eq_true, if_false] at hbefore
        rw [List.countP_append, List.countP_singleton]
        split <;> omega
    refine ⟨fun l hl hnone => ?_, fun l hl hnone _ => Or.inl ⟨claim, howner, hid⟩,
      fun l hl hnone task htask _ => ?_⟩
    · have hbelow := hkept.below claim.task hclaim.pending
      have hle := hcount l hl hnone
      omega
    · rw [← Option.some.inj (hclaim.same.symm.trans htask), howner]
      simp only [Option.isSome_some, if_true]
      exact hcount l hl hnone
  · have hnot : r.claims wiki taskId = false := by
      cases hclaims : r.claims wiki taskId with
      | false => rfl
      | true => exact absurd (hround hclaims) hid
    refine Budgeted.remember ⟨h.budget, fun recent hrecent hnone hpos => Or.inr ?_,
      fun recent hrecent hnone task htask hother => ?_⟩ hnot
    · rcases h.spent recent hrecent hnone hpos with ⟨owner, howner', -⟩ | htraced
      · rw [hfree] at howner'
        exact absurd howner' (by simp)
      · exact hgrows.traced htraced
    · rw [← Option.some.inj (hclaim.same.symm.trans htask)] at hother
      exact absurd hother hid

end Kept

end WikiEcon.Fleet
