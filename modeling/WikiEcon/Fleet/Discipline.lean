import WikiEcon.Fleet.Operations

/-!
# What a process of the fleet knows when it acts

Processes share nothing but the queue, so what a process does can only rest on
what it has been answered. `Knowledge` is what it takes away from its calls, and
`Allowed` says which calls it makes knowing what: a lease is removed by the worker
it was given to, or by one that read an owner whose heartbeat had expired; a
pending record is written under a lease, or by discovery after it found none; and
so on. `Operation.follows` proves that of every operation, whatever it is
answered, so it holds in any interleaving.
-/

namespace WikiEcon.Fleet

open Programs Program

/-! ## Knowledge -/

/-- What a process last found out about a lease. -/
inductive Sighting
  | free
  | ownerless
  | made
  | owned (claim : FleetClaim)
  deriving DecidableEq

structure Knowledge where
  now : Option ℕ := none
  lease : String → Option Sighting := fun _ => none
  /-- The owner the very last call read, or wrote. -/
  justRead : Option (String × FleetClaim) := none
  justWrote : Option (String × FleetClaim) := none
  pending : String → Option (Option FleetTask) := fun _ => none
  listed : List FleetTask := []
  /-- The wiki the process has begun to change and not finished with. -/
  within : Option String := none
  /-- The wiki whose pending record it has changed and whose lease it has not yet
  removed. -/
  took : Option String := none
  written : List Record := []

namespace Knowledge

def see (k : Knowledge) (wiki : String) (sighting : Sighting) : Knowledge :=
  { k with lease := Function.update k.lease wiki (some sighting) }

@[simp] theorem see_self (k : Knowledge) (wiki : String) (sighting : Sighting) :
    (k.see wiki sighting).lease wiki = some sighting := Function.update_self ..

theorem see_of_ne {k : Knowledge} {wiki wiki' : String} {sighting : Sighting} (h : wiki' ≠ wiki) :
    (k.see wiki sighting).lease wiki' = k.lease wiki' := Function.update_of_ne h ..

def find (k : Knowledge) (wiki : String) (task : Option FleetTask) : Knowledge :=
  { k with pending := Function.update k.pending wiki (some task) }

def enter (k : Knowledge) (wiki : String) : Knowledge := { k with within := some wiki }

def take (k : Knowledge) (wiki : String) : Knowledge :=
  { k with within := some wiki, took := some wiki }

def leave (k : Knowledge) : Knowledge := { k with within := none, took := none }

/-- What a record that was written begins. -/
def note (k : Knowledge) (record : Record) : Knowledge :=
  { k with
    written := record :: k.written
    within := match record with
      | .completed wiki _ => some wiki
      | _ => k.within }

/-- What a call teaches for longer than a moment. -/
def learnCall (k : Knowledge) : (c : Call) → c.Answer → Knowledge
  | .nowUnix, now => { k with now := some now }
  | .readLeases, _ => k
  | .isLeaseDir _, true => k
  | .isLeaseDir wiki, false => k.see wiki .free
  | .readOwner wiki, .ok claim => k.see wiki (.owned claim)
  | .readOwner wiki, .error _ => k.see wiki .ownerless
  | .writeOwner wiki claim, .ok _ => { k.see wiki (.owned claim) with within := none }
  | .writeOwner _ _, .error _ => k
  | .createLease wiki, true => (k.see wiki .made).enter wiki
  | .createLease _, false => k
  | .removeLease wiki, .ok _ => (k.see wiki .free).leave
  | .removeLease _, .error _ => k.leave
  | .renameLease wiki _, .ok _ => k.see wiki .free
  | .renameLease _ _, .error _ => k
  | .readPendingDir, _ => k
  | .isPending _, true => k
  | .isPending wiki, false => k.find wiki none
  | .readPending wiki, .ok task => { k.find wiki (some task) with listed := task :: k.listed }
  | .readPending _, .error _ => k
  | .writePending wiki task, .ok _ => (k.find wiki (some task)).take wiki
  | .writePending _ _, .error _ => k
  | .removePending wiki, .ok _ => (k.find wiki none).take wiki
  | .removePending _, .error _ => k
  | .isRecord _, _ => k
  | .readRecord _, _ => k
  | .writeRecord record _, .ok _ => k.note record
  | .writeRecord _ _, .error _ => k

/-- The owner a call has read. -/
def ownerRead : (c : Call) → c.Answer → Option (String × FleetClaim)
  | .readOwner wiki, .ok claim => some (wiki, claim)
  | _, _ => none

/-- The owner a call has written. -/
def ownerWritten : (c : Call) → c.Answer → Option (String × FleetClaim)
  | .writeOwner wiki claim, .ok _ => some (wiki, claim)
  | _, _ => none

def learn (k : Knowledge) (c : Call) (answer : c.Answer) : Knowledge :=
  { k.learnCall c answer with
    justRead := ownerRead c answer
    justWrote := ownerWritten c answer }

end Knowledge

/-! ## Rules -/

/-- The claim a worker's operation is about. -/
def Operation.held : Operation → Option FleetClaim
  | .heartbeat held => some held
  | .complete held _ => some held
  | .fail held _ _ => some held
  | .defer held _ _ => some held
  | _ => none

section Rules

variable (host : Host) (op : Operation)

/-- The process may end this claim: it is its own, or it read it and saw it
expired. -/
def Entitled (k : Knowledge) (claim : FleetClaim) : Prop :=
  match op.held with
  | some held => claim = held
  | none => k.lease claim.task.wiki = some (.owned claim) ∧
    ∃ now, k.now = some now ∧ isExpired claim now = true

/-- The claim the process acts under at a wiki: its own, or the one it read. -/
def actsUnder (k : Knowledge) (wiki : String) : Option FleetClaim :=
  match op.held, k.lease wiki with
  | some held, _ => some held
  | none, some (.owned claim) => some claim
  | none, _ => none

/-- Discovery replaces no task before it is archived. -/
def Discovers (k : Knowledge) (wiki : String) (task : FleetTask) : Prop :=
  k.lease wiki = some .free ∧ (k.pending wiki = some none ∨ ∃ existing,
    k.pending wiki = some (some existing) ∧ (existing.taskId = task.taskId ∨
      Record.superseded existing.wiki existing.taskId ∈ k.written))

/-- A claim as `claim_at` makes it. -/
structure IsNew (k : Knowledge) (wiki : String) (claim : FleetClaim) : Prop where
  made : k.lease wiki = some .made
  within : k.within = some wiki
  wiki : claim.task.wiki = wiki
  listed : claim.task ∈ k.listed
  valid : (claim.validate host).isOk = true
  now : k.now = some claim.claimedAtUnix
  heartbeat : claim.heartbeatAtUnix = claim.claimedAtUnix

/-- Which calls the process makes knowing what. -/
def Allowed (k : Knowledge) : Call → Prop
  | .nowUnix => op.held = none → ∀ wiki, k.lease wiki = none
  | .writeOwner wiki claim =>
    match op.held with
    | some held => wiki = held.task.wiki ∧ (held.validate host).isOk = true ∧
      ∃ now, k.now = some now ∧ claim = { held with heartbeatAtUnix := now }
    | none => IsNew host k wiki claim
  | .createLease wiki => op.held = none ∧ k.within = none ∧ ∃ task ∈ k.listed, task.wiki = wiki
  | .removeLease wiki =>
    (∃ claim, Entitled op k claim ∧ claim.task.wiki = wiki ∧ k.took = some wiki) ∨
      (op.held = none ∧ k.lease wiki = some .made)
  | .renameLease wiki _ => op.held = none ∧ ∀ claim, k.lease wiki = some (.owned claim) →
      ¬ ((claim.validate host).isOk = true ∧ claim.task.wiki = wiki)
  | .writePending wiki task => task.wiki = wiki ∧ k.within ≠ some wiki ∧
      ((∃ claim, Entitled op k claim ∧ claim.task.wiki = wiki ∧
        task.taskId = claim.task.taskId) ∨ (op.held = none ∧ Discovers k wiki task))
  | .removePending wiki => ∃ claim, Entitled op k claim ∧ claim.task.wiki = wiki ∧
      k.took ≠ some wiki ∧
      ((k.within = some wiki ∧ Record.completed wiki claim.task.taskId ∈ k.written) ∨
        (k.within ≠ some wiki ∧
          ∃ attempt, Record.quarantine wiki claim.task.taskId attempt ∈ k.written))
  | .writeRecord record _ => ∀ wiki taskId, record = .completed wiki taskId →
      k.within = none ∧ ∃ held, op.held = some held ∧ wiki = held.task.wiki ∧
        taskId = held.task.taskId
  | _ => True

/-- A worker that fails as not the owner has just read another one. -/
def Raises (k : Knowledge) : Failure → Prop
  | .notOwner _ => ∃ held claim, op.held = some held ∧
      k.justRead = some (held.task.wiki, claim) ∧
      ¬ (claim.leaseId = held.leaseId ∧ claim.workerId = held.workerId ∧
        claim.task.taskId = held.task.taskId)
  | .other _ => True

/-- A claim that is handed out was written just then. -/
def Ends (k : Knowledge) : Outcome → Prop
  | .claimed (some claim) => op.held = none ∧ k.justWrote = some (claim.task.wiki, claim) ∧
      k.now = some claim.claimedAtUnix
  | .beaten claim => ∃ held, op.held = some held ∧ claim.claimedAtUnix = held.claimedAtUnix
  | _ => True

/-- The program keeps the rules from this knowledge on and ends knowing `post`. -/
def Follows {α : Type} (post : Knowledge → α → Prop) (k : Knowledge) (steps : Steps α) : Prop :=
  steps.Obeys Knowledge.learn (Allowed host op) (Raises op) post k

end Rules

variable {host : Host} {op : Operation} {α β : Type}

namespace Follows

variable {post : Knowledge → α → Prop} {k : Knowledge}

theorem call (c : Call) {rest : c.Answer → Steps α} (hallowed : Allowed host op k c)
    (hrest : ∀ answer, Follows host op post (k.learn c answer) (rest answer)) :
    Follows host op post k (Program.call c rest) := ⟨hallowed, hrest⟩

theorem done {a : α} (h : post k a) : Follows host op post k (.done a) := h

theorem other {message : String} : Follows host op post k (.fail (.other message)) := trivial

theorem bind {mid : Knowledge → β → Prop} {steps : Steps β} {next : β → Steps α}
    (hsteps : Follows host op mid k steps)
    (hnext : ∀ k' b, mid k' b → Follows host op post k' (next b)) :
    Follows host op post k (steps >>= next) := Obeys.bind hsteps hnext

/-- A check lets the rest go on knowing that it passed. -/
theorem require {result : Except String β} {next : β → Steps α}
    (hnext : ∀ b, result = .ok b → Follows host op post k (next b)) :
    Follows host op post k (Fleet.require result >>= next) := by
  cases result with
  | ok b => exact hnext b rfl
  | error e => trivial

theorem ensure {condition : Prop} [Decidable condition] {message : String}
    {next : Unit → Steps α} (hnext : condition → Follows host op post k (next ())) :
    Follows host op post k (Fleet.require (WikiEcon.ensure condition message) >>= next) :=
  require fun _ h => hnext (ensure_eq_ok.mp h)

end Follows

theorem Entitled.of_eq {k k' : Knowledge} {claim : FleetClaim} (h : Entitled op k claim)
    (hlease : k'.lease = k.lease) (hnow : k'.now = k.now) : Entitled op k' claim := by
  unfold Entitled at *
  rw [hlease, hnow]
  exact h

/-! ## Recovery -/

/-- Between two leases of a recovery nothing is left half done. -/
structure Clear (now : ℕ) (k : Knowledge) : Prop where
  now : k.now = some now
  within : k.within = none
  took : k.took = none

section Recovery

variable {k : Knowledge} {now : ℕ}

theorem quarantineUnknown_follows {name reason : String} (hk : Clear now k) (hheld : op.held = none)
    (hinvalid : ∀ claim, k.lease name = some (.owned claim) →
      ¬ ((claim.validate host).isOk = true ∧ claim.task.wiki = name)) :
    Follows host op (fun k' _ => Clear now k') k (quarantineUnknown name reason now) := by
  refine Follows.call (.renameLease name now) ⟨hheld, hinvalid⟩ fun answer => ?_
  cases answer with
  | error e => exact Follows.other
  | ok u =>
    refine Follows.call (.writeRecord (.ambiguous name now) _) ?_ fun answer => ?_
    · intro wiki taskId h
      exact absurd h (by simp)
    · cases answer with
      | error e => exact Follows.other
      | ok u => exact Follows.done ⟨hk.now, hk.within, hk.took⟩

/-- Whoever may end a claim ends it by the rules. -/
theorem failClaimAt_follows {claim : FleetClaim} {error : String} {maxAttempts : ℕ}
    (hclaim : Entitled op k claim) (hwithin : k.within = none) (htook : k.took = none) :
    Follows host op (fun k' _ => k'.now = k.now ∧ k'.within = none ∧ k'.took = none) k
      (failClaimAt claim error maxAttempts now) := by
  refine Follows.require fun nextAttempt _ => ?_
  by_cases hlimit : nextAttempt ≥ maxAttempts
  · simp only [hlimit, if_true]
    refine Follows.call (.writeRecord (.quarantine _ _ nextAttempt) _) ?_ fun answer => ?_
    · intro wiki taskId h
      exact absurd h (by simp)
    cases answer with
    | error e => exact Follows.other
    | ok u =>
      refine Follows.call (.removePending claim.task.wiki)
        ⟨claim, hclaim.of_eq rfl rfl, rfl, ?_, Or.inr ⟨?_, nextAttempt, ?_⟩⟩ fun answer => ?_
      · show k.took ≠ _
        simp [htook]
      · show k.within ≠ _
        simp [hwithin]
      · exact List.mem_cons_self ..
      cases answer with
      | error e => exact Follows.other
      | ok u =>
        refine Follows.call (.removeLease claim.task.wiki)
          (Or.inl ⟨claim, hclaim.of_eq rfl rfl, rfl, rfl⟩) fun answer => ?_
        cases answer with
        | error e => exact Follows.other
        | ok u => exact Follows.done ⟨rfl, rfl, rfl⟩
  · simp only [hlimit, if_false]
    refine Follows.call (.writePending claim.task.wiki _)
      ⟨rfl, ?_, Or.inl ⟨claim, hclaim, rfl, rfl⟩⟩ fun answer => ?_
    · simp [hwithin]
    cases answer with
    | error e => exact Follows.other
    | ok u =>
      refine Follows.call (.writeRecord (.failure _ _ nextAttempt) _) ?_ fun answer => ?_
      · intro wiki taskId h
        exact absurd h (by simp)
      cases answer with
      | error e => exact Follows.other
      | ok u =>
        refine Follows.call (.removeLease claim.task.wiki)
          (Or.inl ⟨claim, hclaim.of_eq rfl rfl, rfl, rfl⟩) fun answer => ?_
        cases answer with
        | error e => exact Follows.other
        | ok u => exact Follows.done ⟨rfl, rfl, rfl⟩

theorem recoverLease_follows {maxAttempts : ℕ} {wiki : String} (hk : Clear now k)
    (hheld : op.held = none) :
    Follows host op (fun k' _ => Clear now k') k (recoverLease host now maxAttempts wiki) := by
  refine Follows.call (.isLeaseDir wiki) trivial fun answer => ?_
  cases answer with
  | false =>
    show Follows host op _ _ (quarantineUnknown wiki _ now >>= fun _ => pure false)
    refine Follows.bind (quarantineUnknown_follows ⟨hk.now, hk.within, hk.took⟩ hheld ?_)
      fun k' _ hk' => Follows.done hk'
    intro claim h
    exact absurd h (by simp [Knowledge.learn, Knowledge.learnCall, Knowledge.see])
  | true =>
    refine Follows.call (.readOwner wiki) trivial fun answer => ?_
    cases answer with
    | error e =>
      show Follows host op _ _ (quarantineUnknown wiki _ now >>= fun _ => pure false)
      refine Follows.bind (quarantineUnknown_follows ⟨hk.now, hk.within, hk.took⟩ hheld ?_)
        fun k' _ hk' => Follows.done hk'
      intro claim h
      exact absurd h (by simp [Knowledge.learn, Knowledge.learnCall, Knowledge.see])
    | ok claim =>
      have hsight : ((k.learn (.isLeaseDir wiki) true).learn (.readOwner wiki) (.ok claim)).lease
          wiki = some (.owned claim) := Function.update_self ..
      show Follows host op _ _ (if _ then _ else _)
      split
      next hinvalid =>
        refine Follows.bind (quarantineUnknown_follows ⟨hk.now, hk.within, hk.took⟩ hheld ?_)
          fun k' _ hk' => Follows.done hk'
        intro claim' h
        obtain rfl : claim = claim' := by simpa using hsight.symm.trans h
        rintro ⟨hvalid, hwiki⟩
        simp [hvalid, hwiki] at hinvalid
      next hvalid =>
        rw [not_or, not_not] at hvalid
        split
        next hexpired =>
          have hclaim : Entitled op ((k.learn (.isLeaseDir wiki) true).learn (.readOwner wiki)
              (.ok claim)) claim := by
            unfold Entitled
            rw [hheld]
            exact ⟨by rw [hvalid.2]; exact hsight, now, hk.now, hexpired⟩
          refine Follows.bind (failClaimAt_follows hclaim hk.within hk.took)
            fun k' _ hk' => Follows.done ⟨?_, hk'.2.1, hk'.2.2⟩
          rw [hk'.1]
          exact hk.now
        next => exact Follows.done ⟨hk.now, hk.within, hk.took⟩

theorem recoverStaleAt_follows {maxAttempts : ℕ} (hk : Clear now k) (hheld : op.held = none) :
    Follows host op (fun k' _ => Clear now k') k (recoverStaleAt host now maxAttempts) := by
  refine Follows.call .readLeases trivial fun wikis => ?_
  refine Obeys.foldlM (fun k' _ => Clear now k') (fun wiki _ k' recovered hk' => ?_)
    ⟨hk.now, hk.within, hk.took⟩
  exact Follows.bind (recoverLease_follows hk' hheld) fun k'' _ hk'' => Follows.done hk''

end Recovery

/-! ## Discovery -/

section Discovery

variable {k : Knowledge}

/-- Looking at records teaches nothing the rules ask for. -/
def Knowledge.Same (k k' : Knowledge) : Prop :=
  k' = { k with justRead := k'.justRead, justWrote := k'.justWrote }

theorem completedEvidenceValid_follows {task : FleetTask} :
    Follows host op (fun k' _ => k.Same k') k (completedEvidenceValid host task) := by
  refine Follows.call (.isRecord _) trivial fun isCompleted => ?_
  cases isCompleted with
  | false => exact Follows.done rfl
  | true =>
    refine Follows.call (.isRecord _) trivial fun isNotified => ?_
    cases isNotified with
    | false => exact Follows.done rfl
    | true =>
      refine Follows.call (.readRecord (.completed _ _)) trivial fun answer => ?_
      refine Follows.require fun completed hcompleted => ?_
      refine Follows.require fun _ _ => Follows.require fun _ _ => ?_
      refine Follows.call (.readRecord (.notification _ _)) trivial fun answer => ?_
      refine Follows.require fun notification hnotification => Follows.require fun _ _ => ?_
      subst hcompleted hnotification
      refine Follows.call (.isRecord _) trivial fun isReady => ?_
      cases isReady with
      | false => exact Follows.done rfl
      | true =>
        refine Follows.call (.readRecord (.readyIndex _)) trivial fun answer => ?_
        refine Follows.require fun ready hready => ?_
        subst hready
        exact Follows.done rfl

theorem schedule_follows {task : FleetTask} {report : DiscoveryReport} {post}
    (hheld : op.held = none) (hwithin : k.within = none) (hk : Discovers k task.wiki task)
    (hpost : ∀ k' outcome, post k' outcome) :
    Follows host op post k (schedule task report) := by
  refine Follows.call (.writePending task.wiki task) ⟨rfl, ?_, Or.inr ⟨hheld, hk⟩⟩ fun answer => ?_
  · simp [hwithin]
  cases answer with
  | error e => exact Follows.other
  | ok u => exact Follows.done (hpost _ _)

theorem enqueueAt_follows {wiki snapshot : String} {resourceClass : ResourceClass}
    {signals : SchedulingSignals} {controllerRunId : String} {now : ℕ} (hk : Clear now k)
    (hheld : op.held = none) :
    Follows host op (fun _ _ => True) k
      (enqueueAt host wiki snapshot resourceClass signals controllerRunId now) := by
  refine Follows.require fun _ _ => Follows.require fun _ _ => Follows.require fun _ _ => ?_
  refine Follows.bind (recoverStaleAt_follows hk hheld) fun k₁ recovered hk₁ => ?_
  refine Follows.call (.isLeaseDir wiki) trivial fun isDir => ?_
  cases isDir with
  | true => exact Follows.done trivial
  | false =>
    refine Follows.require fun _ _ => ?_
    refine Follows.bind completedEvidenceValid_follows fun k₂ isValid hk₂ => ?_
    have hfree : k₂.lease wiki = some .free := by
      rw [hk₂]
      exact Function.update_self ..
    have hwithin : k₂.within = none := by
      rw [hk₂]
      exact hk₁.within
    cases isValid with
    | true => exact Follows.done trivial
    | false =>
      refine Follows.call (.isPending wiki) trivial fun isFile => ?_
      cases isFile with
      | false =>
        refine schedule_follows hheld hwithin ⟨hfree, Or.inl ?_⟩ fun _ _ => trivial
        exact Function.update_self ..
      | true =>
        refine Follows.call (.readPending wiki) trivial fun answer => ?_
        refine Follows.require fun existing hexisting => Follows.require fun _ _ => ?_
        subst hexisting
        have hfound : ((k₂.learn (.isPending wiki) true).learn (.readPending wiki)
            (.ok existing)).pending wiki = some (some existing) := Function.update_self ..
        split
        next hsame =>
          refine Follows.call (.writePending wiki _)
            ⟨rfl, ?_, Or.inr ⟨hheld, hfree, Or.inr ⟨existing, hfound, Or.inl hsame⟩⟩⟩
            fun answer => ?_
          · show k₂.within ≠ _
            simp [hwithin]
          cases answer with
          | error e => exact Follows.other
          | ok u => exact Follows.done trivial
        next =>
          refine Follows.call (.writeRecord (.superseded _ _) _) ?_ fun answer => ?_
          · intro wiki taskId h
            exact absurd h (by simp)
          cases answer with
          | error e => exact Follows.other
          | ok u =>
            refine schedule_follows hheld hwithin
              ⟨hfree, Or.inr ⟨existing, hfound, Or.inr ?_⟩⟩ fun _ _ => trivial
            exact List.mem_cons_self ..

end Discovery

/-! ## Workers -/

section Workers

variable {k : Knowledge} {now : ℕ}

/-- The tasks a worker has listed are as it read them, and valid. -/
def Lists (host : Host) (k : Knowledge) (tasks : List FleetTask) : Prop :=
  ∀ task ∈ tasks, task ∈ k.listed ∧ (task.validate host).isOk = true

theorem pendingTasks_follows (hk : Clear now k) :
    Follows host op (fun k' tasks => Clear now k' ∧ Lists host k' tasks) k (pendingTasks host) := by
  refine Follows.call .readPendingDir trivial fun names => ?_
  refine Obeys.foldlM (fun k' tasks => Clear now k' ∧ Lists host k' tasks)
    (fun wiki _ k' tasks hk' => ?_) ⟨⟨hk.now, hk.within, hk.took⟩, by simp [Lists]⟩
  obtain ⟨hclear, hlists⟩ := hk'
  refine Follows.call (.isPending wiki) trivial fun isFile => ?_
  cases isFile with
  | false => exact Follows.done ⟨⟨hclear.now, hclear.within, hclear.took⟩, hlists⟩
  | true =>
    refine Follows.call (.readPending wiki) trivial fun answer => ?_
    refine Follows.require fun task htask => Follows.require fun _ hvalid =>
      Follows.require fun _ _ => ?_
    subst htask
    refine Follows.done ⟨⟨hclear.now, hclear.within, hclear.took⟩, fun other hother => ?_⟩
    rcases List.mem_append.mp hother with hother | hother
    · exact ⟨List.mem_cons_of_mem _ (hlists other hother).1, (hlists other hother).2⟩
    · rw [List.mem_singleton.mp hother]
      exact ⟨List.mem_cons_self .., by rw [hvalid]; rfl⟩

theorem isAsciiHexdigit_sha256 (text : String) :
    ∀ c ∈ (host.sha256 text).toList, isAsciiHexdigit c = true := by
  intro c hc
  rcases (host.sha256_hex text).2 c hc with hdigit | hletter
  · simp [isAsciiHexdigit, hdigit]
  · simp only [List.mem_cons, List.not_mem_nil, or_false] at hletter
    rcases hletter with rfl | rfl | rfl | rfl | rfl | rfl <;> decide

/-- A claim made of a valid task by a valid worker is valid. -/
theorem newClaim_valid {task : FleetTask} {workerId text : String} {leaseTimeoutSecs : ℕ}
    (htask : (task.validate host).isOk = true)
    (hworker : validateComponent workerId "worker ID" = .ok ()) (htimeout : leaseTimeoutSecs > 0) :
    (FleetClaim.validate host {
      schemaVersion := leaseSchemaVersion
      task := task
      workerId := workerId
      leaseId := host.sha256 text
      claimedAtUnix := now
      heartbeatAtUnix := now
      leaseTimeoutSecs := leaseTimeoutSecs }).isOk = true := by
  have hleaseId : (host.sha256 text).toList.length = 64 ∧
      (host.sha256 text).toList.all isAsciiHexdigit = true :=
    ⟨(host.sha256_hex text).1, List.all_eq_true.mpr (isAsciiHexdigit_sha256 text)⟩
  cases hvalid : task.validate host with
  | error e =>
    rw [hvalid] at htask
    exact absurd htask Bool.false_ne_true
  | ok u =>
    simp only [FleetClaim.validate, hvalid, hworker, WikiEcon.ensure, if_true, if_pos hleaseId,
      if_pos htimeout, ge_iff_le, le_refl]
    rfl

theorem claimFirst_follows {resourceClass : ResourceClass} {workerId : String}
    {leaseTimeoutSecs processId : ℕ} (hheld : op.held = none)
    (hworker : validateComponent workerId "worker ID" = .ok ()) (htimeout : leaseTimeoutSecs > 0) :
    ∀ {tasks : List FleetTask} {k : Knowledge}, Clear now k → Lists host k tasks →
      Follows host op (fun k' result => Ends op k' (.claimed result)) k
        (claimFirst host resourceClass workerId leaseTimeoutSecs processId now tasks) := by
  intro tasks
  induction tasks with
  | nil => intro k _ _; exact Follows.done trivial
  | cons task tasks ih =>
    intro k hk hlists
    have hrest : Lists host k tasks := fun t ht => hlists t (List.mem_cons_of_mem _ ht)
    obtain ⟨hlisted, hvalid⟩ := hlists task (List.mem_cons_self ..)
    rw [claimFirst]
    split
    · exact ih hk hrest
    · refine Follows.call (.createLease task.wiki) ⟨hheld, hk.within, task, hlisted, rfl⟩
        fun made => ?_
      cases made with
      | false => exact ih ⟨hk.now, hk.within, hk.took⟩ hrest
      | true =>
        have hmade : (k.learn (.createLease task.wiki) true).lease task.wiki = some .made :=
          Function.update_self ..
        refine Follows.call (.writeOwner task.wiki _) ?_ fun answer => ?_
        · unfold Allowed
          rw [hheld]
          exact ⟨hmade, rfl, rfl, hlisted, newClaim_valid hvalid hworker htimeout, hk.now, rfl⟩
        cases answer with
        | error e =>
          refine Follows.call (.removeLease task.wiki) (Or.inr ⟨hheld, hmade⟩) fun _ => ?_
          exact Follows.other
        | ok u => exact Follows.done ⟨hheld, rfl, hk.now⟩

theorem claimAt_follows {resourceClass : ResourceClass} {workerId : String}
    {leaseTimeoutSecs processId : ℕ} {k : Knowledge} (hk : Clear now k) (hheld : op.held = none) :
    Follows host op (fun k' result => Ends op k' (.claimed result)) k
      (claimAt host resourceClass workerId leaseTimeoutSecs processId now) := by
  refine Follows.require fun u hworker => Follows.ensure fun htimeout => ?_
  refine Follows.bind (recoverStaleAt_follows hk hheld) fun k₁ _ hk₁ => ?_
  refine Follows.bind (pendingTasks_follows hk₁) fun k₂ tasks hk₂ => ?_
  refine claimFirst_follows hheld hworker htimeout hk₂.1 fun task htask => ?_
  exact hk₂.2 task ((List.perm_insertionSort _ tasks).mem_iff.mp htask)

theorem readLiveClaim_follows {wiki : String} {k : Knowledge} :
    Follows host op (fun k' live => k'.justRead = some (wiki, live) ∧ k'.within = k.within ∧
      k'.took = k.took) k (readLiveClaim host wiki) := by
  refine Follows.call (.readOwner wiki) trivial fun answer => ?_
  refine Follows.require fun live hlive => Follows.require fun _ _ => ?_
  subst hlive
  exact Follows.done ⟨rfl, rfl, rfl⟩

theorem heartbeat_follows {held : FleetClaim} {k : Knowledge} (hheld : op.held = some held) :
    Follows host op (fun k' result => Ends op k' (.beaten result)) k (heartbeat host held) := by
  refine Follows.require fun _ hvalid => ?_
  refine Follows.bind readLiveClaim_follows fun k₁ live hk₁ => ?_
  unfold ensureOwner
  split
  next hsame =>
    refine Follows.call .nowUnix (fun h => absurd (hheld.symm.trans h) (by simp)) fun now => ?_
    refine Follows.call (.writeOwner held.task.wiki _) ?_ fun answer => ?_
    · unfold Allowed
      rw [hheld]
      exact ⟨rfl, by rw [hvalid]; rfl, now, rfl, rfl⟩
    cases answer with
    | error e => exact Follows.other
    | ok u => exact Follows.done ⟨held, hheld, rfl⟩
  next hother =>
    exact ⟨held, live, hheld, hk₁.1, fun h => hother ⟨h.1, h.2.1⟩⟩

/-- The check every other operation on a claim begins with. -/
theorem ensureLiveOwner_follows {held : FleetClaim} {k : Knowledge} (hheld : op.held = some held)
    (hwithin : k.within = none) (htook : k.took = none) :
    Follows host op (fun k' _ => k'.within = none ∧ k'.took = none) k
      (ensureLiveOwner host held) := by
  refine Follows.bind readLiveClaim_follows fun k₁ live hk₁ => ?_
  unfold ensureOwner
  split
  next => exact Follows.done ⟨hk₁.2.1.trans hwithin, hk₁.2.2.trans htook⟩
  next hother => exact ⟨held, live, hheld, hk₁.1, hother⟩

theorem complete_follows {held : FleetClaim} {outputDir : String} {k : Knowledge}
    (hheld : op.held = some held) (hwithin : k.within = none) (htook : k.took = none) :
    Follows host op (fun _ _ => True) k (complete host held outputDir) := by
  have hentitled : ∀ k', Entitled op k' held := fun k' => by
    unfold Entitled
    rw [hheld]
  refine Follows.require fun _ _ => ?_
  refine Follows.bind (ensureLiveOwner_follows hheld hwithin htook) fun k₁ _ hk₁ => ?_
  refine Follows.call (.readRecord (.readyIndex _)) trivial fun answer => ?_
  refine Follows.require fun ready hready => Follows.ensure fun _ => ?_
  subst hready
  refine Follows.call .nowUnix (fun h => absurd (hheld.symm.trans h) (by simp)) fun now => ?_
  refine Follows.call (.writeRecord (.notification _ _) _) ?_ fun answer => ?_
  · intro wiki taskId h
    exact absurd h (by simp)
  cases answer with
  | error e => exact Follows.other
  | ok u =>
    refine Follows.call (.writeRecord (.completed _ _) _) ?_ fun answer => ?_
    · rintro wiki taskId h
      obtain ⟨rfl, rfl⟩ := Record.completed.inj h
      exact ⟨hk₁.1, held, hheld, rfl, rfl⟩
    cases answer with
    | error e => exact Follows.other
    | ok u =>
      refine Follows.call (.removePending held.task.wiki)
        ⟨held, hentitled _, rfl, ?_, Or.inl ⟨rfl, List.mem_cons_self ..⟩⟩ fun answer => ?_
      · show k₁.took ≠ _
        simp [hk₁.2]
      cases answer with
      | error e => exact Follows.other
      | ok u =>
        refine Follows.call (.removeLease held.task.wiki)
          (Or.inl ⟨held, hentitled _, rfl, rfl⟩) fun answer => ?_
        cases answer with
        | error e => exact Follows.other
        | ok u => exact Follows.done trivial

theorem failClaim_follows {held : FleetClaim} {error : String} {maxAttempts : ℕ} {k : Knowledge}
    (hheld : op.held = some held) (hwithin : k.within = none) (htook : k.took = none) :
    Follows host op (fun _ _ => True) k (failClaim host held error maxAttempts) := by
  refine Follows.ensure fun _ => Follows.require fun _ _ => ?_
  refine Follows.bind (ensureLiveOwner_follows hheld hwithin htook) fun k₁ _ hk₁ => ?_
  refine Follows.call .nowUnix (fun h => absurd (hheld.symm.trans h) (by simp)) fun now => ?_
  refine Obeys.mono (fun _ _ _ => trivial) (failClaimAt_follows ?_ hk₁.1 hk₁.2)
  unfold Entitled
  rw [hheld]

theorem defer_follows {held : FleetClaim} {reason : String} {retryAfterSecs : ℕ} {k : Knowledge}
    (hheld : op.held = some held) (hwithin : k.within = none) (htook : k.took = none) :
    Follows host op (fun _ _ => True) k (defer host held reason retryAfterSecs) := by
  have hentitled : ∀ k', Entitled op k' held := fun k' => by
    unfold Entitled
    rw [hheld]
  refine Follows.ensure fun _ => Follows.require fun _ _ => ?_
  refine Follows.bind (ensureLiveOwner_follows hheld hwithin htook) fun k₁ _ hk₁ => ?_
  refine Follows.call .nowUnix (fun h => absurd (hheld.symm.trans h) (by simp)) fun now => ?_
  refine Follows.call (.writePending held.task.wiki _)
    ⟨rfl, ?_, Or.inl ⟨held, hentitled _, rfl, rfl⟩⟩ fun answer => ?_
  · show k₁.within ≠ _
    simp [hk₁.1]
  cases answer with
  | error e => exact Follows.other
  | ok u =>
    refine Follows.call (.writeRecord (.deferred _ _ _) _) ?_ fun answer => ?_
    · intro wiki taskId h
      exact absurd h (by simp)
    cases answer with
    | error e => exact Follows.other
    | ok u =>
      refine Follows.call (.removeLease held.task.wiki)
        (Or.inl ⟨held, hentitled _, rfl, rfl⟩) fun answer => ?_
      cases answer with
      | error e => exact Follows.other
      | ok u => exact Follows.done trivial

end Workers

/-- **Every operation keeps the rules**, whatever it is answered. -/
theorem Operation.follows (host : Host) (op : Operation) :
    Follows host op (Ends op) {} (op.program host) := by
  cases op with
  | enqueue wiki snapshot resourceClass signals controllerRunId =>
    refine Follows.call .nowUnix (fun _ _ => rfl) fun (now : ℕ) => ?_
    show Follows host _ _ _ (enqueueAt host _ _ _ _ _ now
      >>= fun report => pure (Outcome.discovered report))
    exact Follows.bind (enqueueAt_follows ⟨rfl, rfl, rfl⟩ rfl) fun _ _ _ => Follows.done trivial
  | claim resourceClass workerId leaseTimeoutSecs processId =>
    refine Follows.call .nowUnix (fun _ _ => rfl) fun (now : ℕ) => ?_
    show Follows host _ _ _ (claimAt host _ _ _ _ now
      >>= fun claim => pure (Outcome.claimed claim))
    exact Follows.bind (claimAt_follows ⟨rfl, rfl, rfl⟩ rfl) fun _ _ h => Follows.done h
  | heartbeat held =>
    exact Follows.bind (heartbeat_follows rfl) fun _ _ h => Follows.done h
  | complete held outputDir =>
    exact Follows.bind (complete_follows rfl rfl rfl) fun _ _ _ => Follows.done trivial
  | fail held error maxAttempts =>
    exact Follows.bind (failClaim_follows rfl rfl rfl) fun _ _ _ => Follows.done trivial
  | defer held reason retryAfterSecs =>
    exact Follows.bind (defer_follows rfl rfl rfl) fun _ _ _ => Follows.done trivial
  | recoverStale maxAttempts =>
    refine Follows.call .nowUnix (fun _ _ => rfl) fun (now : ℕ) => ?_
    show Follows host _ _ _ (recoverStaleAt host now _
      >>= fun leases => pure (Outcome.recovered leases))
    exact Follows.bind (recoverStaleAt_follows ⟨rfl, rfl, rfl⟩ rfl)
      fun _ _ _ => Follows.done trivial

end WikiEcon.Fleet
