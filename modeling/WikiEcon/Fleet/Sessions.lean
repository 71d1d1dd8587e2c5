import WikiEcon.Fleet.Pending

/-!
# One operation after another

Here the operations of the fleet run one at a time, each to its end or cut off
after some of its calls: its process is killed, its lease stays behind and expires.
What such a queue is like at any point is `Intact`: every lease with an owner has a
valid one, it and the pending record of the wiki are about the same task, and where
the pending record is gone its task was completed or quarantined.

Each call has its condition for keeping that (`Keeps`, `Intact.perform`), and every
operation is gone through once with it (`Operation.leaves`).
-/

namespace WikiEcon.Fleet

open Programs Program Transition

/-! ## Sessions -/

/-- The queue and the claims that were handed out. -/
structure Session where
  store : Queue := {}
  receipts : List FleetClaim := []

/-- The retry limit an operation goes by. -/
def Operation.maxAttempts : Operation → ℕ
  | .fail _ _ maxAttempts => maxAttempts
  | .recoverStale maxAttempts => maxAttempts
  | _ => defaultMaxAttempts

def Operation.isHeartbeat : Operation → Bool
  | .heartbeat _ => true
  | _ => false

/-- A worker's operation is on a claim it was handed. A retry limit is a `u32`. -/
def Session.mayRun (s : Session) (op : Operation) : Bool :=
  op.held.all (fun held => held ∈ s.receipts) ∧ op.maxAttempts ≤ u32Max ∧ ¬ op.isHeartbeat

inductive Turn
  | run (op : Operation) (calls : ℕ)
  | tick (seconds : ℕ)
  | publishReady (path : String) (index : Option ReadyIndex)

/-- The claim a program that has come to its end hands out. -/
def claimOf : Steps Outcome → Option FleetClaim
  | .done (.claimed claim) => claim
  | _ => none

/-- An operation is cut off after so many of its calls, unless it ends before. -/
def Session.turn (host : Host) (s : Session) : Turn → Option Session
  | .run op calls =>
    let cut := (op.program host).steps (Queue.perform host) calls s.store
    if s.mayRun op then some ⟨cut.2, (claimOf cut.1).toList ++ s.receipts⟩ else none
  | .tick seconds => some { s with store := { s.store with clock := s.store.clock + seconds } }
  | .publishReady path index => some { s with store := { s.store with
      records := Function.update s.store.records (.readyIndex path) index } }

/-- All runs, from a queue with nothing in it but old documents. -/
def sessions (host : Host) : System Session Turn where
  init s := s.store.leases = ∅ ∧ s.store.pending = ∅ ∧
    (∀ name now, s.store.ambiguousLeases name now = none) ∧ s.receipts = []
  step s e t := s.turn host e = some t

/-! ## What is true of the queue at any point -/

/-- The task's completion and its ready notification are on record. -/
def Done (q : Queue) (wiki taskId : String) : Prop :=
  (q.records (.completed wiki taskId)).isSome ∧ (q.records (.notification wiki taskId)).isSome

def Quarantined (q : Queue) (wiki taskId : String) : Prop :=
  ∃ attempt, (q.records (.quarantine wiki taskId attempt)).isSome

structure Intact (host : Host) (q : Queue) : Prop where
  owners : ∀ wiki claim, q.ownerOf wiki = some claim →
    Owns host wiki claim ∧ claim.task.attempt < u32Max
  pending : ∀ wiki task, q.pending.lookup wiki = some task →
    task.wiki = wiki ∧ (task.validate host).isOk ∧ task.attempt < u32Max
  same : ∀ wiki claim task, q.ownerOf wiki = some claim → q.pending.lookup wiki = some task →
    task.taskId = claim.task.taskId
  ended : ∀ wiki claim, q.ownerOf wiki = some claim → q.pending.lookup wiki = none →
    Done q wiki claim.task.taskId ∨ Quarantined q wiki claim.task.taskId
  ambiguous : ∀ name now, (q.ambiguousLeases name now).join = none

theorem Done.perform {host : Host} {q : Queue} {wiki taskId : String} (h : Done q wiki taskId)
    (c : Call) : Done (q.perform host c).2 wiki taskId :=
  ⟨isSome_records_perform c h.1, isSome_records_perform c h.2⟩

theorem Quarantined.perform {host : Host} {q : Queue} {wiki taskId : String}
    (h : Quarantined q wiki taskId) (c : Call) : Quarantined (q.perform host c).2 wiki taskId := by
  obtain ⟨attempt, hattempt⟩ := h
  exact ⟨attempt, isSome_records_perform c hattempt⟩

/-- When a call keeps the queue intact. -/
def Keeps (host : Host) (q : Queue) : Call → Prop
  | .writePending wiki task => task.wiki = wiki ∧ (task.validate host).isOk ∧
      task.attempt < u32Max ∧ ∀ claim ∈ q.ownerOf wiki, task.taskId = claim.task.taskId
  | .removePending wiki => ∀ claim ∈ q.ownerOf wiki,
      Done q wiki claim.task.taskId ∨ Quarantined q wiki claim.task.taskId
  | .writeOwner wiki claim => Owns host wiki claim ∧ claim.task.attempt < u32Max ∧
      ∃ task ∈ q.pending.lookup wiki, task.taskId = claim.task.taskId
  | .renameLease wiki _ => q.ownerOf wiki = none
  | _ => True

theorem ambiguousLeases_perform {host : Host} {q : Queue} {c : Call} (hkeeps : Keeps host q c)
    (h : ∀ name now, (q.ambiguousLeases name now).join = none) (name : String) (now : ℕ) :
    ((q.perform host c).2.ambiguousLeases name now).join = none := by
  cases c with
  | renameLease wiki moved =>
    simp only [Queue.perform]
    split
    next => exact h name now
    next lease hlease =>
      split
      next => exact h name now
      next =>
        have hnone : q.ownerOf wiki = none := hkeeps
        unfold Queue.ownerOf at hnone
        rw [hlease] at hnone
        by_cases hname : name = wiki
        · subst hname
          dsimp only
          rw [Function.update_self]
          by_cases hnow : now = moved
          · subst hnow
            rw [Function.update_self]
            exact hnone
          · rw [Function.update_of_ne hnow]
            exact h name now
        · dsimp only
          rw [Function.update_of_ne hname]
          exact h name now
  | createLease wiki =>
    simp only [Queue.perform]
    split <;> exact h name now
  | removeLease wiki =>
    simp only [Queue.perform]
    split <;> exact h name now
  | removePending wiki =>
    simp only [Queue.perform]
    split <;> exact h name now
  | _ => exact h name now

/-- **A call that keeps to its condition leaves the queue intact.** -/
theorem Intact.perform {host : Host} {q : Queue} (h : Intact host q) {c : Call}
    (hkeeps : Keeps host q c) : Intact host (q.perform host c).2 where
  owners wiki claim howner := by
    -- The owner is as before, is the one just written, or is gone.
    rcases ownerOf_perform host q c wiki with hsame | ⟨written, rfl, hnew⟩ | ⟨-, hnone⟩
    · exact h.owners wiki claim (hsame.symm.trans howner)
    · rw [hnew] at howner
      obtain rfl := Option.some.inj howner
      exact ⟨hkeeps.1, hkeeps.2.1⟩
    · rw [hnone] at howner
      exact absurd howner (by simp)
  pending wiki task htask := by
    rcases pending_perform c host q wiki with hsame | ⟨written, rfl, hnew⟩ | ⟨-, hnone⟩
    · exact h.pending wiki task (hsame.symm.trans htask)
    · rw [hnew] at htask
      obtain rfl := Option.some.inj htask
      exact ⟨hkeeps.1, hkeeps.2.1, hkeeps.2.2.1⟩
    · rw [hnone] at htask
      exact absurd htask (by simp)
  same wiki claim task howner htask := by
    rcases ownerOf_perform host q c wiki with hsame | ⟨written, rfl, hnew⟩ | ⟨-, hnone⟩
    · rw [hsame] at howner
      rcases pending_perform c host q wiki with hkept | ⟨written, rfl, hnew⟩ | ⟨-, hnone⟩
      · exact h.same wiki claim task howner (hkept.symm.trans htask)
      · rw [hnew] at htask
        obtain rfl := Option.some.inj htask
        exact hkeeps.2.2.2 claim (Option.mem_def.mpr howner)
      · rw [hnone] at htask
        exact absurd htask (by simp)
    · rw [hnew] at howner
      obtain rfl := Option.some.inj howner
      obtain ⟨-, -, found, hfound, hid⟩ := hkeeps
      have hpending : q.pending.lookup wiki = some task := htask
      rw [← hid, Option.some.inj (hpending.symm.trans hfound)]
    · rw [hnone] at howner
      exact absurd howner (by simp)
  ended wiki claim howner htask := by
    rcases ownerOf_perform host q c wiki with hsame | ⟨written, rfl, hnew⟩ | ⟨-, hnone⟩
    · rw [hsame] at howner
      rcases pending_perform c host q wiki with hkept | ⟨written, rfl, hnew⟩ | ⟨rfl, -⟩
      · exact (h.ended wiki claim howner (hkept.symm.trans htask)).imp (·.perform c) (·.perform c)
      · rw [hnew] at htask
        exact absurd htask (by simp)
      · exact (hkeeps claim (Option.mem_def.mpr howner)).imp (·.perform _) (·.perform _)
    · obtain ⟨-, -, found, hfound, -⟩ := hkeeps
      have hpending : q.pending.lookup wiki = none := htask
      rw [hpending] at hfound
      exact absurd hfound (by simp)
    · rw [hnone] at howner
      exact absurd howner (by simp)
  ambiguous := ambiguousLeases_perform hkeeps h.ambiguous

/-! ## Rules -/

/-- The program, cut off anywhere, leaves the queue in `inv`, and ends with `post`. -/
def Leaves (host : Host) (inv : Queue → Prop) {α : Type} (post : α → Queue → Prop) (q : Queue)
    (steps : Steps α) : Prop :=
  steps.Always (Queue.perform host) inv post q

namespace Leaves

variable {host : Host} {inv : Queue → Prop} {α β : Type} {post : α → Queue → Prop} {q : Queue}

theorem call (c : Call) {rest : c.Answer → Steps α} (h : inv q)
    (hrest : ∀ answer, (q.perform host c).1 = answer →
      Leaves host inv post (q.perform host c).2 (rest answer)) :
    Leaves host inv post q (Program.call c rest) := ⟨h, hrest _ rfl⟩

/-- A call on an intact queue that keeps it intact. -/
theorem keep (c : Call) {rest : c.Answer → Steps α} (h : Intact host q) (hkeeps : Keeps host q c)
    (hrest : Intact host (q.perform host c).2 → ∀ answer, (q.perform host c).1 = answer →
      Leaves host (Intact host) post (q.perform host c).2 (rest answer)) :
    Leaves host (Intact host) post q (Program.call c rest) :=
  call c h (hrest (h.perform hkeeps))

/-- A call that only reads. -/
theorem look (c : Call) {rest : c.Answer → Steps α} (h : inv q)
    (hsame : (q.perform host c).2 = q)
    (hrest : ∀ answer, (q.perform host c).1 = answer → Leaves host inv post q (rest answer)) :
    Leaves host inv post q (Program.call c rest) := by
  refine call c h ?_
  rw [hsame]
  exact hrest

theorem done {a : α} (h : inv q) (hpost : post a q) : Leaves host inv post q (.done a) :=
  ⟨h, hpost⟩

theorem fail {failure : Failure} (h : inv q) : Leaves host inv post q (.fail failure) := h

theorem bind {mid : β → Queue → Prop} {steps : Steps β} {next : β → Steps α}
    (hsteps : Leaves host inv mid q steps)
    (hnext : ∀ b q', inv q' → mid b q' → Leaves host inv post q' (next b)) :
    Leaves host inv post q (steps >>= next) := Always.bind hsteps hnext

theorem require {result : Except String β} {next : β → Steps α} (h : inv q)
    (hnext : ∀ b, result = .ok b → Leaves host inv post q (next b)) :
    Leaves host inv post q (Fleet.require result >>= next) := by
  cases result with
  | ok b => exact hnext b rfl
  | error e => exact h

theorem ensure {condition : Prop} [Decidable condition] {message : String}
    {next : Unit → Steps α} (h : inv q) (hnext : condition → Leaves host inv post q (next ())) :
    Leaves host inv post q (Fleet.require (WikiEcon.ensure condition message) >>= next) :=
  require h fun _ hok => hnext (ensure_eq_ok.mp hok)

end Leaves

/-! ## Operations -/

section Operations

variable {host : Host} {q : Queue}

theorem task_valid {claim : FleetClaim} (h : (claim.validate host).isOk) :
    (claim.task.validate host).isOk := by
  cases hvalid : claim.validate host with
  | error e =>
    rw [hvalid] at h
    exact absurd h Bool.false_ne_true
  | ok u =>
    obtain ⟨_, -, hvalid⟩ := bind_eq_ok.mp hvalid
    obtain ⟨_, htask, -⟩ := bind_eq_ok.mp hvalid
    rw [htask]
    rfl

theorem quarantineUnknown_leaves {name reason : String} {now : ℕ} (h : Intact host q)
    (hnone : q.ownerOf name = none) :
    Leaves host (Intact host) (fun _ _ => True) q (quarantineUnknown name reason now) := by
  refine Leaves.keep (.renameLease name now) h hnone fun h answer _ => ?_
  cases answer with
  | error e => exact Leaves.fail h
  | ok u =>
    refine Leaves.keep (.writeRecord (.ambiguous name now) _) h trivial fun h answer _ => ?_
    cases answer with
    | error e => exact Leaves.fail h
    | ok u => exact Leaves.done h trivial

/-- Failing a claim that is about the task of the lease. -/
theorem failClaimAt_leaves {claim owner : FleetClaim} {error : String} {maxAttempts now : ℕ}
    (h : Intact host q) (hvalid : (claim.validate host).isOk) (hmax : maxAttempts ≤ u32Max)
    (howner : q.ownerOf claim.task.wiki = some owner)
    (hid : owner.task.taskId = claim.task.taskId) :
    Leaves host (Intact host) (fun _ _ => True) q (failClaimAt claim error maxAttempts now) := by
  refine Leaves.require h fun nextAttempt _ => ?_
  by_cases hlimit : nextAttempt ≥ maxAttempts
  · simp only [hlimit, if_true]
    refine Leaves.keep (.writeRecord (.quarantine _ _ nextAttempt) _) h trivial
      fun h answer _ => ?_
    cases answer with
    | error e => exact Leaves.fail h
    | ok u =>
      refine Leaves.keep (.removePending claim.task.wiki) h ?_ fun h answer _ => ?_
      · intro live hlive
        have hlive' : q.ownerOf claim.task.wiki = some live := hlive
        obtain rfl := Option.some.inj (howner.symm.trans hlive')
        refine Or.inr ⟨nextAttempt, ?_⟩
        rw [hid]
        exact isSome_records_writeRecord
      cases answer with
      | error e => exact Leaves.fail h
      | ok u =>
        refine Leaves.keep (.removeLease claim.task.wiki) h trivial fun h answer _ => ?_
        cases answer with
        | error e => exact Leaves.fail h
        | ok u => exact Leaves.done h trivial
  · simp only [hlimit, if_false]
    refine Leaves.keep (.writePending claim.task.wiki _) h ?_ fun h answer _ => ?_
    · refine ⟨rfl, task_valid hvalid, ?_, fun live hlive => ?_⟩
      · show nextAttempt < u32Max
        omega
      · obtain rfl := Option.some.inj (howner.symm.trans hlive)
        exact hid.symm
    cases answer with
    | error e => exact Leaves.fail h
    | ok u =>
      refine Leaves.keep (.writeRecord (.failure _ _ nextAttempt) _) h trivial
        fun h answer _ => ?_
      cases answer with
      | error e => exact Leaves.fail h
      | ok u =>
        refine Leaves.keep (.removeLease claim.task.wiki) h trivial fun h answer _ => ?_
        cases answer with
        | error e => exact Leaves.fail h
        | ok u => exact Leaves.done h trivial

theorem recoverLease_leaves {now maxAttempts : ℕ} {wiki : String} (h : Intact host q)
    (hmax : maxAttempts ≤ u32Max) :
    Leaves host (Intact host) (fun _ _ => True) q (recoverLease host now maxAttempts wiki) := by
  refine Leaves.look (.isLeaseDir wiki) h rfl fun isDir hdir => ?_
  have hquarantine : ∀ reason, q.ownerOf wiki = none → Leaves host (Intact host) (fun _ _ => True) q
      (quarantineUnknown wiki reason now >>= fun _ => pure false) := fun reason hnone =>
    Leaves.bind (quarantineUnknown_leaves h hnone) fun _ _ h _ => Leaves.done h trivial
  cases isDir with
  | false =>
    refine hquarantine _ ?_
    have hnone : (q.leases.lookup wiki).isSome = false := hdir
    unfold Queue.ownerOf
    rw [Option.isNone_iff_eq_none.mp (Option.isSome_eq_false_iff.mp hnone)]
    rfl
  | true =>
    refine Leaves.look (.readOwner wiki) h rfl fun answer hanswer => ?_
    cases answer with
    | error e =>
      refine hquarantine _ ?_
      cases howner : q.ownerOf wiki with
      | none => rfl
      | some owner =>
        have hread : (q.perform host (.readOwner wiki)).1 = Except.ok owner :=
          readOwner_eq_ok.mpr howner
        rw [hanswer] at hread
        exact absurd hread (by simp)
    | ok claim =>
      have howner := readOwner_eq_ok.mp hanswer
      have howns := (h.owners wiki claim howner).1
      show Leaves host _ _ _ (if _ then _ else _)
      rw [if_neg (by simp [howns.valid, howns.wiki])]
      show Leaves host _ _ _ (if _ then _ else _)
      split
      next =>
        refine Leaves.bind (failClaimAt_leaves h howns.valid hmax ?_ rfl)
          fun _ _ h _ => Leaves.done h trivial
        rw [howns.wiki]
        exact howner
      next => exact Leaves.done h trivial

theorem recoverStaleAt_leaves {now maxAttempts : ℕ} (h : Intact host q)
    (hmax : maxAttempts ≤ u32Max) :
    Leaves host (Intact host) (fun _ _ => True) q (recoverStaleAt host now maxAttempts) := by
  refine Leaves.look .readLeases h rfl fun wikis _ => ?_
  refine Always.foldlM (fun wiki _ q' recovered h _ => ?_) h trivial
  refine Leaves.bind (recoverLease_leaves h hmax) fun wasStale q' h _ => ?_
  exact Leaves.done h trivial

/-- The task has its completion, its notification and a ready index that agrees. -/
def Evident (q : Queue) (wiki taskId snapshot : String) : Prop :=
  (q.records (.completed wiki taskId)).isSome ∧
    ∃ notification : ReadyNotification, q.records (.notification wiki taskId) = some notification ∧
      ∃ ready : ReadyIndex, q.records (.readyIndex notification.readyReceipt) = some ready ∧
        readyIndexMatches ready wiki snapshot

/-- The look at the evidence of a completed task changes nothing, and finds it. -/
theorem completedEvidenceValid_leaves {inv : Queue → Prop} {task : FleetTask} (h : inv q) :
    Leaves host inv (fun isValid q' => q' = q ∧
      (isValid = false → ¬ Evident q task.wiki task.taskId task.snapshot)) q
        (completedEvidenceValid host task) := by
  refine Leaves.look (.isRecord (.completed _ _)) h rfl fun isFile hfile => ?_
  cases isFile with
  | false =>
    refine Leaves.done h ⟨rfl, fun _ hevident => ?_⟩
    have hnone : (q.records (.completed task.wiki task.taskId)).isSome = false := hfile
    rw [hevident.1] at hnone
    exact absurd hnone (by simp)
  | true =>
    refine Leaves.look (.isRecord (.notification _ _)) h rfl fun isFile hfile => ?_
    cases isFile with
    | false =>
      refine Leaves.done h ⟨rfl, fun _ hevident => ?_⟩
      obtain ⟨-, notification, hthere, -⟩ := hevident
      have hnone : (q.records (.notification task.wiki task.taskId)).isSome = false := hfile
      rw [hthere] at hnone
      exact Bool.noConfusion (show true = false from hnone)
    | true =>
      refine Leaves.look (.readRecord (.completed _ _)) h rfl fun answer _ => ?_
      refine Leaves.require h fun completed _ => Leaves.require h fun _ _ =>
        Leaves.require h fun _ _ => ?_
      refine Leaves.look (.readRecord (.notification _ _)) h rfl fun answer hread => ?_
      refine Leaves.require h fun notification hnotification => Leaves.require h fun _ _ => ?_
      subst hnotification
      have hthere : q.records (.notification task.wiki task.taskId) = some notification :=
        context_eq_ok.mp hread
      refine Leaves.look (.isRecord (.readyIndex _)) h rfl fun isFile hfile => ?_
      cases isFile with
      | false =>
        refine Leaves.done h ⟨rfl, fun _ hevident => ?_⟩
        obtain ⟨-, found, hfound, ready, hready, -⟩ := hevident
        obtain rfl := Option.some.inj (hfound.symm.trans hthere)
        have hnone : (q.records (.readyIndex found.readyReceipt)).isSome = false := hfile
        rw [hready] at hnone
        exact Bool.noConfusion (show true = false from hnone)
      | true =>
        refine Leaves.look (.readRecord (.readyIndex _)) h rfl fun answer hread => ?_
        refine Leaves.require h fun ready hok => Leaves.done h ⟨rfl, fun hfalse hevident => ?_⟩
        subst hok
        have hready : q.records (.readyIndex notification.readyReceipt) = some ready :=
          context_eq_ok.mp hread
        obtain ⟨-, found, hfound, ready', hready', hmatches⟩ := hevident
        obtain rfl := Option.some.inj (hfound.symm.trans hthere)
        obtain rfl := Option.some.inj (hready'.symm.trans hready)
        rw [hmatches] at hfalse
        exact absurd hfalse (by simp)

theorem schedule_leaves {task : FleetTask} {report : DiscoveryReport} (h : Intact host q)
    (hvalid : (task.validate host).isOk) (hattempt : task.attempt < u32Max)
    (hnone : q.ownerOf task.wiki = none) :
    Leaves host (Intact host) (fun _ _ => True) q (schedule task report) := by
  refine Leaves.keep (.writePending task.wiki task) h ?_ fun h answer _ => ?_
  · refine ⟨rfl, hvalid, hattempt, fun claim hclaim => ?_⟩
    exact absurd (hnone.symm.trans hclaim) (by simp)
  cases answer with
  | error e => exact Leaves.fail h
  | ok u => exact Leaves.done h trivial

theorem enqueueAt_leaves {wiki snapshot : String} {resourceClass : ResourceClass}
    {signals : SchedulingSignals} {controllerRunId : String} {now : ℕ} (h : Intact host q) :
    Leaves host (Intact host) (fun _ _ => True) q
      (enqueueAt host wiki snapshot resourceClass signals controllerRunId now) := by
  refine Leaves.require h fun _ _ => Leaves.require h fun _ _ => Leaves.require h fun _ _ => ?_
  refine Leaves.bind (recoverStaleAt_leaves h (by decide)) fun recovered q h _ => ?_
  refine Leaves.look (.isLeaseDir wiki) h rfl fun isDir hdir => ?_
  cases isDir with
  | true => exact Leaves.done h trivial
  | false =>
    have hnone : q.ownerOf wiki = none := by
      have hfree : (q.leases.lookup wiki).isSome = false := hdir
      unfold Queue.ownerOf
      rw [Option.isNone_iff_eq_none.mp (Option.isSome_eq_false_iff.mp hfree)]
      rfl
    have hfirst : 0 < u32Max := by decide
    refine Leaves.require h fun _ hvalid => ?_
    refine Leaves.bind (completedEvidenceValid_leaves h) fun isValid q' h' hsame => ?_
    obtain ⟨rfl, -⟩ := hsame
    cases isValid with
    | true => exact Leaves.done h trivial
    | false =>
      refine Leaves.look (.isPending wiki) h rfl fun isFile _ => ?_
      cases isFile with
      | false => exact schedule_leaves h (by rw [hvalid]; rfl) hfirst hnone
      | true =>
        refine Leaves.look (.readPending wiki) h rfl fun answer _ => ?_
        refine Leaves.require h fun existing _ => Leaves.require h fun _ _ => ?_
        split
        next =>
          refine Leaves.keep (.writePending wiki _) h ?_ fun h answer _ => ?_
          · refine ⟨rfl, by rw [hvalid]; rfl, hfirst, fun claim hclaim => ?_⟩
            exact absurd (hnone.symm.trans hclaim) (by simp)
          cases answer with
          | error e => exact Leaves.fail h
          | ok u => exact Leaves.done h trivial
        next =>
          refine Leaves.keep (.writeRecord (.superseded _ _) _) h trivial fun h answer _ => ?_
          cases answer with
          | error e => exact Leaves.fail h
          | ok u => exact schedule_leaves h (by rw [hvalid]; rfl) hfirst hnone

/-- Listing the pending tasks changes nothing, and lists what is pending. -/
theorem pendingTasks_leaves {inv : Queue → Prop} (h : inv q) :
    Leaves host inv (fun tasks q' => q' = q ∧ ∀ task ∈ tasks,
      q.pending.lookup task.wiki = some task) q (pendingTasks host) := by
  refine Leaves.look .readPendingDir h rfl fun names _ => ?_
  refine Always.foldlM (fun wiki _ q' tasks _ hmid => ?_) h ⟨rfl, by simp⟩
  obtain ⟨rfl, htasks⟩ := hmid
  refine Leaves.look (.isPending wiki) h rfl fun isFile _ => ?_
  cases isFile with
  | false => exact Leaves.done h ⟨rfl, htasks⟩
  | true =>
    refine Leaves.look (.readPending wiki) h rfl fun answer hanswer => ?_
    refine Leaves.require h fun task htask => Leaves.require h fun _ _ =>
      Leaves.ensure h fun hwiki => ?_
    subst htask
    have hthere : q'.pending.lookup wiki = some task := context_eq_ok.mp hanswer
    refine Leaves.done h ⟨rfl, fun other hother => ?_⟩
    rcases List.mem_append.mp hother with hother | hother
    · exact htasks other hother
    · rw [List.mem_singleton.mp hother, ← hwiki]
      exact hthere

/-- A claim that is handed out has an attempt to go. -/
def HandsOut (claim : Option FleetClaim) : Prop := ∀ c ∈ claim, c.task.attempt < u32Max

theorem claimFirst_leaves {resourceClass : ResourceClass} {workerId : String}
    {leaseTimeoutSecs processId now : ℕ} (h : Intact host q)
    (hworker : validateComponent workerId "worker ID" = .ok ()) (htimeout : leaseTimeoutSecs > 0) :
    ∀ {tasks : List FleetTask}, (∀ task ∈ tasks, q.pending.lookup task.wiki = some task) →
      Leaves host (Intact host) (fun claim _ => HandsOut claim) q
        (claimFirst host resourceClass workerId leaseTimeoutSecs processId now tasks) := by
  intro tasks
  induction tasks with
  | nil => intro _; exact Leaves.done h (by simp [HandsOut])
  | cons task tasks ih =>
    intro htasks
    have hrest := ih fun t ht => htasks t (List.mem_cons_of_mem _ ht)
    have hthere := htasks task (List.mem_cons_self ..)
    obtain ⟨-, hvalid, hattempt⟩ := h.pending _ _ hthere
    rw [claimFirst]
    split
    · exact hrest
    · show Leaves host _ _ _ (Program.call (.createLease task.wiki) _)
      by_cases hlease : (q.leases.lookup task.wiki).isSome
      · have hsame : q.perform host (.createLease task.wiki) = (false, q) := if_pos hlease
        refine Leaves.look (.createLease task.wiki) h (by rw [hsame]) fun made hmade => ?_
        rw [hsame] at hmade
        subst hmade
        exact hrest
      · have hmade : (q.perform host (.createLease task.wiki)).1 = true :=
          congrArg Prod.fst (if_neg hlease)
        refine Leaves.keep (.createLease task.wiki) h trivial fun h answer hanswer => ?_
        rw [hmade] at hanswer
        subst hanswer
        refine Leaves.keep (.writeOwner task.wiki _) h ?_ fun h answer _ => ?_
        · refine ⟨⟨newClaim_valid hvalid hworker htimeout, rfl⟩, hattempt, task, ?_, rfl⟩
          rcases pending_perform (.createLease task.wiki) host q task.wiki with hsame | ⟨_, hc, -⟩ |
            ⟨hc, -⟩
          · exact hsame.trans hthere
          · exact absurd hc (by simp)
          · exact absurd hc (by simp)
        cases answer with
        | error e => exact Leaves.keep (.removeLease task.wiki) h trivial fun h _ _ => Leaves.fail h
        | ok u =>
          refine Leaves.done h fun claim hclaim => ?_
          obtain rfl := Option.some.inj hclaim
          exact hattempt

theorem claimAt_leaves {resourceClass : ResourceClass} {workerId : String}
    {leaseTimeoutSecs processId now : ℕ} (h : Intact host q) :
    Leaves host (Intact host) (fun claim _ => HandsOut claim) q
      (claimAt host resourceClass workerId leaseTimeoutSecs processId now) := by
  refine Leaves.require h fun _ hworker => Leaves.ensure h fun htimeout => ?_
  refine Leaves.bind (recoverStaleAt_leaves h (by decide)) fun _ q h _ => ?_
  refine Leaves.bind (pendingTasks_leaves h) fun tasks q' h hmid => ?_
  obtain ⟨rfl, htasks⟩ := hmid
  refine claimFirst_leaves h hworker htimeout fun task htask => ?_
  exact htasks task ((List.perm_insertionSort _ tasks).mem_iff.mp htask)

/-- A worker that may go on has found its task in the lease. -/
theorem ensureLiveOwner_leaves {inv : Queue → Prop} {held : FleetClaim} (h : inv q) :
    Leaves host inv (fun _ q' => q' = q ∧ ∃ owner, q.ownerOf held.task.wiki = some owner ∧
      owner.leaseId = held.leaseId ∧ owner.workerId = held.workerId ∧
      owner.task.taskId = held.task.taskId) q (ensureLiveOwner host held) := by
  have hread : Leaves host inv (fun live q' => q' = q ∧ q.ownerOf held.task.wiki = some live) q
      (readLiveClaim host held.task.wiki) := by
    refine Leaves.look (.readOwner held.task.wiki) h rfl fun answer hanswer => ?_
    refine Leaves.require h fun live hlive => Leaves.require h fun _ _ => ?_
    subst hlive
    exact Leaves.done h ⟨rfl, readOwner_eq_ok.mp hanswer⟩
  refine Leaves.bind hread fun live q' h hmid => ?_
  obtain ⟨rfl, howner⟩ := hmid
  unfold ensureOwner
  split
  next hsame => exact Leaves.done h ⟨rfl, live, howner, hsame⟩
  next => exact Leaves.fail h

theorem complete_leaves {held : FleetClaim} {outputDir : String} (h : Intact host q) :
    Leaves host (Intact host) (fun _ _ => True) q (complete host held outputDir) := by
  refine Leaves.require h fun _ _ => ?_
  refine Leaves.bind (ensureLiveOwner_leaves h) fun _ q' h hmid => ?_
  obtain ⟨rfl, owner, howner, -, -, hid⟩ := hmid
  refine Leaves.look (.readRecord (.readyIndex _)) h rfl fun answer _ => ?_
  refine Leaves.require h fun ready _ => Leaves.ensure h fun _ => ?_
  refine Leaves.look .nowUnix h rfl fun now _ => ?_
  refine Leaves.keep (.writeRecord (.notification _ _) _) h trivial fun h answer _ => ?_
  cases answer with
  | error e => exact Leaves.fail h
  | ok u =>
    refine Leaves.keep (.writeRecord (.completed _ _) _) h trivial fun h answer _ => ?_
    cases answer with
    | error e => exact Leaves.fail h
    | ok u =>
      refine Leaves.keep (.removePending held.task.wiki) h ?_ fun h answer _ => ?_
      · intro live hlive
        have hlive' : q'.ownerOf held.task.wiki = some live := hlive
        obtain rfl := Option.some.inj (howner.symm.trans hlive')
        rw [hid]
        refine Or.inl ⟨isSome_records_writeRecord, ?_⟩
        exact isSome_records_perform _ isSome_records_writeRecord
      cases answer with
      | error e => exact Leaves.fail h
      | ok u =>
        refine Leaves.keep (.removeLease held.task.wiki) h trivial fun h answer _ => ?_
        cases answer with
        | error e => exact Leaves.fail h
        | ok u => exact Leaves.done h trivial

theorem failClaim_leaves {held : FleetClaim} {error : String} {maxAttempts : ℕ} (h : Intact host q)
    (hmax : maxAttempts ≤ u32Max) :
    Leaves host (Intact host) (fun _ _ => True) q (failClaim host held error maxAttempts) := by
  refine Leaves.ensure h fun _ => Leaves.require h fun _ hvalid => ?_
  refine Leaves.bind (ensureLiveOwner_leaves h) fun _ q' h hmid => ?_
  obtain ⟨rfl, owner, howner, -, -, hid⟩ := hmid
  refine Leaves.look .nowUnix h rfl fun now _ => ?_
  exact failClaimAt_leaves h (by rw [hvalid]; rfl) hmax howner hid

theorem defer_leaves {held : FleetClaim} {reason : String} {retryAfterSecs : ℕ} (h : Intact host q)
    (hattempt : held.task.attempt < u32Max) :
    Leaves host (Intact host) (fun _ _ => True) q (defer host held reason retryAfterSecs) := by
  refine Leaves.ensure h fun _ => Leaves.require h fun _ hvalid => ?_
  refine Leaves.bind (ensureLiveOwner_leaves h) fun _ q' h hmid => ?_
  obtain ⟨rfl, owner, howner, -, -, hid⟩ := hmid
  refine Leaves.look .nowUnix h rfl fun now _ => ?_
  refine Leaves.keep (.writePending held.task.wiki _) h ?_ fun h answer _ => ?_
  · refine ⟨rfl, task_valid (by rw [hvalid]; rfl), hattempt, fun live hlive => ?_⟩
    obtain rfl := Option.some.inj (howner.symm.trans hlive)
    exact hid.symm
  cases answer with
  | error e => exact Leaves.fail h
  | ok u =>
    refine Leaves.keep (.writeRecord (.deferred _ _ _) _) h trivial fun h answer _ => ?_
    cases answer with
    | error e => exact Leaves.fail h
    | ok u =>
      refine Leaves.keep (.removeLease held.task.wiki) h trivial fun h answer _ => ?_
      cases answer with
      | error e => exact Leaves.fail h
      | ok u => exact Leaves.done h trivial

end Operations

/-- **Wherever an operation is cut off, it leaves the queue intact.** -/
theorem Operation.leaves {host : Host} {s : Session} {op : Operation} (h : Intact host s.store)
    (hreceipts : ∀ claim ∈ s.receipts, claim.task.attempt < u32Max) (hmay : s.mayRun op) :
    Leaves host (Intact host) (fun outcome _ => ∀ claim, outcome = .claimed claim →
      HandsOut claim) s.store
      (op.program host) := by
  obtain ⟨hheld, hmax, hbeat⟩ := of_decide_eq_true hmay
  cases op with
  | enqueue wiki snapshot resourceClass signals controllerRunId =>
    refine Leaves.look .nowUnix h rfl fun (now : ℕ) _ => ?_
    show Leaves host _ _ _ (enqueueAt host _ _ _ _ _ now
      >>= fun report => pure (Outcome.discovered report))
    exact Leaves.bind (enqueueAt_leaves h) fun _ _ h _ => Leaves.done h (by simp)
  | claim resourceClass workerId leaseTimeoutSecs processId =>
    refine Leaves.look .nowUnix h rfl fun (now : ℕ) _ => ?_
    show Leaves host _ _ _ (claimAt host _ _ _ _ now >>= fun claim => pure (Outcome.claimed claim))
    refine Leaves.bind (claimAt_leaves h) fun claim _ h hclaim => Leaves.done h ?_
    intro other hother
    rw [← Outcome.claimed.inj hother]
    exact hclaim
  | heartbeat held => exact absurd rfl hbeat
  | complete held outputDir =>
    exact Leaves.bind (complete_leaves h) fun _ _ h _ => Leaves.done h (by simp)
  | fail held error maxAttempts =>
    exact Leaves.bind (failClaim_leaves h hmax) fun _ _ h _ => Leaves.done h (by simp)
  | defer held reason retryAfterSecs =>
    have hmem : held ∈ s.receipts := by simpa [Operation.held] using hheld
    exact Leaves.bind (defer_leaves h (hreceipts held hmem)) fun _ _ h _ =>
      Leaves.done h (by simp)
  | recoverStale maxAttempts =>
    refine Leaves.look .nowUnix h rfl fun (now : ℕ) _ => ?_
    show Leaves host _ _ _ (recoverStaleAt host now _
      >>= fun leases => pure (Outcome.recovered leases))
    exact Leaves.bind (recoverStaleAt_leaves h hmax) fun _ _ h _ => Leaves.done h (by simp)

/-! ## Runs -/

theorem sessions_inductive (host : Host) : (sessions host).Inductive fun s =>
    Intact host s.store ∧ ∀ claim ∈ s.receipts, claim.task.attempt < u32Max where
  init s hinit := by
    obtain ⟨hleases, hpending, hambiguous, hreceipts⟩ := hinit
    have howner : ∀ wiki, s.store.ownerOf wiki = none := by
      intro wiki
      unfold Queue.ownerOf
      rw [hleases]
      rfl
    have htask : ∀ wiki, s.store.pending.lookup wiki = none := by
      intro wiki
      rw [hpending]
      rfl
    refine ⟨⟨fun wiki claim h => ?_, fun wiki task h => ?_, fun wiki claim _ h => ?_,
      fun wiki claim h => ?_, fun name now => by rw [hambiguous]; rfl⟩, by simp [hreceipts]⟩
    · exact absurd ((howner wiki).symm.trans h) (by simp)
    · exact absurd ((htask wiki).symm.trans h) (by simp)
    · exact absurd ((howner wiki).symm.trans h) (by simp)
    · exact absurd ((howner wiki).symm.trans h) (by simp)
  step s e t h hstep := by
    obtain ⟨hintact, hreceipts⟩ := h
    cases e with
    | run op calls =>
      have hrun : (if s.mayRun op then _ else none) = some t := hstep
      split at hrun
      next hmay =>
        obtain rfl := Option.some.inj hrun
        -- A call may be cut off anywhere; what it leaves is intact at every point.
        have hleaves := (Operation.leaves hintact hreceipts hmay).steps calls
        refine ⟨hleaves.now, fun claim hclaim => ?_⟩
        rcases List.mem_append.mp hclaim with hnew | hold
        · have hnew' := Option.mem_toList.mp hnew
          unfold claimOf at hnew'
          split at hnew'
          next claim' hdone =>
            rw [hdone] at hleaves
            exact hleaves.2 claim' rfl claim hnew'
          next => exact absurd hnew' (by simp)
        · exact hreceipts claim hold
      next => exact absurd hrun (by simp)
    | tick seconds =>
      -- The clock is not part of what is kept.
      obtain rfl := Option.some.inj hstep
      exact ⟨⟨hintact.owners, hintact.pending, hintact.same, hintact.ended, hintact.ambiguous⟩,
        hreceipts⟩
    | publishReady path index =>
      obtain rfl := Option.some.inj hstep
      have hkept := @Queue.records_publishReady s.store path index
      refine ⟨⟨hintact.owners, hintact.pending, hintact.same, fun wiki claim howner htask => ?_,
        hintact.ambiguous⟩, hreceipts⟩
      rcases hintact.ended wiki claim howner htask with ⟨hdone, hready⟩ | ⟨attempt, hdone⟩
      · refine Or.inl ⟨?_, ?_⟩
        · dsimp only
          rw [hkept (by simp)]
          exact hdone
        · dsimp only
          rw [hkept (by simp)]
          exact hready
      · refine Or.inr ⟨attempt, ?_⟩
        dsimp only
        rw [hkept (by simp)]
        exact hdone

theorem Intact.of_reachable {host : Host} {s : Session} (h : (sessions host).Reachable s) :
    Intact host s.store := ((sessions_inductive host).reachable h).1

end WikiEcon.Fleet
