import WikiEcon.Fleet.Sessions

/-!
# Recovery after a crash

A worker that is killed leaves its lease behind. Once it has expired, recovery
should finish or undo what the worker was about, for every wiki, and leave a queue
that can be claimed from (`Recovers`).

Recovery only looks at the lease: it fails the claim again. That goes wrong where
the killed worker had already removed the pending record, for the last failure of a
task cannot remove it a second time and recovery stops there for all wikis, and
where it had completed the task, which is then put back. `Recoverable` says that
neither is the case, and is exactly when recovery does what it should
(`recoverStaleAt_recovers_iff`).
-/

namespace WikiEcon.Fleet

open Programs Program Transition

/-! ## What recovery should do -/

/-- The queue after a recovery. -/
def recovered (host : Host) (now maxAttempts : ℕ) (q : Queue) : Queue :=
  ((recoverStaleAt host now maxAttempts).run (Queue.perform host) q).2

structure Recovers (host : Host) (now maxAttempts : ℕ) (q : Queue) : Prop where
  ok : ((recoverStaleAt host now maxAttempts).run (Queue.perform host) q).1.isOk
  /-- No lease remains that has expired, or has no owner. -/
  unexpired : ∀ wiki lease, (recovered host now maxAttempts q).leases.lookup wiki = some lease →
    ∃ claim, lease = some claim ∧ isExpired claim now = false
  /-- A pending record of a completed task was there before. -/
  notPutBack : ∀ wiki task, (recovered host now maxAttempts q).pending.lookup wiki = some task →
    Done q wiki task.taskId → q.pending.lookup wiki = some task
  /-- A task that was pending or leased is pending, unless it ended. -/
  pendingAgain : ∀ wiki taskId,
    (Pends q wiki taskId ∨ ∃ claim ∈ q.ownerOf wiki, claim.task.taskId = taskId) →
    ¬ Done q wiki taskId → ¬ Quarantined (recovered host now maxAttempts q) wiki taskId →
      Pends (recovered host now maxAttempts q) wiki taskId
  /-- Workers can go on claiming. -/
  claims : ∀ resourceClass workerId leaseTimeoutSecs processId,
    validateComponent workerId "worker ID" = .ok () → leaseTimeoutSecs > 0 →
      ((claimAt host resourceClass workerId leaseTimeoutSecs processId now).run
        (Queue.perform host) (recovered host now maxAttempts q)).1.isOk

/-- The expired lease of a wiki. -/
def Expired (q : Queue) (now : ℕ) (wiki : String) (claim : FleetClaim) : Prop :=
  q.ownerOf wiki = some claim ∧ isExpired claim now = true

/-- Where an expired claim has no attempt left, its pending record is still there;
where it has, and its task is completed, the pending record is already the one that
recovery would write. -/
def Recoverable (now maxAttempts : ℕ) (q : Queue) : Prop :=
  ∀ wiki claim, Expired q now wiki claim →
    (claim.task.attempt + 1 ≥ maxAttempts → (q.pending.lookup wiki).isSome) ∧
    (claim.task.attempt + 1 < maxAttempts → Done q wiki claim.task.taskId →
      q.pending.lookup wiki = some (retryTask claim.task (claim.task.attempt + 1) now))

/-! ## Runs of calls -/

/-- What a failure with an attempt left leaves. -/
def Queue.retried (q : Queue) (claim : FleetClaim) (error : String) (now : ℕ) : Queue :=
  let task := retryTask claim.task (claim.task.attempt + 1) now
  { q with
    pending := q.pending.insert claim.task.wiki task
    records := Function.update q.records (.failure task.wiki task.taskId task.attempt) (some {
      schemaVersion := 1
      error := conciseError error
      failedAtUnix := now
      workerId := claim.workerId
      task := task })
    leases := q.leases.erase claim.task.wiki }

/-- What the last failure leaves. -/
def Queue.exhausted (q : Queue) (claim : FleetClaim) (error : String) (now : ℕ) : Queue :=
  { q with
    pending := q.pending.erase claim.task.wiki
    records := Function.update q.records
      (.quarantine claim.task.wiki claim.task.taskId (claim.task.attempt + 1)) (some {
        schemaVersion := 1
        reason := "retry_limit_exhausted"
        error := conciseError error
        failedAtUnix := now
        claim := claim })
    leases := q.leases.erase claim.task.wiki }

theorem Queue.retried_quarantine {q : Queue} {claim : FleetClaim} {error : String} {now : ℕ}
    {wiki taskId : String} {attempt : ℕ} :
    (q.retried claim error now).records (.quarantine wiki taskId attempt)
      = q.records (.quarantine wiki taskId attempt) := by
  have hne : Record.quarantine wiki taskId attempt
      ≠ .failure claim.task.wiki claim.task.taskId (claim.task.attempt + 1) := by simp
  unfold Queue.retried
  dsimp only
  rw [Function.update_of_ne]
  exact hne

section Run

variable {host : Host} {q : Queue} {α : Type}

theorem run_require {β : Type} {result : Except String β} {b : β} (h : result = .ok b)
    {next : β → Steps α} :
    (require result >>= next).run (Queue.perform host) q
      = (next b).run (Queue.perform host) q := by
  subst h
  rfl

theorem run_of_perform {c : Call} {rest : c.Answer → Steps α} {answer : c.Answer} {q' : Queue}
    (h : q.perform host c = (answer, q')) :
    (Program.call c rest).run (Queue.perform host) q
      = (rest answer).run (Queue.perform host) q' := by
  rw [run_call, h]

theorem run_removeLease {wiki : String} (hlease : (q.leases.lookup wiki).isSome)
    {next : Unit → Steps α} :
    (attempt (removeLease wiki) >>= next).run (Queue.perform host) q
      = (next ()).run (Queue.perform host) { q with leases := q.leases.erase wiki } := by
  have hperform : q.perform host (.removeLease wiki)
      = (.ok (), { q with leases := q.leases.erase wiki }) := if_pos hlease
  exact run_of_perform hperform

/-- The same at the end of a program. -/
theorem run_removeLease_last {wiki : String} (hlease : (q.leases.lookup wiki).isSome) :
    (attempt (removeLease wiki)).run (Queue.perform host) q
      = (.ok (), { q with leases := q.leases.erase wiki }) := by
  have hperform : q.perform host (.removeLease wiki)
      = (.ok (), { q with leases := q.leases.erase wiki }) := if_pos hlease
  exact run_of_perform hperform

theorem run_removePending {wiki : String} (hpending : (q.pending.lookup wiki).isSome)
    {next : Unit → Steps α} :
    (attempt (removePending wiki) >>= next).run (Queue.perform host) q
      = (next ()).run (Queue.perform host) { q with pending := q.pending.erase wiki } := by
  have hperform : q.perform host (.removePending wiki)
      = (.ok (), { q with pending := q.pending.erase wiki }) := if_pos hpending
  exact run_of_perform hperform

theorem run_removePending_none {wiki : String} (hpending : q.pending.lookup wiki = none)
    {next : Unit → Steps α} :
    (attempt (removePending wiki) >>= next).run (Queue.perform host) q
      = (.error (.other noSuchFile), q) := by
  have hperform : q.perform host (.removePending wiki) = (.error noSuchFile, q) :=
    if_neg (by simp [hpending])
  exact run_of_perform hperform

theorem checkedAttempt {attempt : ℕ} (h : attempt < u32Max) :
    context (checkedAdd u32Max attempt 1) "fleet attempt overflow" = .ok (attempt + 1) :=
  context_eq_ok.mpr (checkedAdd_eq_some.mpr ⟨by omega, rfl⟩)

/-- A failure with an attempt left. -/
theorem failClaimAt_run_retry {claim : FleetClaim} {error : String} {maxAttempts now : ℕ}
    (hattempt : claim.task.attempt < u32Max) (hlimit : ¬ claim.task.attempt + 1 ≥ maxAttempts)
    (hlease : (q.leases.lookup claim.task.wiki).isSome) :
    (failClaimAt claim error maxAttempts now).run (Queue.perform host) q
      = (.ok false, q.retried claim error now) := by
  unfold failClaimAt
  rw [run_require (checkedAttempt hattempt), if_neg hlimit]
  exact run_removeLease (q := { q with
    pending := (q.retried claim error now).pending
    records := (q.retried claim error now).records }) hlease

/-- The last failure of a task that is still pending. -/
theorem failClaimAt_run_exhausted {claim : FleetClaim} {error : String} {maxAttempts now : ℕ}
    (hattempt : claim.task.attempt < u32Max) (hlimit : claim.task.attempt + 1 ≥ maxAttempts)
    (hpending : (q.pending.lookup claim.task.wiki).isSome)
    (hlease : (q.leases.lookup claim.task.wiki).isSome) :
    (failClaimAt claim error maxAttempts now).run (Queue.perform host) q
      = (.ok true, q.exhausted claim error now) := by
  unfold failClaimAt
  rw [run_require (checkedAttempt hattempt), if_pos hlimit]
  refine (run_removePending (q := { q with
    records := (q.exhausted claim error now).records }) hpending).trans ?_
  exact run_removeLease (q := { q with
    pending := (q.exhausted claim error now).pending
    records := (q.exhausted claim error now).records }) hlease

/-- The last failure of a task that is no longer pending. -/
theorem failClaimAt_run_stuck {claim : FleetClaim} {error : String} {maxAttempts now : ℕ}
    (hattempt : claim.task.attempt < u32Max) (hlimit : claim.task.attempt + 1 ≥ maxAttempts)
    (hpending : q.pending.lookup claim.task.wiki = none) :
    ((failClaimAt claim error maxAttempts now).run (Queue.perform host) q).1
      = .error (.other noSuchFile) := by
  unfold failClaimAt
  rw [run_require (checkedAttempt hattempt), if_pos hlimit]
  exact congrArg Prod.fst (run_removePending_none (q := { q with
    records := (q.exhausted claim error now).records }) hpending)

end Run

/-! ## One lease -/

/-- The documents recovery writes about the tasks of a wiki. -/
def Record.isFailureOf (wiki : String) : Record → Bool
  | .failure w _ _ => w = wiki
  | .quarantine w _ _ => w = wiki
  | _ => false

/-- What recovery makes of the lease of a wiki. -/
structure Settled (now maxAttempts : ℕ) (wiki : String) (q q' : Queue) : Prop where
  lease : ∀ lease, q'.leases.lookup wiki = some lease → ∃ claim, lease = some claim ∧
    q.ownerOf wiki = some claim ∧ isExpired claim now = false
  kept : ∀ claim, q.ownerOf wiki = some claim → isExpired claim now = false →
    q'.leases.lookup wiki = some (some claim)
  untouched : (∀ claim, ¬ Expired q now wiki claim) →
    q'.pending.lookup wiki = q.pending.lookup wiki ∧
      ∀ record, record.isFailureOf wiki → q'.records record = q.records record
  retried : ∀ claim, Expired q now wiki claim → claim.task.attempt + 1 < maxAttempts →
    q'.pending.lookup wiki = some (retryTask claim.task (claim.task.attempt + 1) now) ∧
      (q'.records (.failure wiki claim.task.taskId (claim.task.attempt + 1))).isSome ∧
      ∀ taskId, Quarantined q' wiki taskId → Quarantined q wiki taskId
  exhausted : ∀ claim, Expired q now wiki claim → claim.task.attempt + 1 ≥ maxAttempts →
    (q.pending.lookup wiki).isSome ∧ q'.pending.lookup wiki = none ∧
      Quarantined q' wiki claim.task.taskId

/-- The wiki's lease, pending record and failures are the same in both. -/
structure SameAt (wiki : String) (q q' : Queue) : Prop where
  leases : q'.leases.lookup wiki = q.leases.lookup wiki
  pending : q'.pending.lookup wiki = q.pending.lookup wiki
  failures : ∀ record, record.isFailureOf wiki → q'.records record = q.records record

theorem SameAt.refl (wiki : String) (q : Queue) : SameAt wiki q q := ⟨rfl, rfl, fun _ _ => rfl⟩

theorem SameAt.trans {wiki : String} {q q' q'' : Queue} (h : SameAt wiki q q')
    (h' : SameAt wiki q' q'') : SameAt wiki q q'' :=
  ⟨h'.leases.trans h.leases, h'.pending.trans h.pending,
    fun record hrecord => (h'.failures record hrecord).trans (h.failures record hrecord)⟩

theorem SameAt.quarantined {wiki taskId : String} {q q' : Queue} (h : SameAt wiki q q') :
    Quarantined q' wiki taskId ↔ Quarantined q wiki taskId := by
  have hsame : ∀ attempt, q'.records (.quarantine wiki taskId attempt)
      = q.records (.quarantine wiki taskId attempt) := fun attempt =>
    h.failures _ (decide_eq_true rfl)
  simp only [Quarantined, hsame]

theorem SameAt.ownerOf {wiki : String} {q q' : Queue} (h : SameAt wiki q q') :
    q'.ownerOf wiki = q.ownerOf wiki := by
  unfold Queue.ownerOf
  rw [h.leases]

/-- Recovery does not write it. -/
def Record.isSpared : Record → Bool
  | .failure .. | .quarantine .. | .ambiguous .. => false
  | _ => true

/-- No document is removed, and those that recovery does not write are the same. -/
structure KeepsRecords (q q' : Queue) : Prop where
  kept : ∀ record, (q.records record).isSome → (q'.records record).isSome
  spared : ∀ record, record.isSpared → q'.records record = q.records record
  clock : q'.clock = q.clock

theorem KeepsRecords.refl (q : Queue) : KeepsRecords q q := ⟨fun _ h => h, fun _ _ => rfl, rfl⟩

theorem KeepsRecords.trans {q q' q'' : Queue} (h : KeepsRecords q q') (h' : KeepsRecords q' q'') :
    KeepsRecords q q'' where
  kept record hthere := h'.kept record (h.kept record hthere)
  spared record hspared := (h'.spared record hspared).trans (h.spared record hspared)
  clock := h'.clock.trans h.clock

theorem KeepsRecords.quarantined {q q' : Queue} (h : KeepsRecords q q') {wiki taskId : String}
    (hquarantined : Quarantined q wiki taskId) : Quarantined q' wiki taskId := by
  obtain ⟨attempt, hattempt⟩ := hquarantined
  exact ⟨attempt, h.kept _ hattempt⟩

theorem KeepsRecords.of_update {q q' : Queue} {record : Record} {content : record.Content}
    (hrecord : record.isSpared = false)
    (hrecords : q'.records = Function.update q.records record (some content))
    (hclock : q'.clock = q.clock) : KeepsRecords q q' where
  kept other hthere := by
    rw [hrecords]
    by_cases hother : other = record
    · subst hother
      rw [Function.update_self]
      rfl
    · rw [Function.update_of_ne hother]
      exact hthere
  spared other hspared := by
    have hother : other ≠ record := by
      rintro rfl
      rw [hrecord] at hspared
      exact absurd hspared Bool.false_ne_true
    rw [hrecords, Function.update_of_ne hother]
  clock := hclock

section Settled

variable {now maxAttempts : ℕ} {wiki : String} {q q' q'' : Queue}

theorem Settled.of_same (h : Settled now maxAttempts wiki q' q'') (hsame : SameAt wiki q q') :
    Settled now maxAttempts wiki q q'' where
  lease lease hlease := by
    rw [← hsame.ownerOf]
    exact h.lease lease hlease
  kept claim howner := h.kept claim (hsame.ownerOf.trans howner)
  untouched hnone := by
    obtain ⟨hpending, hfailures⟩ := h.untouched fun claim hexpired =>
      hnone claim ⟨hsame.ownerOf.symm.trans hexpired.1, hexpired.2⟩
    exact ⟨hpending.trans hsame.pending, fun record hrecord =>
      (hfailures record hrecord).trans (hsame.failures record hrecord)⟩
  retried claim hexpired hlimit := by
    obtain ⟨hretried, hrecord, hnew⟩ :=
      h.retried claim ⟨hsame.ownerOf.trans hexpired.1, hexpired.2⟩ hlimit
    exact ⟨hretried, hrecord, fun taskId hquarantined =>
      hsame.quarantined.mp (hnew taskId hquarantined)⟩
  exhausted claim hexpired hlimit := by
    rw [← hsame.pending]
    exact h.exhausted claim ⟨hsame.ownerOf.trans hexpired.1, hexpired.2⟩ hlimit

theorem Settled.then_same (h : Settled now maxAttempts wiki q q') (hsame : SameAt wiki q' q'')
    (hkeeps : KeepsRecords q' q'') : Settled now maxAttempts wiki q q'' where
  lease lease hlease := h.lease lease (hsame.leases.symm.trans hlease)
  kept claim howner hlive := hsame.leases.trans (h.kept claim howner hlive)
  untouched hnone := by
    obtain ⟨hpending, hfailures⟩ := h.untouched hnone
    exact ⟨hsame.pending.trans hpending, fun record hrecord =>
      (hsame.failures record hrecord).trans (hfailures record hrecord)⟩
  retried claim hexpired hlimit := by
    obtain ⟨hretried, hrecord, hnew⟩ := h.retried claim hexpired hlimit
    exact ⟨hsame.pending.trans hretried, hkeeps.kept _ hrecord, fun taskId hquarantined =>
      hnew taskId (hsame.quarantined.mp hquarantined)⟩
  exhausted claim hexpired hlimit := by
    obtain ⟨hthere, hgone, hquarantined⟩ := h.exhausted claim hexpired hlimit
    exact ⟨hthere, hsame.pending.trans hgone, hkeeps.quarantined hquarantined⟩

end Settled

section Lease

variable {host : Host} {q : Queue} {now maxAttempts : ℕ} {wiki : String}

/-- A document of another wiki, or of no wiki, is none of the wiki's failures. -/
theorem failures_of_update {q q' : Queue} {wiki : String} {record written : Record}
    {content : written.Content} (hrecord : record.isFailureOf wiki)
    (hwritten : written.isFailureOf wiki = false)
    (hrecords : q'.records = Function.update q.records written (some content)) :
    q'.records record = q.records record := by
  rw [hrecords]
  refine Function.update_of_ne (fun heq => ?_) ..
  rw [heq, hwritten] at hrecord
  exact absurd hrecord Bool.false_ne_true

/-- A failure is of no concern to another wiki. -/
theorem Queue.retried_same {claim : FleetClaim} {error : String} {w : String}
    (hw : w ≠ claim.task.wiki) : SameAt w q (q.retried claim error now) where
  leases := AList.lookup_erase_ne hw
  pending := AList.lookup_insert_ne hw
  failures record hrecord := by
    refine failures_of_update hrecord ?_ rfl
    exact decide_eq_false hw.symm

theorem Queue.exhausted_same {claim : FleetClaim} {error : String} {w : String}
    (hw : w ≠ claim.task.wiki) : SameAt w q (q.exhausted claim error now) where
  leases := AList.lookup_erase_ne hw
  pending := AList.lookup_erase_ne hw
  failures record hrecord := by
    refine failures_of_update hrecord ?_ rfl
    exact decide_eq_false hw.symm

/-- A lease without an owner is moved away. -/
theorem quarantineUnknown_run (h : Intact host q) (hlease : q.leases.lookup wiki = some none)
    (reason : String) :
    ∃ q', (quarantineUnknown wiki reason now).run (Queue.perform host) q = (.ok (), q') ∧
      q'.leases = q.leases.erase wiki ∧ q'.pending = q.pending ∧ KeepsRecords q q' ∧
      ∀ w record, record.isFailureOf w → q'.records record = q.records record := by
  have hfree : ¬ (q.ambiguousLeases wiki now).join.isSome := by
    rw [h.ambiguous]
    simp
  have hperform : q.perform host (.renameLease wiki now) = (.ok (), { q with
      leases := q.leases.erase wiki
      ambiguousLeases := Function.update q.ambiguousLeases wiki
        (Function.update (q.ambiguousLeases wiki) now (some none)) }) := by
    simp only [Queue.perform, hlease]
    exact if_neg hfree
  refine ⟨_, run_of_perform hperform, rfl, rfl, .of_update rfl rfl rfl, fun w record hrecord => ?_⟩
  exact failures_of_update hrecord rfl rfl

/-- The run of one recovery: it settles the lease, or cannot, and touches no other
wiki. -/
theorem recoverLease_run (h : Intact host q) (hthere : (q.leases.lookup wiki).isSome) :
    (∃ stale q', (recoverLease host now maxAttempts wiki).run (Queue.perform host) q
        = (.ok stale, q') ∧ Settled now maxAttempts wiki q q' ∧
        (∀ w, w ≠ wiki → SameAt w q q') ∧ KeepsRecords q q') ∨
      ((∃ e, ((recoverLease host now maxAttempts wiki).run (Queue.perform host) q).1 = .error e) ∧
        ∃ claim, Expired q now wiki claim ∧ claim.task.attempt + 1 ≥ maxAttempts ∧
          q.pending.lookup wiki = none) := by
  have hdir : q.perform host (.isLeaseDir wiki) = (true, q) := congrArg (·, q) hthere
  obtain ⟨lease, hlease⟩ := Option.isSome_iff_exists.mp hthere
  cases lease with
  | none =>
    -- A directory without an owner goes to quarantine, whatever its age.
    obtain ⟨q', hrun, hleases, hpending, hkeeps, hfailures⟩ :=
      quarantineUnknown_run h hlease "lease owner is missing or invalid"
    have howner : q.ownerOf wiki = none := by
      unfold Queue.ownerOf
      rw [hlease]
      rfl
    have hread : q.perform host (.readOwner wiki) = (.error noSuchFile, q) := by
      show (context (q.leases.lookup wiki).join noSuchFile, q) = _
      rw [hlease]
      rfl
    have hexpired : ∀ claim, ¬ Expired q now wiki claim := fun claim hexpired =>
      absurd (howner.symm.trans hexpired.1) (by simp)
    refine Or.inl ⟨false, q', ?_, ⟨fun lease hlease' => ?_,
      fun claim hc _ => absurd (howner.symm.trans hc) (by simp),
      fun _ => ⟨by rw [hpending], hfailures wiki⟩,
      fun claim hc => absurd hc (hexpired claim), fun claim hc => absurd hc (hexpired claim)⟩,
      fun w hw => ⟨?_, by rw [hpending], hfailures w⟩, hkeeps⟩
    · refine (run_of_perform hdir).trans ((run_of_perform hread).trans ?_)
      exact run_bind_ok _ hrun
    · rw [hleases, AList.lookup_erase] at hlease'
      exact absurd hlease' (by simp)
    · rw [hleases, AList.lookup_erase_ne hw]
  | some claim =>
    have howner : q.ownerOf wiki = some claim := by
      unfold Queue.ownerOf
      rw [hlease]
      rfl
    obtain ⟨howns, hattempt⟩ := h.owners wiki claim howner
    have hread : q.perform host (.readOwner wiki) = (.ok claim, q) := by
      show (context (q.leases.lookup wiki).join noSuchFile, q) = _
      rw [hlease]
      rfl
    have hrun : (recoverLease host now maxAttempts wiki).run (Queue.perform host) q
        = (if isExpired claim now then
            failClaimAt claim "worker lease heartbeat expired" maxAttempts now >>=
              fun _ => pure true
          else pure false : Steps Bool).run (Queue.perform host) q := by
      refine (run_of_perform hdir).trans ((run_of_perform hread).trans ?_)
      show (if _ then _ else _ : Steps Bool).run _ q = _
      rw [if_neg (by simp [howns.valid, howns.wiki])]
    have honly : ∀ other, Expired q now wiki other → other = claim := fun other hother =>
      Option.some.inj (hother.1.symm.trans howner)
    by_cases hexpired : isExpired claim now = true
    · rw [if_pos hexpired] at hrun
      obtain ⟨-, hwiki⟩ := howns
      subst hwiki
      -- An expired claim is put back, or is exhausted if this was its last attempt.
      by_cases hlimit : claim.task.attempt + 1 ≥ maxAttempts
      · by_cases hpending : (q.pending.lookup claim.task.wiki).isSome
        · have hfailed : (failClaimAt claim "worker lease heartbeat expired" maxAttempts now).run
              (Queue.perform host) q
                = (.ok true, q.exhausted claim "worker lease heartbeat expired" now) :=
            failClaimAt_run_exhausted hattempt hlimit hpending hthere
          refine Or.inl ⟨true, _, hrun.trans (run_bind_ok _ hfailed), ⟨fun lease hlease' => ?_,
            fun other hother hlive => ?_, fun hnone => absurd ⟨howner, hexpired⟩ (hnone claim),
            fun other hother hother' => ?_, fun other hother _ => ?_⟩,
            fun w hw => Queue.exhausted_same hw, .of_update rfl rfl rfl⟩
          · exact absurd ((AList.lookup_erase _ _).symm.trans hlease') (by simp)
          · rw [← Option.some.inj (howner.symm.trans hother), hexpired] at hlive
            exact absurd hlive (by simp)
          · rw [honly other hother] at hother'
            exact absurd hlimit (by omega)
          · rw [honly other hother]
            exact ⟨hpending, AList.lookup_erase .., claim.task.attempt + 1, isSome_update_self⟩
        -- The last attempt, and the task is gone from the queue: the failure cannot be recorded.
        · have hnone := Option.not_isSome_iff_eq_none.mp hpending
          have hfailed : ((failClaimAt claim "worker lease heartbeat expired" maxAttempts now).run
              (Queue.perform host) q).1 = .error (.other noSuchFile) :=
            failClaimAt_run_stuck hattempt hlimit hnone
          refine Or.inr ⟨⟨.other noSuchFile, ?_⟩, claim, ⟨howner, hexpired⟩, hlimit, hnone⟩
          rw [hrun]
          exact run_bind_error _ hfailed
      · have hfailed : (failClaimAt claim "worker lease heartbeat expired" maxAttempts now).run
            (Queue.perform host) q
              = (.ok false, q.retried claim "worker lease heartbeat expired" now) :=
          failClaimAt_run_retry hattempt hlimit hthere
        refine Or.inl ⟨true, _, hrun.trans (run_bind_ok _ hfailed), ⟨fun lease hlease' => ?_,
          fun other hother hlive => ?_, fun hnone => absurd ⟨howner, hexpired⟩ (hnone claim),
          fun other hother _ => ?_, fun other hother hother' => ?_⟩,
          fun w hw => Queue.retried_same hw, .of_update rfl rfl rfl⟩
        · exact absurd ((AList.lookup_erase _ _).symm.trans hlease') (by simp)
        · rw [← Option.some.inj (howner.symm.trans hother), hexpired] at hlive
          exact absurd hlive (by simp)
        · rw [honly other hother]
          refine ⟨AList.lookup_insert .., isSome_update_self, fun taskId hquarantined => ?_⟩
          obtain ⟨attempt, hattempt⟩ := hquarantined
          refine ⟨attempt, ?_⟩
          rwa [Queue.retried_quarantine] at hattempt
        · rw [honly other hother] at hother'
          exact absurd hother' hlimit
    · rw [if_neg hexpired] at hrun
      -- A live claim is left alone.
      have hnone : ∀ other, ¬ Expired q now wiki other := fun other hother => by
        rw [honly other hother] at hother
        exact hexpired hother.2
      refine Or.inl ⟨false, q, hrun, ⟨fun lease hlease' => ?_, fun other hother _ => ?_,
        fun _ => ⟨rfl, fun _ _ => rfl⟩, fun other hother => absurd hother (hnone other),
        fun other hother => absurd hother (hnone other)⟩, fun w _ => .refl w q, .refl q⟩
      · rw [hlease] at hlease'
        obtain rfl := Option.some.inj hlease'
        exact ⟨claim, rfl, howner, by simpa using hexpired⟩
      · rw [hlease, Option.some.inj (howner.symm.trans hother)]

end Lease

/-! ## All leases -/

section Leases

variable {host : Host} (now : ℕ) {maxAttempts : ℕ}

/-- One turn of the loop. -/
def recoverTurn (host : Host) (now maxAttempts recovered : ℕ) (wiki : String) : Steps ℕ := do
  let wasStale ← recoverLease host now maxAttempts wiki
  return if wasStale then recovered + 1 else recovered

/-- The run of the loop: each lease is settled, or one cannot be and the loop ends
there. -/
theorem recoverTurns_run (hmax : maxAttempts ≤ u32Max) :
    ∀ (wikis : List String) (q : Queue) (n : ℕ), wikis.Nodup → Intact host q →
      (∀ wiki ∈ wikis, (q.leases.lookup wiki).isSome) →
      (∃ m q', (wikis.foldlM (recoverTurn host now maxAttempts) n).run (Queue.perform host) q
          = (.ok m, q') ∧ (∀ wiki ∈ wikis, Settled now maxAttempts wiki q q') ∧
          (∀ wiki, wiki ∉ wikis → SameAt wiki q q') ∧ KeepsRecords q q') ∨
        ((∃ e, ((wikis.foldlM (recoverTurn host now maxAttempts) n).run
            (Queue.perform host) q).1 = .error e) ∧
          ∃ wiki claim, Expired q now wiki claim ∧ claim.task.attempt + 1 ≥ maxAttempts ∧
            q.pending.lookup wiki = none) := by
  intro wikis
  induction wikis with
  | nil =>
    intro q n _ _ _
    exact Or.inl ⟨n, q, rfl, by simp, fun wiki _ => .refl wiki q, .refl q⟩
  | cons wiki wikis ih =>
    intro q n hnodup h hthere
    obtain ⟨hnot, hnodup⟩ := List.nodup_cons.mp hnodup
    rw [List.foldlM_cons]
    rcases recoverLease_run h (hthere wiki (List.mem_cons_self ..)) with
      ⟨stale, q₁, hrun, hsettled, hsame, hkeeps⟩ | ⟨⟨e, he⟩, claim, hstuck⟩
    · have hintact : Intact host q₁ := by
        have hleaves : Leaves host (Intact host) (fun _ _ => True) q
          (recoverLease host now maxAttempts wiki) :=
          recoverLease_leaves h hmax
        have hrun₁ := hleaves.run.1
        rwa [hrun] at hrun₁
      have hturn : (recoverTurn host now maxAttempts n wiki).run (Queue.perform host) q
          = (.ok (if stale then n + 1 else n), q₁) := run_bind_ok _ hrun
      rw [run_bind_ok _ hturn]
      -- The turn of one wiki leaves the others as they were, so the rest starts from the same.
      have hapart : ∀ w ∈ wikis, SameAt w q q₁ := fun w hw => hsame w fun heq =>
        hnot (heq ▸ hw)
      have hthere₁ : ∀ w ∈ wikis, (q₁.leases.lookup w).isSome := fun w hw => by
        rw [(hapart w hw).leases]
        exact hthere w (List.mem_cons_of_mem _ hw)
      rcases ih q₁ (if stale then n + 1 else n) hnodup hintact hthere₁ with
        ⟨m, q₂, hrun₂, hsettled₂, hsame₂, hkeeps₂⟩ | ⟨herror, w, claim, hexpired, hlimit, hnone⟩
      · refine Or.inl ⟨m, q₂, hrun₂, fun w hw => ?_, fun w hw => ?_, hkeeps.trans hkeeps₂⟩
        · rcases List.mem_cons.mp hw with rfl | hw
          · exact hsettled.then_same (hsame₂ w hnot) hkeeps₂
          · exact (hsettled₂ w hw).of_same (hapart w hw)
        · have hne : w ≠ wiki := fun heq => hw (heq ▸ List.mem_cons_self ..)
          exact (hsame w hne).trans (hsame₂ w fun hmem => hw (List.mem_cons_of_mem _ hmem))
      · refine Or.inr ⟨herror, w, claim, ?_⟩
        by_cases hw : w = wiki
        · -- the lease that was settled just now has no expired owner
          subst hw
          have howner := hexpired.1
          unfold Queue.ownerOf at howner
          obtain ⟨claim', hclaim', -, hlive⟩ :=
            hsettled.lease _ (Option.join_eq_some_iff.mp howner)
          obtain rfl := Option.some.inj hclaim'
          rw [hexpired.2] at hlive
          exact absurd hlive (by simp)
        · have hsame' := hsame w hw
          exact ⟨⟨hsame'.ownerOf.symm.trans hexpired.1, hexpired.2⟩, hlimit,
            hsame'.pending.symm.trans hnone⟩
    · exact Or.inr ⟨⟨e, run_bind_error _ (run_bind_error _ he)⟩, wiki, claim, hstuck⟩

/-- The run of a recovery. -/
theorem recoverStaleAt_run {q : Queue} (h : Intact host q) (hmax : maxAttempts ≤ u32Max) :
    (((recoverStaleAt host now maxAttempts).run (Queue.perform host) q).1.isOk ∧
        (∀ wiki, Settled now maxAttempts wiki q (recovered host now maxAttempts q)) ∧
        KeepsRecords q (recovered host now maxAttempts q)) ∨
      (¬ ((recoverStaleAt host now maxAttempts).run (Queue.perform host) q).1.isOk ∧
        ∃ wiki claim, Expired q now wiki claim ∧ claim.task.attempt + 1 ≥ maxAttempts ∧
          q.pending.lookup wiki = none) := by
  have hrun : (recoverStaleAt host now maxAttempts).run (Queue.perform host) q
      = ((host.listing q.leases.keys).foldlM (recoverTurn host now maxAttempts) 0).run
        (Queue.perform host) q := rfl
  have hperm := host.listing_perm q.leases.keys
  have hkeys : ∀ wiki, wiki ∈ host.listing q.leases.keys ↔ (q.leases.lookup wiki).isSome :=
    fun wiki => by
      rw [hperm.mem_iff]
      exact AList.mem_keys.symm.trans AList.lookup_isSome.symm
  rcases recoverTurns_run now hmax _ q 0 (hperm.nodup_iff.mpr q.leases.keys_nodup) h
    (fun wiki hwiki => (hkeys wiki).mp hwiki) with
    ⟨m, q', hq', hsettled, hsame, hkeeps⟩ | ⟨⟨e, he⟩, hstuck⟩
  · have hrecovered : recovered host now maxAttempts q = q' := by
      unfold recovered
      rw [hrun, hq']
    refine Or.inl ⟨by rw [hrun, hq']; rfl, fun wiki => ?_, by rw [hrecovered]; exact hkeeps⟩
    rw [hrecovered]
    by_cases hwiki : wiki ∈ host.listing q.leases.keys
    · exact hsettled wiki hwiki
    · have hsame' := hsame wiki hwiki
      have hfree : q.leases.lookup wiki = none :=
        Option.not_isSome_iff_eq_none.mp fun hthere => hwiki ((hkeys wiki).mpr hthere)
      have hnone : ∀ claim, ¬ Expired q now wiki claim := fun claim hexpired => by
        have howner := hexpired.1
        unfold Queue.ownerOf at howner
        rw [hfree] at howner
        exact absurd howner (by simp)
      refine ⟨fun lease hlease => ?_, fun claim howner => ?_,
        fun _ => ⟨hsame'.pending, hsame'.failures⟩,
        fun claim hexpired => absurd hexpired (hnone claim),
        fun claim hexpired => absurd hexpired (hnone claim)⟩
      · rw [hsame'.leases, hfree] at hlease
        exact absurd hlease (by simp)
      · unfold Queue.ownerOf at howner
        rw [hfree] at howner
        exact absurd howner (by simp)
  · refine Or.inr ⟨?_, hstuck⟩
    rw [hrun, he]
    simp [Except.isOk, Except.toBool]

end Leases

/-! ## Claiming afterwards -/

section Claims

variable {host : Host} {q : Queue} {now : ℕ}

theorem pendingTasks_run (h : Intact host q) :
    ∃ tasks, (pendingTasks host).run (Queue.perform host) q = (.ok tasks, q) := by
  refine exists_run_foldlM (Queue.perform host) (fun tasks wiki => ?_)
    (host.listing q.pending.keys) []
  cases htask : q.pending.lookup wiki with
  | none =>
    have hfile : q.perform host (.isPending wiki) = (false, q) := by
      show ((q.pending.lookup wiki).isSome, q) = _
      rw [htask]
      rfl
    exact ⟨tasks, run_of_perform hfile⟩
  | some task =>
    obtain ⟨hwiki, hvalid, -⟩ := h.pending wiki task htask
    have hfile : q.perform host (.isPending wiki) = (true, q) := by
      show ((q.pending.lookup wiki).isSome, q) = _
      rw [htask]
      rfl
    have hread : q.perform host (.readPending wiki) = (.ok task, q) := by
      show (context (q.pending.lookup wiki) noSuchFile, q) = _
      rw [htask]
      rfl
    have hok : task.validate host = .ok () := by
      cases hresult : task.validate host with
      | ok u => rfl
      | error e =>
        rw [hresult] at hvalid
        exact absurd hvalid Bool.false_ne_true
    refine ⟨tasks ++ [task], (run_of_perform hfile).trans ((run_of_perform hread).trans ?_)⟩
    exact (run_require hok).trans (run_require ((ensure_eq_ok (u := ())).mpr hwiki.symm))

theorem claimFirst_run {resourceClass : ResourceClass} {workerId : String}
    {leaseTimeoutSecs processId : ℕ} : ∀ tasks : List FleetTask,
    ((claimFirst host resourceClass workerId leaseTimeoutSecs processId now tasks).run
      (Queue.perform host) q).1.isOk := by
  intro tasks
  induction tasks with
  | nil => rfl
  | cons task tasks ih =>
    rw [claimFirst]
    split
    next => exact ih
    next =>
      by_cases hlease : (q.leases.lookup task.wiki).isSome
      · have hmade : q.perform host (.createLease task.wiki) = (false, q) := if_pos hlease
        refine (congrArg (fun r : Except Failure (Option FleetClaim) × Queue => r.1.isOk)
          (run_of_perform hmade)).trans ?_
        exact ih
      · have hmade : q.perform host (.createLease task.wiki)
            = (true, { q with leases := q.leases.insert task.wiki none }) := if_neg hlease
        exact congrArg (fun r : Except Failure (Option FleetClaim) × Queue => r.1.isOk)
          (run_of_perform hmade)

/-- Where no lease has expired, claiming does not fail. -/
theorem claimAt_run (h : Intact host q) (hnone : ∀ wiki claim, ¬ Expired q now wiki claim)
    {resourceClass : ResourceClass} {workerId : String} {leaseTimeoutSecs processId : ℕ}
    (hworker : validateComponent workerId "worker ID" = .ok ()) (htimeout : leaseTimeoutSecs > 0) :
    ((claimAt host resourceClass workerId leaseTimeoutSecs processId now).run
      (Queue.perform host) q).1.isOk := by
  have hmax : defaultMaxAttempts ≤ u32Max := by decide
  unfold claimAt
  rw [run_require hworker, run_require ((ensure_eq_ok (u := ())).mpr htimeout)]
  have hleaves : Leaves host (Intact host) (fun _ _ => True) q
    (recoverStaleAt host now defaultMaxAttempts) :=
    recoverStaleAt_leaves h hmax
  have hintact := hleaves.run.1
  rcases recoverStaleAt_run now h hmax with ⟨hok, -⟩ | ⟨-, wiki, claim, hexpired, -⟩
  · cases hrun : (recoverStaleAt host now defaultMaxAttempts).run (Queue.perform host) q with
    | mk result q' =>
      rw [hrun] at hok hintact
      cases result with
      | error e => exact absurd hok Bool.false_ne_true
      | ok n =>
        obtain ⟨tasks, htasks⟩ := pendingTasks_run hintact
        rw [run_bind_ok _ hrun, run_bind_ok _ htasks]
        exact claimFirst_run _
  · exact absurd hexpired (hnone wiki claim)

end Claims

/-! ## The result -/

/-- **Recovery does what it should exactly where the pending record of every claim
it gives up is still there, and no completed task has an attempt left.** -/
theorem recoverStaleAt_recovers_iff (host : Host) (s : Session) (now maxAttempts : ℕ)
    (hreach : (sessions host).Reachable s) (hmax : maxAttempts ≤ u32Max) :
    Recovers host now maxAttempts s.store ↔ Recoverable now maxAttempts s.store := by
  have h := Intact.of_reachable hreach
  have hintact : Intact host (recovered host now maxAttempts s.store) :=
    (recoverStaleAt_leaves h hmax).run.1
  constructor
  -- What is recovered shows what was there: a last attempt was still pending, and a task put back
  -- was not done.
  · intro hrecovers wiki claim hexpired
    rcases recoverStaleAt_run now h hmax with ⟨-, hsettled, -⟩ | ⟨hfails, -⟩
    · refine ⟨fun hlimit => ((hsettled wiki).exhausted claim hexpired hlimit).1,
        fun hlimit hdone => ?_⟩
      exact hrecovers.notPutBack wiki _ ((hsettled wiki).retried claim hexpired hlimit).1 hdone
    · exact absurd hrecovers.ok hfails
  · intro hrecoverable
    rcases recoverStaleAt_run now h hmax with
      ⟨hok, hsettled, hkeeps⟩ | ⟨-, wiki, claim, hexpired, hlimit, hnone⟩
    -- Every wiki has an expired claim, which is settled, or is untouched.
    · have hcases : ∀ wiki, (∀ claim, ¬ Expired s.store now wiki claim) ∨
          ∃ claim, Expired s.store now wiki claim := fun wiki => by
        by_cases hexpired : ∃ claim, Expired s.store now wiki claim
        · exact Or.inr hexpired
        · exact Or.inl fun claim hclaim => hexpired ⟨claim, hclaim⟩
      have hlive : ∀ wiki lease,
          (recovered host now maxAttempts s.store).leases.lookup wiki = some lease →
            ∃ claim, lease = some claim ∧ isExpired claim now = false := by
        intro wiki lease hlease
        obtain ⟨claim, hclaim, -, hnot⟩ := (hsettled wiki).lease lease hlease
        exact ⟨claim, hclaim, hnot⟩
      refine ⟨hok, hlive, fun wiki task htask hdone => ?_,
        fun wiki taskId hwas hnotdone hnotquarantined => ?_,
        fun _ _ _ _ hworker htimeout => ?_⟩
      · rcases hcases wiki with hnone | ⟨claim, hexpired⟩
        · exact ((hsettled wiki).untouched hnone).1.symm.trans htask
        · by_cases hlimit : claim.task.attempt + 1 ≥ maxAttempts
          · obtain ⟨-, hgone, -⟩ := (hsettled wiki).exhausted claim hexpired hlimit
            rw [hgone] at htask
            exact absurd htask (by simp)
          · obtain ⟨hretried, -⟩ := (hsettled wiki).retried claim hexpired (by omega)
            obtain rfl := Option.some.inj (hretried.symm.trans htask)
            exact (hrecoverable wiki claim hexpired).2 (by omega) hdone
      · rcases hcases wiki with hnone | ⟨claim, hexpired⟩
        · obtain ⟨hsame, -⟩ := (hsettled wiki).untouched hnone
          rcases hwas with ⟨task, htask, hid⟩ | ⟨claim, howner, hid⟩
          · exact ⟨task, hsame.trans htask, hid⟩
          · cases htask : s.store.pending.lookup wiki with
            | some task =>
              exact ⟨task, hsame.trans htask, (h.same wiki claim task howner htask).trans hid⟩
            | none =>
              rw [← hid] at hnotdone hnotquarantined
              rcases h.ended wiki claim howner htask with hdone | hquarantined
              · exact absurd hdone hnotdone
              · exact absurd (hkeeps.quarantined hquarantined) hnotquarantined
        · have hid : claim.task.taskId = taskId := by
            rcases hwas with ⟨task, htask, hid⟩ | ⟨other, howner, hid⟩
            · rw [← hid]
              exact (h.same wiki claim task hexpired.1 htask).symm
            · rw [← hid, Option.some.inj (hexpired.1.symm.trans howner)]
          by_cases hlimit : claim.task.attempt + 1 ≥ maxAttempts
          · obtain ⟨-, -, hquarantined⟩ := (hsettled wiki).exhausted claim hexpired hlimit
            rw [hid] at hquarantined
            exact absurd hquarantined hnotquarantined
          · exact ⟨_, ((hsettled wiki).retried claim hexpired (by omega)).1, hid⟩
      · refine claimAt_run hintact (fun wiki claim hexpired => ?_) hworker htimeout
        have howner := hexpired.1
        unfold Queue.ownerOf at howner
        obtain ⟨claim', hclaim', hnot⟩ := hlive wiki _ (Option.join_eq_some_iff.mp howner)
        obtain rfl := Option.some.inj hclaim'
        rw [hexpired.2] at hnot
        exact absurd hnot (by simp)
    -- The recovery stops only at a last attempt whose task is gone.
    · have hthere := (hrecoverable wiki claim hexpired).1 hlimit
      rw [hnone] at hthere
      exact absurd hthere (by simp)

/-! ## Two runs -/

def sessionStart : Session := { store := { clock := 1780000000 } }

/-- A task is claimed and its lease left to expire, twice; each time recovery puts
it back. -/
def upToLastAttempt : List Turn := [
  .run (.enqueue "frwiki" "2026-05" .small sampleSignals "controller-1") 100,
  .run (.claim .small "toolforge-a" 3600 311) 100, .tick 3601, .run (.recoverStale 3) 100,
  .tick 600, .run (.claim .small "toolforge-a" 3600 311) 100, .tick 3601,
  .run (.recoverStale 3) 100, .tick 1200, .run (.claim .small "toolforge-a" 3600 311) 100]

/-- The third claim. -/
def lastClaim : FleetClaim := { sampleClaim with
  task := { sampleTask with attempt := 2, notBeforeUnix := 1780009002 }
  leaseId := "3dcdf3a7f1e428acc73ff28f70890cce44e9e8f3e0eb9a690fc4af5d5287baaa"
  claimedAtUnix := 1780009002
  heartbeatAtUnix := 1780009002 }

/-- The worker completes the task and is killed before it removes its lease. -/
def upToKill : List Turn := upToLastAttempt ++ [
  .publishReady "/public/_ready-index/frwiki.json" (some {
    schemaVersion := some 2
    wiki := some "frwiki"
    newestValidReadySnapshot := some "2026-05" }),
  .run (.complete lastClaim "/public") 6, .tick 3601]

theorem sessionStart_init : (sessions sampleHost).init sessionStart :=
  ⟨rfl, rfl, fun _ _ => rfl, rfl⟩

theorem recoverStaleAt_recovers_iff_last : ∃ s claim, (sessions sampleHost).Reachable s ∧
    s.store.ownerOf "frwiki" = some claim ∧ claim.task.attempt = 2 ∧
      (Recovers sampleHost (s.store.clock + 3601) 3 s.store
        ↔ Recoverable (s.store.clock + 3601) 3 s.store) := by
  have hruns : (upToLastAttempt.foldlM (Session.turn sampleHost) sessionStart).any fun s =>
      (s.store.ownerOf "frwiki").any fun claim => claim.task.attempt = 2 := by decide +kernel
  obtain ⟨s, hs, hprop⟩ := (Option.any_eq_true _ _).mp hruns
  obtain ⟨claim, hclaim, hattempt⟩ := (Option.any_eq_true _ _).mp hprop
  have hreach : (sessions sampleHost).Reachable s :=
    ⟨_, _, sessionStart_init, System.run_of_foldlM (fun _ _ _ h => h) hs⟩
  exact ⟨s, claim, hreach, hclaim, of_decide_eq_true hattempt,
    recoverStaleAt_recovers_iff sampleHost s _ 3 hreach (by decide)⟩

/-- A worker killed between the removal of its pending record and that of its lease
stops recovery. -/
theorem recoverStaleAt_not_recovers : ∃ s, (sessions sampleHost).Reachable s ∧
    ¬ Recovers sampleHost s.store.clock 3 s.store := by
  have hruns : (upToKill.foldlM (Session.turn sampleHost) sessionStart).any fun s =>
      ¬ ((recoverStaleAt sampleHost s.store.clock 3).run (Queue.perform sampleHost)
        s.store).1.isOk := by decide +kernel
  obtain ⟨s, hs, hfails⟩ := (Option.any_eq_true _ _).mp hruns
  refine ⟨s, ⟨_, _, sessionStart_init, System.run_of_foldlM (fun _ _ _ h => h) hs⟩, fun h => ?_⟩
  exact of_decide_eq_true hfails h.ok

end WikiEcon.Fleet
