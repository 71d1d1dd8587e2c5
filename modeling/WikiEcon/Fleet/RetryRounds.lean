import WikiEcon.Fleet.Retry

/-!
# Retry rounds

What a round does to a queue in which every lease is `Orderly`: it may recover
leases first, and then each wiki makes one `Move`, or a task is claimed, or it is
deferred (`Effect`). The round runs to its end without an error that would leave a
wiki half done.

What the rounds of a session tell of its queue (`Told`) is kept by every round, by
cases on its effect: attempts only rise, a task is claimed no more often than it may
be, and one in quarantine is gone. From this the law follows for whole sessions
(`retries_kept`), as long as discovery enqueues only what is new (`Fresh`). Two
rounds of one snapshot show why it has to (`retries_not_kept`).
-/

namespace WikiEcon.Fleet

open Programs Program Transition

/-! ## Recovery -/

/-- Where no record is lost and the clock does not go back, the queue has grown. -/
theorem KeepsRecords.grows {q q' : Queue} (h : KeepsRecords q q') : Grows q q' :=
  ⟨fun record _ hthere => h.kept record hthere, h.clock.ge⟩

/-- No call of the fleet removes a completion record or turns the clock back. -/
theorem Grows.perform {host : Host} {q : Queue} (c : Call) : Grows q (q.perform host c).2 :=
  ⟨fun _ _ h => isSome_records_perform c h, (clock_perform host q c).ge⟩

/-- No run takes a document away. -/
theorem Grows.run (host : Host) {α : Type} (steps : Steps α) (q : Queue) :
    Grows q (steps.run (Queue.perform host) q).2 := by
  induction steps generalizing q with
  | done a => exact .refl q
  | fail e => exact .refl q
  | call c rest ih => exact (Grows.perform c).trans (ih _ _)

/-- No program does either, by induction on its calls. -/
theorem Grows.of_run {host : Host} {α : Type} {steps : Steps α} {q q' : Queue}
    {answer : Except Failure α} (h : steps.run (Queue.perform host) q = (answer, q')) :
    Grows q q' := by
  have hgrows := Grows.run host steps q
  rwa [h] at hgrows

section Recovery

variable {host : Host} {q q' : Queue} {limit maxAttempts : ℕ} {wiki : String}

/-- A lease that is settled has moved, if the limit it was settled by gives no more
attempts than that of the run. -/
theorem Move.of_settled (horderly : Orderly q) (hsettled : Settled q.clock limit wiki q q')
    (hlimit : ∀ claim, Expired q q.clock wiki claim → claim.task.attempt + 1 < limit →
      claim.task.attempt + 1 < maxAttempts) : Move maxAttempts False wiki q q' := by
  by_cases hexpired : ∃ claim, Expired q q.clock wiki claim
  · obtain ⟨claim, hclaim⟩ := hexpired
    have hleases : q'.leases.lookup wiki = none := by
      refine Option.eq_none_iff_forall_ne_some.mpr fun lease hlease => ?_
      obtain ⟨owner, -, howner, hlive⟩ := hsettled.lease lease hlease
      rw [Option.some.inj (howner.symm.trans hclaim.1), hclaim.2] at hlive
      exact absurd hlive (by simp)
    by_cases hleft : claim.task.attempt + 1 < limit
    · obtain ⟨hpending, hrecord, hspares⟩ := hsettled.retried claim hclaim hleft
      exact .putBack claim (retryTask claim.task (claim.task.attempt + 1) q.clock) hclaim.1 rfl
        ⟨rfl, hlimit claim hclaim hleft⟩ hleases hpending
        (Or.inr (Or.inr (Or.inl ⟨_, hrecord⟩))) hspares
    · obtain ⟨-, hpending, hquarantined⟩ := hsettled.exhausted claim hclaim (by omega)
      exact .finish claim hclaim.1 hleases hpending (Or.inr (Or.inl hquarantined))
  · have hnone : ∀ claim, ¬ Expired q q.clock wiki claim := fun claim hclaim =>
      hexpired ⟨claim, hclaim⟩
    obtain ⟨hpending, hfailures⟩ := hsettled.untouched hnone
    refine .stay ?_ hpending fun taskId hquarantined => ?_
    · cases hlease : q.leases.lookup wiki with
      | none =>
        refine Option.eq_none_iff_forall_ne_some.mpr fun lease hnew => ?_
        obtain ⟨owner, -, howner, -⟩ := hsettled.lease lease hnew
        exact absurd ((Queue.ownerOf_of_free hlease).symm.trans howner) (by simp)
      | some lease =>
        obtain ⟨claim, rfl, -⟩ := horderly.leased wiki lease hlease
        have howner : q.ownerOf wiki = some claim := by
          unfold Queue.ownerOf
          rw [hlease]
          rfl
        refine hsettled.kept claim howner ?_
        cases hlive : isExpired claim q.clock with
        | false => rfl
        | true => exact absurd ⟨howner, hlive⟩ (hnone claim)
    · obtain ⟨attempt, hattempt⟩ := hquarantined
      have hsame : q'.records (.quarantine wiki taskId attempt)
          = q.records (.quarantine wiki taskId attempt) := hfailures _ (decide_eq_true rfl)
      refine ⟨attempt, ?_⟩
      rw [← hsame]
      exact hattempt

/-- Recovery goes by the default limit. Where leases are spared, one that it puts back has attempts
left under this limit too. -/
theorem SparesLeases.left (h : SparesLeases q maxAttempts) (wiki : String) (claim : FleetClaim)
    (hexpired : Expired q q.clock wiki claim)
    (hleft : claim.task.attempt + 1 < defaultMaxAttempts) :
    claim.task.attempt + 1 < maxAttempts := by
  by_contra hnot
  have hspared := h wiki claim hexpired (by omega)
  omega

/-- Recovery of an orderly queue comes to its end. -/
theorem recover_round (h : Intact host q) (horderly : Orderly q) (hmax : limit ≤ u32Max)
    (hlimit : ∀ wiki claim, Expired q q.clock wiki claim → claim.task.attempt + 1 < limit →
      claim.task.attempt + 1 < maxAttempts) :
    ∃ n q₁, (recoverStaleAt host q.clock limit).run (Queue.perform host) q = (.ok n, q₁) ∧
      (∀ wiki, Settled q.clock limit wiki q q₁) ∧
      (∀ wiki, Move maxAttempts False wiki q q₁) ∧ KeepsRecords q q₁ := by
  rcases recoverStaleAt_run q.clock h hmax with
    ⟨hok, hsettled, hkeeps⟩ | ⟨-, wiki, claim, hexpired, -, hnone⟩
  · cases hrun : (recoverStaleAt host q.clock limit).run (Queue.perform host) q with
    | mk result q₁ =>
      rw [hrun] at hok
      unfold recovered at hsettled hkeeps
      rw [hrun] at hsettled hkeeps
      cases result with
      | error e => exact absurd hok Bool.false_ne_true
      | ok n =>
        exact ⟨n, q₁, rfl, hsettled, fun wiki =>
          .of_settled horderly (hsettled wiki) (hlimit wiki), hkeeps⟩
  · obtain ⟨hthere, -⟩ := horderly.owned hexpired.1
    exact absurd (hthere.symm.trans hnone) (by simp)

end Recovery

/-! ## Effects -/

/-- What the round did once it had recovered the leases. -/
inductive Final (maxAttempts : ℕ) (r : Round) (q : Queue) : Prop
  | moved (hclaim : r.claim = none)
      (hmove : ∀ wiki, Move maxAttempts (r.op.enqueues wiki = true) wiki q r.after)
  | claimed (claim : FleetClaim) (hclaim : r.claim = some claim)
      (hclaiming : Claiming claim.task.wiki claim q r.after)
      (hothers : ∀ wiki, wiki ≠ claim.task.wiki → Move maxAttempts False wiki q r.after)
  | deferred (wiki : String) (claim : FleetClaim) (task : FleetTask) (hclaim : r.claim = none)
      (hdefer : Deferral wiki claim task q r.after) (hdefers : r.defers wiki task.taskId = true)
      (hothers : ∀ other, other ≠ wiki → Move maxAttempts False other q r.after)

/-- The shape of every round: leases are recovered first, each wiki making one move, and then one
task is claimed, completed, failed or deferred. -/
def Effect (maxAttempts : ℕ) (r : Round) : Prop :=
  ∃ q, Grows r.before q ∧ (∀ wiki, Move maxAttempts False wiki r.before q) ∧ Grows q r.after ∧
    Final maxAttempts r q

/-- A wiki that no lease was recovered for stays as it is. -/
theorem Move.refl {maxAttempts : ℕ} {discovers : Prop} (wiki : String) (q : Queue) :
    Move maxAttempts discovers wiki q q := .stay rfl rfl fun _ h => h

/-- A check at the beginning of a program ends it at once, or does not matter any more. -/
theorem run_require_cases {host : Host} {q q' : Queue} {α β : Type} {result : Except String β}
    {next : β → Steps α} {answer : Except Failure α}
    (h : (require result >>= next).run (Queue.perform host) q = (answer, q')) :
    (∃ e, answer = .error e ∧ q' = q) ∨
      ∃ b, result = .ok b ∧ (next b).run (Queue.perform host) q = (answer, q') := by
  cases result with
  | ok b => exact Or.inr ⟨b, rfl, h⟩
  | error e =>
    obtain ⟨rfl, rfl⟩ := Prod.mk.inj h
    exact Or.inl ⟨_, rfl, rfl⟩

/-- A worker that is let in changes nothing yet. -/
theorem run_ensureLiveOwner_cases {host : Host} {q q' : Queue} {α : Type} {held : FleetClaim}
    {next : Unit → Steps α} {answer : Except Failure α}
    (h : (ensureLiveOwner host held >>= next).run (Queue.perform host) q = (answer, q')) :
    (∃ e, answer = .error e ∧ q' = q) ∨
      (∃ owner, q.ownerOf held.task.wiki = some owner ∧ owner.leaseId = held.leaseId ∧
        owner.workerId = held.workerId ∧ owner.task.taskId = held.task.taskId) ∧
        (next ()).run (Queue.perform host) q = (answer, q') := by
  have hleaves : Leaves host (· = q) _ q (ensureLiveOwner host held) := ensureLiveOwner_leaves rfl
  obtain ⟨hsame, hpost⟩ := hleaves.run
  rcases run_bind_cases (Queue.perform host) h with ⟨e, he, hrun⟩ | ⟨u, q₁, hrun, hnext⟩
  · rw [hrun] at hsame
    exact Or.inl ⟨e, he, hsame⟩
  · rw [hrun] at hsame hpost
    obtain rfl := hsame
    exact Or.inr ⟨(hpost u rfl).2, hnext⟩

/-- A wiki whose files are the same made no move. -/
theorem Move.of_same {maxAttempts : ℕ} {discovers : Prop} {wiki : String} {q q' : Queue}
    (h : SameAt wiki q q') : Move maxAttempts discovers wiki q q' :=
  .stay h.leases h.pending fun _ hquarantined => h.quarantined.mp hquarantined

/-- A move that is allowed without discovery is allowed with it. -/
theorem Move.weaken {maxAttempts : ℕ} {discovers discovers' : Prop} {wiki : String} {q q' : Queue}
    (hdiscovers : discovers → discovers') (h : Move maxAttempts discovers wiki q q') :
    Move maxAttempts discovers' wiki q q' := by
  cases h with
  | stay hleases hpending hspares => exact .stay hleases hpending hspares
  | putBack claim task howner hid hattempt hleases hpending htraced hspares =>
    exact .putBack claim task howner hid hattempt hleases hpending htraced hspares
  | finish claim howner hleases hpending htraced =>
    exact .finish claim howner hleases hpending htraced
  | enqueue task hdiscovered hfree hleases hattempt hpending hfresh hspares =>
    exact .enqueue task (hdiscovers hdiscovered) hfree hleases hattempt hpending hfresh hspares

/-! ## Workers -/

section Workers

variable {host : Host} {q q' : Queue} {held : FleetClaim} {maxAttempts : ℕ}

/-- An owner is read from the directory of the lease, which is there. -/
theorem Queue.leased_of_owner {wiki : String} {claim : FleetClaim}
    (howner : q.ownerOf wiki = some claim) : (q.leases.lookup wiki).isSome := by
  unfold Queue.ownerOf at howner
  rw [Option.join_eq_some_iff.mp howner]
  rfl

/-- A round that fails a claim: the attempt is counted and the task is pending again, or in the
failed records if this was the last. -/
theorem failClaim_effect {error : String} {answer : Except Failure Bool} (h : Intact host q)
    (horderly : Orderly q) (hknows : KnowsLease q held)
    (hrun : (failClaim host held error maxAttempts).run (Queue.perform host) q = (answer, q')) :
    ∀ wiki, Move maxAttempts False wiki q q' := by
  unfold failClaim at hrun
  rcases run_require_cases hrun with ⟨e, -, rfl⟩ | ⟨_, -, hrun⟩
  · exact fun wiki => .refl wiki q'
  rcases run_require_cases hrun with ⟨e, -, rfl⟩ | ⟨_, -, hrun⟩
  · exact fun wiki => .refl wiki q'
  rcases run_ensureLiveOwner_cases hrun with
    ⟨e, -, rfl⟩ | ⟨⟨owner, howner, hlease, hworker, hid⟩, hrun⟩
  · exact fun wiki => .refl wiki q'
  have hrun' : (failClaimAt held error maxAttempts q.clock).run (Queue.perform host) q
      = (answer, q') := hrun
  have htask := hknows owner howner hlease hworker hid
  have hattempt := (h.owners _ owner howner).2
  rw [htask] at hattempt
  obtain ⟨hpending, -⟩ := horderly.owned howner
  have hthere := Queue.leased_of_owner howner
  by_cases hlimit : held.task.attempt + 1 ≥ maxAttempts
  · rw [failClaimAt_run_exhausted hattempt hlimit (by rw [hpending]; rfl) hthere] at hrun'
    obtain ⟨-, rfl⟩ := Prod.mk.inj hrun'
    intro wiki
    by_cases hwiki : wiki = held.task.wiki
    · subst hwiki
      refine .finish owner howner (AList.lookup_erase ..) (AList.lookup_erase ..)
        (Or.inr (Or.inl ?_))
      rw [hid]
      exact ⟨held.task.attempt + 1, isSome_update_self⟩
    · exact .of_same (Queue.exhausted_same hwiki)
  · rw [failClaimAt_run_retry hattempt hlimit hthere] at hrun'
    obtain ⟨-, rfl⟩ := Prod.mk.inj hrun'
    intro wiki
    by_cases hwiki : wiki = held.task.wiki
    · subst hwiki
      refine .putBack owner (retryTask held.task (held.task.attempt + 1) q.clock) howner hid.symm
        ⟨?_, by simpa [retryTask] using hlimit⟩ (AList.lookup_erase ..)
          (AList.lookup_insert ..) ?_ ?_
      · rw [htask]
        rfl
      · exact Or.inr (Or.inr (Or.inl ⟨held.task.attempt + 1, isSome_update_self⟩))
      · rintro taskId ⟨attempt, hquarantined⟩
        refine ⟨attempt, ?_⟩
        rwa [Queue.retried_quarantine] at hquarantined
    · exact .of_same (Queue.retried_same hwiki)

/-- What a completion leaves. -/
def Queue.completed (q : Queue) (claim : FleetClaim) (readyIndex : String) : Queue :=
  let announced := Function.update q.records
    (.notification claim.task.wiki claim.task.taskId) (some {
      schemaVersion := notificationSchemaVersion
      taskId := claim.task.taskId
      wiki := claim.task.wiki
      snapshot := claim.task.snapshot
      workerId := claim.workerId
      readyReceipt := readyIndex
      completedAtUnix := q.clock })
  { q with
    pending := q.pending.erase claim.task.wiki
    records := Function.update announced (.completed claim.task.wiki claim.task.taskId)
      (some claim.task)
    leases := q.leases.erase claim.task.wiki }

/-- Completion touches the lease, the pending record and the evidence of one wiki. -/
theorem Queue.completed_same {claim : FleetClaim} {r : String} {w : String}
    (hw : w ≠ claim.task.wiki) : SameAt w q (q.completed claim r) where
  leases := AList.lookup_erase_ne hw
  pending := AList.lookup_erase_ne hw
  failures record hrecord := by
    have hne : ∀ written : Record, written.isFailureOf w = false → record ≠ written := by
      rintro written hwritten rfl
      rw [hwritten] at hrecord
      exact absurd hrecord Bool.false_ne_true
    unfold Queue.completed
    dsimp only
    rw [Function.update_of_ne (hne _ rfl), Function.update_of_ne (hne _ rfl)]

/-- A round that completes a claim leaves its evidence before it removes the lease. -/
theorem complete_effect {outputDir : String} {answer : Except Failure Unit}
    (horderly : Orderly q)
    (hrun : (complete host held outputDir).run (Queue.perform host) q = (answer, q')) :
    ∀ wiki, Move maxAttempts False wiki q q' := by
  unfold complete at hrun
  rcases run_require_cases hrun with ⟨e, -, rfl⟩ | ⟨_, -, hrun⟩
  · exact fun wiki => .refl wiki q'
  rcases run_ensureLiveOwner_cases hrun with ⟨e, -, rfl⟩ | ⟨⟨owner, howner, -, -, hid⟩, hrun⟩
  · exact fun wiki => .refl wiki q'
  obtain ⟨hpending, -⟩ := horderly.owned howner
  have hthere := Queue.leased_of_owner howner
  rcases run_require_cases (q := q) hrun with ⟨e, -, rfl⟩ | ⟨ready, -, hrun⟩
  · exact fun wiki => .refl wiki q'
  rcases run_require_cases hrun with ⟨e, -, rfl⟩ | ⟨_, -, hrun⟩
  · exact fun wiki => .refl wiki q'
  have hdone : (attempt (removePending held.task.wiki) >>= fun _ =>
      attempt (removeLease held.task.wiki)).run (Queue.perform host)
        { q with records := (q.completed held (readyIndexPath outputDir held.task.wiki)).records }
      = (.ok (), q.completed held (readyIndexPath outputDir held.task.wiki)) := by
    refine (run_removePending (q := { q with
      records := (q.completed held (readyIndexPath outputDir held.task.wiki)).records })
        (by dsimp only; rw [hpending]; rfl)).trans ?_
    exact run_removeLease_last (q := { q with
      pending := q.pending.erase held.task.wiki
      records := (q.completed held (readyIndexPath outputDir held.task.wiki)).records }) hthere
  obtain ⟨-, rfl⟩ := Prod.mk.inj (hdone.symm.trans hrun)
  intro wiki
  by_cases hwiki : wiki = held.task.wiki
  · subst hwiki
    refine .finish owner howner (AList.lookup_erase ..) (AList.lookup_erase ..) (Or.inl ?_)
    rw [hid]
    exact isSome_update_self
  · exact .of_same (q.completed_same (r := readyIndexPath outputDir held.task.wiki) hwiki)

/-- A round that defers a claim puts the task back with a later time and no attempt counted. -/
theorem defer_effect {reason : String} {retryAfterSecs : ℕ} {answer : Except Failure Unit}
    (hknows : KnowsLease q held)
    (hrun : (defer host held reason retryAfterSecs).run (Queue.perform host) q = (answer, q')) :
    ((∃ e, answer = .error e) ∧ q' = q) ∨
      answer = .ok () ∧ (∃ owner task, task.taskId = held.task.taskId ∧
        Deferral held.task.wiki owner task q q') ∧
        ∀ wiki, wiki ≠ held.task.wiki → SameAt wiki q q' := by
  unfold defer at hrun
  rcases run_require_cases hrun with ⟨e, he, rfl⟩ | ⟨_, -, hrun⟩
  · exact Or.inl ⟨⟨e, he⟩, rfl⟩
  rcases run_require_cases hrun with ⟨e, he, rfl⟩ | ⟨_, -, hrun⟩
  · exact Or.inl ⟨⟨e, he⟩, rfl⟩
  rcases run_ensureLiveOwner_cases hrun with
    ⟨e, he, rfl⟩ | ⟨⟨owner, howner, hlease, hworker, hid⟩, hrun⟩
  · exact Or.inl ⟨⟨e, he⟩, rfl⟩
  have htask := hknows owner howner hlease hworker hid
  have hthere := Queue.leased_of_owner howner
  let task : FleetTask := { held.task with
    notBeforeUnix := saturatingAdd u64Max q.clock retryAfterSecs }
  let deferred : DeferredTask := {
    schemaVersion := 1
    reason := conciseError reason
    deferredAtUnix := q.clock
    notBeforeUnix := task.notBeforeUnix
    attempt := task.attempt
    claim := held }
  have hdone : (attempt (removeLease held.task.wiki)).run (Queue.perform host)
        { q with
          pending := q.pending.insert held.task.wiki task
          records := Function.update q.records (.deferred held.task.wiki task.taskId q.clock)
            (some deferred) } = _ := run_removeLease_last hthere
  obtain ⟨rfl, rfl⟩ := Prod.mk.inj (hdone.symm.trans hrun)
  refine Or.inr ⟨rfl, ⟨owner, task, rfl, howner, hid.symm, ?_, AList.lookup_erase ..,
    AList.lookup_insert .., Or.inr (Or.inr (Or.inr ⟨q.clock, isSome_update_self⟩)), ?_⟩,
    fun wiki hwiki => ⟨AList.lookup_erase_ne hwiki, AList.lookup_insert_ne hwiki, ?_⟩⟩
  · rw [htask]
  · rintro taskId ⟨attempt, hquarantined⟩
    refine ⟨attempt, ?_⟩
    have hsame : Function.update q.records (.deferred held.task.wiki task.taskId q.clock)
        (some deferred) (.quarantine held.task.wiki taskId attempt)
          = q.records (.quarantine held.task.wiki taskId attempt) :=
      Function.update_of_ne (by simp) ..
    rw [← hsame]
    exact hquarantined
  · intro record hrecord
    exact failures_of_update hrecord rfl rfl

end Workers

/-! ## Claiming -/

section Claiming

variable {host : Host} {q q' : Queue} {maxAttempts : ℕ}

/-- Claiming takes the first task that can be had, or leaves all as it is. -/
theorem claimFirst_effect {resourceClass : ResourceClass} {workerId : String}
    {leaseTimeoutSecs processId : ℕ} {answer : Except Failure (Option FleetClaim)} :
    ∀ tasks : List FleetTask, (∀ task ∈ tasks, q.pending.lookup task.wiki = some task) →
      (claimFirst host resourceClass workerId leaseTimeoutSecs processId q.clock tasks).run
        (Queue.perform host) q = (answer, q') →
      (answer = .ok none ∧ q' = q) ∨ ∃ claim, answer = .ok (some claim) ∧
        Claiming claim.task.wiki claim q q' ∧ ∀ w, w ≠ claim.task.wiki → SameAt w q q' := by
  intro tasks
  induction tasks with
  | nil =>
    intro _ hrun
    obtain ⟨rfl, rfl⟩ := Prod.mk.inj hrun
    exact Or.inl ⟨rfl, rfl⟩
  | cons task tasks ih =>
    intro htasks hrun
    have hrest := ih fun other hother => htasks other (List.mem_cons_of_mem _ hother)
    have hthere := htasks task (List.mem_cons_self ..)
    rw [claimFirst] at hrun
    split at hrun
    next => exact hrest hrun
    next hready =>
      by_cases hlease : (q.leases.lookup task.wiki).isSome
      · have hmade : q.perform host (.createLease task.wiki) = (false, q) := if_pos hlease
        exact hrest ((run_of_perform hmade).symm.trans hrun)
      · have hmade : q.perform host (.createLease task.wiki)
            = (true, { q with leases := q.leases.insert task.wiki none }) := if_neg hlease
        have hclaimed := (run_of_perform hmade).symm.trans hrun
        obtain ⟨rfl, rfl⟩ := Prod.mk.inj hclaimed
        have hdue : task.notBeforeUnix ≤ q.clock := by
          by_contra hlate
          exact hready (Or.inr (by omega))
        refine Or.inr ⟨_, rfl, ⟨Option.not_isSome_iff_eq_none.mp hlease, AList.lookup_insert ..,
          hthere, hthere, hdue, rfl, fun _ h => h⟩, fun w hw => ⟨?_, rfl, fun _ _ => rfl⟩⟩
        exact (AList.lookup_insert_ne hw).trans (AList.lookup_insert_ne hw)

/-- A round that claims: leases are recovered first, and the task that is claimed then is the one
its pending record had. -/
theorem claimAt_effect {resourceClass : ResourceClass} {workerId : String}
    {leaseTimeoutSecs processId : ℕ} {answer : Except Failure (Option FleetClaim)}
    (h : Intact host q) (horderly : Orderly q) (hspares : SparesLeases q maxAttempts)
    (hrun : (claimAt host resourceClass workerId leaseTimeoutSecs processId q.clock).run
      (Queue.perform host) q = (answer, q')) :
    ∃ q₁, Grows q q₁ ∧ (∀ w, Move maxAttempts False w q q₁) ∧ Grows q₁ q' ∧
      ((¬ (∃ claim, answer = .ok (some claim)) ∧ q' = q₁) ∨ ∃ claim, answer = .ok (some claim) ∧
        Claiming claim.task.wiki claim q₁ q' ∧ ∀ w, w ≠ claim.task.wiki → SameAt w q₁ q') := by
  have hstay : ∀ w, Move maxAttempts False w q q := fun w => .refl w q
  unfold claimAt at hrun
  rcases run_require_cases hrun with ⟨e, rfl, rfl⟩ | ⟨_, -, hrun⟩
  · exact ⟨_, .refl _, hstay, .refl _, Or.inl ⟨by simp, rfl⟩⟩
  rcases run_require_cases hrun with ⟨e, rfl, rfl⟩ | ⟨_, -, hrun⟩
  · exact ⟨_, .refl _, hstay, .refl _, Or.inl ⟨by simp, rfl⟩⟩
  obtain ⟨n, q₁, hrecover, hsettled, hmove, hkeeps⟩ :=
    recover_round h horderly (by decide) hspares.left
  rw [run_bind_ok _ hrecover] at hrun
  refine ⟨q₁, hkeeps.grows, hmove, .of_run hrun, ?_⟩
  have hleaves : Leaves host (· = q₁) _ q₁ (pendingTasks host) := pendingTasks_leaves rfl
  obtain ⟨hsame, hpost⟩ := hleaves.run
  rcases run_bind_cases (Queue.perform host) hrun with ⟨e, rfl, hlist⟩ | ⟨tasks, q₂, hlist, hfirst⟩
  · rw [hlist] at hsame
    exact Or.inl ⟨by simp, hsame⟩
  · rw [hlist] at hsame hpost
    have hlisted : q₂ = q₁ := hsame
    subst hlisted
    have htasks := (hpost tasks rfl).2
    rw [← hkeeps.clock] at hfirst
    rcases claimFirst_effect _ (fun task htask => htasks task
      ((List.perm_insertionSort _ tasks).mem_iff.mp htask)) hfirst with ⟨rfl, rfl⟩ | hclaimed
    · exact Or.inl ⟨by simp, rfl⟩
    · exact Or.inr hclaimed

end Claiming

/-! ## Discovery -/

section Discovery

variable {host : Host} {q q' : Queue} {maxAttempts : ℕ} {wiki snapshot taskId : String}

/-- A program leaves its invariant at its end. -/
theorem Leaves.at_end {α : Type} {I : Queue → Prop} {steps : Steps α} {answer : Except Failure α}
    (hleaves : Leaves host I (fun _ _ => True) q steps)
    (hrun : steps.run (Queue.perform host) q = (answer, q')) : I q' := by
  have hinv := hleaves.run.1
  rwa [hrun] at hinv

/-- What is fresh stays so when the leases are recovered. -/
theorem FreshAt.settled {limit : ℕ} (hfresh : FreshAt q wiki taskId snapshot)
    (hsettled : Settled q.clock limit wiki q q') (hkeeps : KeepsRecords q q')
    (hfree : q'.leases.lookup wiki = none) : FreshTask q' wiki taskId snapshot := by
  rcases hfresh with ⟨claim, howner, hlive⟩ | ⟨hnone, hfresh⟩
  · exact absurd ((hsettled.kept claim howner hlive).symm.trans hfree) (by simp)
  have hunexpired : ∀ claim, ¬ Expired q q.clock wiki claim := fun claim hexpired =>
    absurd ((Queue.ownerOf_of_free hnone).symm.trans hexpired.1) (by simp)
  obtain ⟨hpending, hfailures⟩ := hsettled.untouched hunexpired
  rcases hfresh with ⟨hcompleted, notification, hnotification, ready, hready, hmatches⟩ | hthere |
    hnot
  · refine Or.inl ⟨?_, notification, ?_, ready, ?_, hmatches⟩
    · rw [hkeeps.spared _ rfl]
      exact hcompleted
    · exact (hkeeps.spared _ rfl).trans hnotification
    · exact (hkeeps.spared _ rfl).trans hready
  · refine Or.inr (Or.inl ?_)
    rw [hpending, hkeeps.clock]
    exact hthere
  · refine Or.inr (Or.inr fun htraced => hnot ?_)
    rcases htraced with hdone | ⟨attempt, hdone⟩ | ⟨attempt, hdone⟩ | ⟨now, hdone⟩
    · rw [hkeeps.spared _ rfl] at hdone
      exact Or.inl hdone
    · refine Or.inr (Or.inl ⟨attempt, ?_⟩)
      have hsame : q'.records (.quarantine wiki taskId attempt)
          = q.records (.quarantine wiki taskId attempt) := hfailures _ (decide_eq_true rfl)
      rwa [← hsame]
    · refine Or.inr (Or.inr (Or.inl ⟨attempt, ?_⟩))
      have hsame : q'.records (.failure wiki taskId attempt)
          = q.records (.failure wiki taskId attempt) := hfailures _ (decide_eq_true rfl)
      rwa [← hsame]
    · rw [hkeeps.spared _ rfl] at hdone
      exact Or.inr (Or.inr (Or.inr ⟨now, hdone⟩))

/-- A fresh record is written for a wiki without a lease. -/
theorem Move.discovered {task : FleetTask} (hfree : q.leases.lookup wiki = none)
    (hattempt : task.attempt = 0) (hleases : q'.leases = q.leases)
    (hpending : q'.pending = q.pending.insert wiki task)
    (hfailures : ∀ w record, record.isFailureOf w → q'.records record = q.records record)
    (hfresh : (∃ existing, q.pending.lookup wiki = some existing ∧
        existing.taskId = task.taskId ∧ existing.attempt = 0 ∧
        existing.notBeforeUnix ≤ q.clock) ∨ ¬ Traced q wiki task.taskId) (w : String) :
    Move maxAttempts (w = wiki) w q q' := by
  by_cases hw : w = wiki
  · subst hw
    refine .enqueue task rfl hfree (by rw [hleases, hfree]) hattempt ?_ hfresh ?_
    · rw [hpending, AList.lookup_insert]
    · rintro taskId ⟨attempt, hquarantined⟩
      have hsame : q'.records (.quarantine w taskId attempt)
          = q.records (.quarantine w taskId attempt) := hfailures w _ (decide_eq_true rfl)
      refine ⟨attempt, ?_⟩
      rwa [← hsame]
  · refine .of_same ⟨by rw [hleases], ?_, hfailures w⟩
    rw [hpending, AList.lookup_insert_ne hw]

/-- A round of discovery: the new record differs from the pending one at most where the task does.
-/
theorem enqueueAt_effect {resourceClass : ResourceClass} {signals : SchedulingSignals}
    {controllerRunId : String} {answer : Except Failure DiscoveryReport} (h : Intact host q)
    (horderly : Orderly q) (hspares : SparesLeases q maxAttempts)
    (hfresh : FreshAt q wiki (taskIdentity host wiki snapshot) snapshot)
    (hrun : (enqueueAt host wiki snapshot resourceClass signals controllerRunId q.clock).run
      (Queue.perform host) q = (answer, q')) :
    ∃ q₁, Grows q q₁ ∧ (∀ w, Move maxAttempts False w q q₁) ∧ Grows q₁ q' ∧
      ∀ w, Move maxAttempts (w = wiki) w q₁ q' := by
  have hstay : ∀ w, Move maxAttempts False w q q := fun w => .refl w q
  unfold enqueueAt at hrun
  rcases run_require_cases hrun with ⟨e, -, rfl⟩ | ⟨_, -, hrun⟩
  · exact ⟨_, .refl _, hstay, .refl _, fun w => .refl w _⟩
  rcases run_require_cases hrun with ⟨e, -, rfl⟩ | ⟨_, -, hrun⟩
  · exact ⟨_, .refl _, hstay, .refl _, fun w => .refl w _⟩
  rcases run_require_cases hrun with ⟨e, -, rfl⟩ | ⟨_, -, hrun⟩
  · exact ⟨_, .refl _, hstay, .refl _, fun w => .refl w _⟩
  obtain ⟨n, q₁, hrecover, hsettled, hmove, hkeeps⟩ :=
    recover_round h horderly (by decide) hspares.left
  rw [run_bind_ok _ hrecover] at hrun
  refine ⟨q₁, hkeeps.grows, hmove, .of_run hrun, ?_⟩
  have hnow : ∀ w, Move maxAttempts (w = wiki) w q₁ q₁ := fun w => .refl w q₁
  refine Leaves.at_end (I := fun t => ∀ w, Move maxAttempts (w = wiki) w q₁ t) ?_ hrun
  refine Leaves.look (.isLeaseDir wiki) hnow rfl fun isDir hdir => ?_
  cases isDir with
  | true => exact Leaves.done hnow trivial
  | false =>
    have hfree : q₁.leases.lookup wiki = none :=
      Option.not_isSome_iff_eq_none.mp (by
        show ¬ (q₁.perform host (.isLeaseDir wiki)).1 = true
        rw [hdir]
        exact Bool.false_ne_true)
    have hthere := hfresh.settled (hsettled wiki) hkeeps hfree
    refine Leaves.require hnow fun _ _ => ?_
    refine Leaves.bind (completedEvidenceValid_leaves hnow) fun isValid t _ hmid => ?_
    obtain ⟨rfl, hnotEvident⟩ := hmid
    cases isValid with
    | true => exact Leaves.done hnow trivial
    | false =>
      -- the task is pending as it would be written now, or has no past
      have hforgets := hthere.resolve_left (hnotEvident rfl)
      have hwrite : ∀ (q₂ : Queue) (task : FleetTask), task.attempt = 0 →
          task.taskId = taskIdentity host wiki snapshot → q₂.leases = t.leases →
          q₂.pending = t.pending → (∀ w record, record.isFailureOf w →
            q₂.records record = t.records record) →
          ∀ w, Move maxAttempts (w = wiki) w t
            (q₂.perform host (.writePending wiki task)).2 := by
        intro q₂ task hzero hid hleases hpending hfailures w
        show Move maxAttempts (w = wiki) w t { q₂ with pending := q₂.pending.insert wiki task }
        refine .discovered hfree hzero ?_ ?_ ?_ ?_ w
        · exact hleases
        · exact congrArg (AList.insert wiki task) hpending
        · exact hfailures
        · rw [hid]
          exact hforgets
      refine Leaves.look (.isPending wiki) hnow rfl fun isFile _ => ?_
      cases isFile with
      | false =>
        refine Leaves.call (.writePending wiki _) hnow fun answer _ => ?_
        cases answer with
        | error e => exact Leaves.fail (hwrite t _ rfl rfl rfl rfl fun _ _ _ => rfl)
        | ok u => exact Leaves.done (hwrite t _ rfl rfl rfl rfl fun _ _ _ => rfl) trivial
      | true =>
        refine Leaves.look (.readPending wiki) hnow rfl fun answer _ => ?_
        refine Leaves.require hnow fun existing _ => Leaves.require hnow fun _ _ => ?_
        split
        next =>
          refine Leaves.call (.writePending wiki _) hnow fun answer _ => ?_
          cases answer with
          | error e => exact Leaves.fail (hwrite t _ rfl rfl rfl rfl fun _ _ _ => rfl)
          | ok u => exact Leaves.done (hwrite t _ rfl rfl rfl rfl fun _ _ _ => rfl) trivial
        next =>
          refine Leaves.call (.writeRecord (.superseded _ _) _) hnow fun answer _ => ?_
          have hsame : ∀ w record, record.isFailureOf w →
              (t.perform host (.writeRecord (.superseded existing.wiki existing.taskId)
                existing)).2.records record = t.records record := fun w record hrecord =>
            failures_of_update hrecord rfl rfl
          have hnoted : ∀ w, Move maxAttempts (w = wiki) w t (t.perform host
              (.writeRecord (.superseded existing.wiki existing.taskId) existing)).2 := fun w =>
            .of_same ⟨rfl, rfl, hsame w⟩
          cases answer with
          | error e => exact Leaves.fail hnoted
          | ok u =>
            refine Leaves.call (.writePending wiki _) hnoted fun answer _ => ?_
            cases answer with
            | error e => exact Leaves.fail (hwrite _ _ rfl rfl rfl rfl hsame)
            | ok u => exact Leaves.done (hwrite _ _ rfl rfl rfl rfl hsame) trivial

end Discovery

/-! ## Rounds -/

/-- Only a round that claims returns a claim. -/
theorem Round.claim_eq_none {r : Round} (h : ∀ claim, r.result ≠ .ok (.claimed (some claim))) :
    r.claim = none := by
  unfold Round.claim
  split
  next claim hclaim =>
    cases claim with
    | none => rfl
    | some claim => exact absurd hclaim (h claim)
  next => rfl

/-- A round without a claim in which all wikis move. -/
theorem Effect.moved {maxAttempts : ℕ} {r : Round}
    (hclaim : ∀ claim, r.result ≠ .ok (.claimed (some claim))) (hgrows : Grows r.before r.after)
    (hmove : ∀ wiki, Move maxAttempts False wiki r.before r.after) : Effect maxAttempts r :=
  ⟨r.after, hgrows, hmove, .refl _, .moved (Round.claim_eq_none hclaim) fun wiki => .refl wiki _⟩

/-- **Every round that is fresh has its effect.** -/
theorem Round.effect {host : Host} {maxAttempts : ℕ} {s t : Session} {r : Round}
    (h : Intact host s.store) (horderly : Orderly s.store)
    (hplays : s.plays host maxAttempts (.ran r) t) (hfresh : Fresh host maxAttempts s (.ran r)) :
    Effect maxAttempts r := by
  obtain ⟨op, result, before, after⟩ := r
  obtain ⟨hmay, hlimit, hbefore, hrun, -⟩ := hplays
  have hbefore' : before = s.store := hbefore
  subst hbefore'
  obtain ⟨-, hmax, hbeat⟩ := of_decide_eq_true hmay
  have hgrows : Grows s.store after := .of_run hrun
  -- One case for each operation; what it returns is taken off the result of its run.
  cases op with
  | enqueue wiki snapshot resourceClass signals controllerRunId =>
    obtain ⟨hfresh, hspares⟩ := hfresh
    obtain ⟨answer, hrun, rfl⟩ := run_map (Queue.perform host) (f := Outcome.discovered) hrun
    obtain ⟨q₁, hbefore, hfirst, hafter, hmove⟩ := enqueueAt_effect h horderly hspares hfresh hrun
    refine ⟨q₁, hbefore, hfirst, hafter, .moved (Round.claim_eq_none ?_) fun w => ?_⟩
    · cases answer <;> simp [Except.map]
    · exact (hmove w).weaken fun hw => decide_eq_true hw.symm
  | claim resourceClass workerId leaseTimeoutSecs processId =>
    -- A claim recovers stale leases first, and moves no more where it finds no task.
    obtain ⟨answer, hrun, rfl⟩ := run_map (Queue.perform host) (f := Outcome.claimed) hrun
    obtain ⟨q₁, hbefore, hfirst, hafter, hclaim⟩ := claimAt_effect h horderly hfresh hrun
    refine ⟨q₁, hbefore, hfirst, hafter, ?_⟩
    rcases hclaim with ⟨hnone, rfl⟩ | ⟨claim, rfl, hclaiming, hothers⟩
    · refine .moved (Round.claim_eq_none fun claim hclaim => hnone ⟨claim, ?_⟩) fun w => .refl w _
      cases answer with
      | error e => exact absurd hclaim (by simp [Except.map])
      | ok claimed => rw [Outcome.claimed.inj (Except.ok.inj hclaim)]
    · exact .claimed claim rfl hclaiming fun w hw => .of_same (hothers w hw)
  | heartbeat held => exact absurd rfl hbeat
    -- A heartbeat is no round: it is left out of the runs.
  | complete held outputDir =>
    obtain ⟨answer, hrun, rfl⟩ :=
      run_map (Queue.perform host) (f := fun _ => Outcome.completed) hrun
    refine .moved ?_ hgrows (complete_effect horderly hrun)
    cases answer <;> simp [Except.map]
  | fail held error limit =>
    obtain ⟨answer, hrun, rfl⟩ := run_map (Queue.perform host) (f := Outcome.failed) hrun
    have hsame : limit = maxAttempts := hlimit
    subst hsame
    refine .moved ?_ hgrows (failClaim_effect h horderly (hfresh held ?_) hrun)
    · cases answer <;> simp [Except.map]
    · simp [Operation.held]
  | defer held reason retryAfterSecs =>
    obtain ⟨answer, hrun, rfl⟩ := run_map (Queue.perform host) (f := fun _ => Outcome.deferred) hrun
    rcases defer_effect (hfresh held (by simp [Operation.held])) hrun with
      ⟨⟨e, rfl⟩, rfl⟩ | ⟨rfl, ⟨owner, task, hid, hdefer⟩, hothers⟩
    · exact .moved (by simp [Except.map]) hgrows fun w => .refl w _
    · refine ⟨s.store, .refl _, fun w => .refl w _, hgrows,
        .deferred held.task.wiki owner task rfl hdefer ?_ fun w hw => .of_same (hothers w hw)⟩
      exact decide_eq_true ⟨rfl, hid.symm⟩
  | recoverStale limit =>
    obtain ⟨answer, hrun, rfl⟩ := run_map (Queue.perform host) (f := Outcome.recovered) hrun
    have hsame : limit = maxAttempts := hlimit
    subst hsame
    obtain ⟨n, q₁, hrecover, -, hmove, -⟩ :=
      recover_round h horderly hmax fun _ _ _ hleft => hleft
    obtain ⟨rfl, rfl⟩ := Prod.mk.inj (hrecover.symm.trans hrun)
    exact .moved (by simp [Except.map]) hgrows hmove

/-! ## What follows -/

section Remember

variable {maxAttempts : ℕ} {wiki : String} {r : Round} {rs : List Round} {q q' : Queue}

/-- A move either left the pending record or left a trace of why it is there. -/
theorem Move.back {discovers : Prop} {task : FleetTask}
    (h : Move maxAttempts discovers wiki q q') (hnot : ¬ discovers)
    (htask : q'.pending.lookup wiki = some task) :
    q.pending.lookup wiki = some task ∨ Traced q' wiki task.taskId := by
  cases h with
  | stay _ hpending => exact Or.inl (hpending.symm.trans htask)
  | putBack _ put _ _ _ _ hpending htraced =>
    obtain rfl := Option.some.inj (hpending.symm.trans htask)
    exact Or.inr htraced
  | finish _ _ _ hpending => exact absurd (hpending.symm.trans htask) (by simp)
  | enqueue _ hdiscovers => exact absurd hdiscovers hnot

/-- What a round put back has a trace. -/
theorem Effect.back {task : FleetTask} (h : Effect maxAttempts r) (hback : r.putsBack wiki task) :
    Traced r.after wiki task.taskId := by
  obtain ⟨q, -, hfirst, hgrows, hfinal⟩ := h
  obtain ⟨htask, hbefore, hdiscovers⟩ := hback
  have hmoved : q.pending.lookup wiki = some task → Traced r.after wiki task.taskId := by
    intro hthere
    rcases (hfirst wiki).back not_false hthere with hsame | htraced
    · exact absurd hsame hbefore
    · exact hgrows.traced htraced
  cases hfinal with
  | moved _ hmove =>
    rcases (hmove wiki).back (by simp [hdiscovers]) htask with hthere | htraced
    · exact hmoved hthere
    · exact htraced
  | claimed claim _ hclaiming hothers =>
    by_cases hwiki : wiki = claim.task.wiki
    · subst hwiki
      exact hmoved (hclaiming.pending.trans (hclaiming.same.symm.trans htask))
    · rcases (hothers wiki hwiki).back not_false htask with hthere | htraced
      · exact hmoved hthere
      · exact htraced
  | deferred other claim put _ hdefer _ hothers =>
    by_cases hwiki : wiki = other
    · subst hwiki
      obtain rfl := Option.some.inj (hdefer.pending.symm.trans htask)
      exact hdefer.traced
    · rcases (hothers wiki hwiki).back not_false htask with hthere | htraced
      · exact hmoved hthere
      · exact htraced

/-- A round that returns no claim is a claim of no task. -/
theorem Round.claims_eq_false {taskId : String} (hclaim : r.claim = none) :
    r.claims wiki taskId = false := by
  unfold Round.claims
  rw [hclaim]
  rfl

/-- A round is a claim of the task its result names. -/
theorem Round.claims_iff {taskId : String} {claim : FleetClaim} (hclaim : r.claim = some claim) :
    r.claims wiki taskId = true ↔ claim.task.wiki = wiki ∧ claim.task.taskId = taskId := by
  unfold Round.claims
  rw [hclaim]
  exact decide_eq_true_iff

/-- The task that is claimed stays pending, and was not claimed before its time. -/
theorem Effect.claim {claim : FleetClaim} (h : Effect maxAttempts r)
    (hclaim : r.claim = some claim) :
    r.after.pending.lookup claim.task.wiki = some claim.task ∧
      ∃ q, Grows r.before q ∧ (∀ wiki, Move maxAttempts False wiki r.before q) ∧
        q.pending.lookup claim.task.wiki = some claim.task ∧
        claim.task.notBeforeUnix ≤ claim.claimedAtUnix ∧ claim.claimedAtUnix = q.clock := by
  obtain ⟨q, hgrows, hfirst, -, hfinal⟩ := h
  cases hfinal with
  | moved hnone => exact absurd (hnone.symm.trans hclaim) (by simp)
  | claimed other hother hclaiming =>
    obtain rfl := Option.some.inj (hother.symm.trans hclaim)
    exact ⟨hclaiming.same, q, hgrows, hfirst, hclaiming.pending, hclaiming.due, hclaiming.now⟩
  | deferred _ _ _ hnone => exact absurd (hnone.symm.trans hclaim) (by simp)

/-- All that is remembered, of all tasks. -/
structure Remembers (maxAttempts : ℕ) (rs : List Round) (q : Queue) : Prop where
  orderly : Orderly q
  kept : ∀ wiki taskId, Kept maxAttempts wiki taskId rs q
  budgeted : ∀ wiki taskId, Budgeted maxAttempts wiki taskId rs q

/-- One move keeps what the rounds so far tell of the queue. -/
theorem Remembers.move {d : String → Prop} (h : Remembers maxAttempts rs q)
    (hpositive : 0 < maxAttempts) (hgrows : Grows q q')
    (hmove : ∀ wiki, Move maxAttempts (d wiki) wiki q q') :
    Remembers maxAttempts rs q' where
  orderly := h.orderly.move hgrows hmove
  kept wiki taskId := (h.kept wiki taskId).move h.orderly hgrows hpositive (hmove wiki)
  budgeted wiki taskId := (h.budgeted wiki taskId).move h.orderly hgrows (hmove wiki)

/-- The end of a round: what held of each task before it, and what holds with it. -/
theorem Effect.remembers (heffect : Effect maxAttempts r) (hpositive : 0 < maxAttempts)
    (h : Remembers maxAttempts rs r.before) :
    (∀ wiki taskId, Kept maxAttempts wiki taskId rs r.after) ∧
      Remembers maxAttempts (rs ++ [r]) r.after := by
  have hback : ∀ wiki taskId task, r.putsBack wiki task → task.taskId = taskId →
      Traced r.after wiki taskId := by
    rintro wiki _ task hback rfl
    exact heffect.back hback
  obtain ⟨q, hgrows, hfirst, hgrows', hfinal⟩ := heffect
  -- First what the round does before its last step, which only moves records.
  have hmid := h.move hpositive hgrows hfirst
  cases hfinal with
  | moved hclaim hmove =>
    have hend := hmid.move hpositive hgrows' hmove
    exact ⟨hend.kept, hend.orderly, fun wiki taskId =>
      (hend.kept wiki taskId).remember rfl (hback wiki taskId), fun wiki taskId =>
      (hend.budgeted wiki taskId).remember (Round.claims_eq_false hclaim)⟩
  | claimed claim hclaim hclaiming hothers =>
    -- The wiki that is claimed is remembered as such; the others move as before.
    have hkept : ∀ wiki taskId, Kept maxAttempts wiki taskId rs r.after := fun wiki taskId => by
      by_cases hwiki : wiki = claim.task.wiki
      · subst hwiki
        exact (hmid.kept _ taskId).claimed hgrows' hclaiming
      · exact (hmid.kept wiki taskId).move hmid.orderly hgrows' hpositive (hothers wiki hwiki)
    refine ⟨hkept, ⟨fun wiki lease hlease => ?_⟩, fun wiki taskId =>
      (hkept wiki taskId).remember rfl (hback wiki taskId), fun wiki taskId => ?_⟩
    · by_cases hwiki : wiki = claim.task.wiki
      · subst hwiki
        obtain rfl := Option.some.inj (hclaiming.owner.symm.trans hlease)
        refine ⟨claim, rfl, hclaiming.same, hclaiming.due.trans ?_⟩
        rw [hclaiming.now]
        exact hgrows'.clock
      · exact (hothers wiki hwiki).leased hmid.orderly hgrows' hlease
    · by_cases hwiki : wiki = claim.task.wiki
      · subst hwiki
        exact (hmid.budgeted _ taskId).claimed (hmid.kept _ taskId) hgrows' hclaiming
          fun hclaims => ((Round.claims_iff hclaim).mp hclaims).2
      · refine ((hmid.budgeted wiki taskId).move hmid.orderly hgrows' (hothers wiki hwiki)).remember
          ?_
        refine Bool.eq_false_iff.mpr fun hclaims => hwiki ?_
        exact ((Round.claims_iff hclaim).mp hclaims).1.symm
  | deferred other claim task hclaim hdefer hdefers hothers =>
    -- A deferral puts the task back without an attempt, and frees its lease.
    have hkept : ∀ wiki taskId, Kept maxAttempts wiki taskId rs r.after := fun wiki taskId => by
      by_cases hwiki : wiki = other
      · subst hwiki
        exact (hmid.kept _ taskId).deferred hmid.orderly hgrows' hdefer
      · exact (hmid.kept wiki taskId).move hmid.orderly hgrows' hpositive (hothers wiki hwiki)
    refine ⟨hkept, ⟨fun wiki lease hlease => ?_⟩, fun wiki taskId =>
      (hkept wiki taskId).remember rfl (hback wiki taskId), fun wiki taskId => ?_⟩
    · by_cases hwiki : wiki = other
      · subst hwiki
        exact absurd (hdefer.leases.symm.trans hlease) (by simp)
      · exact (hothers wiki hwiki).leased hmid.orderly hgrows' hlease
    · by_cases hwiki : wiki = other
      · subst hwiki
        refine (hmid.budgeted _ taskId).deferred hgrows' hdefer ?_ (Round.claims_eq_false hclaim)
        rintro rfl
        rw [← hdefer.taskId]
        exact hdefers
      · exact ((hmid.budgeted wiki taskId).move hmid.orderly hgrows' (hothers wiki hwiki)).remember
          (Round.claims_eq_false hclaim)

end Remember

/-! ## Runs -/

/-- Two rounds in order are both among the first, or the later one is the last. -/
theorem pair_sublist_snoc {α : Type} {a b r : α} {l : List α} (h : [a, b].Sublist (l ++ [r])) :
    [a, b].Sublist l ∨ (a ∈ l ∧ b = r) := by
  obtain ⟨front, back, heq, hfront, hback⟩ := List.sublist_append_iff.mp h
  rcases List.sublist_singleton.mp hback with rfl | rfl
  · rw [List.append_nil] at heq
    rw [heq]
    exact Or.inl hfront
  · obtain ⟨rfl, hb⟩ := List.append_inj' (show [a] ++ [b] = front ++ [r] from heq) rfl
    exact Or.inr ⟨List.singleton_sublist.mp hfront, List.singleton_inj.mp hb⟩

section Law

variable {maxAttempts : ℕ} {rs : List Round} {r : Round}

/-- **One more round keeps to the law.** -/
theorem RetryLaw.snoc (h : RetryLaw maxAttempts rs) (heffect : Effect maxAttempts r)
    (hpositive : 0 < maxAttempts) (hbefore : Remembers maxAttempts rs r.before) :
    RetryLaw maxAttempts (rs ++ [r]) := by
  obtain ⟨hkept, hend⟩ := heffect.remembers hpositive hbefore
  refine ⟨fun a b hab wiki task task' htask htask' hid => ?_, fun mid hmid wiki taskId hnone => ?_,
    fun a ha wiki taskId hquarantined => ?_, fun a b hab wiki taskId hquarantined => ?_,
    fun a b hab wiki task claim hback hclaim hwiki hid => ?_⟩
  · rcases pair_sublist_snoc hab with hab | ⟨ha, rfl⟩
    · exact h.attempts a b hab wiki task task' htask htask' hid
    · exact ((hkept wiki task.taskId).attempts a ha task htask rfl).2 task' htask' hid.symm
  · rcases List.infix_concat_iff.mp hmid with hsuffix | hinfix
    · exact (hend.budgeted wiki taskId).budget mid hsuffix hnone
    · exact h.budget mid hinfix wiki taskId hnone
  · rcases List.mem_append.mp ha with ha | ha
    · exact h.gone a ha wiki taskId hquarantined
    · rw [List.mem_singleton.mp ha] at hquarantined ⊢
      exact (hkept wiki taskId).gone hquarantined
  · rcases pair_sublist_snoc hab with hab | ⟨ha, rfl⟩
    · exact h.quarantined a b hab wiki taskId hquarantined
    · have hgone := (hkept wiki taskId).gone ((hkept wiki taskId).quarantined a ha hquarantined)
      refine ⟨hgone, Bool.eq_false_iff.mpr fun hclaims => ?_⟩
      unfold Round.claims at hclaims
      obtain ⟨claim, hclaim, hsame⟩ := (Option.any_eq_true _ _).mp hclaims
      obtain ⟨rfl, rfl⟩ := of_decide_eq_true hsame
      exact hgone ⟨claim.task, (heffect.claim hclaim).1, rfl⟩
  · rcases pair_sublist_snoc hab with hab | ⟨ha, rfl⟩
    · exact h.backoff a b hab wiki task claim hback hclaim hwiki hid
    · subst hwiki
      obtain ⟨-, q, hgrows, hfirst, hthere, hdue, hnow⟩ := heffect.claim hclaim
      have hmid := hbefore.move hpositive hgrows hfirst
      rw [hnow]
      rcases ((hmid.kept _ task.taskId).backoff a ha task hback rfl).2 claim.task hthere hid with
        hsooner | hpast
      · rw [← hnow]
        exact hsooner.trans hdue
      · exact hpast

end Law

/-- What is known at the end of a run. -/
structure Told (host : Host) (maxAttempts : ℕ) (rs : List Round) (s : Session) : Prop where
  intact : Intact host s.store
  receipts : ∀ claim ∈ s.receipts, claim.task.attempt < u32Max
  remembers : Remembers maxAttempts rs s.store
  law : RetryLaw maxAttempts rs

/-- The rounds of a session, with one entry more. -/
theorem rounds_snoc (entries : List Entry) (e : Entry) :
    rounds (entries ++ [e]) = rounds entries ++ rounds [e] := List.filterMap_append ..

section Told

variable {host : Host} {maxAttempts : ℕ}

/-- Before the first round there is nothing to tell. -/
theorem Told.init {s : Session} (h : (retries host maxAttempts).init s) :
    Told host maxAttempts [] s := by
  obtain ⟨hinit, hrecords⟩ := h
  have hkept := (sessions_inductive host).init s hinit
  obtain ⟨hleases, hpending, -, -⟩ := hinit
  have hnone : ∀ wiki, s.store.pending.lookup wiki = none := fun wiki => by
    rw [hpending]
    rfl
  have hfree : ∀ wiki, s.store.leases.lookup wiki = none := fun wiki => by
    rw [hleases]
    rfl
  have hsuffix : ∀ (l : List Round) wiki taskId, l <:+ [] →
      l.countP (·.claims wiki taskId) = 0 := by
    intro l wiki taskId hl
    rw [List.suffix_nil.mp hl]
    rfl
  refine ⟨hkept.1, hkept.2, ⟨⟨fun wiki lease hlease => ?_⟩, fun wiki taskId => ?_,
    fun wiki taskId => ?_⟩, ?_⟩
  · exact absurd ((hfree wiki).symm.trans hlease) (by simp)
  · refine ⟨fun task htask => ?_, fun task htask => ?_, fun _ hpends => ?_, by simp, by
      simp, by simp⟩
    · exact absurd ((hnone wiki).symm.trans htask) (by simp)
    · exact absurd ((hnone wiki).symm.trans htask) (by simp)
    · obtain ⟨task, htask, -⟩ := hpends
      exact absurd ((hnone wiki).symm.trans htask) (by simp)
  · refine ⟨fun l hl _ => ?_, fun l hl _ hpos => ?_, fun l hl _ task htask => ?_⟩
    · rw [hsuffix l wiki taskId hl]
      exact Nat.zero_le _
    · rw [hsuffix l wiki taskId hl] at hpos
      exact absurd hpos (lt_irrefl 0)
    · exact absurd ((hnone wiki).symm.trans htask) (by simp)
  · refine ⟨fun a b hab => ?_, fun mid hmid wiki taskId _ => ?_, by simp, fun a b hab => ?_,
      fun a b hab => ?_⟩
    · exact absurd (List.sublist_nil.mp hab) (by simp)
    · rw [List.infix_nil.mp hmid]
      exact Nat.zero_le _
    · exact absurd (List.sublist_nil.mp hab) (by simp)
    · exact absurd (List.sublist_nil.mp hab) (by simp)

/-- Where no operation runs, nothing is forgotten. -/
theorem Told.idle {rs : List Round} {s t : Session} (h : Told host maxAttempts rs s)
    (hpositive : 0 < maxAttempts) (hintact : Intact host t.store)
    (hreceipts : t.receipts = s.receipts)
    (hgrows : Grows s.store t.store) (hleases : t.store.leases = s.store.leases)
    (hpending : t.store.pending = s.store.pending)
    (hrecords : ∀ record, (∀ path, record ≠ .readyIndex path) →
      t.store.records record = s.store.records record) : Told host maxAttempts rs t where
  intact := hintact
  receipts := by
    rw [hreceipts]
    exact h.receipts
  remembers := by
    refine h.remembers.move (d := fun _ => False) hpositive hgrows fun wiki => ?_
    refine .stay (by rw [hleases]) (by rw [hpending]) ?_
    rintro taskId ⟨attempt, hquarantined⟩
    rw [hrecords _ (by simp)] at hquarantined
    exact ⟨attempt, hquarantined⟩
  law := h.law

/-- Each entry of the session adds its round to what is told, and the queue agrees with it. -/
theorem Told.step {entries : List Entry} {e : Entry} {s t : Session}
    (h : Told host maxAttempts (rounds entries) s) (hpositive : 0 < maxAttempts)
    (hstep : (freshRetries host maxAttempts).step s e t) :
    Told host maxAttempts (rounds (entries ++ [e])) t := by
  obtain ⟨hplays, hfresh⟩ := hstep
  rw [rounds_snoc]
  cases e with
  | ran r =>
    -- What the round moves is remembered, and the law is read off what is remembered.
    have heffect := Round.effect h.intact h.remembers.orderly hplays hfresh
    obtain ⟨hmay, -, hbefore, hrun, rfl⟩ := hplays
    have hremembers := h.remembers
    rw [← hbefore] at hremembers
    have hleaves := (Operation.leaves h.intact h.receipts hmay).run
    rw [hrun] at hleaves
    refine ⟨hleaves.1, fun claim hclaim => ?_, (heffect.remembers hpositive hremembers).2,
      h.law.snoc heffect hpositive hremembers⟩
    rcases List.mem_append.mp hclaim with hnew | hold
    · have hresult := Option.mem_toList.mp hnew
      unfold Round.claim at hresult
      split at hresult
      next claim' hok => exact hleaves.2 _ hok claim' rfl claim hresult
      next => exact absurd hresult (by simp)
    · exact h.receipts claim hold
  | tick seconds =>
    obtain rfl : t = _ := hplays
    rw [show rounds [Entry.tick seconds] = [] from rfl, List.append_nil]
    exact h.idle hpositive ⟨h.intact.owners, h.intact.pending, h.intact.same, h.intact.ended,
      h.intact.ambiguous⟩ rfl ⟨fun _ _ hthere => hthere, Nat.le_add_right ..⟩ rfl rfl
      fun _ _ => rfl
  | publishReady path index =>
    obtain rfl : t = _ := hplays
    rw [show rounds [Entry.publishReady path index] = [] from rfl, List.append_nil]
    -- An index is none of the records the law is about.
    have hsame := @Queue.records_publishReady s.store path index
    have hintact := (sessions_inductive host).step s (.publishReady path index) _
      ⟨h.intact, h.receipts⟩ rfl
    refine h.idle hpositive hintact.1 rfl ⟨fun record hrecord hthere => ?_, le_rfl⟩ rfl rfl
      fun _ hrecord => hsame hrecord
    dsimp only
    rw [hsame hrecord]
    exact hthere

end Told

/-- **In every run of fresh rounds, discovery, claiming, failures, deferrals, recovery
and completion keep to the retry law.** -/
theorem retries_kept (host : Host) (maxAttempts : ℕ) (s t : Session) (entries : List Entry)
    (hpositive : 0 < maxAttempts) (hinit : (freshRetries host maxAttempts).init s)
    (hrun : (freshRetries host maxAttempts).Run s entries t) :
    RetryLaw maxAttempts (rounds entries) := by
  have htold : Told host maxAttempts (rounds entries) t := by
    induction hrun with
    | nil => exact .init hinit
    | snoc _ hstep ih => exact ih.step hpositive hstep
  exact htold.law

/-! ## Two runs -/

/-- The operation runs to its end. -/
def Session.round (host : Host) (s : Session) (op : Operation) : Round :=
  let out := (op.program host).run (Queue.perform host) s.store
  ⟨op, out.1, s.store, out.2⟩

/-- The session after an operation that nothing else interrupts. -/
def Session.next (host : Host) (s : Session) (op : Operation) : Session :=
  ⟨(s.round host op).after, (s.round host op).claim.toList ++ s.receipts⟩

/-- Such an operation is a step of the session. -/
theorem Session.plays_round {host : Host} {maxAttempts : ℕ} {s : Session} {op : Operation}
    (hmay : s.mayRun op) (hlimit : op.HasLimit maxAttempts) :
    s.plays host maxAttempts (.ran (s.round host op)) (s.next host op) :=
  ⟨hmay, hlimit, rfl, rfl, rfl⟩

theorem retries_step {host : Host} {maxAttempts : ℕ} {s : Session} {op : Operation}
    (hmay : s.mayRun op) (hlimit : op.HasLimit maxAttempts) :
    (retries host maxAttempts).step s (.ran (s.round host op)) (s.next host op) :=
  Session.plays_round hmay hlimit

/-- The controller enqueues one snapshot twice, before and after a worker fails it. -/
def discovery : Operation := .enqueue "frwiki" "2026-05" .small sampleSignals "controller-1"

def discovered : Session := sessionStart.next sampleHost discovery

def sampleWorker : Operation := .claim .small "toolforge-a" 3600 311

def claimed : Session := discovered.next sampleHost sampleWorker

def failure : Operation := .fail sampleClaim "replica lag" 3

def failed : Session := claimed.next sampleHost failure

def rediscovered : Session := failed.next sampleHost discovery

theorem samples_mayRun : sessionStart.mayRun discovery ∧ discovered.mayRun sampleWorker ∧
    claimed.mayRun failure ∧ failed.mayRun discovery := by decide +kernel

theorem discovered_leases : discovered.store.leases.keys = [] := by decide +kernel

theorem claimed_owner : claimed.store.ownerOf "frwiki" = some sampleClaim := by decide +kernel

theorem failed_attempt : (failed.store.pending.lookup "frwiki").any fun task =>
    task.attempt = 1 ∧ task.taskId = sampleTask.taskId := by decide +kernel

theorem sessionStart_retries_init : (retries sampleHost 3).init sessionStart :=
  ⟨sessionStart_init, fun _ _ => rfl⟩

/-- Where there is no lease, none has expired. -/
theorem SparesLeases.of_keys {q : Queue} {maxAttempts : ℕ} (h : q.leases.keys = []) :
    SparesLeases q maxAttempts := by
  intro wiki claim hexpired
  have hthere := Queue.leased_of_owner hexpired.1
  have hmem := AList.mem_keys.mp (AList.lookup_isSome.mp hthere)
  rw [h] at hmem
  exact absurd hmem (by simp)

/-- A task is discovered, claimed and failed. -/
theorem retries_kept_failed : ∃ entries t,
    (freshRetries sampleHost 3).Run sessionStart entries t ∧
      (t.store.pending.lookup "frwiki").any (fun task => task.attempt = 1) ∧
      RetryLaw 3 (rounds entries) := by
  obtain ⟨hfirst, hsecond, hthird, -⟩ := samples_mayRun
  have hnotTraced : ∀ taskId, ¬ Traced sessionStart.store "frwiki" taskId := by
    rintro taskId (hdone | ⟨attempt, hdone⟩ | ⟨attempt, hdone⟩ | ⟨now, hdone⟩) <;>
      exact Bool.false_ne_true hdone
  have hdiscovered : (freshRetries sampleHost 3).Run sessionStart _ discovered :=
    .snoc (.nil _) ⟨Session.plays_round hfirst trivial,
      Or.inr ⟨rfl, Or.inr (Or.inr (hnotTraced _))⟩, SparesLeases.of_keys rfl⟩
  have hclaimed : (freshRetries sampleHost 3).Run sessionStart _ claimed :=
    .snoc hdiscovered ⟨Session.plays_round hsecond trivial, SparesLeases.of_keys discovered_leases⟩
  have hknows : KnowsLease claimed.store sampleClaim := by
    intro owner howner _ _ _
    rw [Option.some.inj (howner.symm.trans claimed_owner)]
  have hfailed : (freshRetries sampleHost 3).Run sessionStart _ failed :=
    .snoc hclaimed ⟨Session.plays_round hthird rfl, fun held hheld => by
      obtain rfl := Option.some.inj hheld
      exact hknows⟩
  refine ⟨_, failed, hfailed, ?_, retries_kept sampleHost 3 _ _ _ (by decide)
    sessionStart_retries_init hfailed⟩
  obtain ⟨task, htask, hattempt⟩ := (Option.any_eq_true _ _).mp failed_attempt
  rw [htask]
  exact decide_eq_true (of_decide_eq_true hattempt).1

/-- Discovery of a task that has failed counts its attempts from the beginning. -/
theorem retries_not_kept : ∃ entries t, (retries sampleHost 3).init sessionStart ∧
    (retries sampleHost 3).Run sessionStart entries t ∧ ¬ RetryLaw 3 (rounds entries) := by
  obtain ⟨hfirst, hsecond, hthird, hfourth⟩ := samples_mayRun
  have hagain : (rediscovered.store.pending.lookup "frwiki").any fun task =>
      task.attempt = 0 ∧ task.taskId = sampleTask.taskId := by decide +kernel
  have hdiscovered : (retries sampleHost 3).Run sessionStart _ discovered :=
    .snoc (.nil _) (retries_step hfirst trivial)
  have hclaimed : (retries sampleHost 3).Run sessionStart _ claimed :=
    .snoc hdiscovered (retries_step hsecond trivial)
  have hfailed : (retries sampleHost 3).Run sessionStart _ failed :=
    .snoc hclaimed (retries_step hthird rfl)
  have hrediscovered : (retries sampleHost 3).Run sessionStart _ rediscovered :=
    .snoc hfailed (retries_step hfourth trivial)
  refine ⟨_, rediscovered, sessionStart_retries_init, hrediscovered, fun h => ?_⟩
  obtain ⟨task, htask, hone⟩ := (Option.any_eq_true _ _).mp failed_attempt
  obtain ⟨task', htask', hzero⟩ := (Option.any_eq_true _ _).mp hagain
  obtain ⟨hone, hid⟩ := of_decide_eq_true hone
  obtain ⟨hzero, hid'⟩ := of_decide_eq_true hzero
  have hle := h.attempts (claimed.round sampleHost failure) (failed.round sampleHost discovery)
    (List.sublist_append_right [_, _] _) "frwiki" task task' htask htask' (hid.trans hid'.symm)
  omega

end WikiEcon.Fleet
