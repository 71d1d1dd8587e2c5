import WikiEcon.Toolforge.PipelineOrder
import WikiEcon.Toolforge.StateLock

/-!
# Mutual exclusion around the pipeline's document

A process that finds the lock stale moves away whatever has its name by then. As long
as that is a stale lock, the lock is one of `StaleLock` (`Shared.step_lock`), so no two
processes are in their commands at once and no document is lost (`lock_kept`). When
two processes find the lock of a third that was killed stale, the second moves away
the lock of the first (`both_hold`).
-/

namespace WikiEcon.Toolforge.Pipeline

open Fallible Transition

/-! ## What a command leaves -/

/-- Where `begin` comes as far as recovery. -/
theorem recoveredBy_eq_ok {args : Args} {document recovered : Option PipelineState}
    (h : recoveredBy args document = .ok recovered) : ∃ name runId stage wikis u found,
      required args.stage "stage" = .ok name ∧ required args.runId "run-id" = .ok runId ∧
      validStage name = .ok stage ∧ parseWikis args.wikisJson = .ok wikis ∧
      (supplied args.snapshot).forM validSnapshot = .ok u ∧ readState document = .ok found ∧
      ((found = none ∧ recovered = none) ∨ ∃ state message, found = some state ∧
        failIf (jsSort state.wikis ≠ wikis) message = .ok () ∧
        recovered = recoverStaleStages args state) := by
  unfold recoveredBy at h
  obtain ⟨name, hname, h⟩ := bind_eq_ok.mp h
  obtain ⟨runId, hrunId, h⟩ := bind_eq_ok.mp h
  obtain ⟨stage, hstage, h⟩ := bind_eq_ok.mp h
  obtain ⟨wikis, hwikis, h⟩ := bind_eq_ok.mp h
  obtain ⟨u, hsnapshot, h⟩ := bind_eq_ok.mp h
  obtain ⟨found, hfound, h⟩ := bind_eq_ok.mp h
  refine ⟨name, runId, stage, wikis, u, found, hname, hrunId, hstage, hwikis, hsnapshot, hfound, ?_⟩
  cases found with
  | none => exact Or.inl ⟨rfl, (Except.ok.inj h).symm⟩
  | some state =>
    obtain ⟨_, hsame, h⟩ := bind_eq_ok.mp h
    exact Or.inr ⟨state, _, rfl, hsame, (Except.ok.inj h).symm⟩

/-- How `begin` ends: with a document of its own, or with what it recovered, if it came
so far, or with the document as it was. -/
theorem exec_begin {capacity : CapacityPolicy} {args : Args} {document after : Option PipelineState}
    {r : Except String Answer} (h : (begin capacity args).exec document = (r, after)) :
    (∃ answer state, r = .ok answer ∧ wrote answer = true ∧ after = some state) ∨
    (∃ e recovered, r = .error e ∧ recoveredBy args document = .ok (some recovered) ∧
      after = some recovered) ∨
    (∃ e, r = .error e ∧ (∀ recovered, recoveredBy args document ≠ .ok (some recovered)) ∧
      after = document) := by
  unfold begin at h
  -- a check before recovery that fails
  have hfail : ∀ {e}, r = .error e → after = document →
      (∀ recovered, recoveredBy args document ≠ .ok (some recovered)) →
      (∃ answer state, r = .ok answer ∧ wrote answer = true ∧ after = some state) ∨
      (∃ e recovered, r = .error e ∧ recoveredBy args document = .ok (some recovered) ∧
        after = some recovered) ∨
      (∃ e, r = .error e ∧ (∀ recovered, recoveredBy args document ≠ .ok (some recovered)) ∧
        after = document) := fun hr hafter hnone => Or.inr (Or.inr ⟨_, hr, hnone, hafter⟩)
  rcases lift_bind_cases h with ⟨e, hr, hafter, he⟩ | ⟨name, hname, h⟩
  · refine hfail hr hafter fun recovered hok => ?_
    obtain ⟨_, _, _, _, _, _, hname, -⟩ := recoveredBy_eq_ok hok
    exact absurd (he.symm.trans hname) (by simp)
  rcases lift_bind_cases h with ⟨e, hr, hafter, he⟩ | ⟨runId, hrunId, h⟩
  · refine hfail hr hafter fun recovered hok => ?_
    obtain ⟨_, _, _, _, _, _, -, hrunId, -⟩ := recoveredBy_eq_ok hok
    exact absurd (he.symm.trans hrunId) (by simp)
  rcases lift_bind_cases h with ⟨e, hr, hafter, he⟩ | ⟨stage, hstage, h⟩
  · refine hfail hr hafter fun recovered hok => ?_
    obtain ⟨_, _, _, _, _, _, hname', -, hstage, -⟩ := recoveredBy_eq_ok hok
    obtain rfl := Except.ok.inj (hname.symm.trans hname')
    exact absurd (he.symm.trans hstage) (by simp)
  rcases lift_bind_cases h with ⟨e, hr, hafter, he⟩ | ⟨wikis, hwikis, h⟩
  · refine hfail hr hafter fun recovered hok => ?_
    obtain ⟨_, _, _, _, _, _, -, -, -, hwikis, -⟩ := recoveredBy_eq_ok hok
    exact absurd (he.symm.trans hwikis) (by simp)
  rcases lift_bind_cases h with ⟨e, hr, hafter, he⟩ | ⟨_, hsnapshot, h⟩
  · refine hfail hr hafter fun recovered hok => ?_
    obtain ⟨_, _, _, _, _, _, -, -, -, -, hsnapshot, -⟩ := recoveredBy_eq_ok hok
    exact absurd (he.symm.trans hsnapshot) (by simp)
  rw [exec_read_bind] at h
  rcases lift_bind_cases h with ⟨e, hr, hafter, he⟩ | ⟨found, hfound, h⟩
  · refine hfail hr hafter fun recovered hok => ?_
    obtain ⟨_, _, _, _, _, _, -, -, -, -, -, hfound, -⟩ := recoveredBy_eq_ok hok
    exact absurd (he.symm.trans hfound) (by simp)
  cases found with
  | none =>
    dsimp only at h
    rcases lift_bind_cases h with ⟨e, hr, hafter, -⟩ | ⟨state, -, h⟩
    · refine hfail hr hafter fun recovered hok => ?_
      obtain ⟨_, _, _, _, _, _, -, -, -, -, -, hfound', hcases⟩ := recoveredBy_eq_ok hok
      obtain rfl := Except.ok.inj (hfound.symm.trans hfound')
      rcases hcases with ⟨-, hnone⟩ | ⟨_, _, hsome, -⟩
      · exact absurd hnone (by simp)
      · exact absurd hsome (by simp)
    obtain ⟨rfl, rfl⟩ := Prod.mk.inj h
    exact Or.inl ⟨_, _, rfl, rfl, rfl⟩
  | some before =>
    dsimp only at h
    rcases bind_cases h with ⟨e, hr, hstart⟩ | ⟨state, t, hstart, h⟩
    · rcases lift_bind_cases hstart with ⟨e', -, hafter, he⟩ | ⟨_, hsame, hstart⟩
      · refine hfail hr hafter fun recovered hok => ?_
        obtain ⟨_, _, _, _, _, _, -, -, -, hwikis', -, hfound', hcases⟩ := recoveredBy_eq_ok hok
        obtain rfl := Except.ok.inj (hfound.symm.trans hfound')
        obtain rfl := Except.ok.inj (hwikis.symm.trans hwikis')
        rcases hcases with ⟨hnone, -⟩ | ⟨state, message, hsome, hsame, -⟩
        · exact absurd hnone (by simp)
        · obtain rfl := Option.some.inj hsome
          have hequal := failIf_eq_ok.mp hsame
          rw [hequal] at he
          exact absurd he (by simp [failIf])
      · have hrecovered : recoveredBy args document = .ok (recoverStaleStages args before) := by
          unfold recoveredBy
          refine bind_eq_ok.mpr ⟨_, hname, bind_eq_ok.mpr ⟨_, hrunId, bind_eq_ok.mpr ⟨_, hstage,
            bind_eq_ok.mpr ⟨_, hwikis, bind_eq_ok.mpr ⟨_, hsnapshot, bind_eq_ok.mpr ⟨_, hfound,
              bind_eq_ok.mpr ⟨_, hsame, rfl⟩⟩⟩⟩⟩⟩⟩
        rcases bind_cases hstart with ⟨e', -, hrun⟩ | ⟨state, t, hrun, hstart⟩
        · unfold recover at hrun
          split at hrun
          · exact absurd (Prod.mk.inj hrun).1 (by simp)
          · exact absurd (Prod.mk.inj hrun).1 (by simp)
        · have hafter : after = t := by
            rcases lift_bind_cases hstart with ⟨_, -, heq, -⟩ | ⟨_, -, hstart⟩
            · exact heq
            · exact absurd (Prod.mk.inj hstart).1 (by simp)
          unfold recover at hrun
          split at hrun
          next hnone =>
            obtain ⟨-, rfl⟩ := Prod.mk.inj hrun
            refine hfail hr hafter fun recovered hok => ?_
            rw [hrecovered, hnone] at hok
            exact absurd (Except.ok.inj hok) (by simp)
          next recovered hsome =>
            obtain ⟨-, rfl⟩ := Prod.mk.inj hrun
            exact Or.inr (Or.inl ⟨e, recovered, hr, hrecovered.trans (congrArg _ hsome), hafter⟩)
    · obtain ⟨rfl, rfl⟩ := Prod.mk.inj h
      exact Or.inl ⟨_, _, rfl, rfl, rfl⟩

/-- How the other commands end. -/
theorem exec_other {capacity : CapacityPolicy} {command : CommandName} {args : Args}
    {document after : Option PipelineState} {r : Except String Answer} (hcommand : command ≠ .begin)
    (h : (main capacity command args).exec document = (r, after)) :
    (∃ answer state, r = .ok answer ∧ wrote answer = true ∧ after = some state) ∨
    (∀ answer, r = .ok answer → wrote answer = false) ∧ after = document := by
  have howned : ∀ {verb : String} {found : Except String (Stage × PipelineState)} {left},
      (ownedStage args verb).exec document = (found, left) → left = document := by
    intro verb found left hrun
    unfold ownedStage at hrun
    rcases lift_bind_cases hrun with ⟨_, -, heq, -⟩ | ⟨_, -, hrun⟩
    · exact heq
    rcases lift_bind_cases hrun with ⟨_, -, heq, -⟩ | ⟨_, -, hrun⟩
    · exact heq
    rcases lift_bind_cases hrun with ⟨_, -, heq, -⟩ | ⟨_, -, hrun⟩
    · exact heq
    rw [exec_read_bind] at hrun
    rcases lift_bind_cases hrun with ⟨_, -, heq, -⟩ | ⟨_, -, hrun⟩
    · exact heq
    rcases lift_bind_cases hrun with ⟨_, -, heq, -⟩ | ⟨_, -, hrun⟩
    · exact heq
    rcases lift_bind_cases hrun with ⟨_, -, heq, -⟩ | ⟨_, -, hrun⟩
    · exact heq
    exact (Prod.mk.inj hrun).2.symm
  have hrefused : ∀ {e}, r = .error e → after = document →
      (∃ answer state, r = .ok answer ∧ wrote answer = true ∧ after = some state) ∨
      (∀ answer, r = .ok answer → wrote answer = false) ∧ after = document := by
    rintro e rfl hafter
    exact Or.inr ⟨fun _ hok => absurd hok (by simp), hafter⟩
  cases command with
  | begin => exact absurd rfl hcommand
  | heartbeat =>
    have hrun : (heartbeat args).exec document = (r, after) := h
    unfold heartbeat at hrun
    rcases lift_bind_cases hrun with ⟨_, hr, heq, -⟩ | ⟨_, -, hrun⟩
    · exact hrefused hr heq
    rcases lift_bind_cases hrun with ⟨_, hr, heq, -⟩ | ⟨_, -, hrun⟩
    · exact hrefused hr heq
    rcases lift_bind_cases hrun with ⟨_, hr, heq, -⟩ | ⟨stage, -, hrun⟩
    · exact hrefused hr heq
    rw [exec_read_bind] at hrun
    rcases lift_bind_cases hrun with ⟨_, hr, heq, -⟩ | ⟨found, -, hrun⟩
    · exact hrefused hr heq
    -- an answer that the stage is not active
    have hidle : (Except.ok { stage := stage, active := some false }, document) = (r, after) →
        (∃ answer state, r = .ok answer ∧ wrote answer = true ∧ after = some state) ∨
        (∀ answer, r = .ok answer → wrote answer = false) ∧ after = document := by
      intro heq
      obtain ⟨rfl, rfl⟩ := Prod.mk.inj heq
      refine Or.inr ⟨fun answer hok => ?_, rfl⟩
      obtain rfl := Except.ok.inj hok
      rfl
    cases found with
    | none =>
      dsimp only at hrun
      split at hrun
      · exact hidle hrun
      · exact hrefused (Prod.mk.inj hrun).1.symm (Prod.mk.inj hrun).2.symm
    | some state =>
      dsimp only at hrun
      rcases lift_bind_cases hrun with ⟨_, hr, heq, -⟩ | ⟨_, -, hrun⟩
      · exact hrefused hr heq
      split at hrun
      · exact hidle hrun
      split at hrun
      · obtain ⟨rfl, rfl⟩ := Prod.mk.inj hrun
        exact Or.inl ⟨_, _, rfl, rfl, rfl⟩
      split at hrun
      · exact hidle hrun
      · exact hrefused (Prod.mk.inj hrun).1.symm (Prod.mk.inj hrun).2.symm
  | complete =>
    rcases bind_cases (show (ownedStage args "complete" >>= _).exec document = (r, after) from h)
      with ⟨_, hr, hrun⟩ | ⟨_, _, -, hrest⟩
    · exact hrefused hr (howned hrun)
    · obtain ⟨rfl, rfl⟩ := Prod.mk.inj hrest
      exact Or.inl ⟨_, _, rfl, rfl, rfl⟩
  | fail =>
    rcases bind_cases (show (ownedStage args "fail" >>= _).exec document = (r, after) from h)
      with ⟨_, hr, hrun⟩ | ⟨_, _, -, hrest⟩
    · exact hrefused hr (howned hrun)
    · obtain ⟨rfl, rfl⟩ := Prod.mk.inj hrest
      exact Or.inl ⟨_, _, rfl, rfl, rfl⟩

/-- **A command leaves the last document it writes.** -/
theorem exec_main_document (capacity : CapacityPolicy) (command : CommandName) (args : Args)
    (document : Option PipelineState) :
    ((main capacity command args).exec document).2
      = (writes capacity command args document).getLast?.or document := by
  unfold writes
  cases hrun : (main capacity command args).exec document with
  | mk r after =>
    dsimp only
    by_cases hcommand : command = .begin
    · subst hcommand
      rcases exec_begin hrun with ⟨answer, state, rfl, hwrote, rfl⟩ |
        ⟨e, recovered, rfl, hrecovered, rfl⟩ | ⟨e, rfl, hnone, rfl⟩
      · simp [hwrote]
      · simp [recoveredFirst, hrecovered]
      · unfold recoveredFirst
        dsimp only
        split
        next recovered hok => exact absurd hok (hnone recovered)
        next => rfl
    · have hnothing : recoveredFirst command args document = [] := by
        cases command with
        | begin => exact absurd rfl hcommand
        | heartbeat => rfl
        | complete => rfl
        | fail => rfl
      rw [hnothing, List.nil_append]
      rcases exec_other hcommand hrun with ⟨answer, state, rfl, hwrote, rfl⟩ | ⟨hidle, rfl⟩
      · simp [hwrote]
      · cases r with
        | error e => rfl
        | ok answer =>
          dsimp only
          rw [hidle answer rfl]
          rfl

/-! ## The lock -/

def LockDir.lock (dir : LockDir) : StaleLock.Lock ℕ := ⟨dir.maker, dir.mtime⟩

/-- The lock and its holders. -/
def Shared.lock (s : Shared) : StaleLock.State ℕ where
  now := s.disk.now
  lock := s.disk.lock.map LockDir.lock
  holding := s.holding

theorem lock_eq_some {s : Shared} {dir : LockDir} (h : s.disk.lock = some dir) :
    s.lock.lock = some dir.lock := congrArg (Option.map LockDir.lock) h

/-- The process is about to move the lock away. -/
def Phase.moves : Phase → Bool
  | .steal => true
  | _ => false

theorem moves_iff {phase : Phase} : phase.moves = true ↔ phase = .steal := by
  cases phase <;> simp [Phase.moves]

/-- A process that is about to move the lock away finds a stale one. -/
def MovesStale (s : Shared) : Event → Prop
  | .advance i => ∀ p ∈ s.processes[i]?, p.phase.moves = true →
      ∀ dir ∈ s.disk.lock, dir.mtime + stateLockStaleMs < s.disk.now
  | _ => True

instance (s : Shared) (e : Event) : Decidable (MovesStale s e) :=
  match e with
  | .advance _ => Option.decidableForallMem _
  | .start .. | .fault _ | .kill _ | .tick _ => isTrue trivial

/-- The runs in which holders finish in time. -/
def locked (capacity : CapacityPolicy) : System Shared Event where
  init s := s.processes = [] ∧ s.disk.lock = none
  step s e t := s.next capacity e = some t

/-- Those in which nobody moves away a lock that is not stale. -/
def lockedStale (capacity : CapacityPolicy) : System Shared Event where
  init := (locked capacity).init
  step s e t := s.next capacity e = some t ∧ MovesStale s e

section Step

variable {s : Shared} {i : ℕ} {p : Process} {disk : Disk} {phase : Phase}

theorem moves (hp : s.processes[i]? = some p) (hnow : disk.now = s.disk.now) :
    StaleLock.Moves (fun p : Process => p.phase.since) s.processes i p { p with phase := phase }
      s.lock (s.enter i p disk phase).lock := ⟨hnow, hp, rfl, rfl⟩

/-- A call that changes neither the lock nor whether the process holds it. -/
theorem step_idle (hp : s.processes[i]? = some p) (hnow : disk.now = s.disk.now)
    (hlock : disk.lock = s.disk.lock) (hsince : phase.since = p.phase.since) :
    StaleLock.Step stateLockStaleMs s.lock (s.enter i p disk phase).lock :=
  StaleLock.Moves.idle (moves hp hnow) (congrArg (Option.map LockDir.lock) hlock) hsince

theorem since_operating (since : ℕ) (base : Option PipelineState) (todo : List PipelineState)
    (result : Except String Answer) : (operating since base todo result).since = some since := by
  cases todo <;> rfl

theorem lock_create {capacity : CapacityPolicy} (hp : s.processes[i]? = some p)
    (hphase : p.phase = .create) (hcall : p.call capacity i s.disk = some (disk, phase)) :
    StaleLock.Step stateLockStaleMs s.lock (s.enter i p disk phase).lock := by
  simp only [Process.call, hphase] at hcall
  split at hcall
  next hfree =>
    obtain ⟨rfl, rfl⟩ := Prod.mk.inj (Option.some.inj hcall)
    exact StaleLock.Moves.take (moves hp rfl) (by simp [Shared.lock, hfree]) rfl rfl
  next =>
    obtain ⟨rfl, rfl⟩ := Prod.mk.inj (Option.some.inj hcall)
    exact step_idle hp rfl rfl (by rw [hphase]; rfl)

/-- Who writes its name into the lock touches it, unless there is a name already. -/
theorem lock_own {capacity : CapacityPolicy} {since : ℕ} (hp : s.processes[i]? = some p)
    (hphase : p.phase = .own since) (hcall : p.call capacity i s.disk = some (disk, phase)) :
    StaleLock.Step stateLockStaleMs s.lock (s.enter i p disk phase).lock := by
  simp only [Process.call, hphase] at hcall
  split at hcall
  next =>
    obtain ⟨rfl, rfl⟩ := Prod.mk.inj (Option.some.inj hcall)
    exact step_idle hp rfl rfl (by rw [hphase]; rfl)
  next dir hdir =>
    obtain ⟨rfl, rfl⟩ := Prod.mk.inj (Option.some.inj hcall)
    cases howner : dir.owner with
    | some _ =>
      refine StaleLock.Moves.idle (moves hp rfl) ?_ (by rw [hphase]; rfl)
      simp [Shared.lock, Shared.enter, hdir, LockDir.lock]
    | none =>
      exact StaleLock.Moves.touch (moves hp rfl) (lock_eq_some hdir) rfl (by rw [hphase]; rfl)

theorem lock_look {capacity : CapacityPolicy} (hp : s.processes[i]? = some p)
    (hphase : p.phase = .look) (hcall : p.call capacity i s.disk = some (disk, phase)) :
    StaleLock.Step stateLockStaleMs s.lock (s.enter i p disk phase).lock := by
  simp only [Process.call, hphase] at hcall
  split at hcall
  all_goals
    obtain ⟨rfl, rfl⟩ := Prod.mk.inj (Option.some.inj hcall)
    exact step_idle hp rfl rfl (by rw [hphase]; rfl)

/-- The lock that is moved away is stale. -/
theorem lock_steal {capacity : CapacityPolicy} (hp : s.processes[i]? = some p)
    (hphase : p.phase = .steal) (hcall : p.call capacity i s.disk = some (disk, phase))
    (hstale : ∀ dir, s.disk.lock = some dir → dir.mtime + stateLockStaleMs < s.disk.now) :
    StaleLock.Step stateLockStaleMs s.lock (s.enter i p disk phase).lock := by
  simp only [Process.call, hphase] at hcall
  split at hcall
  next =>
    obtain ⟨rfl, rfl⟩ := Prod.mk.inj (Option.some.inj hcall)
    exact step_idle hp rfl rfl (by rw [hphase]; rfl)
  next dir hdir =>
    obtain ⟨rfl, rfl⟩ := Prod.mk.inj (Option.some.inj hcall)
    exact StaleLock.Moves.steal (moves hp rfl) (lock_eq_some hdir) (hstale dir hdir) rfl
      (by rw [hphase]; rfl)

/-- Who does not find its own name does not release. -/
theorem lock_readOwner {capacity : CapacityPolicy} {since : ℕ} {result : Except String Answer}
    (hp : s.processes[i]? = some p) (hphase : p.phase = .readOwner since result)
    (hcall : p.call capacity i s.disk = some (disk, phase)) :
    StaleLock.Step stateLockStaleMs s.lock (s.enter i p disk phase).lock := by
  simp only [Process.call, hphase] at hcall
  split at hcall
  next =>
    obtain ⟨rfl, rfl⟩ := Prod.mk.inj (Option.some.inj hcall)
    exact StaleLock.Moves.stop (moves hp rfl) rfl rfl
  next dir hdir =>
    obtain ⟨rfl, rfl⟩ := Prod.mk.inj (Option.some.inj hcall)
    by_cases howner : dir.owner = some i
    · rw [if_pos howner]
      exact step_idle hp rfl rfl (by rw [hphase]; rfl)
    · rw [if_neg howner]
      exact StaleLock.Moves.stop (moves hp rfl) rfl rfl

/-- A call is a step of the lock, unless it moves away a lock that is not stale. -/
theorem Process.call_lock {capacity : CapacityPolicy} (hp : s.processes[i]? = some p)
    (hcall : p.call capacity i s.disk = some (disk, phase))
    (hstale : p.phase = .steal → ∀ dir, s.disk.lock = some dir →
      dir.mtime + stateLockStaleMs < s.disk.now) :
    StaleLock.Step stateLockStaleMs s.lock (s.enter i p disk phase).lock := by
  cases hphase : p.phase with
  | create => exact lock_create hp hphase hcall
  | own since => exact lock_own hp hphase hcall
  | look => exact lock_look hp hphase hcall
  | steal => exact lock_steal hp hphase hcall (hstale hphase)
  | readOwner since result => exact lock_readOwner hp hphase hcall
  -- the lock is given back
  | undo _ | release _ _ =>
    simp only [Process.call, hphase] at hcall
    obtain ⟨rfl, rfl⟩ := Prod.mk.inj (Option.some.inj hcall)
    exact StaleLock.Moves.give (moves hp rfl) (by rw [hphase]; rfl) rfl rfl
  | judge _ | pause =>
    simp only [Process.call, hphase] at hcall
    obtain ⟨rfl, rfl⟩ := Prod.mk.inj (Option.some.inj hcall)
    refine step_idle hp rfl rfl ?_
    rw [hphase]
    split <;> rfl
  | load _ | replace _ _ _ _ _ =>
    simp only [Process.call, hphase] at hcall
    obtain ⟨rfl, rfl⟩ := Prod.mk.inj (Option.some.inj hcall)
    refine step_idle hp rfl rfl ?_
    rw [hphase]
    exact since_operating ..
  | clear | write _ _ _ _ _ =>
    simp only [Process.call, hphase] at hcall
    obtain ⟨rfl, rfl⟩ := Prod.mk.inj (Option.some.inj hcall)
    exact step_idle hp rfl rfl (by rw [hphase]; rfl)
  | ended _ | killed => simp [Process.call, hphase] at hcall

/-- A process whose call fails goes on as it was, or holds the lock no longer. -/
theorem fault_since {phase phase' : Phase} (h : phase.fault = some phase') :
    phase'.since = phase.since ∨ phase'.since = none := by
  cases phase <;> simp only [Phase.fault, Option.some.injEq, reduceCtorEq] at h <;> subst h <;>
    simp [Phase.since]

theorem fault_lock (hp : s.processes[i]? = some p) (hfault : p.phase.fault = some phase) :
    StaleLock.Step stateLockStaleMs s.lock (s.enter i p s.disk phase).lock := by
  rcases fault_since hfault with hsame | hnone
  · exact step_idle hp rfl rfl hsame
  · exact StaleLock.Moves.stop (moves hp rfl) rfl hnone

end Step

/-- What the steps of a process are. -/
theorem step_advance_eq_some {capacity : CapacityPolicy} {s t : Shared} {i : ℕ} :
    s.step capacity (.advance i) = some t ↔ ∃ p disk phase, s.processes[i]? = some p ∧
      p.call capacity i s.disk = some (disk, phase) ∧ t = s.enter i p disk phase := by
  constructor
  · intro h
    obtain ⟨p, hp, h⟩ := Option.bind_eq_some_iff.mp h
    obtain ⟨⟨disk, phase⟩, hcall, h⟩ := Option.bind_eq_some_iff.mp h
    exact ⟨p, disk, phase, hp, hcall, (Option.some.inj h).symm⟩
  · rintro ⟨p, disk, phase, hp, hcall, rfl⟩
    exact Option.bind_eq_some_iff.mpr ⟨p, hp, Option.bind_eq_some_iff.mpr ⟨_, hcall, rfl⟩⟩

theorem next_eq_some {capacity : CapacityPolicy} {s t : Shared} {e : Event} :
    s.next capacity e = some t ↔ s.step capacity e = some t ∧ t.prompt = true :=
  Option.filter_eq_some_iff

theorem prompt_iff {s : Shared} : s.prompt = true ↔
    ∀ i since, s.holding i = some since → s.disk.now ≤ since + stateLockStaleMs :=
  StaleLock.all_heldBy_iff

/-- **A run in which only stale locks are moved away is one of the lock.** -/
theorem step_lock {capacity : CapacityPolicy} {s t : Shared} {e : Event}
    (h : (lockedStale capacity).step s e t) :
    StaleLock.Step stateLockStaleMs s.lock t.lock := by
  obtain ⟨hnext, hstale⟩ := h
  obtain ⟨hstep, hprompt⟩ := next_eq_some.mp hnext
  cases e with
  | start command args =>
    obtain rfl := Option.some.inj hstep
    exact .idle rfl rfl (StaleLock.heldBy_append rfl)
  | advance i =>
    obtain ⟨p, disk, phase, hp, hcall, rfl⟩ := step_advance_eq_some.mp hstep
    exact Process.call_lock hp hcall fun hsteal => hstale p hp (moves_iff.mpr hsteal)
  | fault i =>
    obtain ⟨p, hp, hstep⟩ := Option.bind_eq_some_iff.mp hstep
    obtain ⟨phase, hfault, hstep⟩ := Option.bind_eq_some_iff.mp hstep
    obtain rfl := Option.some.inj hstep
    exact fault_lock hp hfault
  | kill i =>
    obtain ⟨p, hp, hstep⟩ := Option.bind_eq_some_iff.mp hstep
    obtain rfl := Option.some.inj hstep
    exact StaleLock.Moves.stop (moves hp rfl) rfl rfl
  | tick ms =>
    obtain rfl := Option.some.inj hstep
    exact .wait (Nat.le_add_right ..) rfl (fun _ => rfl) (prompt_iff.mp hprompt)

theorem held_of_reachable {capacity : CapacityPolicy} {s : Shared}
    (h : (lockedStale capacity).Reachable s) : StaleLock.Held stateLockStaleMs s.lock := by
  refine StaleLock.held_inductive.reachable (h.map (StaleLock.system ℕ stateLockStaleMs)
    Shared.lock ?_ fun s e t hstep => ⟨(), step_lock hstep⟩)
  rintro s ⟨hprocesses, hlock⟩
  refine ⟨congrArg (Option.map LockDir.lock) hlock, fun i => ?_⟩
  show s.processes[i]?.bind _ = none
  rw [hprocesses]
  rfl

/-! ## The document -/

/-- What a process is about to write, what that was computed from, and what comes after. -/
def Phase.writing : Phase → Option (Option PipelineState × PipelineState × List PipelineState)
  | .write _ base document rest _ => some (base, document, rest)
  | .replace _ base document rest _ => some (base, document, rest)
  | _ => none

/-- What a process is about to write is next of what its command writes, and computed
from the document. -/
def Process.OnTop (capacity : CapacityPolicy) (p : Process) (document : Option PipelineState) :
    Prop :=
  ∀ base next rest, p.phase.writing = some (base, next, rest) → base = document ∧
    ∃ read before, writes capacity p.command p.args read = before ++ next :: rest ∧
      base = before.getLast?.or read

section Document

variable {capacity : CapacityPolicy} {s : Shared} {i : ℕ} {p : Process} {disk : Disk}
  {phase : Phase}

theorem Process.OnTop.of_idle {document : Option PipelineState} (h : p.phase.writing = none) :
    p.OnTop capacity document := by
  intro base next rest hwriting
  exact absurd (h.symm.trans hwriting) (by simp)

/-- A process that writes holds the lock. -/
theorem holds_of_writing {base : Option PipelineState} {next : PipelineState}
    {rest : List PipelineState} (h : phase.writing = some (base, next, rest)) :
    phase.since.isSome = true := by
  cases phase with
  | write => rfl
  | replace => rfl
  | _ => exact absurd h (by simp [Phase.writing])

/-- The document changes when a process that holds the lock replaces it. -/
theorem Process.call_document (hcall : p.call capacity i disk = some (s.disk, phase)) :
    s.disk.document = disk.document ∨ p.phase.since.isSome = true := by
  cases hphase : p.phase with
  | replace => exact Or.inr rfl
  | _ =>
    left
    unfold Process.call at hcall
    rw [hphase] at hcall
    dsimp only at hcall
    (try split at hcall) <;> first
      | exact congrArg (fun d => d.1.document) (Option.some.inj hcall).symm
      | exact absurd hcall (by simp)

theorem writing_operating {since : ℕ} {base base' : Option PipelineState} {next : PipelineState}
    {todo rest : List PipelineState} {result : Except String Answer}
    (h : (operating since base todo result).writing = some (base', next, rest)) :
    base' = base ∧ todo = next :: rest := by
  cases todo with
  | nil => exact absurd h (by simp [operating, Phase.writing])
  | cons first later =>
    have heq := Option.some.inj h
    simp only [Prod.mk.injEq] at heq
    obtain ⟨rfl, rfl, rfl⟩ := heq
    exact ⟨rfl, rfl⟩

/-- A process goes on from what it has read or written itself. -/
theorem Process.OnTop.call (h : p.OnTop capacity disk.document)
    (hcall : p.call capacity i disk = some (s.disk, phase)) :
    Process.OnTop capacity { p with phase := phase } s.disk.document := by
  unfold Process.call at hcall
  cases hphase : p.phase with
  | load since =>
    rw [hphase] at hcall
    obtain ⟨hdisk, rfl⟩ := Prod.mk.inj (Option.some.inj hcall)
    intro base next rest hwriting
    obtain ⟨rfl, hwrites⟩ := writing_operating hwriting
    exact ⟨congrArg Disk.document hdisk, disk.document, [], hwrites, rfl⟩
  | write since base next rest result =>
    rw [hphase] at hcall
    obtain ⟨hdisk, rfl⟩ := Prod.mk.inj (Option.some.inj hcall)
    intro base' next' rest' hwriting
    rw [← hdisk]
    exact h base' next' rest' (by rw [hphase]; exact hwriting)
  | replace since base next rest result =>
    rw [hphase] at hcall
    obtain ⟨hdisk, rfl⟩ := Prod.mk.inj (Option.some.inj hcall)
    intro base' next' rest' hwriting
    obtain ⟨rfl, rfl⟩ := writing_operating hwriting
    obtain ⟨-, read, before, hwrites, -⟩ := h base next (next' :: rest') (by rw [hphase]; rfl)
    refine ⟨congrArg Disk.document hdisk, read, before ++ [next], ?_, ?_⟩
    · show writes capacity p.command p.args read = before ++ [next] ++ next' :: rest'
      rw [hwrites, List.append_assoc]
      rfl
    · rw [List.getLast?_concat]
      rfl
  | _ =>
    refine Process.OnTop.of_idle ?_
    rw [hphase] at hcall
    dsimp only at hcall
    (try split at hcall) <;> first
      | (obtain rfl := (Prod.mk.inj (Option.some.inj hcall)).2
         first
          | rfl
          | (split <;> rfl))
      | exact absurd hcall (by simp)

end Document

/-- Every process that writes goes on from the document as it is. -/
def AllOnTop (capacity : CapacityPolicy) (s : Shared) : Prop :=
  ∀ (i : ℕ) (p : Process), s.processes[i]? = some p → p.OnTop capacity s.disk.document

/-- What holds of a process in its new phase, and of the others, holds of all. -/
theorem forall_enter {P : Process → Prop} {s : Shared} {i : ℕ} {p : Process} {disk : Disk}
    {phase : Phase} (hself : P { p with phase := phase })
    (hothers : ∀ j q, j ≠ i → s.processes[j]? = some q → P q) {j : ℕ} {q : Process}
    (hq : (s.enter i p disk phase).processes[j]? = some q) : P q := by
  unfold Shared.enter at hq
  rw [List.getElem?_set] at hq
  split at hq
  next heq =>
    split at hq
    · rw [← Option.some.inj hq]
      exact hself
    · exact absurd hq (by simp)
  next hne => exact hothers j q (Ne.symm hne) hq

theorem AllOnTop.step {capacity : CapacityPolicy} {s t : Shared} {e : Event}
    (h : AllOnTop capacity s) (hheld : StaleLock.Held stateLockStaleMs s.lock)
    (hstep : s.step capacity e = some t) : AllOnTop capacity t := by
  cases e with
  | start command args =>
    obtain rfl := Option.some.inj hstep
    intro i p hp
    rcases List.mem_append.mp (List.mem_of_getElem? hp) with hmem | hnew
    · obtain ⟨j, hj⟩ := List.getElem?_of_mem hmem
      exact h j p hj
    · rw [List.mem_singleton.mp hnew]
      exact .of_idle rfl
  | advance i =>
    obtain ⟨p, disk, phase, hp, hcall, rfl⟩ := step_advance_eq_some.mp hstep
    intro j q hq
    have hcall' : p.call capacity i s.disk = some ((s.enter i p disk phase).disk, phase) := hcall
    refine forall_enter (P := fun q => q.OnTop capacity disk.document)
      (Process.OnTop.call (h i p hp) hcall') (fun j q hj hq => ?_) hq
    rcases Process.call_document hcall' with hsame | hholds
    · rw [show disk.document = s.disk.document from hsame]
      exact h j q hq
    -- the document is replaced, so that nobody else holds the lock
    · intro base next rest hwriting
      have hi : (s.lock.holding i).isSome = true := by
        rw [show s.lock.holding i = p.phase.since from StaleLock.heldBy_of_getElem hp]
        exact hholds
      have hj' : (s.lock.holding j).isSome = true := by
        rw [show s.lock.holding j = q.phase.since from StaleLock.heldBy_of_getElem hq]
        exact holds_of_writing hwriting
      exact absurd (hheld.unique hj' hi) hj
  | fault i =>
    obtain ⟨p, hp, hstep⟩ := Option.bind_eq_some_iff.mp hstep
    obtain ⟨phase, hfault, hstep⟩ := Option.bind_eq_some_iff.mp hstep
    obtain rfl := Option.some.inj hstep
    intro j q hq
    refine forall_enter (P := fun q => q.OnTop capacity s.disk.document) (.of_idle ?_)
      (fun j q _ hq => h j q hq) hq
    cases hphase : p.phase <;> rw [hphase] at hfault <;>
      simp only [Phase.fault, Option.some.injEq, reduceCtorEq] at hfault <;> subst hfault <;> rfl
  | kill i =>
    obtain ⟨p, hp, hstep⟩ := Option.bind_eq_some_iff.mp hstep
    obtain rfl := Option.some.inj hstep
    intro j q hq
    exact forall_enter (P := fun q => q.OnTop capacity s.disk.document) (.of_idle rfl)
      (fun j q _ hq => h j q hq) hq
  | tick ms =>
    obtain rfl := Option.some.inj hstep
    exact h

/-! ## A process alone -/

section Alone

variable {capacity : CapacityPolicy} {s : Shared} {i : ℕ} {p : Process} {disk : Disk}
  {phase : Phase}

/-- Where nobody holds the lock, the only process that goes on makes its call. -/
theorem alone_step (disk : Disk) (phase : Phase) (hp : s.processes[i]? = some p)
    (hidle : ∀ j, s.holding j = none)
    (hcall : p.call capacity i s.disk = some (disk, phase))
    (hstale : p.phase = .steal → ∀ dir, s.disk.lock = some dir →
      dir.mtime + stateLockStaleMs < s.disk.now)
    (hsince : ∀ since ∈ phase.since, disk.now ≤ since + stateLockStaleMs) :
    (lockedStale capacity).step s (.advance i) (s.enter i p disk phase) ∧
      (s.enter i p disk phase).processes[i]? = some { p with phase := phase } := by
  refine ⟨⟨next_eq_some.mpr ⟨step_advance_eq_some.mpr ⟨p, disk, phase, hp, hcall, rfl⟩,
    prompt_iff.mpr fun j since hj => ?_⟩, fun q hq => ?_⟩, ?_⟩
  · by_cases heq : j = i
    · subst heq
      rw [show (s.enter j p disk phase).holding j = phase.since from
        StaleLock.heldBy_set_self hp] at hj
      exact hsince since hj
    · rw [show (s.enter i p disk phase).holding j = s.holding j from StaleLock.heldBy_set_of_ne heq,
        hidle j] at hj
      exact absurd hj (by simp)
  · obtain rfl := Option.some.inj (hp.symm.trans hq)
    exact fun hmoves => hstale (moves_iff.mp hmoves)
  · unfold Shared.enter
    exact List.getElem?_set_self (List.getElem?_eq_some_iff.mp hp).1

theorem idle_enter (disk : Disk) (phase : Phase) (hidle : ∀ j, s.holding j = none)
    (hp : s.processes[i]? = some p) (hphase : phase.since = none) (j : ℕ) :
    (s.enter i p disk phase).holding j = none := by
  by_cases heq : j = i
  · subst heq
    exact (StaleLock.heldBy_set_self hp).trans hphase
  · exact (StaleLock.heldBy_set_of_ne heq).trans (hidle j)

/-- **A lock that nobody holds can be taken**, once it is stale, by a process alone. -/
theorem acquirable {dir : LockDir} (hdir : s.disk.lock = some dir)
    (hidle : ∀ j, s.holding j = none) (hmtime : dir.mtime ≤ s.disk.now)
    (hp : s.processes[i]? = some p) (hphase : p.phase = .create) :
    ∃ labels t, (lockedStale capacity).Run s labels t ∧ (t.holding i).isSome = true ∧
      ∀ e ∈ labels, e = .advance i ∨ ∃ ms, e = .tick ms := by
  -- the clock goes on until the lock is stale
  let s₀ : Shared := { s with disk := { s.disk with now := s.disk.now + (stateLockStaleMs + 1) } }
  have hidle₀ : ∀ j, s₀.holding j = none := hidle
  have htick : (lockedStale capacity).step s (.tick (stateLockStaleMs + 1)) s₀ := by
    refine ⟨next_eq_some.mpr ⟨rfl, prompt_iff.mpr fun j since hj => ?_⟩, trivial⟩
    exact absurd (hj.symm.trans (hidle₀ j)) (by simp)
  have hstale : dir.mtime + stateLockStaleMs < s₀.disk.now := by
    show dir.mtime + stateLockStaleMs < s.disk.now + (stateLockStaleMs + 1)
    omega
  have hlook : p.call capacity i s₀.disk = some (s₀.disk, .look) := by
    have hlock : s₀.disk.lock = some dir := hdir
    simp only [Process.call, hphase, hlock]
  obtain ⟨hstep₁, hp₁⟩ := alone_step (s := s₀) _ _ hp hidle₀ hlook
    (fun hsteal => absurd (hphase.symm.trans hsteal) (by simp)) (by simp [Phase.since])
  have hidle₁ := idle_enter (i := i) s₀.disk .look hidle₀ hp rfl
  have hjudge : Process.call capacity i { p with phase := .look } s₀.disk
      = some (s₀.disk, .judge dir.mtime) := by
    have hlock : s₀.disk.lock = some dir := hdir
    simp only [Process.call, hlock]
  obtain ⟨hstep₂, hp₂⟩ := alone_step _ _ hp₁ hidle₁ hjudge (by simp) (by simp [Phase.since])
  have hidle₂ := idle_enter s₀.disk (.judge dir.mtime) hidle₁ hp₁ rfl
  have hsteal : Process.call capacity i { p with phase := .judge dir.mtime } s₀.disk
      = some (s₀.disk, .steal) := by
    show some (s₀.disk, if stateLockStaleMs < s₀.disk.now - dir.mtime then Phase.steal else .pause)
      = _
    rw [if_pos (by omega)]
  obtain ⟨hstep₃, hp₃⟩ := alone_step _ _ hp₂ hidle₂ hsteal (by simp) (by simp [Phase.since])
  have hidle₃ := idle_enter s₀.disk .steal hidle₂ hp₂ rfl
  have hclear : Process.call capacity i { p with phase := .steal } s₀.disk
      = some ({ s₀.disk with lock := none }, .clear) := by
    have hlock : s₀.disk.lock = some dir := hdir
    simp only [Process.call, hlock]
  obtain ⟨hstep₄, hp₄⟩ := alone_step _ _ hp₃ hidle₃ hclear (fun _ dir' hdir' => by
    obtain rfl := Option.some.inj (hdir.symm.trans hdir')
    exact hstale) (by simp [Phase.since])
  have hidle₄ := idle_enter { s₀.disk with lock := none } .clear hidle₃ hp₃ rfl
  obtain ⟨hstep₅, hp₅⟩ := @alone_step capacity _ _ _ { s₀.disk with lock := none }
    .create hp₄ hidle₄
    rfl (by simp) (by simp [Phase.since])
  have hidle₅ := idle_enter { s₀.disk with lock := none } .create hidle₄ hp₄ rfl
  obtain ⟨hstep₆, hp₆⟩ := @alone_step capacity _ _ _
    { s₀.disk with lock := some ⟨i, s₀.disk.now, none⟩ } (.own s₀.disk.now) hp₅ hidle₅
    rfl (by simp) (by simp [Phase.since])
  refine ⟨_, _, (((((((System.Run.nil s).snoc htick).snoc hstep₁).snoc hstep₂).snoc hstep₃).snoc
    hstep₄).snoc hstep₅).snoc hstep₆, ?_, by simp⟩
  exact congrArg Option.isSome (StaleLock.heldBy_set_self hp₅)

end Alone

/-! ## The lock is kept -/

/-- What the lock is to do in a state of a run, and in the step after it. -/
structure LockKept (capacity : CapacityPolicy) (sys : System Shared Event) (s : Shared) :
    Prop where
  /-- No two processes are between acquisition and release. -/
  exclusive : ∀ i j, (s.holding i).isSome = true → (s.holding j).isSome = true → i = j
  /-- Nobody but its holder removes a lock that is held. -/
  kept : ∀ i t dir, sys.step s (.advance i) t → s.disk.lock = some dir → t.disk.lock = none →
    (s.holding dir.maker).isSome = true → dir.maker = i
  /-- A lock that its maker does not hold any more can be taken. -/
  acquirable : ∀ dir, s.disk.lock = some dir → s.holding dir.maker = none →
    ∀ i p, s.processes[i]? = some p → p.phase = .create → ∃ labels t, sys.Run s labels t ∧
      (t.holding i).isSome = true ∧ ∀ e ∈ labels, e = .advance i ∨ ∃ ms, e = .tick ms
  /-- A document that is written is computed from the one before. -/
  onTop : ∀ (i : ℕ) (p : Process), s.processes[i]? = some p → p.OnTop capacity s.disk.document

/-- **No two processes hold the lock, and no document is lost**, as long as nobody moves
away a lock that is not stale. -/
theorem lock_kept {capacity : CapacityPolicy} {s : Shared}
    (h : (lockedStale capacity).Reachable s) : LockKept capacity (lockedStale capacity) s := by
  have hheld := held_of_reachable h
  refine ⟨fun i j hi hj => hheld.unique hi hj, fun i t dir hstep hdir hgone hholds => ?_,
    fun dir hdir hnone i p hp hphase => ?_, ?_⟩
  · have hgone' : t.lock.lock = none := congrArg (Option.map LockDir.lock) hgone
    rcases (step_lock hstep).keeps hheld (lock_eq_some hdir) hgone' with hbefore | hafter
    · rw [show s.holding dir.maker = none from hbefore] at hholds
      exact absurd hholds (by simp)
    · obtain ⟨p, disk, phase, hp, -, rfl⟩ := step_advance_eq_some.mp (next_eq_some.mp hstep.1).1
      by_contra hne
      have hsame : (s.enter i p disk phase).holding dir.maker = s.holding dir.maker :=
        StaleLock.heldBy_set_of_ne hne
      rw [← hsame, show (s.enter i p disk phase).holding dir.maker = none from hafter] at hholds
      exact absurd hholds (by simp)
  · refine acquirable hdir (fun j => ?_) (hheld.past _ (lock_eq_some hdir)) hp hphase
    by_contra hsome
    obtain ⟨since, hj⟩ := Option.ne_none_iff_exists'.mp hsome
    obtain ⟨l, hl, hmaker, -⟩ := hheld.own j since hj
    obtain rfl := Option.some.inj ((lock_eq_some hdir).symm.trans hl)
    rw [← hmaker] at hj
    exact absurd (hj.symm.trans hnone) (by simp)
  · obtain ⟨s₀, labels, hinit, hrun⟩ := h
    suffices hall : ∀ {t labels}, (lockedStale capacity).Run s₀ labels t → AllOnTop capacity t from
      hall hrun
    intro t labels hrun
    induction hrun with
    | nil =>
      intro i p hp
      rw [hinit.1] at hp
      exact absurd hp (by simp)
    | snoc hbefore hlast ih =>
      exact ih.step (held_of_reachable ⟨s₀, _, hinit, hbefore⟩) (next_eq_some.mp hlast.1).1

def unlocked : Shared := ⟨⟨0, none, none⟩, []⟩

/-- A process is killed right after it made the lock; another takes it when it is stale. -/
def afterCrash : List Event :=
  [.start .heartbeat {}, .start .heartbeat {}, .advance 0, .kill 0, .tick 120001]
    ++ List.replicate 6 (.advance 1)

theorem lock_kept_afterCrash : ∃ s, (s.holding 1).isSome = true ∧
    LockKept toolforgeCapacity (lockedStale toolforgeCapacity) s := by
  let turn (s : Shared) (e : Event) : Option Shared :=
    if MovesStale s e then s.next toolforgeCapacity e else none
  have hany : (afterCrash.foldlM turn unlocked).any (fun s => (s.holding 1).isSome) = true := by
    decide +kernel
  obtain ⟨s, hs, hholds⟩ := (Option.any_eq_true ..).mp hany
  refine ⟨s, hholds, lock_kept ⟨unlocked, afterCrash, ⟨rfl, rfl⟩, System.run_of_foldlM ?_ hs⟩⟩
  intro s e t hturn
  have hturn' : (if MovesStale s e then s.next toolforgeCapacity e else none) = some t := hturn
  split at hturn'
  next hstale => exact ⟨hturn', hstale⟩
  next => exact absurd hturn' (by simp)

/-- Two processes find the lock of a third stale, which was killed. The first moves it
away and makes its own, and the second moves that away. -/
def bothFindStale : List Event :=
  List.replicate 3 (.start .heartbeat {}) ++ [.advance 0, .kill 0, .tick 120001]
    ++ List.replicate 3 (.advance 1) ++ List.replicate 3 (.advance 2)
    ++ List.replicate 3 (.advance 1) ++ List.replicate 3 (.advance 2)

theorem both_hold : ¬ ∀ s, (locked toolforgeCapacity).Reachable s →
    LockKept toolforgeCapacity (locked toolforgeCapacity) s := by
  intro h
  have hany : (bothFindStale.foldlM (Shared.next toolforgeCapacity) unlocked).any
      (fun s => (s.holding 1).isSome && (s.holding 2).isSome) = true := by
    decide +kernel
  obtain ⟨s, hs, hboth⟩ := (Option.any_eq_true ..).mp hany
  have hreachable : (locked toolforgeCapacity).Reachable s :=
    ⟨unlocked, bothFindStale, ⟨rfl, rfl⟩, System.run_of_foldlM (fun _ _ _ hnext => hnext) hs⟩
  obtain ⟨h₁, h₂⟩ := Bool.and_eq_true_iff.mp hboth
  exact absurd ((h s hreachable).exclusive 1 2 h₁ h₂) (by decide)

end WikiEcon.Toolforge.Pipeline
