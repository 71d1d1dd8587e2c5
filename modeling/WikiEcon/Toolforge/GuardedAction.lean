import WikiEcon.Toolforge.Admission

/-!
# One action under the guard

`withGuard` of `capacity-admission.cjs`, one call of it, while others do what they like to
the guard directory. The action runs inside the `try` whose `catch` takes `EEXIST` for
contention, and the `finally` that removes the guard can fail in its turn or remove the
guard of another.

What others do is a list of moves before each call on the guard; they are given for every
attempt, with the time it is then. The action is given by what it does each time it is run.
-/

namespace WikiEcon.Toolforge.Admission

/-! ## The guard directory -/

/-- An error the action throws: its `code`, if it has one. -/
structure JsError where
  code : Option String
  message : String
deriving DecidableEq

/-- The guard: whether this call made it. -/
structure OwnedGuard where
  mine : Bool
  mtime : ℕ
deriving DecidableEq

/-- What others do to the guard. -/
inductive Move
  | remove
  | create (mtime : ℕ)
deriving DecidableEq

def Move.apply : Option OwnedGuard → Move → Option OwnedGuard
  | _, .remove => none
  | none, .create mtime => some ⟨false, mtime⟩
  | some guard, .create _ => some guard

def moved (guard : Option OwnedGuard) (moves : List Move) : Option OwnedGuard :=
  moves.foldl Move.apply guard

/-- What others do around one attempt: before `mkdirSync`, until the `finally`, and before
`statSync`; and the time at the first and at the last of these. -/
structure Others where
  before : List Move
  madeAt : ℕ
  during : List Move
  beforeLook : List Move
  now : ℕ

/-! ## The call -/

/-- The error object a call throws: that of the action, that of the `rmdirSync` in the
`finally`, or its own. -/
inductive Thrown
  | action (error : JsError)
  | release
  | busy
  /-- before the guard -/
  | invalid (message : String)
deriving DecidableEq

/-- How a call ends: its result, how often the action was run, how often a guard of this call
was removed by anybody, and how often its release removed the guard of another. -/
structure GuardedCall (α : Type) where
  result : Except Thrown α
  runs : ℕ
  ownRemoved : ℕ
  othersReleased : ℕ

/-- The `catch`: where the guard is stale, whatever is there then is removed. -/
def lookAndTake (others : Others) (guard : Option OwnedGuard) : Option OwnedGuard :=
  (moved guard others.beforeLook).filter fun found => !(lockStaleMs < others.now - found.mtime)

/-- The loop of `withGuard`, with so many attempts left; the action was run `runs` times. -/
def withGuard {α : Type} (action : ℕ → Except JsError α) :
    (attempts : ℕ) → (ℕ → Others) → (runs : ℕ) → Option OwnedGuard → GuardedCall α
  | 0, _, _, _ => ⟨.error .busy, 0, 0, 0⟩
  | attempts + 1, others, runs, guard =>
    let around := others 0
    let later := fun n => others (n + 1)
    match moved guard around.before with
    | some found => withGuard action attempts later runs (lookAndTake around (some found))
    | none =>
      -- the guard is made, the action is run, and the guard is removed
      match moved (some ⟨true, around.madeAt⟩) around.during with
      | none => ⟨.error .release, 1, 1, 0⟩
      | some found =>
        let stolen := if found.mine then 0 else 1
        match action runs with
        | .ok value => ⟨.ok value, 1, 1, stolen⟩
        | .error error =>
          if error.code = some "EEXIST" then
            let rest := withGuard action attempts later (runs + 1) (lookAndTake around none)
            ⟨rest.result, rest.runs + 1, rest.ownRemoved + 1, rest.othersReleased + stolen⟩
          else ⟨.error (.action error), 1, 1, stolen⟩

/-! ## `acquire` -/

/-- What one run of the action of `acquire` meets: what `activeLeases` returns or throws,
whether the temporary file is there, and where else writing the lease fails. -/
structure Turn where
  activeLeases : Except JsError (List Lease)
  temporaryExists : Bool
  writeFault : Option JsError

/-- `atomicWriteJson`: the temporary file is opened with `wx`; it is removed again when
something fails after that. -/
def atomicWriteJson (temporaryExists : Bool) (fault : Option JsError) : Except JsError Unit :=
  if temporaryExists then .error ⟨some "EEXIST", "EEXIST: file already exists, open"⟩
  else match fault with
    | some error => .error error
    | none => .ok ()

/-- An `Error` without a `code`. -/
def withoutCode {α : Type} : Except String α → Except JsError α
  | .ok value => .ok value
  | .error message => .error ⟨none, message⟩

/-- The action `acquire` passes to `withGuard`. -/
def acquireAction (config : Config) (request : Request) (turn : Turn) : Except JsError Decision :=
  do
  let leases ← turn.activeLeases
  let decided ← withoutCode (admission config request leases)
  if decided.admitted then
    atomicWriteJson turn.temporaryExists turn.writeFault
    return decided
  else return decided

/-- The run leaves a lease. -/
def leavesLease (config : Config) (request : Request) (turn : Turn) : Bool :=
  match acquireAction config request turn with
  | .ok decided => decided.admitted
  | .error _ => false

/-- How a call of `acquire` ends, and whether a lease it wrote remains. -/
structure Acquired where
  call : GuardedCall Decision
  leaseRemains : Bool

/-- What `acquire` does before the guard. -/
def requested (config : Config) (resourceClass : String) : Except String Request := do
  validatedConfig config
  requestFor config resourceClass

/-- `acquire`. -/
def acquireGuarded (config : Config) (resourceClass : String) (turns : ℕ → Turn)
    (others : ℕ → Others) (guard : Option OwnedGuard) : Acquired :=
  match requested config resourceClass with
  | .error message => ⟨⟨.error (.invalid message), 0, 0, 0⟩, false⟩
  | .ok request =>
    let call := withGuard (fun run => acquireAction config request (turns run))
      guardAttempts others 0
      guard
    ⟨call, (List.range call.runs).any fun run => leavesLease config request (turns run)⟩

/-! ## What is promised -/

/-- The action is run at most once; if it is, its outcome is that of the call; and the guard
is removed once, and no other's by the release. -/
structure RunsOnce {α : Type} (action : ℕ → Except JsError α) (call : GuardedCall α) : Prop where
  once : call.runs ≤ 1
  outcome : 0 < call.runs → call.result = (action 0).mapError Thrown.action
  removed : call.ownRemoved = call.runs
  others : call.othersReleased = 0

/-- The attempt at which `mkdirSync` first finds no guard. -/
def entersAt : (attempts : ℕ) → (ℕ → Others) → Option OwnedGuard → Option ℕ
  | 0, _, _ => none
  | attempts + 1, others, guard =>
    match moved guard (others 0).before with
    | none => some 0
    | some found =>
      (entersAt attempts (fun n => others (n + 1)) (lookAndTake (others 0) (some found))).map
      (· + 1)

/-- Nobody removes the guard while the action runs, and the action does not throw `EEXIST`. -/
def Undisturbed {α : Type} (action : ℕ → Except JsError α) (others : ℕ → Others)
    (guard : Option OwnedGuard) : Prop :=
  ∀ k, entersAt guardAttempts others guard = some k →
    Move.remove ∉ (others k).during ∧
      ∀ error, action 0 = .error error → error.code ≠ some "EEXIST"

section Proof

variable {α : Type} {action : ℕ → Except JsError α}

theorem moved_mine (mtime : ℕ) (moves : List Move) :
    moved (some ⟨true, mtime⟩) moves = some ⟨true, mtime⟩ ∧ Move.remove ∉ moves ∨
      Move.remove ∈ moves ∧ ∀ found, moved (some ⟨true, mtime⟩) moves = some found →
        found.mine = false := by
  -- once the guard is gone, only others make one
  have hothers : ∀ (moves : List Move) (guard : Option OwnedGuard),
      (∀ found, guard = some found → found.mine = false) →
      ∀ found, moved guard moves = some found → found.mine = false := by
    intro moves
    induction moves with
    | nil => exact fun _ h => h
    | cons move rest ih =>
      intro guard hguard
      refine ih (Move.apply guard move) fun found hfound => ?_
      cases move with
      | remove => cases guard <;> cases hfound
      | create time =>
        cases guard with
        | none =>
          cases hfound
          rfl
        | some other => exact hguard found hfound
  induction moves with
  | nil => exact Or.inl ⟨rfl, List.not_mem_nil⟩
  | cons move rest ih =>
    cases move with
    | remove => exact Or.inr ⟨List.mem_cons_self, hothers rest none fun _ h => by cases h⟩
    | create time =>
      rcases ih with ⟨hsame, hnot⟩ | ⟨hmem, hlater⟩
      · exact Or.inl ⟨hsame, fun hmem => (List.mem_cons.mp hmem).elim (fun h => by cases h) hnot⟩
      · exact Or.inr ⟨List.mem_cons_of_mem _ hmem, hlater⟩

/-- A call that does not get to run the action is refused. -/
theorem withGuard_busy (attempts : ℕ) : ∀ (others : ℕ → Others) (runs : ℕ)
    (guard : Option OwnedGuard), (withGuard action attempts others runs guard).runs = 0 →
      (withGuard action attempts others runs guard).result = .error .busy := by
  induction attempts with
  | zero => exact fun _ _ _ _ => rfl
  | succ attempts ih =>
    intro others runs guard
    unfold withGuard
    dsimp only
    cases moved guard (others 0).before with
    | some found => exact ih _ runs _
    | none =>
      dsimp only
      cases moved (some ⟨true, (others 0).madeAt⟩) (others 0).during with
      | none => exact fun h => absurd h (by simp)
      | some found =>
        dsimp only
        cases action runs with
        | ok value => exact fun h => absurd h (by simp)
        | error error =>
          dsimp only
          split
          · exact fun h => absurd h (Nat.succ_ne_zero _)
          · exact fun h => absurd h (by simp)

/-- **The call, from its first run**: what is promised holds exactly when the guard is left
alone and the action does not throw `EEXIST`. -/
theorem withGuard_runsOnce_iff (attempts : ℕ) : ∀ (others : ℕ → Others) (guard : Option OwnedGuard),
    RunsOnce action (withGuard action attempts others 0 guard) ↔
      ∀ k, entersAt attempts others guard = some k → Move.remove ∉ (others k).during ∧
        ∀ error, action 0 = .error error → error.code ≠ some "EEXIST" := by
  induction attempts with
  | zero =>
    intro others guard
    exact iff_of_true ⟨Nat.zero_le 1, fun h => absurd h (lt_irrefl 0), rfl, rfl⟩
      fun k h => absurd h (by simp [entersAt])
  | succ attempts ih =>
    intro others guard
    unfold withGuard entersAt
    dsimp only
    cases moved guard (others 0).before with
    | some found =>
      -- The guard is there: this attempt fails, and what remains is the same with one attempt
      -- fewer.
      dsimp only
      rw [ih]
      constructor
      · intro h k hk
        obtain ⟨j, hj, rfl⟩ := Option.map_eq_some_iff.mp hk
        exact h j hj
      · intro h k hk
        exact h (k + 1) (Option.map_eq_some_iff.mpr ⟨k, hk, rfl⟩)
    | none =>
      -- The guard is ours: the action runs now.
      dsimp only
      have hzero : (∀ k, some 0 = some k → Move.remove ∉ (others k).during ∧
          ∀ error, action 0 = .error error → error.code ≠ some "EEXIST") ↔
          Move.remove ∉ (others 0).during ∧
            ∀ error, action 0 = .error error → error.code ≠ some "EEXIST" :=
        ⟨fun h => h 0 rfl, fun h k hk => by
          cases hk
          exact h⟩
      rw [hzero]
      rcases moved_mine (others 0).madeAt (others 0).during with ⟨hsame, hleft⟩ | ⟨htaken, hothers⟩
      · rw [hsame]
        dsimp only
        cases haction : action 0 with
        | ok value =>
          refine iff_of_true ⟨le_refl 1, fun _ => ?_, rfl, rfl⟩ ⟨hleft, fun error h => by cases h⟩
          rw [haction]
          rfl
        | error error =>
          dsimp only
          by_cases hexists : error.code = some "EEXIST"
          · -- the error of the action is taken for contention
            rw [if_pos hexists]
            refine iff_of_false (fun h => ?_) fun h => h.2 error rfl hexists
            have honce : (withGuard action attempts (fun n => others (n + 1)) (0 + 1)
                (lookAndTake (others 0) none)).runs = 0 :=
                  Nat.le_zero.mp (Nat.le_of_succ_le_succ h.once)
            have hbusy := withGuard_busy attempts _ _ _ honce
            have houtcome := h.outcome (Nat.succ_pos _)
            rw [haction] at houtcome
            have hsame := hbusy.symm.trans houtcome
            exact absurd hsame (by simp [Except.mapError])
          · rw [if_neg hexists]
            refine iff_of_true ⟨le_refl 1, fun _ => ?_, rfl, rfl⟩ ⟨hleft, fun other h => ?_⟩
            · rw [haction]
              rfl
            · cases h
              exact hexists
      -- Somebody removed the guard meanwhile: it is gone, or it is of another one by now.
      · refine iff_of_false (fun h => ?_) fun h => h.1 htaken
        revert h
        cases hfound : moved (some ⟨true, (others 0).madeAt⟩) (others 0).during with
        | none =>
          intro h
          have houtcome := h.outcome (Nat.succ_pos 0)
          revert houtcome
          cases action 0 <;> simp [Except.mapError]
        | some found =>
          dsimp only
          rw [hothers found hfound]
          intro h
          have hnone := h.others
          revert hnone
          cases action 0 with
          | ok value => simp
          | error error =>
            dsimp only
            split <;> simp

end Proof

/-- What is promised of a call of `acquire`: where it throws, no lease that it wrote remains. -/
structure AcquiresOnce (config : Config) (resourceClass : String) (turns : ℕ → Turn)
    (acquired : Acquired) : Prop where
  guarded : ∀ request, requested config resourceClass = .ok request →
    RunsOnce (fun run => acquireAction config request (turns run)) acquired.call
  noLease : ∀ thrown, acquired.call.result = .error thrown → acquired.leaseRemains = false

/-- A lease is left only by a run that returns. -/
theorem leavesLease_eq_false {config : Config} {request : Request} {turn : Turn} {error : JsError}
    (h : acquireAction config request turn = .error error) :
    leavesLease config request turn = false := by
  unfold leavesLease
  rw [h]

theorem acquireGuarded_iff (config : Config) (resourceClass : String) (turns : ℕ → Turn)
    (others : ℕ → Others) (guard : Option OwnedGuard) :
    AcquiresOnce config resourceClass turns
        (acquireGuarded config resourceClass turns others guard) ↔
      ∀ request, requested config resourceClass = .ok request →
        Undisturbed (fun run => acquireAction config request (turns run)) others guard := by
  unfold acquireGuarded
  cases hrequest : requested config resourceClass with
  | error message =>
    refine iff_of_true ⟨fun request h => ?_, fun _ _ => rfl⟩ fun request h => absurd h (by simp)
    exact absurd (hrequest.symm.trans h) (by simp)
  | ok request =>
    dsimp only
    have hiff := @withGuard_runsOnce_iff Decision
      (fun run => acquireAction config request (turns run)) guardAttempts others guard
    constructor
    · intro h other hother
      cases hother
      exact hiff.mp (h.guarded request hrequest)
    · intro h
      have honce := hiff.mpr (h request rfl)
      refine ⟨fun other hother => ?_, fun thrown hthrown => ?_⟩
      · cases hrequest.symm.trans hother
        exact honce
      · -- the only run that there was threw, and left no lease
        rw [List.any_eq_false]
        intro run hrun
        have hlt := List.mem_range.mp hrun
        have hle := honce.once
        obtain rfl : run = 0 := by omega
        have houtcome := honce.outcome hlt
        rw [hthrown] at houtcome
        cases haction : acquireAction config request (turns 0) with
        | ok decided =>
          rw [haction] at houtcome
          exact absurd houtcome (by simp [Except.mapError])
        | error error => simp [leavesLease_eq_false haction]

/-- **One action under the guard**: it is run at most once and its outcome is that of the call,
and `acquire` leaves no lease where it throws, exactly when nobody removes the guard while the
action runs and the action does not throw `EEXIST`. -/
theorem action_runs_once {α : Type} (action : ℕ → Except JsError α) (config : Config)
    (resourceClass : String) (turns : ℕ → Turn) (others : ℕ → Others) (guard : Option OwnedGuard) :
    (RunsOnce action (withGuard action guardAttempts others 0 guard) ↔
      Undisturbed action others guard) ∧
    (AcquiresOnce config resourceClass turns
        (acquireGuarded config resourceClass turns others guard) ↔
      ∀ request, requested config resourceClass = .ok request →
        Undisturbed (fun run => acquireAction config request (turns run)) others guard) :=
  ⟨withGuard_runsOnce_iff guardAttempts others guard,
    acquireGuarded_iff config resourceClass turns others guard⟩

/-- Nobody else is there. -/
def quiet : ℕ → Others := fun _ => ⟨[], 0, [], [], 0⟩

/-- A temporary file was left by a process of the same number: the write of the lease is tried
at every attempt, and the call ends as if the guard had been busy. -/
theorem leftTemporary_runs_often :
    ¬RunsOnce (fun _ => atomicWriteJson true none)
      (withGuard (fun _ => atomicWriteJson true none) guardAttempts quiet 0 none) := by
  intro h
  have hruns : (withGuard (fun _ => atomicWriteJson true none) guardAttempts quiet 0 none).runs
      = 100 := by decide +kernel
  have honce := h.once
  omega

end WikiEcon.Toolforge.Admission
