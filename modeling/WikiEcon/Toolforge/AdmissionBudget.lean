import Mathlib.Algebra.BigOperators.Group.Finset.Basic
import Mathlib.Algebra.Order.BigOperators.Group.Finset
import WikiEcon.Toolforge.Admission
import WikiEcon.Toolforge.PipelineOrder

/-!
# The budget of the namespace

As long as nobody removes a guard that is not stale, the guard is one of `StaleLock`
(`step_guard`). Then whoever decides has seen every lease there is: the leases never
request more than the budget, and a job that is admitted has its lease (`Ledger`), so
that the jobs never request more either (`never_oversubscribed`). When two processes
find the guard of a third stale, which was killed, the second removes the guard of the
first, and both are inside the guarded section (`both_admitted`).
-/

namespace WikiEcon.Toolforge.Admission

open Pipeline (isSafeInteger failIf failIf_eq_ok)
open Transition

/-! ## Sums -/

/-- What is found in a list, at most once for each index, is at most the list's sum. -/
theorem sum_le_of_cover {α : Type} (index : α → ℕ) {amount : α → ℤ} {used : ℕ → ℤ} {l : List α}
    (hpos : ∀ a ∈ l, 0 ≤ amount a) {F : Finset ℕ}
    (hcover : ∀ j ∈ F, used j ≤ 0 ∨ ∃ a ∈ l, index a = j ∧ used j ≤ amount a) :
    ∑ j ∈ F, used j ≤ (l.map amount).sum := by
  induction l generalizing F with
  | nil =>
    refine Finset.sum_nonpos fun j hj => ?_
    exact (hcover j hj).resolve_right fun ⟨_, ha, _⟩ => List.not_mem_nil ha
  | cons a l ih =>
    rw [List.map_cons, List.sum_cons]
    have hrest := ih (fun b hb => hpos b (List.mem_cons_of_mem _ hb)) (F := F.erase (index a))
      fun j hj => by
        obtain ⟨hne, hmem⟩ := Finset.mem_erase.mp hj
        refine (hcover j hmem).imp_right fun ⟨b, hb, hindex, hle⟩ => ?_
        rcases List.mem_cons.mp hb with rfl | hb
        · exact absurd hindex.symm hne
        · exact ⟨b, hb, hindex, hle⟩
    have ha := hpos a (List.mem_cons_self ..)
    by_cases hmem : index a ∈ F
    · rcases hcover _ hmem with hle | ⟨b, hb, hindex, hle⟩
      · rw [← Finset.add_sum_erase F used hmem]
        omega
      · rcases List.mem_cons.mp hb with rfl | hlater
        · rw [← Finset.add_sum_erase F used hmem]
          omega
        -- another entry has the same index
        · have hall := ih (fun b hb => hpos b (List.mem_cons_of_mem _ hb)) (F := F) fun j hj => by
            refine (hcover j hj).imp_right fun ⟨c, hc, hcindex, hcle⟩ => ?_
            rcases List.mem_cons.mp hc with rfl | hc
            · rw [← hcindex]
              exact ⟨b, hlater, hindex, hle⟩
            · exact ⟨c, hc, hcindex, hcle⟩
          omega
    · rw [Finset.erase_eq_of_notMem hmem] at hrest
      omega

/-- A sum with one entry replaced. -/
theorem sum_update_le (used : ℕ → ℤ) (i : ℕ) {value : ℤ}
    (hvalue : 0 ≤ value) (F : Finset ℕ) :
    ∑ j ∈ F, Function.update used i value j ≤ ∑ j ∈ F.erase i, used j + value := by
  have hsame : ∀ j ∈ F.erase i, Function.update used i value j = used j := fun j hj =>
    Function.update_of_ne (Finset.mem_erase.mp hj).1 ..
  by_cases hmem : i ∈ F
  · rw [← Finset.add_sum_erase F _ hmem, Function.update_self, Finset.sum_congr rfl hsame]
    exact le_of_eq (add_comm ..)
  · rw [Finset.erase_eq_of_notMem hmem] at *
    rw [Finset.sum_congr rfl hsame]
    exact le_add_of_nonneg_right hvalue

/-! ## The decision -/

theorem foldlM_add_eq_ok {α : Type} (amount : α → ℤ) (good : α → Bool) {message : String}
    {l : List α} {start total : ℤ}
    (h : l.foldlM (fun total a => do
      failIf (!good a) message
      return total + amount a) start = Except.ok total) :
    total = start + (l.map amount).sum ∧ ∀ a ∈ l, good a = true := by
  induction l generalizing start with
  | nil =>
    obtain rfl := Except.ok.inj h
    exact ⟨by simp, fun _ ha => absurd ha List.not_mem_nil⟩
  | cons a l ih =>
    rw [List.foldlM_cons] at h
    obtain ⟨_, hturn, h⟩ := bind_eq_ok.mp h
    obtain ⟨_, hgood, hturn⟩ := bind_eq_ok.mp hturn
    obtain rfl := Except.ok.inj hturn
    obtain ⟨htotal, hall⟩ := ih h
    refine ⟨?_, List.forall_mem_cons.mpr ⟨by simpa using failIf_eq_ok.mp hgood, hall⟩⟩
    rw [htotal, List.map_cons, List.sum_cons, add_assoc]

/-- What a lease counts for. -/
def Lease.counts (config : Config) (lease : Lease) : Resource → ℤ
  | .memory => lease.requestedBytes
  | .cpu => lease.millicores config

/-- Who is admitted fits beside the leases that were counted. -/
theorem admission_spec {config : Config} {request : Request} {leases : List Lease} {a : Decision}
    (h : admission config request leases = .ok a) (hadmitted : a.admitted = true) :
    ∃ budget, workerBudget config = .ok budget ∧ ∀ r,
      (∀ lease ∈ leases, 0 ≤ lease.counts config r) ∧
      (leases.map fun lease => lease.counts config r).sum + request.of r ≤ budget.of r := by
  unfold admission at h
  obtain ⟨budget, hbudget, h⟩ := bind_eq_ok.mp h
  obtain ⟨bytes, hbytes, h⟩ := bind_eq_ok.mp h
  obtain ⟨millicores, hmillicores, h⟩ := bind_eq_ok.mp h
  obtain rfl := Except.ok.inj h
  obtain ⟨rfl, hpositive⟩ := foldlM_add_eq_ok Lease.requestedBytes
    (fun lease => isSafeInteger lease.requestedBytes && 0 < lease.requestedBytes) hbytes
  obtain ⟨rfl, hpositive'⟩ := foldlM_add_eq_ok (fun lease : Lease => lease.millicores config)
    (fun lease => decide (0 < lease.millicores config)) hmillicores
  refine ⟨budget, hbudget, fun r => ?_⟩
  simp only [List.isEmpty_iff, List.append_eq_nil_iff] at hadmitted
  obtain ⟨hmemory, hcpu⟩ := hadmitted
  cases r with
  | memory =>
    refine ⟨fun lease hlease => ?_, ?_⟩
    · have hboth := hpositive lease hlease
      simp only [Bool.and_eq_true, decide_eq_true_eq] at hboth
      exact le_of_lt hboth.2
    · have hnot : ¬ (budget.bytes < 0 ∨
          budget.bytes < 0 + (leases.map Lease.requestedBytes).sum + request.bytes) := by
        intro hor
        rw [if_pos hor] at hmemory
        exact absurd hmemory (by simp)
      show (leases.map Lease.requestedBytes).sum + request.bytes ≤ budget.bytes
      omega
  | cpu =>
    refine ⟨fun lease hlease => le_of_lt (of_decide_eq_true (hpositive' lease hlease)), ?_⟩
    have hnot : ¬ (budget.millicores < 0 ∨ budget.millicores
        < 0 + (leases.map fun lease => lease.millicores config).sum + request.millicores) := by
      intro hor
      rw [if_pos hor] at hcpu
      exact absurd hcpu (by simp)
    show (leases.map fun lease => lease.millicores config).sum + request.millicores
      ≤ budget.millicores
    omega

/-- A request that `requestFor` answers. -/
structure Request.Valid (request : Request) : Prop where
  bytes : 0 < request.bytes
  millicores : 0 < request.millicores
  safe : isSafeInteger request.millicores = true

theorem Request.Valid.nonneg {request : Request} (h : request.Valid) (r : Resource) :
    0 ≤ request.of r := by
  cases r with
  | memory => exact le_of_lt h.bytes
  | cpu => exact le_of_lt h.millicores

theorem positive_eq_true {value : Option ℤ} (h : positive value = true) :
    isSafeInteger (value.getD 0) = true ∧ 0 < value.getD 0 := by
  cases value with
  | none => exact absurd h (by simp [positive])
  | some n => simpa [positive] using h

theorem requestFor_valid {config : Config} {resourceClass : String} {request : Request}
    (h : requestFor config resourceClass = .ok request) : request.Valid := by
  unfold requestFor at h
  obtain ⟨_, hbytes, h⟩ := bind_eq_ok.mp h
  obtain ⟨_, hmillicores, h⟩ := bind_eq_ok.mp h
  obtain ⟨_, -, h⟩ := bind_eq_ok.mp h
  obtain ⟨_, -, h⟩ := bind_eq_ok.mp h
  obtain rfl := Except.ok.inj h
  obtain ⟨-, hb⟩ := positive_eq_true (by simpa using failIf_eq_ok.mp hbytes)
  obtain ⟨hs, hm⟩ := positive_eq_true (by simpa using failIf_eq_ok.mp hmillicores)
  exact ⟨hb, hm, hs⟩

/-! ## The guard -/

section Guard

variable {s : Shared} {i : ℕ} {p : Process} {disk : Disk} {phase : Phase}

theorem getElem_enter_self (hp : s.processes[i]? = some p) :
    (s.enter i p disk phase).processes[i]? = some { p with phase := phase } := by
  unfold Shared.enter
  exact List.getElem?_set_self (List.getElem?_eq_some_iff.mp hp).1

theorem getElem_enter_of_ne {j : ℕ} (hne : j ≠ i) :
    (s.enter i p disk phase).processes[j]? = s.processes[j]? := by
  unfold Shared.enter
  exact List.getElem?_set_ne hne.symm

end Guard

def Guard.lock (guard : Guard) : StaleLock.Lock ℕ := ⟨guard.maker, guard.mtime⟩

/-- The guard and who is inside. -/
def Shared.lock (s : Shared) : StaleLock.State ℕ where
  now := s.disk.now
  lock := s.disk.guard.map Guard.lock
  holding := s.holding

theorem lock_eq_some {s : Shared} {guard : Guard} (h : s.disk.guard = some guard) :
    s.lock.lock = some guard.lock := congrArg (Option.map Guard.lock) h

/-- The process is about to remove the guard of another. -/
def Phase.takes : Phase → Bool
  | .takeAway _ => true
  | _ => false

/-- A process that is about to remove the guard of another finds a stale one. -/
def TakesStale (s : Shared) : Event → Prop
  | .advance i => ∀ p ∈ s.processes[i]?, p.phase.takes = true →
      ∀ guard ∈ s.disk.guard, guard.mtime + lockStaleMs < s.disk.now
  | _ => True

instance (s : Shared) (e : Event) : Decidable (TakesStale s e) :=
  match e with
  | .advance _ => Option.decidableForallMem _
  | .start _ | .readdir .. | .beat _ | .exit _ | .kill _ | .tick _ => isTrue trivial

/-- The runs in which guard holders and heartbeats are in time. -/
def guarded (config : Config) : System Shared Event where
  init s := s.processes = [] ∧ s.disk.guard = none ∧ ∀ j, s.disk.leases j = none
  step s e t := s.next config e = some t

/-- Those in which nobody removes a guard that is not stale. -/
def guardedStale (config : Config) : System Shared Event where
  init := (guarded config).init
  step s e t := s.next config e = some t ∧ TakesStale s e

section Step

variable {s : Shared} {i : ℕ} {p : Process} {disk : Disk} {phase : Phase}

theorem moves (hp : s.processes[i]? = some p) (hnow : disk.now = s.disk.now) :
    StaleLock.Moves (fun p : Process => p.phase.since) s.processes i p { p with phase := phase }
      s.lock (s.enter i p disk phase).lock := ⟨hnow, hp, rfl, rfl⟩

/-- A call that changes neither the guard nor whether the process is inside. -/
theorem step_idle (hp : s.processes[i]? = some p) (hnow : disk.now = s.disk.now)
    (hguard : disk.guard = s.disk.guard) (hsince : phase.since = p.phase.since) :
    StaleLock.Step lockStaleMs s.lock (s.enter i p disk phase).lock :=
  StaleLock.Moves.idle (moves hp hnow) (congrArg (Option.map Guard.lock) hguard) hsince

/-- The loop stays inside. -/
theorem since_counting (config : Config) (request : Request) (since : ℕ) (names : List ℕ)
    (leases : List Lease) : (counting config request since names leases).since = some since := by
  unfold counting
  split
  · rfl
  · split
    · rfl
    · split <;> rfl

theorem guard_create {config : Config} {left : ℕ} (hp : s.processes[i]? = some p)
    (hphase : p.phase = .create left) (hcall : p.call config i s.disk = some (disk, phase)) :
    StaleLock.Step lockStaleMs s.lock (s.enter i p disk phase).lock := by
  simp only [Process.call, hphase] at hcall
  split at hcall
  next hfree =>
    obtain ⟨rfl, rfl⟩ := Prod.mk.inj (Option.some.inj hcall)
    exact StaleLock.Moves.take (moves hp rfl) (by simp [Shared.lock, hfree]) rfl rfl
  next =>
    obtain ⟨rfl, rfl⟩ := Prod.mk.inj (Option.some.inj hcall)
    exact step_idle hp rfl rfl (by rw [hphase]; rfl)

theorem guard_look {config : Config} {left : ℕ} (hp : s.processes[i]? = some p)
    (hphase : p.phase = .look left) (hcall : p.call config i s.disk = some (disk, phase)) :
    StaleLock.Step lockStaleMs s.lock (s.enter i p disk phase).lock := by
  simp only [Process.call, hphase] at hcall
  split at hcall
  all_goals
    obtain ⟨rfl, rfl⟩ := Prod.mk.inj (Option.some.inj hcall)
    exact step_idle hp rfl rfl (by rw [hphase]; rfl)

/-- The guard that is removed is stale. -/
theorem guard_takeAway {config : Config} {left : ℕ} (hp : s.processes[i]? = some p)
    (hphase : p.phase = .takeAway left) (hcall : p.call config i s.disk = some (disk, phase))
    (hstale : ∀ guard, s.disk.guard = some guard → guard.mtime + lockStaleMs < s.disk.now) :
    StaleLock.Step lockStaleMs s.lock (s.enter i p disk phase).lock := by
  simp only [Process.call, hphase] at hcall
  obtain ⟨rfl, rfl⟩ := Prod.mk.inj (Option.some.inj hcall)
  cases hguard : s.disk.guard with
  | none => exact step_idle hp rfl hguard.symm (by rw [hphase]; rfl)
  | some guard =>
    exact StaleLock.Moves.steal (moves hp rfl) (lock_eq_some hguard) (hstale guard hguard) rfl
      (by rw [hphase]; rfl)

theorem guard_read {config : Config} {since name : ℕ} {names : List ℕ} {leases : List Lease}
    (hp : s.processes[i]? = some p) (hphase : p.phase = .read since name names leases)
    (hcall : p.call config i s.disk = some (disk, phase)) :
    StaleLock.Step lockStaleMs s.lock (s.enter i p disk phase).lock := by
  simp only [Process.call, hphase] at hcall
  split at hcall
  next =>
    obtain ⟨rfl, rfl⟩ := Prod.mk.inj (Option.some.inj hcall)
    exact step_idle hp rfl rfl (by rw [hphase]; rfl)
  next =>
    split at hcall
    next =>
      obtain ⟨rfl, rfl⟩ := Prod.mk.inj (Option.some.inj hcall)
      exact step_idle hp rfl rfl (by rw [hphase]; rfl)
    next =>
      obtain ⟨rfl, rfl⟩ := Prod.mk.inj (Option.some.inj hcall)
      exact step_idle hp rfl rfl (by rw [hphase, since_counting]; rfl)

/-- A process that leaves finds the guard and gives it up, or stops where it is. -/
theorem guard_leave {config : Config} {since : ℕ} {result : Except String Decision}
    (hp : s.processes[i]? = some p) (hphase : p.phase = .leave since result)
    (hcall : p.call config i s.disk = some (disk, phase)) :
    StaleLock.Step lockStaleMs s.lock (s.enter i p disk phase).lock := by
  simp only [Process.call, hphase] at hcall
  split at hcall
  next =>
    obtain ⟨rfl, rfl⟩ := Prod.mk.inj (Option.some.inj hcall)
    exact StaleLock.Moves.stop (moves hp rfl) rfl rfl
  next =>
    obtain ⟨rfl, rfl⟩ := Prod.mk.inj (Option.some.inj hcall)
    refine StaleLock.Moves.give (moves hp rfl) (by rw [hphase]; rfl) rfl ?_
    cases result with
    | error e => rfl
    | ok admission =>
      dsimp only
      split <;> rfl

theorem guard_beatRead {config : Config} {beatAt : ℕ} (hp : s.processes[i]? = some p)
    (hphase : p.phase = .beatRead beatAt) (hcall : p.call config i s.disk = some (disk, phase)) :
    StaleLock.Step lockStaleMs s.lock (s.enter i p disk phase).lock := by
  simp only [Process.call, hphase] at hcall
  split at hcall
  next =>
    obtain ⟨rfl, rfl⟩ := Prod.mk.inj (Option.some.inj hcall)
    exact step_idle hp rfl rfl (by rw [hphase]; rfl)
  next =>
    obtain ⟨rfl, rfl⟩ := Prod.mk.inj (Option.some.inj hcall)
    refine step_idle hp rfl rfl ?_
    rw [hphase]
    split <;> rfl

theorem guard_finish {config : Config} (hp : s.processes[i]? = some p)
    (hphase : p.phase = .finish) (hcall : p.call config i s.disk = some (disk, phase)) :
    StaleLock.Step lockStaleMs s.lock (s.enter i p disk phase).lock := by
  simp only [Process.call, hphase] at hcall
  split at hcall
  next =>
    obtain ⟨rfl, rfl⟩ := Prod.mk.inj (Option.some.inj hcall)
    exact step_idle hp rfl rfl (by rw [hphase]; rfl)
  next =>
    obtain ⟨rfl, rfl⟩ := Prod.mk.inj (Option.some.inj hcall)
    refine step_idle hp rfl rfl ?_
    rw [hphase]
    split <;> rfl

/-- A call is a step of the guard, unless it removes a guard that is not stale. -/
theorem Process.call_guard {config : Config} (hp : s.processes[i]? = some p)
    (hcall : p.call config i s.disk = some (disk, phase))
    (hstale : p.phase.takes = true → ∀ guard, s.disk.guard = some guard →
      guard.mtime + lockStaleMs < s.disk.now) :
    StaleLock.Step lockStaleMs s.lock (s.enter i p disk phase).lock := by
  cases hphase : p.phase with
  | create left => exact guard_create hp hphase hcall
  | look left => exact guard_look hp hphase hcall
  | takeAway left => exact guard_takeAway hp hphase hcall (hstale (by rw [hphase]; rfl))
  | read since name names leases => exact guard_read hp hphase hcall
  | leave since result => exact guard_leave hp hphase hcall
  | beatRead beatAt => exact guard_beatRead hp hphase hcall
  | finish => exact guard_finish hp hphase hcall
  | judge left mtime =>
    simp only [Process.call, hphase] at hcall
    obtain ⟨rfl, rfl⟩ := Prod.mk.inj (Option.some.inj hcall)
    refine step_idle hp rfl rfl ?_
    rw [hphase]
    split <;> rfl
  | pause left =>
    simp only [Process.call, hphase] at hcall
    obtain ⟨rfl, rfl⟩ := Prod.mk.inj (Option.some.inj hcall)
    refine step_idle hp rfl rfl ?_
    rw [hphase]
    split <;> rfl
  | archive since name names leases =>
    simp only [Process.call, hphase] at hcall
    obtain ⟨rfl, rfl⟩ := Prod.mk.inj (Option.some.inj hcall)
    exact step_idle hp rfl rfl (by rw [hphase, since_counting]; rfl)
  -- the other calls change neither the guard nor whether the process is inside
  | openTemporary _ _ | publish _ _ | beatOpen _ _ | beatPublish _ _ | unlink =>
    simp only [Process.call, hphase] at hcall
    obtain ⟨rfl, rfl⟩ := Prod.mk.inj (Option.some.inj hcall)
    exact step_idle hp rfl rfl (by rw [hphase]; rfl)
  | list since | running beatAt | ended result | killed =>
    simp [Process.call, hphase] at hcall

/-- The other events leave a process inside, or out. -/
theorem turn_since {known : ℕ} {config : Config} {request : Request} {e : Event} {phase' : Phase}
    (h : phase.turn disk known config request e = some phase') :
    phase'.since = phase.since ∨ phase'.since = none := by
  unfold Phase.turn at h
  split at h
  next =>
    split at h
    · rw [← Option.some.inj h, since_counting]
      exact Or.inl rfl
    · exact absurd h (by simp)
  next =>
    rw [← Option.some.inj h]
    exact Or.inr rfl
  next =>
    rw [← Option.some.inj h]
    exact Or.inr rfl
  next =>
    rw [← Option.some.inj h]
    exact Or.inr rfl
  next => exact absurd h (by simp)

end Step

theorem step_advance_eq_some {config : Config} {s t : Shared} {i : ℕ} :
    s.step config (.advance i) = some t ↔ ∃ p disk phase, s.processes[i]? = some p ∧
      p.call config i s.disk = some (disk, phase) ∧ t = s.enter i p disk phase := by
  constructor
  · intro h
    obtain ⟨p, hp, h⟩ := Option.bind_eq_some_iff.mp h
    obtain ⟨⟨disk, phase⟩, hcall, h⟩ := Option.bind_eq_some_iff.mp h
    exact ⟨p, disk, phase, hp, hcall, (Option.some.inj h).symm⟩
  · rintro ⟨p, disk, phase, hp, hcall, rfl⟩
    exact Option.bind_eq_some_iff.mpr ⟨p, hp, Option.bind_eq_some_iff.mpr ⟨_, hcall, rfl⟩⟩

theorem turn_eq_some {config : Config} {s t : Shared} {i : ℕ} {e : Event}
    (h : s.turn config i e = some t) : ∃ p phase, s.processes[i]? = some p ∧
      p.phase.turn s.disk s.processes.length config p.request e = some phase ∧
      t = s.enter i p s.disk phase := by
  obtain ⟨p, hp, h⟩ := Option.bind_eq_some_iff.mp h
  obtain ⟨phase, hturn, h⟩ := Option.bind_eq_some_iff.mp h
  exact ⟨p, phase, hp, hturn, (Option.some.inj h).symm⟩

/-- **What a step is**: a start, a call, another turn of a process, or time. -/
theorem step_cases {config : Config} {s t : Shared} {e : Event} (h : s.step config e = some t) :
    (∃ resourceClass, e = .start resourceClass ∧
      t = { s with processes := s.processes ++ [acquire config resourceClass s.disk.now] }) ∨
    (∃ i p disk phase, e = .advance i ∧ s.processes[i]? = some p ∧
      p.call config i s.disk = some (disk, phase) ∧ t = s.enter i p disk phase) ∨
    (∃ i p phase, s.processes[i]? = some p ∧
      p.phase.turn s.disk s.processes.length config p.request e = some phase ∧
      t = s.enter i p s.disk phase) ∨
    ∃ ms, e = .tick ms ∧ t = { s with disk := { s.disk with now := s.disk.now + ms } } := by
  cases e with
  | start resourceClass => exact Or.inl ⟨resourceClass, rfl, (Option.some.inj h).symm⟩
  | advance i =>
    obtain ⟨p, disk, phase, hp, hcall, rfl⟩ := step_advance_eq_some.mp h
    exact Or.inr (Or.inl ⟨i, p, disk, phase, rfl, hp, hcall, rfl⟩)
  | readdir i names => exact Or.inr (Or.inr (Or.inl ⟨i, turn_eq_some h⟩))
  | beat i => exact Or.inr (Or.inr (Or.inl ⟨i, turn_eq_some h⟩))
  | exit i => exact Or.inr (Or.inr (Or.inl ⟨i, turn_eq_some h⟩))
  | kill i => exact Or.inr (Or.inr (Or.inl ⟨i, turn_eq_some h⟩))
  | tick ms => exact Or.inr (Or.inr (Or.inr ⟨ms, rfl, (Option.some.inj h).symm⟩))

theorem next_eq_some {config : Config} {s t : Shared} {e : Event} :
    s.next config e = some t ↔ s.step config e = some t ∧ t.prompt = true ∧ t.alive = true := by
  unfold Shared.next
  rw [Option.filter_eq_some_iff, Bool.and_eq_true]

theorem prompt_iff {s : Shared} : s.prompt = true ↔
    ∀ i since, s.holding i = some since → s.disk.now ≤ since + lockStaleMs :=
  StaleLock.all_heldBy_iff

/-- What holds of the old processes and of the new one. -/
theorem getElem_append_cases {l : List Process} {q p : Process} {j : ℕ}
    (h : (l ++ [q])[j]? = some p) : l[j]? = some p ∨ j = l.length ∧ p = q := by
  rcases Nat.lt_trichotomy j l.length with hlt | rfl | hgt
  · rw [List.getElem?_append_left hlt] at h
    exact Or.inl h
  · rw [List.getElem?_concat_length] at h
    exact Or.inr ⟨rfl, (Option.some.inj h).symm⟩
  · rw [List.getElem?_eq_none (by simp; omega)] at h
    exact absurd h (by simp)

theorem phase_acquire (config : Config) (resourceClass : String) (now : ℕ) :
    (∃ e, (acquire config resourceClass now).phase = .ended (.error e)) ∨
      (acquire config resourceClass now).phase = .create guardAttempts ∧
      (acquire config resourceClass now).request.Valid := by
  unfold acquire
  split
  next e _ => exact Or.inl ⟨e, rfl⟩
  next request hok =>
    obtain ⟨_, -, hrequest⟩ := bind_eq_ok.mp hok
    exact Or.inr ⟨rfl, requestFor_valid hrequest⟩

/-- **A run in which only stale guards are removed is one of the lock.** -/
theorem step_guard {config : Config} {s t : Shared} {e : Event}
    (h : (guardedStale config).step s e t) : StaleLock.Step lockStaleMs s.lock t.lock := by
  obtain ⟨hnext, hstale⟩ := h
  obtain ⟨hstep, hprompt, -⟩ := next_eq_some.mp hnext
  rcases step_cases hstep with
    ⟨resourceClass, rfl, rfl⟩ | ⟨i, p, disk, phase, rfl, hp, hcall, rfl⟩ |
    ⟨i, p, phase, hp, hturn, rfl⟩ | ⟨ms, rfl, rfl⟩
  · refine .idle rfl rfl (StaleLock.heldBy_append ?_)
    rcases phase_acquire config resourceClass s.disk.now with ⟨e, he⟩ | ⟨hcreate, -⟩
    · rw [he]
      rfl
    · rw [hcreate]
      rfl
  · exact Process.call_guard hp hcall fun htakes => hstale p hp htakes
  · rcases turn_since hturn with hsame | hnone
    · exact step_idle hp rfl rfl hsame
    · exact StaleLock.Moves.stop (moves hp rfl) rfl hnone
  · exact .wait (Nat.le_add_right ..) rfl (fun _ => rfl) (prompt_iff.mp hprompt)

theorem held_of_reachable {config : Config} {s : Shared} (h : (guardedStale config).Reachable s) :
    StaleLock.Held lockStaleMs s.lock := by
  refine StaleLock.held_inductive.reachable (h.map (StaleLock.system ℕ lockStaleMs)
    Shared.lock ?_ fun s e t hstep => ⟨(), step_guard hstep⟩)
  rintro s ⟨hprocesses, hguard, -⟩
  refine ⟨congrArg (Option.map Guard.lock) hguard, fun i => ?_⟩
  show s.processes[i]?.bind _ = none
  rw [hprocesses]
  rfl

/-! ## The ledger -/

def Lease.request (lease : Lease) : Request := ⟨lease.requestedBytes, lease.requestedMillicores⟩

/-- What the lease of an identity requests. -/
def Disk.used (disk : Disk) (r : Resource) (j : ℕ) : ℤ :=
  ((disk.leases j).map fun lease => lease.request.of r).getD 0

def Phase.over : Phase → Bool
  | .ended _ => true
  | .killed => true
  | _ => false

/-- The lease a heartbeat is about to write. -/
def Phase.carried : Phase → Option Lease
  | .beatOpen _ current => some current
  | .beatPublish _ lease => some lease
  | _ => none

/-- The lease that is about to be moved away. -/
def Phase.archiving : Phase → Option ℕ
  | .archive _ name _ _ => some name
  | _ => none

/-- The leases that are still to be read, and those that were. -/
def Phase.counting : Phase → Option (List ℕ × List Lease)
  | .read _ name names leases => some (name :: names, leases)
  | .archive _ name names leases => some (name :: names, leases)
  | _ => none

/-- The process is about to write its lease. -/
def Phase.admits : Phase → Bool
  | .openTemporary .. => true
  | .publish .. => true
  | _ => false

/-- Every lease is still to be read, or was. -/
def Covered (disk : Disk) (names : List ℕ) (leases : List Lease) : Prop :=
  ∀ j lease, disk.leases j = some lease → j ∈ names ∨
    ∃ c ∈ leases, c.identity = j ∧ c.request = lease.request

/-- The leases leave room for a request. -/
def Room (config : Config) (disk : Disk) (request : Request) : Prop :=
  ∃ budget, workerBudget config = .ok budget ∧
    ∀ r F, ∑ j ∈ F, disk.used r j + request.of r ≤ budget.of r

/-- What holds of process `i`; `busy` says whose jobs run. -/
structure Fits (config : Config) (disk : Disk) (busy : ℕ → Option ℕ) (i : ℕ) (p : Process) :
    Prop where
  request : p.phase.over = false → p.request.Valid
  now : p.now ≤ disk.now
  own : ∀ lease, disk.leases i = some lease →
    lease.identity = i ∧ lease.request = p.request ∧ p.request.Valid
  kept : ∀ beatAt, p.admittedAt = some beatAt →
    ∃ lease, disk.leases i = some lease ∧ lease.heartbeatAt = beatAt
  carried : ∀ lease, p.phase.carried = some lease → lease.identity = i ∧ lease.request = p.request
  archived : ∀ name, p.phase.archiving = some name → busy name = none
  counted : ∀ names leases, p.phase.counting = some (names, leases) → Covered disk names leases
  room : p.phase.admits = true → Room config disk p.request

/-- The jobs that run have their leases, and the leases are within the budget. -/
structure Ledger (config : Config) (s : Shared) : Prop where
  fits : ∀ (i : ℕ) (p : Process), s.processes[i]? = some p →
    Fits config s.disk s.admittedAt i p
  known : ∀ j lease, s.disk.leases j = some lease → j < s.processes.length
  spent : (∀ j, s.disk.leases j = none) ∨ ∃ budget, workerBudget config = .ok budget ∧
    ∀ r F, ∑ j ∈ F, s.disk.used r j ≤ budget.of r

/-- Leases went, and those that stay request the same. -/
structure Shrinks (disk disk' : Disk) : Prop where
  now : disk.now ≤ disk'.now
  leases : ∀ j lease', disk'.leases j = some lease' →
    ∃ lease, disk.leases j = some lease ∧ lease'.identity = lease.identity ∧
      lease'.request = lease.request

theorem Shrinks.of_leases {disk disk' : Disk} (hnow : disk.now ≤ disk'.now)
    (hleases : disk'.leases = disk.leases) : Shrinks disk disk' where
  now := hnow
  leases _ lease h := ⟨lease, hleases ▸ h, rfl, rfl⟩

section Ledger

variable {config : Config} {s : Shared} {disk disk' : Disk} {busy busy' : ℕ → Option ℕ} {i : ℕ}
  {p : Process} {phase : Phase}

theorem Ledger.nonneg (h : Ledger config s) (r : Resource) (j : ℕ) : 0 ≤ s.disk.used r j := by
  unfold Disk.used
  cases hlease : s.disk.leases j with
  | none => exact le_refl _
  | some lease =>
    have hp := List.getElem?_eq_getElem (h.known j lease hlease)
    obtain ⟨-, hrequest, hvalid⟩ := (h.fits j _ hp).own lease hlease
    show 0 ≤ lease.request.of r
    rw [hrequest]
    exact hvalid.nonneg r

theorem Shrinks.used_le (h : Shrinks disk disk') {r : Resource} {j : ℕ}
    (hnonneg : 0 ≤ disk.used r j) : disk'.used r j ≤ disk.used r j := by
  cases hlease : disk'.leases j with
  | none =>
    have hzero : disk'.used r j = 0 := by
      unfold Disk.used
      rw [hlease]
      rfl
    omega
  | some lease' =>
    obtain ⟨lease, hbefore, -, hrequest⟩ := h.leases j lease' hlease
    unfold Disk.used
    rw [hlease, hbefore]
    show lease'.request.of r ≤ lease.request.of r
    rw [hrequest]

theorem Shrinks.covered (h : Shrinks disk disk') {names : List ℕ} {leases : List Lease}
    (hcovered : Covered disk names leases) : Covered disk' names leases := by
  intro j lease' hlease'
  obtain ⟨lease, hlease, -, hrequest⟩ := h.leases j lease' hlease'
  rw [hrequest]
  exact hcovered j lease hlease

theorem Shrinks.room (h : Shrinks disk disk') (hnonneg : ∀ r j, 0 ≤ disk.used r j)
    {request : Request} (hroom : Room config disk request) : Room config disk' request := by
  obtain ⟨budget, hbudget, hle⟩ := hroom
  refine ⟨budget, hbudget, fun r F => ?_⟩
  have hsum : ∑ j ∈ F, disk'.used r j ≤ ∑ j ∈ F, disk.used r j :=
    Finset.sum_le_sum fun j _ => h.used_le (hnonneg r j)
  have hroom := hle r F
  omega

theorem outside_eq (h : phase.since = none) :
    phase.archiving = none ∧ phase.counting = none ∧ phase.admits = false := by
  cases phase <;> simp [Phase.since] at h <;> simp [Phase.archiving, Phase.counting, Phase.admits]

/-- What a process outside the guard keeps, whatever is written inside. -/
theorem Fits.of_outside (h : Fits config disk busy i p) (hout : p.phase.since = none)
    (hnow : disk.now ≤ disk'.now) (hsame : disk'.leases i = disk.leases i) :
    Fits config disk' busy' i p where
  request := h.request
  now := h.now.trans hnow
  own lease hlease := h.own lease (hsame ▸ hlease)
  kept beatAt hbeat := by
    obtain ⟨lease, hlease, hheart⟩ := h.kept beatAt hbeat
    exact ⟨lease, hsame.trans hlease, hheart⟩
  carried := h.carried
  archived name harchive := absurd ((outside_eq hout).1.symm.trans harchive) (by simp)
  counted names leases hcount := absurd ((outside_eq hout).2.1.symm.trans hcount) (by simp)
  room hadmits := absurd ((outside_eq hout).2.2.symm.trans hadmits) (by simp)

/-- What others do to the leases. -/
theorem Fits.shrink (h : Fits config disk busy i p) (hshrinks : Shrinks disk disk')
    (hnonneg : ∀ r j, 0 ≤ disk.used r j)
    (hself : disk'.leases i = disk.leases i ∨ p.admittedAt = none ∧ disk'.leases i = none)
    (hbusy : ∀ k, busy k = none → busy' k = none) : Fits config disk' busy' i p where
  request := h.request
  now := h.now.trans hshrinks.now
  own lease hlease := by
    rcases hself with hsame | ⟨-, hnone⟩
    · exact h.own lease (hsame ▸ hlease)
    · exact absurd (hlease.symm.trans hnone) (by simp)
  kept beatAt hbeat := by
    rcases hself with hsame | ⟨hidle, -⟩
    · obtain ⟨lease, hlease, hheart⟩ := h.kept beatAt hbeat
      exact ⟨lease, hsame.trans hlease, hheart⟩
    · exact absurd (hbeat.symm.trans hidle) (by simp)
  carried := h.carried
  archived name harchive := hbusy name (h.archived name harchive)
  counted names leases hcount := hshrinks.covered (h.counted names leases hcount)
  room hadmits := hshrinks.room hnonneg (h.room hadmits)

/-- A process whose new phase does not depend on the leases. -/
theorem Fits.quiet (h : Fits config disk busy i p) (hover : p.phase.over = false)
    (hnow : disk.now ≤ disk'.now) (hsame : disk'.leases i = disk.leases i ∨ disk'.leases i = none)
    (hidle : Process.admittedAt { p with phase := phase } = none) (hcarried : phase.carried = none)
    (harchiving : phase.archiving = none) (hcounting : phase.counting = none)
    (hadmits : phase.admits = false) : Fits config disk' busy' i { p with phase := phase } where
  request _ := h.request hover
  now := h.now.trans hnow
  own lease hlease := by
    rcases hsame with hsame | hnone
    · exact h.own lease (hsame ▸ hlease)
    · exact absurd (hlease.symm.trans hnone) (by simp)
  kept _ hbeat := absurd (hbeat.symm.trans hidle) (by simp)
  carried _ hlease := absurd (hlease.symm.trans hcarried) (by simp)
  archived _ hname := absurd (hname.symm.trans harchiving) (by simp)
  counted _ _ hcount := absurd (hcount.symm.trans hcounting) (by simp)
  room htrue := absurd (htrue.symm.trans hadmits) (by simp)

/-- Who is admitted has seen every lease. -/
theorem Room.of_admission {request : Request} {leases : List Lease} {a : Decision}
    (h : admission config request leases = .ok a) (hadmitted : a.admitted = true)
    (hcovered : Covered disk [] leases)
    (hvalid : ∀ j lease, disk.leases j = some lease → lease.request.Valid) :
    Room config disk request := by
  obtain ⟨budget, hbudget, hfits⟩ := admission_spec h hadmitted
  refine ⟨budget, hbudget, fun r F => ?_⟩
  obtain ⟨hpos, hle⟩ := hfits r
  have hsum : ∑ j ∈ F, disk.used r j ≤ (leases.map fun lease => lease.counts config r).sum := by
    refine sum_le_of_cover Lease.identity hpos fun j _ => ?_
    unfold Disk.used
    cases hlease : disk.leases j with
    | none => exact Or.inl (le_refl _)
    | some lease =>
      obtain ⟨c, hc, hidentity, hrequest⟩ := (hcovered j lease hlease).resolve_left List.not_mem_nil
      refine Or.inr ⟨c, hc, hidentity, ?_⟩
      have hvalid := hvalid j lease hlease
      rw [← hrequest] at hvalid
      show lease.request.of r ≤ c.counts config r
      rw [← hrequest]
      cases r with
      | memory => exact le_refl _
      | cpu =>
        have hsafe : isSafeInteger c.requestedMillicores = true := hvalid.safe
        show c.requestedMillicores ≤ c.millicores config
        unfold Lease.millicores
        rw [if_pos hsafe]
  omega

/-- The loop over the leases, and what follows it. -/
theorem Fits.counting {since : ℕ} {names : List ℕ} {leases : List Lease}
    (h : Fits config disk busy i p) (hover : p.phase.over = false) (hnow : disk.now ≤ disk'.now)
    (hsame : disk'.leases i = disk.leases i ∨ disk'.leases i = none)
    (hcovered : Covered disk' names leases)
    (hvalid : ∀ j lease, disk'.leases j = some lease → lease.request.Valid) :
    Fits config disk' busy' i
      { p with phase := counting config p.request since names leases } := by
  unfold Admission.counting
  cases names with
  | cons name rest =>
    have hquiet : Fits config disk' busy' i { p with phase := .list since } :=
      h.quiet hover hnow hsame rfl rfl rfl rfl rfl
    exact ⟨hquiet.request, hquiet.now, hquiet.own, hquiet.kept, hquiet.carried, hquiet.archived,
      fun names leases hcount => by
        obtain ⟨rfl, rfl⟩ := Prod.mk.inj (Option.some.inj hcount)
        exact hcovered,
      hquiet.room⟩
  | nil =>
    dsimp only
    split
    next e _ => exact h.quiet hover hnow hsame rfl rfl rfl rfl rfl
    next a ha =>
      split
      next hadmitted =>
        have hquiet : Fits config disk' busy' i { p with phase := .list since } :=
          h.quiet hover hnow hsame rfl rfl rfl rfl rfl
        exact ⟨hquiet.request, hquiet.now, hquiet.own, hquiet.kept, hquiet.carried,
          hquiet.archived, hquiet.counted, fun _ => Room.of_admission ha hadmitted hcovered hvalid⟩
      next hrefused =>
        refine h.quiet hover hnow hsame ?_ rfl rfl rfl rfl
        show (if a.admitted = true then some p.now else none) = none
        rw [if_neg hrefused]

theorem admittedAt_of_getElem (hp : s.processes[i]? = some p) : s.admittedAt i = p.admittedAt := by
  unfold Shared.admittedAt
  rw [hp]
  rfl

theorem admittedAt_enter_of_ne {j : ℕ} (hne : j ≠ i) :
    (s.enter i p disk phase).admittedAt j = s.admittedAt j := by
  unfold Shared.admittedAt
  rw [getElem_enter_of_ne hne]

theorem admittedAt_enter_self (hp : s.processes[i]? = some p) :
    (s.enter i p disk phase).admittedAt i = Process.admittedAt { p with phase := phase } := by
  unfold Shared.admittedAt
  rw [getElem_enter_self hp]
  rfl

theorem Ledger.valid (h : Ledger config s) {j : ℕ} {lease : Lease}
    (hlease : s.disk.leases j = some lease) : lease.request.Valid := by
  have hp := List.getElem?_eq_getElem (h.known j lease hlease)
  obtain ⟨-, hrequest, hvalid⟩ := (h.fits j _ hp).own lease hlease
  rw [hrequest]
  exact hvalid

theorem length_enter : (s.enter i p disk phase).processes.length = s.processes.length :=
  List.length_set ..

/-- A process that reads the leases has not been admitted. -/
theorem admittedAt_counting (config : Config) (p : Process) (since : ℕ) (names : List ℕ)
    (leases : List Lease) : Process.admittedAt
      { p with phase := counting config p.request since names leases } = none := by
  unfold Admission.counting
  cases names with
  | cons name rest => rfl
  | nil =>
    dsimp only
    split
    · rfl
    · split
      · rfl
      next a _ hrefused =>
        show (if a.admitted = true then some p.now else none) = none
        rw [if_neg hrefused]

/-- A step of one process that adds nothing to the leases. -/
theorem Ledger.enter (h : Ledger config s) (hp : s.processes[i]? = some p)
    (hshrinks : Shrinks s.disk disk)
    (hothers : ∀ (j : ℕ) (q : Process), j ≠ i → s.processes[j]? = some q →
      disk.leases j = s.disk.leases j ∨ q.admittedAt = none ∧ disk.leases j = none)
    (hbusy : p.admittedAt = none → Process.admittedAt { p with phase := phase } = none)
    (hself : Fits config disk (s.enter i p disk phase).admittedAt i { p with phase := phase }) :
    Ledger config (s.enter i p disk phase) where
  fits j q hq := by
    by_cases hj : j = i
    · subst hj
      obtain rfl := Option.some.inj ((getElem_enter_self hp).symm.trans hq)
      exact hself
    · rw [getElem_enter_of_ne hj] at hq
      refine (h.fits j q hq).shrink hshrinks h.nonneg (hothers j q hj hq) fun k hk => ?_
      by_cases hki : k = i
      · subst hki
        rw [admittedAt_of_getElem hp] at hk
        exact (admittedAt_enter_self hp).trans (hbusy hk)
      · exact (admittedAt_enter_of_ne hki).trans hk
  known j lease hlease := by
    obtain ⟨before, hbefore, -⟩ := hshrinks.leases j lease hlease
    rw [length_enter]
    exact h.known j before hbefore
  spent := by
    rcases h.spent with hnone | ⟨budget, hbudget, hle⟩
    · refine Or.inl fun j => ?_
      cases hlease : (s.enter i p disk phase).disk.leases j with
      | none => rfl
      | some lease =>
        obtain ⟨before, hbefore, -⟩ := hshrinks.leases j lease hlease
        exact absurd (hbefore.symm.trans (hnone j)) (by simp)
    · refine Or.inr ⟨budget, hbudget, fun r F => ?_⟩
      exact (Finset.sum_le_sum fun j _ => hshrinks.used_le (h.nonneg r j)).trans (hle r F)

/-- A step that leaves the leases as they are. -/
theorem Ledger.enter_same (h : Ledger config s) (hp : s.processes[i]? = some p)
    (hnow : disk.now = s.disk.now) (hleases : disk.leases = s.disk.leases)
    (hbusy : p.admittedAt = none → Process.admittedAt { p with phase := phase } = none)
    (hself : Fits config disk (s.enter i p disk phase).admittedAt i { p with phase := phase }) :
    Ledger config (s.enter i p disk phase) :=
  h.enter hp (.of_leases hnow.ge hleases) (fun _ _ _ _ => Or.inl (congrFun hleases _)) hbusy hself

/-- A process that moves on quietly. -/
theorem Ledger.enter_quiet (h : Ledger config s) (hp : s.processes[i]? = some p)
    (hover : p.phase.over = false) (hnow : disk.now = s.disk.now)
    (hleases : disk.leases = s.disk.leases)
    (hidle : Process.admittedAt { p with phase := phase } = none) (hcarried : phase.carried = none)
    (harchiving : phase.archiving = none) (hcounting : phase.counting = none)
    (hadmits : phase.admits = false) : Ledger config (s.enter i p disk phase) :=
  h.enter_same hp hnow hleases (fun _ => hidle) ((h.fits i p hp).quiet hover hnow.ge
    (Or.inl (congrFun hleases i)) hidle hcarried harchiving hcounting hadmits)

/-- A job that goes on. -/
theorem Ledger.enter_running (h : Ledger config s) (hp : s.processes[i]? = some p)
    (hover : p.phase.over = false) (hnow : disk.now = s.disk.now)
    (hleases : disk.leases = s.disk.leases)
    (hbeat : Process.admittedAt { p with phase := phase } = p.admittedAt)
    (hcarried : ∀ lease, phase.carried = some lease → lease.identity = i ∧
      lease.request = p.request)
    (harchiving : phase.archiving = none) (hcounting : phase.counting = none)
    (hadmits : phase.admits = false) : Ledger config (s.enter i p disk phase) := by
  have hfits := h.fits i p hp
  refine h.enter_same hp hnow hleases (fun hidle => hbeat.trans hidle)
    ⟨fun _ => hfits.request hover,
    hfits.now.trans hnow.ge, fun lease hlease => hfits.own lease (hleases ▸ hlease),
    fun beatAt hbeatAt => ?_, hcarried, fun _ hname =>
      absurd (hname.symm.trans harchiving) (by simp),
    fun _ _ hcount => absurd (hcount.symm.trans hcounting) (by simp),
    fun htrue => absurd (htrue.symm.trans hadmits) (by simp)⟩
  obtain ⟨lease, hlease, hheart⟩ := hfits.kept beatAt (hbeat.symm.trans hbeatAt)
  exact ⟨lease, hleases ▸ hlease, hheart⟩

theorem used_update (r : Resource) (lease : Lease) :
    Disk.used { disk with leases := Function.update disk.leases i (some lease) } r
      = Function.update (disk.used r) i (lease.request.of r) := by
  funext j
  unfold Disk.used
  by_cases hj : j = i
  · subst hj
    simp
  · simp [Function.update_of_ne hj]

theorem shrinks_remove (disk : Disk) (name : ℕ) :
    Shrinks disk { disk with leases := Function.update disk.leases name none } where
  now := le_refl _
  leases j lease hlease := by
    by_cases hj : j = name
    · subst hj
      exact absurd (hlease.symm.trans (Function.update_self ..)) (by simp)
    · exact ⟨lease, (Function.update_of_ne hj ..).symm.trans hlease, rfl, rfl⟩

/-- What is not named any more was moved away, or is there no more. -/
theorem covered_remove {name : ℕ} {names : List ℕ} {leases : List Lease}
    (h : Covered disk (name :: names) leases) :
    Covered { disk with leases := Function.update disk.leases name none } names leases := by
  intro j lease hlease
  by_cases hj : j = name
  · subst hj
    exact absurd (hlease.symm.trans (Function.update_self ..)) (by simp)
  · have hbefore : disk.leases j = some lease := (Function.update_of_ne hj ..).symm.trans hlease
    refine (h j lease hbefore).imp_left fun hmem => ?_
    exact (List.mem_cons.mp hmem).resolve_left hj

/-- A lease whose job runs is there, and is not stale. -/
theorem Ledger.not_running (h : Ledger config s) (halive : s.alive = true) {now name : ℕ}
    (hnow : now ≤ s.disk.now)
    (hgone : ∀ lease, s.disk.leases name = some lease → isStale now lease = true) :
    s.admittedAt name = none := by
  by_contra hsome
  obtain ⟨beatAt, hbeat⟩ := Option.ne_none_iff_exists'.mp hsome
  obtain ⟨q, hq, hadmitted⟩ := Option.bind_eq_some_iff.mp hbeat
  obtain ⟨lease, hlease, rfl⟩ := (h.fits name q hq).kept beatAt hadmitted
  have hstale := hgone lease hlease
  have hall := List.all_eq_true.mp halive q (List.mem_of_getElem? hq)
  rw [hadmitted] at hall
  have hle : s.disk.now ≤ lease.heartbeatAt + leaseStaleMs := of_decide_eq_true hall
  have hlt : leaseStaleMs < now - lease.heartbeatAt := of_decide_eq_true hstale
  omega

/-- The process that writes its lease is alone inside. -/
theorem Ledger.publish (h : Ledger config s) (hheld : StaleLock.Held lockStaleMs s.lock)
    {since : ℕ} {a : Decision} (hp : s.processes[i]? = some p)
    (hphase : p.phase = .publish since a) :
    Ledger config (s.enter i p
      { s.disk with leases := Function.update s.disk.leases i (some (p.lease i)) }
      (.leave since (.ok a))) := by
  have hfits := h.fits i p hp
  have hvalid : p.request.Valid := hfits.request (by rw [hphase]; rfl)
  -- The guard is ours, so nobody else counts leases meanwhile.
  have hothers : ∀ (j : ℕ) (q : Process), j ≠ i → s.processes[j]? = some q →
      q.phase.since = none := by
    intro j q hj hq
    by_contra hsome
    refine hj (hheld.unique (i := j) (j := i) ?_ ?_)
    · rw [show s.lock.holding j = q.phase.since from StaleLock.heldBy_of_getElem hq]
      exact Option.ne_none_iff_isSome.mp hsome
    · rw [show s.lock.holding i = p.phase.since from StaleLock.heldBy_of_getElem hp, hphase]
      rfl
  refine ⟨fun j q hq => ?_, fun j lease hlease => ?_, ?_⟩
  · by_cases hj : j = i
    · subst hj
      obtain rfl := Option.some.inj ((getElem_enter_self hp).symm.trans hq)
      refine ⟨fun _ => hvalid, hfits.now, fun lease hlease => ?_, fun beatAt hbeat => ?_,
        fun _ hcarried => absurd hcarried (by simp [Phase.carried]),
        fun _ hname => absurd hname (by simp [Phase.archiving]),
        fun _ _ hcount => absurd hcount (by simp [Phase.counting]),
        fun htrue => absurd htrue (by simp [Phase.admits])⟩
      · have hnew : Function.update s.disk.leases j (some (p.lease j)) j = some lease := hlease
        rw [Function.update_self] at hnew
        obtain rfl := Option.some.inj hnew
        exact ⟨rfl, rfl, hvalid⟩
      · refine ⟨p.lease j, Function.update_self .., ?_⟩
        have hnow : (if a.admitted = true then some p.now else none) = some beatAt := hbeat
        split at hnow
        · exact Option.some.inj hnow
        · exact absurd hnow (by simp)
    · rw [getElem_enter_of_ne hj] at hq
      exact (h.fits j q hq).of_outside (hothers j q hj hq) (le_refl _) (Function.update_of_ne hj ..)
  · rw [length_enter]
    by_cases hj : j = i
    · rw [hj]
      exact (List.getElem?_eq_some_iff.mp hp).1
    · exact h.known j lease ((Function.update_of_ne hj ..).symm.trans hlease)
  -- The count was made under the guard and left room for this lease.
  · obtain ⟨budget, hbudget, hroom⟩ := hfits.room (by rw [hphase]; rfl)
    refine Or.inr ⟨budget, hbudget, fun r F => ?_⟩
    have hsum := sum_update_le (s.disk.used r) i (hvalid.nonneg r) F
    have hle := hroom r (F.erase i)
    show ∑ j ∈ F, Disk.used _ r j ≤ budget.of r
    rw [show (s.enter i p { s.disk with
      leases := Function.update s.disk.leases i (some (p.lease i)) } (.leave since (.ok a))).disk
      = { s.disk with leases := Function.update s.disk.leases i (some (p.lease i)) } from rfl,
      used_update]
    exact hsum.trans hle

/-- A heartbeat writes over its own lease. -/
theorem Ledger.beat (h : Ledger config s) {beatAt : ℕ} {lease : Lease}
    (hp : s.processes[i]? = some p) (hphase : p.phase = .beatPublish beatAt lease) :
    Ledger config (s.enter i p
      { s.disk with leases := Function.update s.disk.leases i (some lease) }
      (.running lease.heartbeatAt)) := by
  have hfits := h.fits i p hp
  have hbeat : p.admittedAt = some beatAt := by
    unfold Process.admittedAt
    rw [hphase]
  obtain ⟨old, hold, -⟩ := hfits.kept beatAt hbeat
  obtain ⟨hidentity, hrequest⟩ := hfits.carried lease (by rw [hphase]; rfl)
  obtain ⟨hidentity', hrequest', hvalid⟩ := hfits.own old hold
  refine h.enter hp ⟨le_refl _, fun j lease' hlease' => ?_⟩
    (fun j q hj _ => Or.inl (Function.update_of_ne hj ..))
    (fun hidle => absurd (hbeat.symm.trans hidle) (by simp))
    ⟨fun _ => hvalid, hfits.now, fun lease' hlease' => ?_, fun beatAt' hbeat' => ?_,
      fun _ hcarried => absurd hcarried (by simp [Phase.carried]),
      fun _ hname => absurd hname (by simp [Phase.archiving]),
      fun _ _ hcount => absurd hcount (by simp [Phase.counting]),
      fun htrue => absurd htrue (by simp [Phase.admits])⟩
  · by_cases hj : j = i
    · subst hj
      have hnew : Function.update s.disk.leases j (some lease) j = some lease' := hlease'
      rw [Function.update_self] at hnew
      obtain rfl := Option.some.inj hnew
      exact ⟨old, hold, hidentity.trans hidentity'.symm, hrequest.trans hrequest'.symm⟩
    · exact ⟨lease', (Function.update_of_ne hj ..).symm.trans hlease', rfl, rfl⟩
  · have hnew : Function.update s.disk.leases i (some lease) i = some lease' := hlease'
    rw [Function.update_self] at hnew
    obtain rfl := Option.some.inj hnew
    exact ⟨hidentity, hrequest, hvalid⟩
  · refine ⟨lease, Function.update_self .., ?_⟩
    exact Option.some.inj (show some lease.heartbeatAt = some beatAt' from hbeat')

/-- The next lease is read: it is counted, or archived if it is gone or stale. -/
theorem Ledger.call_read (h : Ledger config s) (halive : s.alive = true)
    (hp : s.processes[i]? = some p) {since name : ℕ} {names : List ℕ} {leases : List Lease}
    (hphase : p.phase = .read since name names leases)
    (hcall : p.call config i s.disk = some (disk, phase)) :
    Ledger config (s.enter i p disk phase) := by
  have hfits := h.fits i p hp
  have hadmitted : p.admittedAt
      = Process.admittedAt { p with phase := .read since name names leases } := by
    rw [← hphase]
  unfold Process.call at hcall
  have hcovered : Covered s.disk (name :: names) leases :=
    hfits.counted _ _ (by rw [hphase]; rfl)
  have hidle : p.admittedAt = none := hadmitted
  -- a lease that is gone or stale is not that of a job that runs
  have harchive : (∀ lease, s.disk.leases name = some lease → isStale p.now lease = true) →
      Ledger config (s.enter i p s.disk (.archive since name names leases)) := by
    intro hgone
    refine h.enter_same hp rfl rfl (fun _ => rfl) ⟨fun _ => hfits.request (by rw [hphase]; rfl),
      hfits.now, hfits.own, fun _ hbeat => absurd hbeat (by simp [Process.admittedAt]),
      fun _ hcarried => absurd hcarried (by simp [Phase.carried]), fun name' hname => ?_,
      fun names' leases' hcount => ?_, fun htrue => absurd htrue (by simp [Phase.admits])⟩
    · obtain rfl := Option.some.inj (show some name = some name' from hname)
      by_cases hi : name = i
      · subst hi
        exact admittedAt_enter_self hp
      · rw [admittedAt_enter_of_ne hi]
        exact h.not_running halive hfits.now hgone
    · obtain ⟨rfl, rfl⟩ := Prod.mk.inj (Option.some.inj
        (show some (name :: names, leases) = some (names', leases') from hcount))
      exact hcovered
  rw [hphase] at hcall
  dsimp only at hcall
  split at hcall
  next hnone =>
    obtain ⟨rfl, rfl⟩ := Prod.mk.inj (Option.some.inj hcall)
    exact harchive fun lease hlease => absurd (hnone.symm.trans hlease) (by simp)
  next lease hlease =>
    split at hcall
    next hstale =>
      obtain ⟨rfl, rfl⟩ := Prod.mk.inj (Option.some.inj hcall)
      refine harchive fun lease' hlease' => ?_
      rw [← Option.some.inj (hlease.symm.trans hlease')]
      exact hstale
    next =>
      obtain ⟨rfl, rfl⟩ := Prod.mk.inj (Option.some.inj hcall)
      have hcounted : Covered s.disk names (leases ++ [lease]) := by
        intro j lease' hlease'
        rcases hcovered j lease' hlease' with hmem | ⟨c, hc, hidentity, hrequest⟩
        · rcases List.mem_cons.mp hmem with rfl | hmem
          · obtain rfl := Option.some.inj (hlease.symm.trans hlease')
            have hq := List.getElem?_eq_getElem (h.known j lease hlease)
            refine Or.inr ⟨lease, by simp, ((h.fits j _ hq).own lease hlease).1, rfl⟩
          · exact Or.inl hmem
        · exact Or.inr ⟨c, List.mem_append_left _ hc, hidentity, hrequest⟩
      have hnew : ∀ busy', Fits config s.disk busy' i
          { p with phase := counting config p.request since names (leases ++ [lease]) } :=
        fun busy' => hfits.counting (by rw [hphase]; rfl) (le_refl _) (Or.inl rfl) hcounted
          fun j lease hlease => h.valid hlease
      refine h.enter_same hp rfl rfl (fun _ => ?_) (hnew _)
      exact admittedAt_counting ..

/-- A lease that nobody runs under is archived. -/
theorem Ledger.call_archive (h : Ledger config s) (hp : s.processes[i]? = some p)
    {since name : ℕ} {names : List ℕ} {leases : List Lease}
    (hphase : p.phase = .archive since name names leases)
    (hcall : p.call config i s.disk = some (disk, phase)) :
    Ledger config (s.enter i p disk phase) := by
  have hfits := h.fits i p hp
  unfold Process.call at hcall
  have hcovered : Covered s.disk (name :: names) leases :=
    hfits.counted _ _ (by rw [hphase]; rfl)
  have hidle : s.admittedAt name = none := hfits.archived name (by rw [hphase]; rfl)
  rw [hphase] at hcall
  obtain ⟨rfl, rfl⟩ := Prod.mk.inj (Option.some.inj hcall)
  refine h.enter hp (shrinks_remove s.disk name) (fun j q _ hq => ?_)
    (fun _ => admittedAt_counting ..) (hfits.counting (by rw [hphase]; rfl) (le_refl _) ?_
    (covered_remove hcovered) fun j lease hlease => ?_)
  · by_cases hj : j = name
    · subst hj
      exact Or.inr ⟨(admittedAt_of_getElem hq).symm.trans hidle, Function.update_self ..⟩
    · exact Or.inl (Function.update_of_ne hj ..)
  · by_cases hi : i = name
    · subst hi
      exact Or.inr (Function.update_self ..)
    · exact Or.inl (Function.update_of_ne hi ..)
  · obtain ⟨before, hbefore, -, hrequest⟩ := (shrinks_remove s.disk name).leases j lease hlease
    rw [hrequest]
    exact h.valid hbefore

/-- The temporary file of an admitted lease is opened. -/
theorem Ledger.call_openTemporary (h : Ledger config s) (hp : s.processes[i]? = some p)
    {since : ℕ} {a : Decision} (hphase : p.phase = .openTemporary since a)
    (hcall : p.call config i s.disk = some (disk, phase)) :
    Ledger config (s.enter i p disk phase) := by
  have hfits := h.fits i p hp
  unfold Process.call at hcall
  have hroom : Room config s.disk p.request := hfits.room (by rw [hphase]; rfl)
  have hover : p.phase.over = false := by rw [hphase]; rfl
  rw [hphase] at hcall
  obtain ⟨rfl, rfl⟩ := Prod.mk.inj (Option.some.inj hcall)
  exact h.enter_same hp rfl rfl (fun _ => rfl) ⟨fun _ => hfits.request hover,
    hfits.now, hfits.own, fun _ hbeat => absurd hbeat (by simp [Process.admittedAt]),
    fun _ hcarried => absurd hcarried (by simp [Phase.carried]),
    fun _ hname => absurd hname (by simp [Phase.archiving]),
    fun _ _ hcount => absurd hcount (by simp [Phase.counting]), fun _ => hroom⟩

/-- The guard is left, with a job that runs or without. -/
theorem Ledger.call_leave (h : Ledger config s) (hp : s.processes[i]? = some p)
    {since : ℕ} {result : Except String Decision} (hphase : p.phase = .leave since result)
    (hcall : p.call config i s.disk = some (disk, phase)) :
    Ledger config (s.enter i p disk phase) := by
  have hadmitted : p.admittedAt = Process.admittedAt { p with phase := .leave since result } := by
    rw [← hphase]
  unfold Process.call at hcall
  have hover : p.phase.over = false := by rw [hphase]; rfl
  rw [hphase] at hcall
  dsimp only at hcall
  split at hcall
  next =>
    obtain ⟨rfl, rfl⟩ := Prod.mk.inj (Option.some.inj hcall)
    exact h.enter_quiet hp hover rfl rfl rfl rfl rfl rfl rfl
  next =>
    obtain ⟨rfl, rfl⟩ := Prod.mk.inj (Option.some.inj hcall)
    cases result with
    | error e => exact h.enter_quiet hp hover rfl rfl rfl rfl rfl rfl rfl
    | ok a =>
      dsimp only
      by_cases ha : a.admitted = true
      · rw [if_pos ha]
        refine h.enter_running hp hover rfl rfl ?_ (fun _ hc => absurd hc (by simp [Phase.carried]))
          rfl rfl rfl
        rw [hadmitted]
        show some p.now = if a.admitted = true then some p.now else none
        rw [if_pos ha]
      · rw [if_neg ha]
        exact h.enter_quiet hp hover rfl rfl rfl rfl rfl rfl rfl

/-- A heartbeat reads the lease it is for. -/
theorem Ledger.call_beatRead (h : Ledger config s) (hp : s.processes[i]? = some p)
    {beatAt : ℕ} (hphase : p.phase = .beatRead beatAt)
    (hcall : p.call config i s.disk = some (disk, phase)) :
    Ledger config (s.enter i p disk phase) := by
  have hfits := h.fits i p hp
  have hadmitted : p.admittedAt = Process.admittedAt { p with phase := .beatRead beatAt } := by
    rw [← hphase]
  unfold Process.call at hcall
  have hover : p.phase.over = false := by rw [hphase]; rfl
  rw [hphase] at hcall
  dsimp only at hcall
  split at hcall
  next =>
    obtain ⟨rfl, rfl⟩ := Prod.mk.inj (Option.some.inj hcall)
    exact h.enter_running hp hover rfl rfl hadmitted.symm
      (fun _ hc => absurd hc (by simp [Phase.carried])) rfl rfl rfl
  next current hcurrent =>
    obtain ⟨rfl, rfl⟩ := Prod.mk.inj (Option.some.inj hcall)
    obtain ⟨hidentity, hrequest, -⟩ := hfits.own current hcurrent
    rw [if_pos hidentity]
    refine h.enter_running hp hover rfl rfl hadmitted.symm (fun lease hlease => ?_)
      rfl rfl rfl
    obtain rfl := Option.some.inj (show some current = some lease from hlease)
    exact ⟨hidentity, hrequest⟩

/-- A heartbeat opens the temporary file of the lease. -/
theorem Ledger.call_beatOpen (h : Ledger config s) (hp : s.processes[i]? = some p)
    {beatAt : ℕ} {current : Lease} (hphase : p.phase = .beatOpen beatAt current)
    (hcall : p.call config i s.disk = some (disk, phase)) :
    Ledger config (s.enter i p disk phase) := by
  have hfits := h.fits i p hp
  have hadmitted : p.admittedAt
      = Process.admittedAt { p with phase := .beatOpen beatAt current } := by
    rw [← hphase]
  unfold Process.call at hcall
  have hover : p.phase.over = false := by rw [hphase]; rfl
  obtain ⟨hidentity, hrequest⟩ := hfits.carried current (by rw [hphase]; rfl)
  rw [hphase] at hcall
  obtain ⟨rfl, rfl⟩ := Prod.mk.inj (Option.some.inj hcall)
  refine h.enter_running hp hover rfl rfl hadmitted.symm (fun lease hlease => ?_)
    rfl rfl rfl
  obtain rfl := Option.some.inj
    (show some { current with heartbeatAt := s.disk.now } = some lease from hlease)
  exact ⟨hidentity, hrequest⟩

/-- A job that ends reads its lease. -/
theorem Ledger.call_finish (h : Ledger config s) (hp : s.processes[i]? = some p)
    (hphase : p.phase = .finish)
    (hcall : p.call config i s.disk = some (disk, phase)) :
    Ledger config (s.enter i p disk phase) := by
  have hfits := h.fits i p hp
  unfold Process.call at hcall
  have hover : p.phase.over = false := by rw [hphase]; rfl
  rw [hphase] at hcall
  dsimp only at hcall
  split at hcall
  next =>
    obtain ⟨rfl, rfl⟩ := Prod.mk.inj (Option.some.inj hcall)
    exact h.enter_quiet hp hover rfl rfl rfl rfl rfl rfl rfl
  next current hcurrent =>
    obtain ⟨rfl, rfl⟩ := Prod.mk.inj (Option.some.inj hcall)
    rw [if_pos (hfits.own current hcurrent).1]
    exact h.enter_quiet hp hover rfl rfl rfl rfl rfl rfl rfl

/-- A job that ends removes its lease. -/
theorem Ledger.call_unlink (h : Ledger config s) (hp : s.processes[i]? = some p)
    (hphase : p.phase = .unlink)
    (hcall : p.call config i s.disk = some (disk, phase)) :
    Ledger config (s.enter i p disk phase) := by
  have hfits := h.fits i p hp
  unfold Process.call at hcall
  have hover : p.phase.over = false := by rw [hphase]; rfl
  rw [hphase] at hcall
  obtain ⟨rfl, rfl⟩ := Prod.mk.inj (Option.some.inj hcall)
  exact h.enter hp (shrinks_remove s.disk i)
    (fun j q hj _ => Or.inl (Function.update_of_ne hj ..)) (fun _ => rfl)
    (hfits.quiet hover (le_refl _) (Or.inr (Function.update_self ..)) rfl rfl rfl rfl rfl)

/-- **What one call keeps.** -/
theorem Ledger.call (h : Ledger config s) (hheld : StaleLock.Held lockStaleMs s.lock)
    (halive : s.alive = true) (hp : s.processes[i]? = some p)
    (hcall : p.call config i s.disk = some (disk, phase)) :
    Ledger config (s.enter i p disk phase) := by
  cases hphase : p.phase with
  | create left =>
    -- Up to the guard nothing changes that the ledger counts.
    unfold Process.call at hcall
    rw [hphase] at hcall
    dsimp only at hcall
    split at hcall
    next =>
      obtain ⟨rfl, rfl⟩ := Prod.mk.inj (Option.some.inj hcall)
      exact h.enter_quiet hp (by rw [hphase]; rfl) rfl rfl rfl rfl rfl rfl rfl
    next =>
      obtain ⟨rfl, rfl⟩ := Prod.mk.inj (Option.some.inj hcall)
      exact h.enter_quiet hp (by rw [hphase]; rfl) rfl rfl rfl rfl rfl rfl rfl
  | look left =>
    unfold Process.call at hcall
    rw [hphase] at hcall
    dsimp only at hcall
    split at hcall
    next =>
      obtain ⟨rfl, rfl⟩ := Prod.mk.inj (Option.some.inj hcall)
      exact h.enter_quiet hp (by rw [hphase]; rfl) rfl rfl rfl rfl rfl rfl rfl
    next =>
      obtain ⟨rfl, rfl⟩ := Prod.mk.inj (Option.some.inj hcall)
      exact h.enter_quiet hp (by rw [hphase]; rfl) rfl rfl rfl rfl rfl rfl rfl
  | judge left mtime =>
    unfold Process.call at hcall
    rw [hphase] at hcall
    obtain ⟨rfl, rfl⟩ := Prod.mk.inj (Option.some.inj hcall)
    by_cases hlt : lockStaleMs < s.disk.now - mtime
    · rw [if_pos hlt]
      exact h.enter_quiet hp (by rw [hphase]; rfl) rfl rfl rfl rfl rfl rfl rfl
    · rw [if_neg hlt]
      exact h.enter_quiet hp (by rw [hphase]; rfl) rfl rfl rfl rfl rfl rfl rfl
  | takeAway left =>
    unfold Process.call at hcall
    rw [hphase] at hcall
    obtain ⟨rfl, rfl⟩ := Prod.mk.inj (Option.some.inj hcall)
    exact h.enter_quiet hp (by rw [hphase]; rfl) rfl rfl rfl rfl rfl rfl rfl
  | pause left =>
    unfold Process.call at hcall
    rw [hphase] at hcall
    obtain ⟨rfl, rfl⟩ := Prod.mk.inj (Option.some.inj hcall)
    by_cases hle : left ≤ 1
    · rw [if_pos hle]
      exact h.enter_quiet hp (by rw [hphase]; rfl) rfl rfl rfl rfl rfl rfl rfl
    · rw [if_neg hle]
      exact h.enter_quiet hp (by rw [hphase]; rfl) rfl rfl rfl rfl rfl rfl rfl
  | list since =>
    -- A listing is a step of its own, and so is the wait of a process that runs.
    unfold Process.call at hcall
    rw [hphase] at hcall
    exact absurd hcall (by simp)
  | read since name names leases =>
    exact h.call_read halive hp hphase hcall
  | archive since name names leases =>
    exact h.call_archive hp hphase hcall
  | openTemporary since a =>
    exact h.call_openTemporary hp hphase hcall
  | publish since a =>
    unfold Process.call at hcall
    rw [hphase] at hcall
    obtain ⟨rfl, rfl⟩ := Prod.mk.inj (Option.some.inj hcall)
    exact h.publish hheld hp hphase
  | leave since result =>
    exact h.call_leave hp hphase hcall
  | running beatAt =>
    unfold Process.call at hcall
    rw [hphase] at hcall
    exact absurd hcall (by simp)
  | beatRead beatAt =>
    exact h.call_beatRead hp hphase hcall
  | beatOpen beatAt current =>
    exact h.call_beatOpen hp hphase hcall
  | beatPublish beatAt lease =>
    unfold Process.call at hcall
    rw [hphase] at hcall
    obtain ⟨rfl, rfl⟩ := Prod.mk.inj (Option.some.inj hcall)
    exact h.beat hp hphase
  | finish =>
    exact h.call_finish hp hphase hcall
  | unlink =>
    exact h.call_unlink hp hphase hcall
  | ended result =>
    unfold Process.call at hcall
    rw [hphase] at hcall
    exact absurd hcall (by simp)
  | killed =>
    unfold Process.call at hcall
    rw [hphase] at hcall
    exact absurd hcall (by simp)

/-- **What another turn of a process keeps.** -/
theorem Ledger.turn {e : Event} (h : Ledger config s) (hp : s.processes[i]? = some p)
    (hturn : p.phase.turn s.disk s.processes.length config p.request e = some phase) :
    Ledger config (s.enter i p s.disk phase) := by
  have hfits := h.fits i p hp
  have hadmitted : ∀ phase, p.phase = phase →
      p.admittedAt = Process.admittedAt { p with phase := phase } := by
    rintro _ rfl
    rfl
  unfold Phase.turn at hturn
  split at hturn
  next names since hphase =>
    have hover : p.phase.over = false := by rw [hphase]; rfl
    split at hturn
    next hperm =>
      obtain rfl := Option.some.inj hturn
      -- Every lease there is has been listed, so each is still to be read.
      have hcovered : Covered s.disk names [] := by
        intro j lease hlease
        refine Or.inl (hperm.mem_iff.mpr (List.mem_filter.mpr ⟨?_, ?_⟩))
        · exact List.mem_range.mpr (h.known j lease hlease)
        · rw [hlease]
          rfl
      exact h.enter_same hp rfl rfl (fun _ => admittedAt_counting ..) (hfits.counting hover
        (le_refl _) (Or.inl rfl) hcovered fun j lease hlease => h.valid hlease)
    next => exact absurd hturn (by simp)
  next beatAt hphase =>
    have hover : p.phase.over = false := by rw [hphase]; rfl
    obtain rfl := Option.some.inj hturn
    exact h.enter_running hp hover rfl rfl (hadmitted _ hphase).symm
      (fun _ hc => absurd hc (by simp [Phase.carried])) rfl rfl rfl
  next beatAt hphase =>
    have hover : p.phase.over = false := by rw [hphase]; rfl
    obtain rfl := Option.some.inj hturn
    exact h.enter_quiet hp hover rfl rfl rfl rfl rfl rfl rfl
  next =>
    obtain rfl := Option.some.inj hturn
    exact h.enter_same hp rfl rfl (fun _ => rfl) ⟨fun hover => absurd hover (by simp [Phase.over]),
      hfits.now, hfits.own, fun _ hbeat => absurd hbeat (by simp [Process.admittedAt]),
      fun _ hcarried => absurd hcarried (by simp [Phase.carried]),
      fun _ hname => absurd hname (by simp [Phase.archiving]),
      fun _ _ hcount => absurd hcount (by simp [Phase.counting]),
      fun htrue => absurd htrue (by simp [Phase.admits])⟩
  next => exact absurd hturn (by simp)

/-- A process that starts has nothing yet. -/
theorem Ledger.start (h : Ledger config s) (resourceClass : String) :
    Ledger config { s with
      processes := s.processes ++ [acquire config resourceClass s.disk.now] } := by
  have hnow : (acquire config resourceClass s.disk.now).now = s.disk.now := by
    unfold acquire
    split <;> rfl
  -- The process is a new one, and no lease has its number.
  have hnew : s.disk.leases s.processes.length = none := by
    by_contra hsome
    obtain ⟨lease, hlease⟩ := Option.ne_none_iff_exists'.mp hsome
    exact absurd (h.known _ lease hlease) (lt_irrefl _)
  have hidle : (acquire config resourceClass s.disk.now).admittedAt = none := by
    unfold Process.admittedAt
    rcases phase_acquire config resourceClass s.disk.now with ⟨e, he⟩ | ⟨hcreate, -⟩
    · rw [he]
    · rw [hcreate]
  have hbusy : ∀ k, s.admittedAt k = none → Shared.admittedAt { s with
      processes := s.processes ++ [acquire config resourceClass s.disk.now] } k = none := by
    intro k hk
    by_contra hsome
    obtain ⟨beatAt, hbeat⟩ := Option.ne_none_iff_exists'.mp hsome
    obtain ⟨q, hq, hadmitted⟩ := Option.bind_eq_some_iff.mp hbeat
    rcases getElem_append_cases hq with hold | ⟨-, rfl⟩
    · exact absurd (hk.symm.trans ((admittedAt_of_getElem hold).trans hadmitted)) (by simp)
    · exact absurd (hidle.symm.trans hadmitted) (by simp)
  refine ⟨fun j q hq => ?_, fun j lease hlease => ?_, h.spent⟩
  · rcases getElem_append_cases hq with hold | ⟨rfl, rfl⟩
    · exact (h.fits j q hold).shrink (.of_leases (le_refl _) rfl) h.nonneg (Or.inl rfl) hbusy
    · refine ⟨fun hover => ?_, hnow.le, fun lease hlease =>
        absurd (hnew.symm.trans hlease) (by simp),
        fun _ hbeat => absurd (hidle.symm.trans hbeat) (by simp), ?_, ?_, ?_, ?_⟩
      · rcases phase_acquire config resourceClass s.disk.now with ⟨e, he⟩ | ⟨-, hvalid⟩
        · rw [he] at hover
          exact absurd hover (by simp [Phase.over])
        · exact hvalid
      all_goals rcases phase_acquire config resourceClass s.disk.now with ⟨e, he⟩ | ⟨hcreate, -⟩
      · simp [he, Phase.carried]
      · simp [hcreate, Phase.carried]
      · simp [he, Phase.archiving]
      · simp [hcreate, Phase.archiving]
      · simp [he, Phase.counting]
      · simp [hcreate, Phase.counting]
      · simp [he, Phase.admits]
      · simp [hcreate, Phase.admits]
  · show j < (s.processes ++ [acquire config resourceClass s.disk.now]).length
    rw [List.length_append]
    exact Nat.lt_add_right _ (h.known j lease hlease)

/-- **What a step keeps.** -/
theorem Ledger.step {t : Shared} {e : Event} (h : Ledger config s)
    (hheld : StaleLock.Held lockStaleMs s.lock) (halive : s.alive = true)
    (hstep : s.step config e = some t) : Ledger config t := by
  rcases step_cases hstep with
    ⟨resourceClass, rfl, rfl⟩ | ⟨i, p, disk, phase, rfl, hp, hcall, rfl⟩ |
    ⟨i, p, phase, hp, hturn, rfl⟩ | ⟨ms, rfl, rfl⟩
  · exact h.start resourceClass
  · exact h.call hheld halive hp hcall
  · exact h.turn hp hturn
  · have hlater : s.disk.now ≤ s.disk.now + ms := Nat.le_add_right ..
    exact ⟨fun j q hq => (h.fits j q hq).shrink (.of_leases hlater rfl) h.nonneg (Or.inl rfl)
      fun k hk => hk, h.known, h.spent⟩

end Ledger

/-! ## Runs -/

theorem ledger_of_run {config : Config} {s t : Shared} {labels : List Event}
    (hinit : (guardedStale config).init s) (hrun : (guardedStale config).Run s labels t) :
    Ledger config t ∧ t.alive = true := by
  induction hrun with
  | nil =>
    obtain ⟨hprocesses, -, hleases⟩ := hinit
    refine ⟨⟨fun i p hp => ?_, fun j lease hlease => ?_, Or.inl hleases⟩, ?_⟩
    · rw [hprocesses] at hp
      exact absurd hp (by simp)
    · exact absurd (hlease.symm.trans (hleases j)) (by simp)
    · unfold Shared.alive
      rw [hprocesses]
      rfl
  | snoc hbefore hlast ih =>
    obtain ⟨hstep, -, halive⟩ := next_eq_some.mp hlast.1
    exact ⟨ih.1.step (held_of_reachable ⟨s, _, hinit, hbefore⟩) ih.2 hstep, halive⟩

/-- The processes whose jobs are admitted and have not ended. -/
def Shared.jobs (s : Shared) : Finset ℕ :=
  (Finset.range s.processes.length).filter fun i => (s.admittedAt i).isSome

/-- What their jobs request. -/
def Shared.requested (s : Shared) (r : Resource) : ℤ :=
  ∑ i ∈ s.jobs, ((s.processes[i]?).map fun p => p.request.of r).getD 0

/-- What is to hold in every state of a run. -/
structure Sound (config : Config) (s : Shared) : Prop where
  /-- No two processes are inside the guarded section. -/
  exclusive : ∀ i j, (s.holding i).isSome = true → (s.holding j).isSome = true → i = j
  /-- If jobs run, their requests fit into what services and reserves leave. -/
  within : s.jobs = ∅ ∨ ∃ reserved, reservedCapacity config = .ok reserved ∧
    s.requested .memory ≤ (config.field .namespaceMemoryLimitBytes).getD 0
      - (config.field .residentServiceMemoryBytes).getD 0 - reserved.bytes ∧
    s.requested .cpu ≤ (config.field .namespaceCpuLimitMillicores).getD 0
      - (config.field .residentServiceCpuMillicores).getD 0 - reserved.millicores

/-- A job that runs has its lease. -/
theorem Ledger.requested_eq {config : Config} {s : Shared} (h : Ledger config s) (r : Resource) :
    s.requested r = ∑ i ∈ s.jobs, s.disk.used r i := by
  unfold Shared.requested
  refine Finset.sum_congr rfl fun i hi => ?_
  obtain ⟨beatAt, hbeat⟩ := Option.isSome_iff_exists.mp (Finset.mem_filter.mp hi).2
  obtain ⟨p, hp, hadmitted⟩ := Option.bind_eq_some_iff.mp hbeat
  obtain ⟨lease, hlease, -⟩ := (h.fits i p hp).kept beatAt hadmitted
  obtain ⟨-, hrequest, -⟩ := (h.fits i p hp).own lease hlease
  unfold Disk.used
  rw [hp, hlease]
  show p.request.of r = lease.request.of r
  rw [hrequest]

/-- **The namespace is never oversubscribed**, as long as nobody removes a guard that is
not stale. -/
theorem never_oversubscribed {config : Config} {s : Shared}
    (h : (guardedStale config).Reachable s) : Sound config s := by
  have hheld := held_of_reachable h
  obtain ⟨s₀, labels, hinit, hrun⟩ := h
  obtain ⟨hledger, -⟩ := ledger_of_run hinit hrun
  refine ⟨fun i j hi hj => hheld.unique hi hj, ?_⟩
  rcases hledger.spent with hnone | ⟨budget, hbudget, hle⟩
  · refine Or.inl (Finset.eq_empty_iff_forall_notMem.mpr fun i hi => ?_)
    obtain ⟨beatAt, hbeat⟩ := Option.isSome_iff_exists.mp (Finset.mem_filter.mp hi).2
    obtain ⟨p, hp, hadmitted⟩ := Option.bind_eq_some_iff.mp hbeat
    obtain ⟨lease, hlease, -⟩ := (hledger.fits i p hp).kept beatAt hadmitted
    exact absurd (hlease.symm.trans (hnone i)) (by simp)
  · unfold workerBudget at hbudget
    obtain ⟨reserved, hreserved, hbudget⟩ := bind_eq_ok.mp hbudget
    obtain rfl := Except.ok.inj hbudget
    refine Or.inr ⟨reserved, hreserved, ?_, ?_⟩
    · rw [hledger.requested_eq]
      exact hle .memory s.jobs
    · rw [hledger.requested_eq]
      exact hle .cpu s.jobs

/-- A namespace with room for one small job. -/
def roomForOne : Config where
  schemaVersion := some 1
  field f := if f = .residentServiceMemoryBytes ∨ f = .residentServiceCpuMillicores then some 0
    else some 10
  workerReserveResourceClasses := some ["publisher"]
  resourceRequests := [("small", some 6), ("publisher", some 1)]
  resourceCpuRequestsMillicores := [("small", some 6), ("publisher", some 1)]

def nobody : Shared := ⟨⟨0, none, fun _ => none⟩, []⟩

/-- A process is killed right after it made the guard; another takes that away when it is
stale, and is admitted. -/
def afterCrash : List Event :=
  [.start "small", .start "small", .advance 0, .kill 0, .tick 30001]
    ++ List.replicate 6 (.advance 1) ++ [.readdir 1 []] ++ List.replicate 3 (.advance 1)

theorem never_oversubscribed_afterCrash : ∃ s, s.admittedAt 1 = some 0 ∧ Sound roomForOne s := by
  let turn (s : Shared) (e : Event) : Option Shared :=
    if TakesStale s e then s.next roomForOne e else none
  have hany : (afterCrash.foldlM turn nobody).any (fun s => s.admittedAt 1 = some 0) = true := by
    decide +kernel
  obtain ⟨s, hs, hadmitted⟩ := (Option.any_eq_true ..).mp hany
  refine ⟨s, of_decide_eq_true hadmitted, never_oversubscribed ⟨nobody, afterCrash,
    ⟨rfl, rfl, fun _ => rfl⟩, System.run_of_foldlM ?_ hs⟩⟩
  intro s e t hturn
  have hturn' : (if TakesStale s e then s.next roomForOne e else none) = some t := hturn
  split at hturn'
  next hstale => exact ⟨hturn', hstale⟩
  next => exact absurd hturn' (by simp)

/-- Two processes find the guard of a third stale, which was killed. The first removes it
and makes its own, and the second removes that: both are inside, count no lease, and write
theirs. -/
def bothFindStale : List Event :=
  List.replicate 3 (.start "small") ++ [.advance 0, .kill 0, .tick 30001]
    ++ List.replicate 3 (.advance 1) ++ List.replicate 3 (.advance 2)
    ++ List.replicate 3 (.advance 1) ++ List.replicate 3 (.advance 2)
    ++ [.readdir 1 [], .readdir 2 []] ++ List.replicate 2 (.advance 1)
    ++ List.replicate 2 (.advance 2)

theorem both_admitted : ¬ ∀ s, (guarded roomForOne).Reachable s → Sound roomForOne s := by
  intro h
  have hany : (bothFindStale.foldlM (Shared.next roomForOne) nobody).any (fun s =>
      (s.holding 1).isSome ∧ (s.holding 2).isSome) = true := by
    decide +kernel
  obtain ⟨s, hs, hboth⟩ := (Option.any_eq_true ..).mp hany
  obtain ⟨hfirst, hsecond⟩ := of_decide_eq_true hboth
  have hreachable : (guarded roomForOne).Reachable s :=
    ⟨nobody, bothFindStale, ⟨rfl, rfl, fun _ => rfl⟩,
      System.run_of_foldlM (fun _ _ _ hnext => hnext) hs⟩
  exact absurd ((h s hreachable).exclusive 1 2 hfirst hsecond) (by decide)

end WikiEcon.Toolforge.Admission
