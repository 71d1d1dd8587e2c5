import WikiEcon.Compute.Lifecycle

/-!
# Resuming the lifecycle state

At every December the state is saved without the `seen` sets, and a later run
may start from the newest checkpoint and skip the months it covers
(`runPartitions`).

Dropping `seen` is harmless because a December closes its month, its quarter and
its year: no pair of a later partition can have been seen before it. That is the
relation `SameAfter`, and `resume_eq_uninterrupted` is what it buys.
-/

namespace WikiEcon.Compute.Lifecycle

open Std (ExtTreeMap)
open Grouping

/-! ## Checkpoints -/

structure ChurnCheckpoint where
  active : ExtTreeMap ℤ ℕ
  spans : ExtTreeMap ℤ (ℤ × ℤ)

/-- The saved state: everything but the `seen` sets. -/
structure LifecycleCheckpoint where
  schemaVersion : ℕ
  algorithmVersion : String
  throughMonth : YearMonth
  inputMonthDigestPrefix : String
  funnelStats : ExtTreeMap ℤ (ℤ × ℕ)
  cohortSpans : ExtTreeMap ℤ (ℤ × ℤ)
  churnMonth : ChurnCheckpoint
  churnQuarter : ChurnCheckpoint
  churnYear : ChurnCheckpoint

def ChurnAccumulator.checkpoint (acc : ChurnAccumulator) : ChurnCheckpoint where
  active := acc.active
  spans := acc.spans

def ChurnCheckpoint.restore (saved : ChurnCheckpoint) (periodType : PeriodType) :
    ChurnAccumulator where
  periodType := periodType
  seen := ∅
  active := saved.active
  spans := saved.spans

def LifecycleCheckpoint.fromState (state : RegisteredState) (throughMonth : YearMonth)
    (digests : String) : LifecycleCheckpoint where
  schemaVersion := 1
  algorithmVersion := Lifecycle.algorithmVersion
  throughMonth := throughMonth
  inputMonthDigestPrefix := digests
  funnelStats := state.funnelStats
  cohortSpans := state.cohortSpans
  churnMonth := state.churnMonth.checkpoint
  churnQuarter := state.churnQuarter.checkpoint
  churnYear := state.churnYear.checkpoint

def LifecycleCheckpoint.validate (saved : LifecycleCheckpoint) (throughMonth : YearMonth)
    (digests : String) : Except String Unit :=
  ensure (saved.schemaVersion = 1 ∧ saved.algorithmVersion = Lifecycle.algorithmVersion ∧
    saved.throughMonth = throughMonth ∧ saved.inputMonthDigestPrefix = digests)
    "lifecycle checkpoint identity changed"

def LifecycleCheckpoint.intoState (saved : LifecycleCheckpoint) : RegisteredState where
  funnelStats := saved.funnelStats
  cohortSpans := saved.cohortSpans
  churnMonth := saved.churnMonth.restore .month
  churnQuarter := saved.churnQuarter.restore .quarter
  churnYear := saved.churnYear.restore .year

/-- A checkpoint passes the check it will be loaded under. -/
theorem LifecycleCheckpoint.validate_fromState (state : RegisteredState) (m : YearMonth)
    (digests : String) : (fromState state m digests).validate m digests = .ok () :=
  ensure_eq_ok.mpr ⟨rfl, rfl, rfl, rfl⟩

/-! ## The partition loop -/

/-- What the loop of `compute_all_incremental_cached` carries for this family:
the state, the digests of the months so far and the checkpoints stored. -/
structure LifecycleRun where
  state : RegisteredState
  monthDigests : List String := []
  stored : List LifecycleCheckpoint := []

section Loop

variable (order : RowOrder) (monthDigest : YearMonth → String) (prefixDigest : List String → String)
  (resumeThrough : Option YearMonth)

/-- One partition: observe it and save the state, unless a resumed run already
covers the month. The digest list grows either way. -/
def runPartition (run : LifecycleRun) (p : Partition) : LifecycleRun :=
  let monthDigests := run.monthDigests ++ [monthDigest p.yearMonth]
  let due := resumeThrough.all fun through => decide (p.yearMonth > through)
  let state := if due then run.state.observePartition order p else run.state
  let stored :=
    if p.yearMonth.isDecember && due then
      run.stored ++ [.fromState state p.yearMonth (prefixDigest monthDigests)]
    else run.stored
  { state := state, monthDigests := monthDigests, stored := stored }

def runPartitions (state : RegisteredState) (partitions : List Partition) : LifecycleRun :=
  partitions.foldl (runPartition order monthDigest prefixDigest resumeThrough)
    { state := state }

end Loop

/-! ## States that agree from a month on -/

/-- Two accumulators that differ at most in pairs up to a key. -/
structure ChurnAccumulator.SameAfter (boundary : ℤ) (a b : ChurnAccumulator) : Prop where
  periodType : a.periodType = b.periodType
  active : a.active = b.active
  spans : a.spans = b.spans
  seen : ∀ u k, boundary < k → ((u, k) ∈ a.seen ↔ (u, k) ∈ b.seen)

structure RegisteredState.SameAfter (m : YearMonth) (a b : RegisteredState) : Prop where
  funnelStats : a.funnelStats = b.funnelStats
  cohortSpans : a.cohortSpans = b.cohortSpans
  churn : ∀ p, (a.churn p).SameAfter (normalizePeriodKey m.key p) (b.churn p)

theorem ChurnAccumulator.SameAfter.observe {boundary : ℤ} {a b : ChurnAccumulator}
    (h : a.SameAfter boundary b) (u : ℤ) {k : ℤ} (hk : boundary < k) :
    (a.observe u k).SameAfter boundary (b.observe u k) := by
  by_cases hmem : (u, k) ∈ a.seen
  · have hmem' := (h.seen u k hk).mp hmem
    simpa only [ChurnAccumulator.observe, hmem, hmem', if_true] using h
  · have hmem' : (u, k) ∉ b.seen := fun hb => hmem ((h.seen u k hk).mpr hb)
    refine ⟨?_, ?_, ?_, ?_⟩
    · simp only [ChurnAccumulator.observe, hmem, hmem', if_false, h.periodType]
    · simp only [ChurnAccumulator.observe, hmem, hmem', if_false, h.active]
    · simp only [ChurnAccumulator.observe, hmem, hmem', if_false, h.spans]
    · intro u' k' hk'
      simp only [ChurnAccumulator.observe, hmem, hmem', if_false, Finset.mem_insert,
        h.seen u' k' hk']

theorem RegisteredState.SameAfter.observe {m : YearMonth} {a b : RegisteredState}
    (h : a.SameAfter m b) {c : Contribution}
    (hc : ∀ p, normalizePeriodKey m.key p < c.periodKey p) :
    (a.observe c).SameAfter m (b.observe c) where
  funnelStats := by rw [RegisteredState.observe, RegisteredState.observe, h.funnelStats]
  cohortSpans := by rw [RegisteredState.observe, RegisteredState.observe, h.cohortSpans]
  churn p := by
    rw [RegisteredState.observe_churn, RegisteredState.observe_churn]
    exact (h.churn p).observe c.userId (hc p)

/-- A partition of a later month keeps two states in agreement. -/
theorem RegisteredState.SameAfter.observePartition {m : YearMonth} {a b : RegisteredState}
    (order order' : RowOrder) (hm : m.isDecember = true) {p : Partition}
    (hp : m < p.yearMonth) (h : a.SameAfter m b) :
    (a.observePartition order p).SameAfter m (b.observePartition order' p) := by
  rw [RegisteredState.observePartition_order order' order]
  have hkeys : ∀ c ∈ contributions order p, ∀ t, normalizePeriodKey m.key t < c.periodKey t := by
    intro c hc t
    rw [periodKey_of_mem hc]
    exact normalizePeriodKey_lt_of_december hm hp t
  unfold RegisteredState.observePartition
  generalize contributions order p = cs at hkeys
  induction cs generalizing a b with
  | nil => exact h
  | cons c cs ih =>
    exact ih (h.observe (hkeys c (List.mem_cons_self ..)))
      fun c' hc' => hkeys c' (List.mem_cons_of_mem _ hc')

/-- Every pair the state has seen lies in a period up to the month's. -/
def RegisteredState.SeenUpTo (m : YearMonth) (state : RegisteredState) : Prop :=
  ∀ p u k, (u, k) ∈ (state.churn p).seen → k ≤ normalizePeriodKey m.key p

theorem RegisteredState.SeenUpTo.mono {m m' : YearMonth} {state : RegisteredState}
    (h : state.SeenUpTo m) (hm : m ≤ m') : state.SeenUpTo m' :=
  fun p u k hmem => le_trans (h p u k hmem) (normalizePeriodKey_mono hm p)

theorem RegisteredState.seenUpTo_new (m : YearMonth) : RegisteredState.new.SeenUpTo m := by
  intro p u k hmem
  cases p <;> exact absurd hmem (Finset.notMem_empty _)

theorem RegisteredState.SeenUpTo.observePartition {m : YearMonth} {state : RegisteredState}
    (order : RowOrder) {p : Partition} (hp : p.yearMonth ≤ m) (h : state.SeenUpTo m) :
    (state.observePartition order p).SeenUpTo m := by
  have hkeys : ∀ c ∈ contributions order p, ∀ t, c.periodKey t ≤ normalizePeriodKey m.key t := by
    intro c hc t
    rw [periodKey_of_mem hc]
    exact normalizePeriodKey_mono hp t
  unfold RegisteredState.observePartition
  generalize contributions order p = cs at hkeys
  induction cs generalizing state with
  | nil => exact h
  | cons c cs ih =>
    refine ih (fun t u k hmem => ?_) fun c' hc' => hkeys c' (List.mem_cons_of_mem _ hc')
    rw [RegisteredState.observe_churn, ChurnAccumulator.observe] at hmem
    split at hmem
    · exact h t u k hmem
    · rcases Finset.mem_insert.mp hmem with heq | hmem
      · obtain ⟨-, rfl⟩ := Prod.mk.inj heq
        exact hkeys c (List.mem_cons_self ..) t
      · exact h t u k hmem

/-- What a checkpoint forgets is in the past of its month. -/
theorem LifecycleCheckpoint.intoState_sameAfter {state : RegisteredState} {m : YearMonth}
    (digests : String) (h : state.SeenUpTo m)
    (htype : ∀ p, (state.churn p).periodType = p) :
    (fromState state m digests).intoState.SameAfter m state where
  funnelStats := rfl
  cohortSpans := rfl
  churn p := by
    refine ⟨?_, ?_, ?_, ?_⟩
    · rw [htype]; cases p <;> rfl
    · cases p <;> rfl
    · cases p <;> rfl
    · intro u k hk
      have hnot : (u, k) ∉ (state.churn p).seen := fun hmem => absurd (h p u k hmem) (by omega)
      have hempty : ((fromState state m digests).intoState.churn p).seen = ∅ := by
        cases p <;> rfl
      simp [hempty, hnot]

/-! ## Resuming -/

section Resume

variable {order order' : RowOrder} {monthDigest : YearMonth → String}
  {prefixDigest : List String → String}

/-- A run resumed at month `m` beside the run it stands for. -/
structure LifecycleRun.Resumes (m : YearMonth) (resumed full : LifecycleRun) : Prop where
  state : resumed.state.SameAfter m full.state
  monthDigests : resumed.monthDigests = full.monthDigests
  stored : resumed.stored = full.stored.filter fun saved => decide (m < saved.throughMonth)

/-- What the state knows once every partition up to `m` is observed. -/
structure LifecycleRun.UpTo (m : YearMonth) (run : LifecycleRun) : Prop where
  seen : run.state.SeenUpTo m
  periodType : ∀ p, (run.state.churn p).periodType = p
  stored : ∀ saved ∈ run.stored, saved.throughMonth ≤ m

theorem RegisteredState.observePartition_periodType (state : RegisteredState) (p : Partition)
    (t : PeriodType) :
    ((state.observePartition order p).churn t).periodType = (state.churn t).periodType := by
  unfold RegisteredState.observePartition
  induction contributions order p generalizing state with
  | nil => rfl
  | cons c cs ih =>
    rw [List.foldl_cons, ih, RegisteredState.observe_churn, ChurnAccumulator.observe_periodType]

theorem LifecycleRun.UpTo.runPartition {m : YearMonth} {run : LifecycleRun} {p : Partition}
    (hp : p.yearMonth ≤ m) (h : run.UpTo m) :
    (Lifecycle.runPartition order monthDigest prefixDigest none run p).UpTo m where
  seen := h.seen.observePartition order hp
  periodType t := (RegisteredState.observePartition_periodType ..).trans (h.periodType t)
  stored := by
    intro saved hsaved
    simp only [Lifecycle.runPartition, Option.all_none, Bool.and_true, if_true] at hsaved
    split at hsaved
    · rcases List.mem_append.mp hsaved with hold | hnew
      · exact h.stored saved hold
      · obtain rfl := List.mem_singleton.mp hnew
        exact hp
    · exact h.stored saved hsaved

theorem LifecycleRun.UpTo.foldl {m : YearMonth} :
    ∀ {partitions : List Partition} {run : LifecycleRun}, (∀ p ∈ partitions, p.yearMonth ≤ m) →
      run.UpTo m →
      (partitions.foldl (Lifecycle.runPartition order monthDigest prefixDigest none) run).UpTo
      m := by
  intro partitions
  induction partitions with
  | nil => intro run _ h; exact h
  | cons p rest ih =>
    intro run hle h
    exact ih (fun p' hp' => hle p' (List.mem_cons_of_mem _ hp'))
      (h.runPartition (hle p (List.mem_cons_self ..)))

/-- A resumed run skips the months its checkpoint covers. -/
theorem runPartition_covered {m : YearMonth} {run : LifecycleRun} {p : Partition}
    (hp : p.yearMonth ≤ m) :
    runPartition order monthDigest prefixDigest (some m) run p
      = { run with monthDigests := run.monthDigests ++ [monthDigest p.yearMonth] } := by
  have hdue : decide (p.yearMonth > m) = false := decide_eq_false (not_lt.mpr hp)
  simp only [runPartition, Option.all_some, hdue, Bool.and_false, Bool.false_eq_true, if_false]

theorem foldl_covered {m : YearMonth} :
    ∀ {partitions : List Partition} {run : LifecycleRun}, (∀ p ∈ partitions, p.yearMonth ≤ m) →
      partitions.foldl (runPartition order monthDigest prefixDigest (some m)) run
        = { run with
            monthDigests := run.monthDigests ++ partitions.map fun p =>
              monthDigest p.yearMonth } := by
  intro partitions
  induction partitions with
  | nil => intro run _; simp
  | cons p rest ih =>
    intro run hle
    rw [List.foldl_cons, runPartition_covered (hle p (List.mem_cons_self ..)),
      ih fun p' hp' => hle p' (List.mem_cons_of_mem _ hp')]
    simp

theorem foldl_monthDigests (resumeThrough : Option YearMonth) :
    ∀ (partitions : List Partition) (run : LifecycleRun),
      (partitions.foldl (runPartition order monthDigest prefixDigest resumeThrough)
        run).monthDigests
        = run.monthDigests ++ partitions.map fun p => monthDigest p.yearMonth := by
  intro partitions
  induction partitions with
  | nil => intro run; simp
  | cons p rest ih =>
    intro run
    rw [List.foldl_cons, ih]
    simp [runPartition]

/-- States in agreement save the same checkpoint. -/
theorem RegisteredState.SameAfter.fromState_eq {m : YearMonth} {a b : RegisteredState}
    (h : a.SameAfter m b) (throughMonth : YearMonth) (digests : String) :
    LifecycleCheckpoint.fromState a throughMonth digests
      = LifecycleCheckpoint.fromState b throughMonth digests := by
  have hsaved : ∀ p, (a.churn p).checkpoint = (b.churn p).checkpoint := by
    intro p
    rw [ChurnAccumulator.checkpoint, ChurnAccumulator.checkpoint, (h.churn p).active,
      (h.churn p).spans]
  have hm : a.churnMonth.checkpoint = b.churnMonth.checkpoint := hsaved .month
  have hq : a.churnQuarter.checkpoint = b.churnQuarter.checkpoint := hsaved .quarter
  have hy : a.churnYear.checkpoint = b.churnYear.checkpoint := hsaved .year
  simp only [LifecycleCheckpoint.fromState, h.funnelStats, h.cohortSpans, hm, hq, hy]

/-- States in agreement write the same outputs. -/
theorem RegisteredState.SameAfter.outputs_eq {m : YearMonth} {a b : RegisteredState}
    (h : a.SameAfter m b) (wiki : String) :
    writeLifecycleOutputs order wiki a = writeLifecycleOutputs order wiki b := by
  have hfinish : ∀ p, (a.churn p).finish order = (b.churn p).finish order := by
    intro p
    simp only [ChurnAccumulator.finish, (h.churn p).active, (h.churn p).spans,
      (h.churn p).periodType]
  have hm : a.churnMonth.finish order = b.churnMonth.finish order := hfinish .month
  have hq : a.churnQuarter.finish order = b.churnQuarter.finish order := hfinish .quarter
  have hy : a.churnYear.finish order = b.churnYear.finish order := hfinish .year
  simp only [writeLifecycleOutputs, h.funnelStats, h.cohortSpans, hm, hq, hy]

/-- A later partition keeps the resumed run beside the full one. -/
theorem LifecycleRun.Resumes.runPartition {m : YearMonth} {resumed full : LifecycleRun}
    {p : Partition} (hm : m.isDecember = true) (hp : m < p.yearMonth)
    (h : resumed.Resumes m full) :
    (Lifecycle.runPartition order' monthDigest prefixDigest (some m) resumed p).Resumes m
      (Lifecycle.runPartition order monthDigest prefixDigest none full p) := by
  have hdue : decide (p.yearMonth > m) = true := decide_eq_true hp
  have hstate := h.state.observePartition order' order hm hp
  refine ⟨?_, ?_, ?_⟩
  · simp only [Lifecycle.runPartition, Option.all_some, Option.all_none, hdue, if_true]
    exact hstate
  · simp only [Lifecycle.runPartition, h.monthDigests]
  · simp only [Lifecycle.runPartition, Option.all_some, Option.all_none, hdue, Bool.and_true,
      if_true, h.monthDigests, hstate.fromState_eq]
    split
    · rw [List.filter_append, h.stored]
      congr 1
      refine (List.filter_eq_self.mpr fun saved hsaved => ?_).symm
      obtain rfl := List.mem_singleton.mp hsaved
      exact decide_eq_true hp
    · exact h.stored

theorem LifecycleRun.Resumes.foldl {m : YearMonth} (hm : m.isDecember = true) :
    ∀ {partitions : List Partition} {resumed full : LifecycleRun},
      (∀ p ∈ partitions, m < p.yearMonth) → resumed.Resumes m full →
      (partitions.foldl (Lifecycle.runPartition order' monthDigest prefixDigest (some m))
        resumed).Resumes m
        (partitions.foldl (Lifecycle.runPartition order monthDigest prefixDigest none) full) := by
  intro partitions
  induction partitions with
  | nil => intro resumed full _ h; exact h
  | cons p rest ih =>
    intro resumed full hlt h
    exact ih (fun p' hp' => hlt p' (List.mem_cons_of_mem _ hp'))
      (h.runPartition hm (hlt p (List.mem_cons_self ..)))

theorem stored_runPartition (resumeThrough : Option YearMonth) {run : LifecycleRun}
    {p : Partition} {saved : LifecycleCheckpoint} (h : saved ∈ run.stored) :
    saved ∈ (runPartition order monthDigest prefixDigest resumeThrough run p).stored := by
  simp only [runPartition]
  split
  · exact List.mem_append_left _ h
  · exact h

/-- Nothing stored is dropped again. -/
theorem stored_foldl (resumeThrough : Option YearMonth) {saved : LifecycleCheckpoint} :
    ∀ (partitions : List Partition) {run : LifecycleRun}, saved ∈ run.stored →
      saved ∈ (partitions.foldl (runPartition order monthDigest prefixDigest resumeThrough)
        run).stored := by
  intro partitions
  induction partitions with
  | nil => intro run h; exact h
  | cons p rest ih => intro run h; exact ih (stored_runPartition resumeThrough h)

variable (order monthDigest prefixDigest) in
/-- A December stores the state it leaves. -/
theorem mem_stored_of_december (run : LifecycleRun) {p : Partition}
    (hp : p.yearMonth.isDecember = true) :
    let next := runPartition order monthDigest prefixDigest none run p
    LifecycleCheckpoint.fromState next.state p.yearMonth (prefixDigest next.monthDigests)
      ∈ next.stored := by
  simp only [runPartition, hp, Option.all_none, Bool.and_true, if_true]
  exact List.mem_append_right _ (List.mem_singleton_self _)

end Resume

/-- **Resuming at a December is not resuming at all.** The checkpoint the full run
stores at `last`, restored and carried over the later months alone, ends in the
full run's outputs and stores the full run's later checkpoints. -/
theorem resume_eq_uninterrupted (order order' : RowOrder) (monthDigest : YearMonth → String)
    (prefixDigest : List String → String) (wiki : String) (before after : List Partition)
    (last : Partition)
    (hasc : (before ++ last :: after).Pairwise fun p q => p.yearMonth < q.yearMonth)
    (hdec : last.yearMonth.isDecember = true) :
    let through := runPartitions order monthDigest prefixDigest none .new (before ++ [last])
    let saved := LifecycleCheckpoint.fromState through.state last.yearMonth
      (prefixDigest through.monthDigests)
    let full := runPartitions order monthDigest prefixDigest none .new (before ++ last :: after)
    let resumed := runPartitions order' monthDigest prefixDigest (some saved.throughMonth)
      saved.intoState (before ++ last :: after)
    saved ∈ full.stored ∧
    writeLifecycleOutputs order' wiki resumed.state = writeLifecycleOutputs order wiki full.state ∧
    resumed.stored
      = full.stored.filter fun later => decide (last.yearMonth < later.throughMonth) := by
  intro through saved full resumed
  have hsplit : before ++ last :: after = (before ++ [last]) ++ after := by simp
  rw [hsplit, List.pairwise_append] at hasc
  obtain ⟨hleft, -, hcross⟩ := hasc
  have hafter : ∀ p ∈ after, last.yearMonth < p.yearMonth := fun p hp =>
    hcross last (List.mem_append_right _ (List.mem_singleton_self _)) p hp
  have hbefore : ∀ p ∈ before ++ [last], p.yearMonth ≤ last.yearMonth := by
    intro p hp
    rcases List.mem_append.mp hp with hp | hp
    · exact le_of_lt ((List.pairwise_append.mp hleft).2.2 p hp last (List.mem_singleton_self _))
    · obtain rfl := List.mem_singleton.mp hp
      exact le_refl _
  -- Up to the December nothing is known of later months.
  have hupto : through.UpTo last.yearMonth := by
    refine LifecycleRun.UpTo.foldl hbefore ⟨RegisteredState.seenUpTo_new _, ?_, ?_⟩
    · intro t; cases t <;> rfl
    · intro saved hsaved; exact absurd hsaved List.not_mem_nil
  have hfull : full
      = after.foldl (runPartition order monthDigest prefixDigest none) through := by
    show runPartitions _ _ _ _ _ _ = _
    rw [hsplit, runPartitions, List.foldl_append]
    rfl
  -- The resumed run skips the months the checkpoint covers, up to their digests.
  have hresumed : resumed = after.foldl
      (runPartition order' monthDigest prefixDigest (some last.yearMonth))
      { state := saved.intoState, monthDigests := through.monthDigests } := by
    show runPartitions _ _ _ _ _ _ = _
    rw [hsplit, runPartitions, List.foldl_append]
    show after.foldl (runPartition order' monthDigest prefixDigest (some last.yearMonth))
      ((before ++ [last]).foldl (runPartition order' monthDigest prefixDigest
        (some last.yearMonth)) _) = _
    have hdigests : through.monthDigests
        = [] ++ (before ++ [last]).map fun p => monthDigest p.yearMonth :=
      foldl_monthDigests none _ _
    rw [foldl_covered hbefore, hdigests]
  have hstart : LifecycleRun.Resumes last.yearMonth
      { state := saved.intoState, monthDigests := through.monthDigests } through := by
    refine ⟨LifecycleCheckpoint.intoState_sameAfter _ hupto.seen hupto.periodType, rfl, ?_⟩
    rw [List.filter_eq_nil_iff.mpr fun saved hsaved => by
      simpa using hupto.stored saved hsaved]
  -- From there both runs take the same months, and stay the same for what is to come.
  have hend : resumed.Resumes last.yearMonth full := by
    rw [hresumed, hfull]
    exact hstart.foldl hdec hafter
  have hthrough : through = runPartition order monthDigest prefixDigest none
      (runPartitions order monthDigest prefixDigest none .new before) last := by
    show runPartitions _ _ _ _ _ _ = _
    rw [runPartitions, List.foldl_append]
    rfl
  refine ⟨?_, ?_, hend.stored⟩
  · rw [hfull]
    apply stored_foldl
    have hmem := mem_stored_of_december order monthDigest prefixDigest
      (runPartitions order monthDigest prefixDigest none .new before) hdec
    rw [← hthrough] at hmem
    exact hmem
  · rw [writeLifecycleOutputs_order order' order]
    exact hend.state.outputs_eq wiki

/-- One registered editor with one revision. -/
def editorRow (userId year : ℤ) : Row where
  userType := some "registered"
  eventUserId := some userId
  revisionId := some 1
  year := some year

def december2023 : Partition :=
  .ofMonth (.ofYear 2023 11) [editorRow 7 2023, editorRow 8 2023]

def january2024 : Partition :=
  .ofMonth (.ofYear 2024 0) [editorRow 7 2024]

theorem resume_eq_uninterrupted_2023 :
    let run := runPartitions RowOrder.asComputed (fun m => toString m.year) String.join
    let through := run none .new [december2023]
    let saved := LifecycleCheckpoint.fromState through.state december2023.yearMonth
      (String.join through.monthDigests)
    let full := run none .new [december2023, january2024]
    let resumed := run (some saved.throughMonth) saved.intoState [december2023, january2024]
    (writeLifecycleOutputs RowOrder.asComputed "simplewiki" full.state).laborChurn.length = 6 ∧
    writeLifecycleOutputs RowOrder.asComputed "simplewiki" resumed.state
      = writeLifecycleOutputs RowOrder.asComputed "simplewiki" full.state :=
  ⟨by decide, (resume_eq_uninterrupted RowOrder.asComputed RowOrder.asComputed
    (fun m => toString m.year) String.join "simplewiki" [] [january2024] december2023
    (by decide) (by decide)).2.1⟩

end WikiEcon.Compute.Lifecycle
