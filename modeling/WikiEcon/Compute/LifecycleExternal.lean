import WikiEcon.Compute.Lifecycle
import WikiEcon.Lib.KWayMerge
import Mathlib.Algebra.BigOperators.Group.List.Basic

/-!
# Lifecycle metrics with bounded memory

`compute_external` spills one sorted run of contributions for each month and
merges the runs. During the merge only the current editor and the aggregate maps
are resident: an editor is finalized when the merge moves on to the next one,
and a period is counted when its key differs from the editor's previous one.

The merge hands out every editor's months together and in order, so remembering
the previous key is as good as the resident path's set of seen pairs. `Tracks`
states what the loop has computed after a prefix of the merged rows in terms of
the resident state over that prefix; one row keeps it (`Tracks.mergeRow`), and
`merge_eq_observed` is what it says at the end.
-/

namespace WikiEcon.Compute.Lifecycle

open Std (ExtTreeMap ExtTreeSet)
open Grouping KWayMerge

/-! ## Contribution rows -/

/-- The derived order: the fields in turn. -/
def Contribution.orderKey (c : Contribution) : ℤ ×ₗ ℤ ×ₗ ℤ ×ₗ ℤ ×ₗ ℕ :=
  toLex (c.userId, toLex (c.yearMonthKey, toLex (c.year, toLex (c.cohortYear, c.totalEdits))))

theorem Contribution.orderKey_injective : Function.Injective Contribution.orderKey := by
  intro a b h
  cases a
  cases b
  simp only [orderKey, toLex_inj, Prod.mk.injEq] at h
  obtain ⟨rfl, rfl, rfl, rfl, rfl⟩ := h
  rfl

instance : LinearOrder Contribution :=
  LinearOrder.lift' Contribution.orderKey Contribution.orderKey_injective

/-- One row of a spilled run. A missing cohort year is an error when the row is
read; reading the run at once changes no more than which error comes first. -/
def readContribution (p : Partition) (total : EditorTotal) : Except String Contribution := do
  let cohortYear ← context total.cohortYear "lifecycle contribution has no cohort"
  return {
    userId := total.userId
    yearMonthKey := p.yearMonth.key
    year := p.year
    cohortYear := cohortYear
    totalEdits := total.totalEdits }

/-- The run of one month, sorted by editor and month. -/
def externalRun (order : RowOrder) (p : Partition) : Except String (List Contribution) :=
  (((registeredEditorTotals order p.rows).insertionSort fun a b => a.userId ≤ b.userId)).mapM
    (readContribution p)

/-! ## Aggregates -/

structure ExternalPeriodAggregate where
  active : ExtTreeMap ℤ ℕ := ∅
  arrivals : ExtTreeMap ℤ ℕ := ∅
  departures : ExtTreeMap ℤ ℕ := ∅

structure ExternalLifecycleAggregate where
  funnel : ExtTreeMap ℤ FunnelCounts := ∅
  initialSizes : ExtTreeMap ℤ ℕ := ∅
  endedBy : ExtTreeMap (ℤ ×ₗ ℤ) ℕ := ∅
  month : ExternalPeriodAggregate := {}
  quarter : ExternalPeriodAggregate := {}
  year : ExternalPeriodAggregate := {}
  allYears : ExtTreeSet ℤ := ∅

def i32Max : ℤ := 2147483647
def i32Min : ℤ := -2147483648

/-- The editor the merge is at. -/
structure ExternalUser where
  userId : ℤ
  totalEdits : ℕ
  cohortYear : ℤ
  firstYear : ℤ
  lastYear : ℤ
  firstMonth : ℤ
  lastMonth : ℤ
  firstQuarter : ℤ
  lastQuarter : ℤ
  firstPeriodYear : ℤ
  lastPeriodYear : ℤ
  previousMonth : Option ℤ
  previousQuarter : Option ℤ
  previousYear : Option ℤ

def ExternalUser.new (userId : ℤ) : ExternalUser where
  userId := userId
  totalEdits := 0
  cohortYear := i32Max
  firstYear := i32Max
  lastYear := i32Min
  firstMonth := i32Max
  lastMonth := i32Min
  firstQuarter := i32Max
  lastQuarter := i32Min
  firstPeriodYear := i32Max
  lastPeriodYear := i32Min
  previousMonth := none
  previousQuarter := none
  previousYear := none

def countOverflow : String := "lifecycle aggregate count overflow"

/-- Count the key unless it is the editor's previous one. -/
def countChange (active : ExtTreeMap ℤ ℕ) (previous : Option ℤ) (key : ℤ) :
    Except String (ExtTreeMap ℤ ℕ) :=
  if previous ≠ some key then addCount countOverflow active key else .ok active

/-- The editor's own fields after one more row. -/
def ExternalUser.absorb (user : ExternalUser) (row : Contribution) (totalEdits : ℕ) :
    ExternalUser :=
  let quarter := normalizePeriodKey row.yearMonthKey .quarter
  { userId := user.userId
    totalEdits := totalEdits
    cohortYear := min user.cohortYear row.cohortYear
    firstYear := min user.firstYear row.year
    lastYear := max user.lastYear row.year
    firstMonth := min user.firstMonth row.yearMonthKey
    lastMonth := max user.lastMonth row.yearMonthKey
    firstQuarter := min user.firstQuarter quarter
    lastQuarter := max user.lastQuarter quarter
    firstPeriodYear := min user.firstPeriodYear row.year
    lastPeriodYear := max user.lastPeriodYear row.year
    previousMonth := some row.yearMonthKey
    previousQuarter := some quarter
    previousYear := some row.year }

def ExternalUser.observe (user : ExternalUser) (row : Contribution)
    (aggregate : ExternalLifecycleAggregate) :
    Except String (ExternalUser × ExternalLifecycleAggregate) := do
  ensure (row.userId = user.userId)
    "lifecycle merge changed users without finalizing the prior user"
  ensure (∀ previous ∈ user.previousMonth, row.yearMonthKey > previous)
    "lifecycle merge encountered duplicate or unordered user-month rows"
  let totalEdits ← context (checkedAdd u64Max user.totalEdits row.totalEdits)
    "lifecycle edit count overflow"
  let monthActive ← addCount countOverflow aggregate.month.active row.yearMonthKey
  let quarterActive ← countChange aggregate.quarter.active user.previousQuarter
    (normalizePeriodKey row.yearMonthKey .quarter)
  let yearActive ← countChange aggregate.year.active user.previousYear row.year
  return (user.absorb row totalEdits, { aggregate with
    month := { aggregate.month with active := monthActive }
    quarter := { aggregate.quarter with active := quarterActive }
    year := { aggregate.year with active := yearActive } })

def cohortOverflow : String := "lifecycle cohort overflow"

/-- Raise a counter of the funnel entry when the editor reached its bound. -/
def reach (value totalEdits bound : ℕ) : Except String ℕ :=
  if totalEdits ≥ bound then context (checkedAdd u32Max value 1) cohortOverflow else .ok value

def FunnelCounts.observeChecked (entry : FunnelCounts) (totalEdits : ℕ) :
    Except String FunnelCounts := do
  let size ← context (checkedAdd u32Max entry.size 1) cohortOverflow
  let reached5 ← reach entry.reached5 totalEdits 5
  let reached25 ← reach entry.reached25 totalEdits 25
  let reached100 ← reach entry.reached100 totalEdits 100
  return { size := size, reached5 := reached5, reached25 := reached25, reached100 := reached100 }

/-- Count an editor's first and last period. -/
def ExternalPeriodAggregate.addSpan (period : ExternalPeriodAggregate) (first last : ℤ) :
    Except String ExternalPeriodAggregate := do
  let arrivals ← addCount countOverflow period.arrivals first
  let departures ← addCount countOverflow period.departures last
  return { period with arrivals := arrivals, departures := departures }

def finalizeExternalUser (user : ExternalUser) (aggregate : ExternalLifecycleAggregate) :
    Except String ExternalLifecycleAggregate := do
  ensure (user.totalEdits ≤ u32Max) "lifecycle edit count exceeds metric schema capacity"
  let entry ←
    (aggregate.funnel[user.cohortYear]?.getD {}).observeChecked user.totalEdits
  let initialSizes ← addCount countOverflow aggregate.initialSizes user.cohortYear
  let endedBy ← addCount cohortOverflow aggregate.endedBy (toLex (user.cohortYear, user.lastYear))
  let month ← aggregate.month.addSpan user.firstMonth user.lastMonth
  let quarter ← aggregate.quarter.addSpan user.firstQuarter user.lastQuarter
  let year ← aggregate.year.addSpan user.firstPeriodYear user.lastPeriodYear
  return {
    funnel := aggregate.funnel.insert user.cohortYear entry
    initialSizes := initialSizes
    endedBy := endedBy
    month := month
    quarter := quarter
    year := year
    allYears := (aggregate.allYears.insert user.firstYear).insert user.lastYear }

/-! ## The merge -/

abbrev MergeState : Type := Option ExternalUser × ExternalLifecycleAggregate

/-- One merged row: close the previous editor if the row is another's, then
count the row. -/
def mergeRow (st : MergeState) (row : Contribution) : Except String MergeState := do
  let (current, aggregate) ← match st with
    | (some user, aggregate) =>
      if user.userId ≠ row.userId then
        (finalizeExternalUser user aggregate).map fun aggregate => (none, aggregate)
      else .ok (some user, aggregate)
    | (none, aggregate) => .ok (none, aggregate)
  let (user, aggregate) ← (current.getD (ExternalUser.new row.userId)).observe row aggregate
  return (some user, aggregate)

/-- Close the last editor. -/
def finishMerge : MergeState → Except String ExternalLifecycleAggregate
  | (some user, aggregate) => finalizeExternalUser user aggregate
  | (none, aggregate) => .ok aggregate

def survivorsFromChecked (ended : ℤ → ℕ) (cohortYear : ℤ) :
    List ℤ → ℕ → Except String (List (ℤ × ℕ))
  | [], _ => .ok []
  | year :: years, survivors =>
    if year < cohortYear then survivorsFromChecked ended cohortYear years survivors
    else do
      let survivors ← context (checkedAdd u32Max survivors (ended year))
        "lifecycle cohort survivor overflow"
      let rows ← survivorsFromChecked ended cohortYear years survivors
      return (year, survivors) :: rows

def externalCohortFrame (initialSizes : ExtTreeMap ℤ ℕ) (endedBy : ExtTreeMap (ℤ ×ₗ ℤ) ℕ)
    (allYears : ExtTreeSet ℤ) : Except String (List CohortRow) := do
  let frames ← initialSizes.toList.mapM fun (cohortYear, initial) => do
    let rows ← survivorsFromChecked (fun year => endedBy[toLex (cohortYear, year)]?.getD 0)
      cohortYear allYears.toList.reverse 0
    return rows.reverse.map fun (year, survived) => ({
      cohortYear := toString cohortYear
      year := toString year
      survivedEditors := survived
      initialEditors := initial } : CohortRow)
  return frames.flatten

def externalChurnFrame (periodType : PeriodType) (aggregate : ExternalPeriodAggregate) :
    List ChurnRow :=
  churnRows periodType aggregate.active aggregate.arrivals aggregate.departures

def writeExternalLifecycleOutputs (wiki : String) (aggregate : ExternalLifecycleAggregate) :
    Except String LifecycleOutputs := do
  let cohorts ← externalCohortFrame aggregate.initialSizes aggregate.endedBy aggregate.allYears
  return {
    wiki := wiki
    businessFunnel := funnelRows aggregate.funnel
    laborCohorts := cohorts
    laborChurn := concatFrames [externalChurnFrame .month aggregate.month,
      externalChurnFrame .quarter aggregate.quarter, externalChurnFrame .year aggregate.year] }

def computeExternal (order : RowOrder) (wiki : String) (partitions : List Partition) :
    Except String LifecycleOutputs := do
  ensure (partitions.isEmpty = false)
    "external lifecycle computation requires at least one input partition"
  let runs ← partitions.mapM (externalRun order)
  let merged ← drain (fun previous row => decide (previous < row))
    "lifecycle contribution run contains duplicate or unordered user-month rows" true mergeRow
    (runs.filter fun run => !run.isEmpty) ((none, {}) : MergeState)
  let aggregate ← finishMerge merged
  writeExternalLifecycleOutputs wiki aggregate

/-! ## Checked counting is counting -/

/-- Below the limit `checked_add` and `+` agree. -/
theorem addCount_eq_addOne {message : String} {map : ExtTreeMap ℤ ℕ} {key : ℤ}
    (h : map[key]?.getD 0 + 1 ≤ u32Max) : addCount message map key = .ok (addOne map key) := by
  have hvalue : checkedAdd u32Max (map[key]?.getD 0) 1 = some (map[key]?.getD 0 + 1) :=
    checkedAdd_eq_some.mpr ⟨h, rfl⟩
  rw [addCount, hvalue]
  show Except.ok (map.insert key _) = _
  congr 1
  apply Std.ExtTreeMap.ext_getElem?
  intro k
  simp only [addOne, Std.ExtTreeMap.getElem?_alter, Std.ExtTreeMap.getElem?_insert,
    wrappingAdd_of_le h]

/-- Counting a change of key is what the resident accumulator does, provided the
previous key says whether the pair was seen. -/
theorem countChange_eq {acc : ChurnAccumulator} {previous : Option ℤ} {userId key : ℤ}
    (hseen : previous = some key ↔ (userId, key) ∈ acc.seen)
    (hbound : (userId, key) ∉ acc.seen → acc.active[key]?.getD 0 + 1 ≤ u32Max) :
    countChange acc.active previous key = .ok (acc.observe userId key).active := by
  rw [countChange, ChurnAccumulator.observe]
  by_cases h : (userId, key) ∈ acc.seen
  · rw [if_neg (not_not.mpr (hseen.mpr h)), if_pos h]
  · rw [if_pos (fun hprev => h (hseen.mp hprev)), if_neg h]
    exact addCount_eq_addOne (hbound h)

/-- The counters of a cohort are bounded by its size, which is a count. -/
theorem funnelByCohort_spec {stats : List (ℤ × ℕ)}
    (hbound : ∀ y, (stats.map Prod.fst).count y ≤ u32Max) (y : ℤ) :
    let entry := (funnelByCohort stats)[y]?.getD {}
    entry.size = (stats.map Prod.fst).count y ∧ entry.reached5 ≤ entry.size ∧
      entry.reached25 ≤ entry.size ∧ entry.reached100 ≤ entry.size := by
  induction stats using List.reverseRecOn generalizing y with
  | nil => exact ⟨rfl, le_refl _, le_refl _, le_refl _⟩
  | append_singleton stats stat ih =>
    have hle : ∀ y, (stats.map Prod.fst).count y ≤ u32Max := fun y =>
      le_trans (List.Sublist.count_le _ (List.Sublist.map _ (List.sublist_append_left _ _)))
        (hbound y)
    have hconcat : funnelByCohort (stats ++ [stat])
        = (funnelByCohort stats).alter stat.1 fun entry =>
          some ((entry.getD {}).observe stat.2) := by
      rw [funnelByCohort, List.foldl_append]
      rfl
    obtain ⟨hsize, h5, h25, h100⟩ := ih hle y
    simp only [hconcat, Std.ExtTreeMap.getElem?_alter, Std.LawfulEqCmp.compare_eq_iff_eq,
      List.map_append, List.count_append, List.map_cons, List.map_nil]
    by_cases hy : stat.1 = y
    · subst hy
      have hnext := hbound stat.1
      simp only [List.map_append, List.count_append, List.map_cons, List.map_nil,
        List.count_cons_self, List.count_nil] at hnext
      have hwrap : ∀ n, n ≤ (stats.map Prod.fst).count stat.1 →
          wrappingAdd u32Max n 1 = n + 1 := fun n hn => wrappingAdd_of_le (by omega)
      simp only [if_true, Option.getD_some, FunnelCounts.observe, List.count_cons_self,
        List.count_nil, hsize, hwrap _ (le_refl _), hwrap _ (hsize ▸ h5),
        hwrap _ (hsize ▸ h25), hwrap _ (hsize ▸ h100)]
      refine ⟨trivial, ?_, ?_, ?_⟩
      · split <;> omega
      · split <;> omega
      · split <;> omega
    · simp only [if_neg hy, List.count_cons_of_ne hy, List.count_nil, Nat.add_zero]
      exact ⟨hsize, h5, h25, h100⟩

theorem reach_eq {value totalEdits bound : ℕ} (h : value + 1 ≤ u32Max) :
    reach value totalEdits bound
      = .ok (if totalEdits ≥ bound then wrappingAdd u32Max value 1 else value) := by
  rw [reach]
  split
  · rw [checkedAdd_eq_some.mpr ⟨h, rfl⟩, wrappingAdd_of_le h]
    rfl
  · rfl

theorem FunnelCounts.observeChecked_eq {entry : FunnelCounts} {totalEdits : ℕ}
    (hsize : entry.size + 1 ≤ u32Max) (h5 : entry.reached5 ≤ entry.size)
    (h25 : entry.reached25 ≤ entry.size) (h100 : entry.reached100 ≤ entry.size) :
    entry.observeChecked totalEdits = .ok (entry.observe totalEdits) := by
  have hchecked : checkedAdd u32Max entry.size 1 = some (entry.size + 1) :=
    checkedAdd_eq_some.mpr ⟨hsize, rfl⟩
  rw [observeChecked, hchecked, reach_eq (by omega), reach_eq (by omega), reach_eq (by omega)]
  rw [FunnelCounts.observe, wrappingAdd_of_le hsize]
  rfl

/-- An editor more in the funnel. -/
theorem funnelByCohort_insert {stats : List (ℤ × ℕ)} {cohortYear : ℤ} {totalEdits : ℕ} :
    (funnelByCohort stats).insert cohortYear
        (((funnelByCohort stats)[cohortYear]?.getD {}).observe totalEdits)
      = funnelByCohort (stats ++ [(cohortYear, totalEdits)]) := by
  have hconcat : funnelByCohort (stats ++ [(cohortYear, totalEdits)])
      = (funnelByCohort stats).alter cohortYear fun entry =>
        some ((entry.getD {}).observe totalEdits) := by
    rw [funnelByCohort, List.foldl_append]
    rfl
  rw [hconcat]
  apply Std.ExtTreeMap.ext_getElem?
  intro y
  simp only [Std.ExtTreeMap.getElem?_alter, Std.ExtTreeMap.getElem?_insert]

/-- Below the limit the checked survivor sums are the wrapping ones. -/
theorem survivorsFromChecked_eq {ended : ℤ → ℕ} {cohortYear : ℤ} :
    ∀ {years : List ℤ} {survivors : ℕ}, survivors + (years.map ended).sum ≤ u32Max →
      survivorsFromChecked ended cohortYear years survivors
        = .ok (survivorsFrom ended cohortYear years survivors) := by
  intro years
  induction years with
  | nil => intro survivors _; rfl
  | cons year years ih =>
    intro survivors h
    rw [List.map_cons, List.sum_cons] at h
    rw [survivorsFromChecked, survivorsFrom]
    split
    · exact ih (by omega)
    · have hle : survivors + ended year ≤ u32Max := by omega
      rw [checkedAdd_eq_some.mpr ⟨hle, rfl⟩, wrappingAdd_of_le hle]
      show (survivorsFromChecked ended cohortYear years (survivors + ended year) >>= _) = _
      rw [ih (by omega)]
      rfl

/-- The editors of a cohort that end in distinct years are no more than the cohort. -/
theorem sum_endedBy_le (l : List (ℤ × ℤ)) (cohortYear : ℤ) {years : List ℤ}
    (hnodup : years.Nodup) :
    (years.map fun year => (tally (l.map toLex))[toLex (cohortYear, year)]?.getD 0).sum
      ≤ (l.map Prod.fst).count cohortYear := by
  induction l with
  | nil => simp [getD_tally]
  | cons x l ih =>
    have hcons : ∀ year, (tally ((x :: l).map toLex))[toLex (cohortYear, year)]?.getD 0
        = (tally (l.map toLex))[toLex (cohortYear, year)]?.getD 0
          + if x = (cohortYear, year) then 1 else 0 := by
      intro year
      rw [getD_tally, getD_tally, List.map_cons,
        @List.count_cons (ℤ ×ₗ ℤ) instBEqOfDecidableEq]
      show _ + (if decide (toLex x = toLex (cohortYear, year)) = true then 1 else 0) = _
      simp only [decide_eq_true_eq, toLex_inj]
    simp only [hcons, List.sum_map_add]
    rw [List.map_cons, List.count_cons]
    simp only [beq_iff_eq]
    refine Nat.add_le_add ih ?_
    by_cases hx : x.1 = cohortYear
    · rw [if_pos hx]
      have hone : ∀ year, (if x = (cohortYear, year) then 1 else 0)
          = if x.2 = year then 1 else 0 := by
        intro year
        subst hx
        simp [Prod.ext_iff]
      simp only [hone]
      clear ih hcons
      induction years with
      | nil => simp
      | cons year years ih =>
        obtain ⟨hnot, hrest⟩ := List.nodup_cons.mp hnodup
        rw [List.map_cons, List.sum_cons]
        by_cases hyear : x.2 = year
        · have hzero : (years.map fun year => if x.2 = year then 1 else 0).sum = 0 := by
            rw [List.sum_eq_zero_iff]
            intro n hn
            obtain ⟨y, hy, rfl⟩ := List.mem_map.mp hn
            rw [if_neg fun he => hnot (by rw [← hyear, he]; exact hy)]
          rw [hzero, if_pos hyear]
        · rw [if_neg hyear, Nat.zero_add]
          exact ih hrest
    · rw [if_neg hx]
      have hzero : ∀ year, (if x = (cohortYear, year) then 1 else 0) = 0 := by
        intro year
        rw [if_neg fun he => hx (by rw [he])]
      simp [hzero]

/-! ## The loop beside the resident state -/

/-- An editor's entry in the resident maps. -/
def RegisteredState.stats (state : RegisteredState) (userId : ℤ) : ℤ × ℕ :=
  state.funnelStats[userId]?.getD (0, 0)

def RegisteredState.years (state : RegisteredState) (userId : ℤ) : ℤ × ℤ :=
  state.cohortSpans[userId]?.getD (0, 0)

def RegisteredState.span (state : RegisteredState) (p : PeriodType) (userId : ℤ) : ℤ × ℤ :=
  (state.churn p).spans[userId]?.getD (0, 0)

def ExternalUser.span (user : ExternalUser) : PeriodType → ℤ × ℤ
  | .month => (user.firstMonth, user.lastMonth)
  | .quarter => (user.firstQuarter, user.lastQuarter)
  | .year => (user.firstPeriodYear, user.lastPeriodYear)

def ExternalUser.previous (user : ExternalUser) : PeriodType → Option ℤ
  | .month => user.previousMonth
  | .quarter => user.previousQuarter
  | .year => user.previousYear

def ExternalLifecycleAggregate.period (aggregate : ExternalLifecycleAggregate) :
    PeriodType → ExternalPeriodAggregate
  | .month => aggregate.month
  | .quarter => aggregate.quarter
  | .year => aggregate.year

/-- The current editor's fields are that editor's resident entries. -/
structure ExternalUser.Holds (user : ExternalUser) (state : RegisteredState) : Prop where
  stats : state.funnelStats[user.userId]? = some (user.cohortYear, user.totalEdits)
  years : state.cohortSpans[user.userId]? = some (user.firstYear, user.lastYear)
  span : ∀ p, (state.churn p).spans[user.userId]? = some (user.span p)

/-- The aggregate maps hold the `closed` editors, as the final state has them. -/
structure ExternalLifecycleAggregate.Closed (aggregate : ExternalLifecycleAggregate)
    (final : RegisteredState) (closed : List ℤ) : Prop where
  funnel : aggregate.funnel = funnelByCohort (closed.map final.stats)
  initialSizes : aggregate.initialSizes = tally (closed.map fun u => (final.stats u).1)
  endedBy : aggregate.endedBy
    = tally (closed.map fun u => toLex ((final.stats u).1, (final.years u).2))
  arrivals : ∀ p, (aggregate.period p).arrivals = tally (closed.map fun u => (final.span p u).1)
  departures : ∀ p,
    (aggregate.period p).departures = tally (closed.map fun u => (final.span p u).2)
  allYears : ∀ y, y ∈ aggregate.allYears ↔
    ∃ u ∈ closed, y = (final.years u).1 ∨ y = (final.years u).2

/-- No count over the `editors` leaves the range of a `u32`. -/
structure RegisteredState.Bounded (final : RegisteredState) (editors : List ℤ) : Prop where
  edits : ∀ u ∈ editors, (final.stats u).2 ≤ u32Max
  cohort : ∀ y, (editors.map fun u => (final.stats u).1).count y ≤ u32Max
  arrivals : ∀ p k, (editors.map fun u => (final.span p u).1).count k ≤ u32Max
  departures : ∀ p k, (editors.map fun u => (final.span p u).2).count k ≤ u32Max

/-- Counting over some of the editors counts no more than over all of them. -/
theorem count_map_le {α : Type} [BEq α] [LawfulBEq α] {some' all : List ℤ} (f : ℤ → α) (a : α)
    {bound : ℕ} (hnodup : some'.Nodup) (hsub : ∀ u ∈ some', u ∈ all)
    (hall : (all.map f).count a ≤ bound) : (some'.map f).count a ≤ bound := by
  obtain ⟨l, hperm, hsublist⟩ := List.subperm_of_subset hnodup hsub
  rw [← (hperm.map f).count_eq]
  exact le_trans ((hsublist.map f).count_le a) hall

theorem ExternalPeriodAggregate.addSpan_eq {period : ExternalPeriodAggregate}
    {firsts lasts : List ℤ}
    {first last : ℤ} (harrivals : period.arrivals = tally firsts)
    (hdepartures : period.departures = tally lasts)
    (hfirst : (firsts ++ [first]).count first ≤ u32Max)
    (hlast : (lasts ++ [last]).count last ≤ u32Max) :
    period.addSpan first last = .ok { period with
      arrivals := tally (firsts ++ [first])
      departures := tally (lasts ++ [last]) } := by
  rw [addSpan, harrivals, hdepartures, addCount_tally hfirst]
  show (addCount _ _ _ >>= _) = _
  rw [addCount_tally hlast]
  rfl

/-- Closing an editor whose entries are final. -/
theorem finalizeExternalUser_eq {user : ExternalUser} {aggregate : ExternalLifecycleAggregate}
    {final : RegisteredState} {closed editors : List ℤ} (hholds : user.Holds final)
    (hclosed : aggregate.Closed final closed) (hbound : final.Bounded editors)
    (hnodup : (closed ++ [user.userId]).Nodup)
    (hsub : ∀ u ∈ closed ++ [user.userId], u ∈ editors) :
    ∃ aggregate', finalizeExternalUser user aggregate = .ok aggregate' ∧
      aggregate'.Closed final (closed ++ [user.userId]) ∧
      ∀ p, (aggregate'.period p).active = (aggregate.period p).active := by
  have hstats : final.stats user.userId = (user.cohortYear, user.totalEdits) := by
    rw [RegisteredState.stats, hholds.stats]; rfl
  have hyears : final.years user.userId = (user.firstYear, user.lastYear) := by
    rw [RegisteredState.years, hholds.years]; rfl
  have hspan : ∀ p, final.span p user.userId = user.span p := by
    intro p; rw [RegisteredState.span, hholds.span]; rfl
  have hedits : user.totalEdits ≤ u32Max := by
    have h := hbound.edits user.userId (hsub _ (by simp))
    rwa [hstats] at h
  have hcohort : ∀ y, ((closed ++ [user.userId]).map fun u => (final.stats u).1).count y
      ≤ u32Max := fun y => count_map_le _ y hnodup hsub (hbound.cohort y)
  have harrivals : ∀ p k, ((closed ++ [user.userId]).map fun u => (final.span p u).1).count k
      ≤ u32Max := fun p k => count_map_le _ k hnodup hsub (hbound.arrivals p k)
  have hdepartures : ∀ p k, ((closed ++ [user.userId]).map fun u => (final.span p u).2).count k
      ≤ u32Max := fun p k => count_map_le _ k hnodup hsub (hbound.departures p k)
  simp only [List.map_append, List.map_cons, List.map_nil, hstats] at hcohort
  simp only [List.map_append, List.map_cons, List.map_nil, hspan] at harrivals hdepartures
  -- the funnel entry of the editor's cohort
  have hfst : (closed.map final.stats).map Prod.fst = closed.map fun u => (final.stats u).1 := by
    rw [List.map_map]; rfl
  have hprev : ∀ y, ((closed.map final.stats).map Prod.fst).count y ≤ u32Max := by
    intro y
    rw [hfst]
    exact le_trans (List.Sublist.count_le _ (List.sublist_append_left _ _)) (hcohort y)
  obtain ⟨hsize, h5, h25, h100⟩ := funnelByCohort_spec hprev user.cohortYear
  have hroom : ((funnelByCohort (closed.map final.stats))[user.cohortYear]?.getD {}).size + 1
      ≤ u32Max := by
    rw [hsize, hfst]
    have h := hcohort user.cohortYear
    simpa using h
  have hentry : (aggregate.funnel[user.cohortYear]?.getD {}).observeChecked user.totalEdits
      = .ok (((funnelByCohort (closed.map final.stats))[user.cohortYear]?.getD {}).observe
        user.totalEdits) := by
    rw [hclosed.funnel]
    exact FunnelCounts.observeChecked_eq hroom h5 h25 h100
  have hinitial : addCount countOverflow aggregate.initialSizes user.cohortYear
      = .ok (tally ((closed.map fun u => (final.stats u).1) ++ [user.cohortYear])) := by
    rw [hclosed.initialSizes]
    exact addCount_tally (hcohort _)
  have hended : addCount cohortOverflow aggregate.endedBy (toLex (user.cohortYear, user.lastYear))
      = .ok (tally ((closed.map fun u => toLex ((final.stats u).1, (final.years u).2))
        ++ [toLex (user.cohortYear, user.lastYear)])) := by
    rw [hclosed.endedBy]
    apply addCount_tally
    have h := sum_endedBy_le ((closed.map fun u => ((final.stats u).1, (final.years u).2))
      ++ [(user.cohortYear, user.lastYear)]) user.cohortYear (List.nodup_singleton user.lastYear)
    have hc := hcohort user.cohortYear
    simp only [List.map_append, List.map_map, List.map_cons, List.map_nil, List.sum_cons,
      List.sum_nil, Nat.add_zero, getD_tally] at h
    exact le_trans h hc
  have hperiod : ∀ p, (aggregate.period p).addSpan (user.span p).1 (user.span p).2
      = .ok { aggregate.period p with
        arrivals := tally ((closed.map fun u => (final.span p u).1) ++ [(user.span p).1])
        departures := tally ((closed.map fun u => (final.span p u).2) ++ [(user.span p).2]) } :=
    fun p => ExternalPeriodAggregate.addSpan_eq (hclosed.arrivals p) (hclosed.departures p)
      (harrivals p _) (hdepartures p _)
  have hmonth := hperiod .month
  have hquarter := hperiod .quarter
  have hyear := hperiod .year
  simp only [ExternalLifecycleAggregate.period, ExternalUser.span] at hmonth hquarter hyear
  have hfinalize : finalizeExternalUser user aggregate = .ok {
      funnel := aggregate.funnel.insert user.cohortYear
        (((funnelByCohort (closed.map final.stats))[user.cohortYear]?.getD {}).observe
          user.totalEdits)
      initialSizes := tally ((closed.map fun u => (final.stats u).1) ++ [user.cohortYear])
      endedBy := tally ((closed.map fun u => toLex ((final.stats u).1, (final.years u).2))
        ++ [toLex (user.cohortYear, user.lastYear)])
      month := { aggregate.month with
        arrivals := tally ((closed.map fun u => (final.span .month u).1) ++ [user.firstMonth])
        departures := tally ((closed.map fun u => (final.span .month u).2) ++ [user.lastMonth]) }
      quarter := { aggregate.quarter with
        arrivals := tally ((closed.map fun u => (final.span .quarter u).1) ++ [user.firstQuarter])
        departures := tally ((closed.map fun u => (final.span .quarter u).2)
          ++ [user.lastQuarter]) }
      year := { aggregate.year with
        arrivals := tally ((closed.map fun u => (final.span .year u).1) ++ [user.firstPeriodYear])
        departures := tally ((closed.map fun u => (final.span .year u).2)
          ++ [user.lastPeriodYear]) }
      allYears := (aggregate.allYears.insert user.firstYear).insert user.lastYear } := by
    rw [finalizeExternalUser, (ensure_eq_ok (u := ())).mpr hedits, hentry, hinitial, hended,
      hmonth, hquarter,
      hyear]
    rfl
  refine ⟨_, hfinalize, ?_, ?_⟩
  · refine ⟨?_, ?_, ?_, ?_, ?_, ?_⟩
    · simp only [hclosed.funnel, List.map_append, List.map_cons, List.map_nil, hstats]
      exact funnelByCohort_insert
    · simp only [List.map_append, List.map_cons, List.map_nil, hstats]
    · simp only [List.map_append, List.map_cons, List.map_nil, hstats, hyears]
    · intro p
      simp only [List.map_append, List.map_cons, List.map_nil, hspan]
      cases p <;> rfl
    · intro p
      simp only [List.map_append, List.map_cons, List.map_nil, hspan]
      cases p <;> rfl
    · intro y
      simp only [ExtTreeSet.mem_insert, Std.LawfulEqCmp.compare_eq_iff_eq, hclosed.allYears,
        List.mem_append, List.mem_singleton, or_and_right, exists_or, exists_eq_left, hyears]
      constructor
      · rintro (rfl | rfl | h)
        · exact Or.inr (Or.inr rfl)
        · exact Or.inr (Or.inl rfl)
        · exact Or.inl h
      · rintro (h | rfl | rfl)
        · exact Or.inr (Or.inr h)
        · exact Or.inr (Or.inl rfl)
        · exact Or.inl rfl
  · intro p
    cases p <;> rfl

/-! ## One merged row -/

/-- A contribution as the partitions produce it: its year and cohort year are the
year of its month. -/
def Contribution.WellFormed (c : Contribution) : Prop :=
  ∃ m : YearMonth, c.yearMonthKey = m.key ∧ c.year = m.year ∧ c.cohortYear = c.year

theorem Contribution.WellFormed.periodKey_eq {c : Contribution} {m : YearMonth}
    (hkey : c.yearMonthKey = m.key) (hyear : c.year = m.year) (p : PeriodType) :
    c.periodKey p = normalizePeriodKey m.key p := by
  cases p with
  | month => exact hkey
  | quarter => rw [periodKey, hkey]
  | year => rw [periodKey, hyear, (normalizePeriodKey_key m).2]

theorem Contribution.WellFormed.periodKey_mono {a b : Contribution} (ha : a.WellFormed)
    (hb : b.WellFormed) (h : a.yearMonthKey ≤ b.yearMonthKey) (p : PeriodType) :
    a.periodKey p ≤ b.periodKey p := by
  obtain ⟨m, hkey, hyear, -⟩ := ha
  obtain ⟨m', hkey', hyear', -⟩ := hb
  rw [periodKey_eq hkey hyear, periodKey_eq hkey' hyear']
  rw [hkey, hkey'] at h
  exact normalizePeriodKey_mono h p

/-- Every key is well inside an `i32`. -/
theorem Contribution.WellFormed.range {c : Contribution} (h : c.WellFormed) :
    (c.cohortYear ≤ i32Max ∧ c.year ≤ i32Max ∧ i32Min ≤ c.year) ∧
      ∀ p, c.periodKey p ≤ i32Max ∧ i32Min ≤ c.periodKey p := by
  obtain ⟨m, hkey, hyear, hcohort⟩ := h
  have h1 := m.year_lt
  have h2 := m.month_pos
  have h3 := m.month_le
  have hq := (normalizePeriodKey_key m).1
  have hy := (normalizePeriodKey_key m).2
  refine ⟨⟨?_, ?_, ?_⟩, fun p => ?_⟩
  · rw [hcohort, hyear, i32Max]; omega
  · rw [hyear, i32Max]; omega
  · rw [hyear, i32Min]; omega
  · rw [periodKey_eq hkey hyear]
    cases p with
    | month => simp only [normalizePeriodKey, YearMonth.key, i32Max, i32Min]; omega
    | quarter => rw [hq, i32Max, i32Min]; omega
    | year => rw [hy, i32Max, i32Min]; omega

/-- The order of the merge: editors in turn, each editor's months ascending. -/
def Contribution.Before (a b : Contribution) : Prop :=
  a.userId < b.userId ∨ a.userId = b.userId ∧ a.yearMonthKey < b.yearMonthKey

theorem Contribution.Before.userId_le {a b : Contribution} (h : a.Before b) :
    a.userId ≤ b.userId := by
  rcases h with h | h
  · exact le_of_lt h
  · exact le_of_eq h.1

/-- The period key of the last row, when that row is the editor's. -/
def previousKey (done : List Contribution) (userId : ℤ) (p : PeriodType) : Option ℤ :=
  match done.getLast? with
  | some last => if last.userId = userId then some (last.periodKey p) else none
  | none => none

section Step

variable {done rest : List Contribution} {c : Contribution}

/-- Rows of the next row's editor that are done end in the last row. -/
theorem last_of_mem (hsorted : (done ++ c :: rest).Pairwise Contribution.Before)
    {c' : Contribution} (hc' : c' ∈ done) (huser : c'.userId = c.userId) :
    ∃ last ∈ done, done.getLast? = some last ∧ last.userId = c.userId ∧
      c'.yearMonthKey ≤ last.yearMonthKey ∧ last.yearMonthKey < c.yearMonthKey := by
  rcases List.eq_nil_or_concat' done with rfl | ⟨init, last, rfl⟩
  · exact absurd hc' List.not_mem_nil
  obtain ⟨hdone, -, hcross⟩ := List.pairwise_append.mp hsorted
  have hlast : last ∈ init ++ [last] := List.mem_append_right _ (List.mem_singleton_self _)
  have hlastc : last.Before c := hcross last hlast c (List.mem_cons_self ..)
  have hle : c' = last ∨ c'.Before last := by
    rcases List.mem_append.mp hc' with h | h
    · exact Or.inr ((List.pairwise_append.mp hdone).2.2 c' h last (List.mem_singleton_self _))
    · exact Or.inl (List.mem_singleton.mp h)
  have hlastuser : last.userId = c.userId := by
    refine le_antisymm hlastc.userId_le ?_
    rw [← huser]
    rcases hle with rfl | h
    · exact le_refl _
    · exact h.userId_le
  refine ⟨last, hlast, by simp, hlastuser, ?_, ?_⟩
  · rcases hle with rfl | h | h
    · exact le_refl _
    · omega
    · exact le_of_lt h.2
  · rcases hlastc with h | h
    · omega
    · exact h.2

/-- The previous key tells whether the pair has been seen. -/
theorem previousKey_eq_some (hsorted : (done ++ c :: rest).Pairwise Contribution.Before)
    (hwf : ∀ x ∈ done ++ c :: rest, x.WellFormed) (p : PeriodType) :
    previousKey done c.userId p = some (c.periodKey p)
      ↔ (c.userId, c.periodKey p) ∈ ((observed done).churn p).seen := by
  rw [observed_seen, List.mem_toFinset, List.mem_map]
  constructor
  · intro h
    rw [previousKey] at h
    split at h
    next last hlast =>
      split at h
      next huser =>
        exact ⟨last, List.mem_of_getLast? hlast, by rw [huser, Option.some.inj h]⟩
      · exact absurd h (by simp)
    · exact absurd h (by simp)
  · rintro ⟨c', hc', heq⟩
    obtain ⟨huser, hkey⟩ := Prod.mk.inj heq
    obtain ⟨last, hmem, hlast, hlastuser, hle, hlt⟩ := last_of_mem hsorted hc' huser
    have hwfc := hwf c (by simp)
    have hwflast := hwf last (List.mem_append_left _ hmem)
    -- the keys between two equal ones are equal
    have h1 := (hwf c' (List.mem_append_left _ hc')).periodKey_mono hwflast hle p
    have h2 := hwflast.periodKey_mono hwfc (le_of_lt hlt) p
    rw [previousKey, hlast]
    simp only [hlastuser, if_true, Option.some.injEq]
    omega

/-- A month is never seen before its row. -/
theorem month_not_seen (hsorted : (done ++ c :: rest).Pairwise Contribution.Before) :
    (c.userId, c.periodKey .month) ∉ ((observed done).churn .month).seen := by
  rw [observed_seen, List.mem_toFinset, List.mem_map]
  rintro ⟨c', hc', heq⟩
  obtain ⟨huser, hkey⟩ := Prod.mk.inj heq
  obtain ⟨last, -, -, -, hle, hlt⟩ := last_of_mem hsorted hc' huser
  simp only [Contribution.periodKey] at hkey
  omega

/-- The editor the merge hands the next row to: the current one when the row is
its own, else a fresh one. -/
structure ExternalUser.Ready (user : ExternalUser) (done : List Contribution) (userId : ℤ) :
    Prop where
  userId_eq : user.userId = userId
  previous : ∀ p, user.previous p = previousKey done userId p
  edits : user.totalEdits = editsOf done userId
  entries : user.Holds (observed done) ∨
    user = ExternalUser.new userId ∧ ∀ c ∈ done, c.userId ≠ userId

theorem getElem?_foldBy_eq_none {σ : Type} {step : Option σ → Contribution → σ} {userId : ℤ}
    (h : ∀ c ∈ done, c.userId ≠ userId) :
    (foldBy Contribution.userId step done)[userId]? = none := by
  rw [getElem?_foldBy, List.filter_eq_nil_iff.mpr fun c hc => by simpa using h c hc]
  rfl

/-- The row's effect on the editor's fields is its effect on the resident entries. -/
theorem ExternalUser.Ready.absorb {user : ExternalUser} (h : user.Ready done c.userId)
    (hwf : c.WellFormed) (hedits : user.totalEdits + c.totalEdits ≤ u32Max) :
    (user.absorb c (user.totalEdits + c.totalEdits)).Holds (observed (done ++ [c])) := by
  obtain ⟨⟨hcohort, hyear, hyear'⟩, hkeys⟩ := hwf.range
  have hid : (user.absorb c (user.totalEdits + c.totalEdits)).userId = c.userId := h.userId_eq
  rcases h.entries with hholds | ⟨rfl, hfresh⟩
  · have hstats := hholds.stats
    have hyears := hholds.years
    have hspan := hholds.span
    rw [h.userId_eq] at hstats hyears hspan
    refine ⟨?_, ?_, fun p => ?_⟩
    · rw [hid, observed_concat]
      simp only [RegisteredState.observe, Std.ExtTreeMap.getElem?_alter_self, hstats, addFunnel,
        wrappingAdd_of_le hedits]
      rfl
    · rw [hid, observed_concat]
      simp only [RegisteredState.observe, Std.ExtTreeMap.getElem?_alter_self, hyears, widen]
      rfl
    · rw [hid, observed_spans, foldBy_concat, Std.ExtTreeMap.getElem?_alter_self,
        ← observed_spans, hspan p, widen]
      cases p <;> rfl
  · refine ⟨?_, ?_, fun p => ?_⟩
    · rw [hid, observed_funnelStats, foldBy_concat, Std.ExtTreeMap.getElem?_alter_self,
        getElem?_foldBy_eq_none hfresh]
      simp only [addFunnel, ExternalUser.absorb, ExternalUser.new, min_eq_right hcohort,
        Nat.zero_add]
    · rw [hid, observed_cohortSpans, foldBy_concat, Std.ExtTreeMap.getElem?_alter_self,
        getElem?_foldBy_eq_none hfresh]
      simp only [widen, ExternalUser.absorb, ExternalUser.new, min_eq_right hyear,
        max_eq_right hyear']
    · have hmin := min_eq_right (hkeys p).1
      have hmax := max_eq_right (hkeys p).2
      rw [hid, observed_spans, foldBy_concat, Std.ExtTreeMap.getElem?_alter_self,
        getElem?_foldBy_eq_none hfresh, widen]
      congr 1
      cases p with
      | month => exact Prod.ext hmin.symm hmax.symm
      | quarter => exact Prod.ext hmin.symm hmax.symm
      | year => exact Prod.ext hmin.symm hmax.symm

theorem previousKey_concat (done : List Contribution) (c : Contribution) (p : PeriodType) :
    previousKey (done ++ [c]) c.userId p = some (c.periodKey p) := by
  simp [previousKey]

/-- A row is counted in the period maps as the resident accumulators count it. -/
theorem ExternalUser.Ready.observe {user : ExternalUser} {aggregate : ExternalLifecycleAggregate}
    (h : user.Ready done c.userId) (hsorted : (done ++ c :: rest).Pairwise Contribution.Before)
    (hwf : ∀ x ∈ done ++ c :: rest, x.WellFormed)
    (hactive : ∀ p, (aggregate.period p).active = ((observed done).churn p).active)
    (hedits : editsOf (done ++ [c]) c.userId ≤ u32Max)
    (hcount : ∀ p key, activeEditors (done ++ [c]) p key ≤ u32Max) :
    ∃ user' aggregate', user.observe c aggregate = .ok (user', aggregate') ∧
      user'.Ready (done ++ [c]) c.userId ∧ user'.Holds (observed (done ++ [c])) ∧
      (∀ p, (aggregate'.period p).active = ((observed (done ++ [c])).churn p).active) ∧
      ∀ final closed, aggregate.Closed final closed → aggregate'.Closed final closed := by
  have htotal : user.totalEdits + c.totalEdits ≤ u32Max := by
    rw [h.edits, ← editsOf_concat]
    exact hedits
  have hchecked : checkedAdd u64Max user.totalEdits c.totalEdits
      = some (user.totalEdits + c.totalEdits) :=
    checkedAdd_eq_some.mpr ⟨le_trans htotal (by decide), rfl⟩
  have hroom : ∀ p, (c.userId, c.periodKey p) ∉ ((observed done).churn p).seen →
      ((observed done).churn p).active[c.periodKey p]?.getD 0 + 1 ≤ u32Max := by
    intro p hnew
    have hprev : ∀ key, activeEditors done p key ≤ u32Max := fun key =>
      le_trans (activeEditors_le_concat done c p key) (hcount p key)
    rw [observed_active done p hprev, ← activeEditors_concat done hnew]
    exact hcount p _
  -- all three period maps move by `countChange`; a month is always new
  have hchange : ∀ p, countChange (aggregate.period p).active (user.previous p) (c.periodKey p)
      = .ok ((observed (done ++ [c])).churn p).active := by
    intro p
    rw [hactive p, h.previous p, observed_concat, RegisteredState.observe_churn]
    exact countChange_eq (previousKey_eq_some hsorted hwf p) (hroom p)
  have hmonth : addCount countOverflow aggregate.month.active c.yearMonthKey
      = .ok ((observed (done ++ [c])).churn .month).active := by
    rw [← hchange .month, countChange, if_pos]
    · rfl
    · rw [h.previous .month]
      exact fun heq => month_not_seen hsorted ((previousKey_eq_some hsorted hwf .month).mp heq)
  have horder : ∀ previous ∈ user.previousMonth, c.yearMonthKey > previous := by
    intro previous hprevious
    have hkey : previousKey done c.userId .month = some previous :=
      (h.previous .month).symm.trans hprevious
    rw [previousKey] at hkey
    split at hkey
    next last hlast =>
      split at hkey
      next huser =>
        obtain ⟨last', -, -, -, hle, hlt⟩ := last_of_mem hsorted (List.mem_of_getLast? hlast) huser
        obtain rfl : last.yearMonthKey = previous := Option.some.inj hkey
        omega
      · exact absurd hkey (by simp)
    · exact absurd hkey (by simp)
  have hquarter := hchange .quarter
  have hyear := hchange .year
  have hobserve : user.observe c aggregate = .ok (user.absorb c (user.totalEdits + c.totalEdits),
      { aggregate with
        month := { aggregate.month with active := ((observed (done ++ [c])).churn .month).active }
        quarter := { aggregate.quarter with
          active := ((observed (done ++ [c])).churn .quarter).active }
        year := { aggregate.year with
          active := ((observed (done ++ [c])).churn .year).active } }) := by
    simp only [ExternalLifecycleAggregate.period, ExternalUser.previous, Contribution.periodKey]
      at hquarter hyear
    rw [ExternalUser.observe, (ensure_eq_ok (u := ())).mpr h.userId_eq.symm,
      (ensure_eq_ok (u := ())).mpr horder, hchecked, hmonth, hquarter, hyear]
    rfl
  have hholds := h.absorb (hwf c (by simp)) htotal
  refine ⟨_, _, hobserve, ⟨h.userId_eq, ?_, ?_, Or.inl hholds⟩, hholds, ?_, ?_⟩
  · intro p
    rw [previousKey_concat]
    cases p <;> rfl
  · rw [editsOf_concat, ← h.edits]
    rfl
  · intro p
    cases p <;> rfl
  · intro final closed hclosed
    refine ⟨hclosed.funnel, hclosed.initialSizes, hclosed.endedBy, ?_, ?_, hclosed.allYears⟩
    · intro p
      rw [← hclosed.arrivals p]
      cases p <;> rfl
    · intro p
      rw [← hclosed.departures p]
      cases p <;> rfl

end Step

/-! ## The whole merge -/

/-- The editors that contribute. -/
def editors (cs : List Contribution) : List ℤ := (cs.map Contribution.userId).dedup

theorem mem_editors {cs : List Contribution} {u : ℤ} :
    u ∈ editors cs ↔ ∃ c ∈ cs, c.userId = u := by
  rw [editors, List.mem_dedup, List.mem_map]

/-- An editor without further rows keeps its entries. -/
theorem ExternalUser.Holds.append {user : ExternalUser} {done rest : List Contribution}
    (h : user.Holds (observed done)) (hrest : ∀ c ∈ rest, c.userId ≠ user.userId) :
    user.Holds (observed (done ++ rest)) := by
  have hfilter : (done ++ rest).filter (fun c => decide (c.userId = user.userId))
      = done.filter fun c => decide (c.userId = user.userId) := by
    have hnone : rest.filter (fun c => decide (c.userId = user.userId)) = [] :=
      List.filter_eq_nil_iff.mpr fun c hc => by simpa using hrest c hc
    rw [List.filter_append, hnone, List.append_nil]
  refine ⟨?_, ?_, fun p => ?_⟩
  · rw [← h.stats, observed_funnelStats, observed_funnelStats, getElem?_foldBy, getElem?_foldBy,
      hfilter]
  · rw [← h.years, observed_cohortSpans, observed_cohortSpans, getElem?_foldBy, getElem?_foldBy,
      hfilter]
  · rw [← h.span p, observed_spans, observed_spans, getElem?_foldBy, getElem?_foldBy, hfilter]

/-- What the loop has computed once the rows `done` are merged. -/
structure Tracks (final : RegisteredState) (done : List Contribution) (st : MergeState) :
    Prop where
  active : ∀ p, (st.2.period p).active = ((observed done).churn p).active
  closed : ∃ closed : List ℤ, closed.Nodup ∧ st.2.Closed final closed ∧
    ∀ u, u ∈ closed ↔ u ∈ editors done ∧ ∀ user ∈ st.1, user.userId ≠ u
  fresh : st.1 = none → done = []
  current : ∀ user, st.1 = some user → user.userId ∈ editors done ∧
    user.Ready done user.userId ∧ user.Holds (observed done) ∧
    ∀ last ∈ done.getLast?, last.userId = user.userId

theorem tracks_nil (final : RegisteredState) : Tracks final [] (none, {}) where
  active p := by cases p <;> rfl
  closed := by
    refine ⟨[], List.nodup_nil, ⟨rfl, rfl, rfl, ?_, ?_, ?_⟩, by simp [editors]⟩
    · intro p; cases p <;> rfl
    · intro p; cases p <;> rfl
    · intro y
      simp
  fresh _ := rfl
  current _ h := absurd h (by simp)

/-- Closing the current editor closes one editor more. -/
theorem Tracks.finalize {final : RegisteredState} {done all : List Contribution}
    {user : ExternalUser} {aggregate : ExternalLifecycleAggregate}
    (h : Tracks final done (some user, aggregate)) (hholds : user.Holds final)
    (hbound : final.Bounded (editors all)) (hsub : ∀ u ∈ editors done, u ∈ editors all) :
    ∃ aggregate', finalizeExternalUser user aggregate = .ok aggregate' ∧
      (∀ p, (aggregate'.period p).active = ((observed done).churn p).active) ∧
      ∃ closed : List ℤ, closed.Nodup ∧ aggregate'.Closed final closed ∧
        ∀ u, u ∈ closed ↔ u ∈ editors done := by
  obtain ⟨closed, hnodup, hclosed, hmem⟩ := h.closed
  obtain ⟨huser, -, -, -⟩ := h.current user rfl
  have hnot : user.userId ∉ closed := fun hin =>
    ((hmem _).mp hin).2 user (Option.mem_some_self _) rfl
  have hmem' : ∀ u, u ∈ closed ++ [user.userId] ↔ u ∈ editors done := by
    intro u
    rw [List.mem_append, List.mem_singleton, hmem]
    constructor
    · rintro (h | rfl)
      · exact h.1
      · exact huser
    · intro hu
      by_cases heq : u = user.userId
      · exact Or.inr heq
      · refine Or.inl ⟨hu, fun user' huser' => ?_⟩
        obtain rfl := Option.mem_some_iff.mp huser'
        exact fun h => heq h.symm
  have hnodup' : (closed ++ [user.userId]).Nodup := by
    rw [List.nodup_append]
    refine ⟨hnodup, List.nodup_singleton _, fun a ha b hb => ?_⟩
    obtain rfl := List.mem_singleton.mp hb
    exact fun heq => hnot (heq ▸ ha)
  obtain ⟨aggregate', hok, hclosed', hactive⟩ := finalizeExternalUser_eq hholds hclosed hbound
    hnodup' fun u hu => hsub u ((hmem' u).mp hu)
  exact ⟨aggregate', hok, fun p => (hactive p).trans (h.active p), _, hnodup', hclosed', hmem'⟩

section Merge

variable {all done rest : List Contribution} {c : Contribution}

/-- One merged row keeps the loop beside the resident state. -/
theorem Tracks.mergeRow {st : MergeState} (hall : all = done ++ c :: rest)
    (hsorted : all.Pairwise Contribution.Before) (hwf : ∀ x ∈ all, x.WellFormed)
    (hbound : (observed all).Bounded (editors all))
    (hedits : editsOf (done ++ [c]) c.userId ≤ u32Max)
    (hcount : ∀ p key, activeEditors (done ++ [c]) p key ≤ u32Max)
    (h : Tracks (observed all) done st) :
    ∃ st', Lifecycle.mergeRow st c = .ok st' ∧ Tracks (observed all) (done ++ [c]) st' := by
  have hsub : ∀ u ∈ editors done, u ∈ editors all := by
    intro u hu
    obtain ⟨x, hx, rfl⟩ := mem_editors.mp hu
    exact mem_editors.mpr ⟨x, by rw [hall]; exact List.mem_append_left _ hx, rfl⟩
  have hsorted' : (done ++ c :: rest).Pairwise Contribution.Before := hall ▸ hsorted
  have hwf' : ∀ x ∈ done ++ c :: rest, x.WellFormed := hall ▸ hwf
  have hconcat : ∀ u, u ∈ editors (done ++ [c]) ↔ u ∈ editors done ∨ u = c.userId := by
    intro u
    simp only [mem_editors, List.mem_append, List.mem_singleton, or_and_right, exists_or,
      exists_eq_left, @eq_comm _ u]
  -- an observed row: the editor is `user`, and `closed` are the editors before it
  have hobserve : ∀ (user : ExternalUser) (aggregate : ExternalLifecycleAggregate)
      (closed : List ℤ), user.Ready done c.userId →
      (∀ p, (aggregate.period p).active = ((observed done).churn p).active) →
      closed.Nodup → aggregate.Closed (observed all) closed →
      (∀ u, u ∈ closed ↔ u ∈ editors done ∧ u ≠ c.userId) →
      ∃ user' aggregate', user.observe c aggregate = .ok (user', aggregate') ∧
        Tracks (observed all) (done ++ [c]) (some user', aggregate') := by
    intro user aggregate closed hready hactive hnodup hclosed hmem
    obtain ⟨user', aggregate', hok, hready', hholds, hactive', hkeep⟩ :=
      hready.observe hsorted' hwf' hactive hedits hcount
    have hid := hready'.userId_eq
    refine ⟨user', aggregate', hok, hactive', ⟨closed, hnodup, hkeep _ _ hclosed, ?_⟩,
      fun h => absurd h (by simp), ?_⟩
    · intro u
      simp only [hmem, hconcat, Option.mem_some_iff, forall_eq', hid]
      constructor
      · exact fun h => ⟨Or.inl h.1, fun heq => h.2 heq.symm⟩
      · exact fun h => ⟨h.1.resolve_right fun heq => h.2 heq.symm, fun heq => h.2 heq.symm⟩
    · intro user'' huser
      obtain rfl : user' = user'' := Option.some.inj huser
      rw [hid]
      refine ⟨(hconcat _).mpr (Or.inr rfl), hready', hholds, fun last hlast => ?_⟩
      obtain rfl : c = last := by simpa using hlast
      rfl
  have hnew : ∀ {done' : List Contribution}, (∀ x ∈ done', x.userId ≠ c.userId) →
      (ExternalUser.new c.userId).Ready done' c.userId := by
    intro done' hnone
    refine ⟨rfl, fun p => ?_, ?_, Or.inr ⟨rfl, hnone⟩⟩
    · have hprev : previousKey done' c.userId p = none := by
        rw [previousKey]
        split
        next last hlast => rw [if_neg (hnone last (List.mem_of_getLast? hlast))]
        · rfl
      rw [hprev]
      cases p <;> rfl
    · rw [editsOf, List.filter_eq_nil_iff.mpr fun x hx => by simpa using hnone x hx]
      rfl
  obtain ⟨current, aggregate⟩ := st
  cases current with
  | none =>
    obtain rfl : done = [] := h.fresh rfl
    obtain ⟨closed, hnodup, hclosed, hmem⟩ := h.closed
    obtain ⟨user', aggregate', hok, htracks⟩ := hobserve _ aggregate closed (hnew (by simp))
      h.active hnodup hclosed fun u => by simp [hmem, editors]
    refine ⟨_, ?_, htracks⟩
    show ((ExternalUser.new c.userId).observe c aggregate >>= _) = _
    rw [hok]
    rfl
  | some user =>
    obtain ⟨huser, hready, hholds, hlast⟩ := h.current user rfl
    by_cases hsame : user.userId = c.userId
    · obtain ⟨closed, hnodup, hclosed, hmem⟩ := h.closed
      rw [hsame] at hready
      obtain ⟨user', aggregate', hok, htracks⟩ := hobserve user aggregate closed hready h.active
        hnodup hclosed fun u => by
          simp only [hmem, Option.mem_some_iff, forall_eq', hsame, ne_eq, @eq_comm _ u]
      refine ⟨_, ?_, htracks⟩
      rw [Lifecycle.mergeRow]
      simp only [hsame, ne_eq, not_true_eq_false, if_false]
      show (user.observe c aggregate >>= _) = _
      rw [hok]
      rfl
    · -- the merge has moved on: no row left is the current editor's
      have hpast : ∀ x ∈ c :: rest, x.userId ≠ user.userId := by
        obtain ⟨x, hx, hxuser⟩ := mem_editors.mp huser
        obtain ⟨-, hright, hcross⟩ := List.pairwise_append.mp hsorted'
        have hle := (hcross x hx c (List.mem_cons_self ..)).userId_le
        intro y hy
        rcases List.mem_cons.mp hy with rfl | hy
        · exact fun heq => hsame heq.symm
        · have hle' := (List.rel_of_pairwise_cons hright hy).userId_le
          omega
      have hfresh : ∀ x ∈ done, x.userId ≠ c.userId := by
        intro x hx heq
        obtain ⟨last, -, hgetLast, hlastuser, -, -⟩ := last_of_mem hsorted' hx heq
        exact hsame ((hlast last hgetLast).symm.trans hlastuser)
      obtain ⟨aggregate', hfinalize, hactive, closed, hnodup, hclosed, hmem⟩ :=
        h.finalize (by rw [hall]; exact hholds.append hpast) hbound hsub
      obtain ⟨user', aggregate'', hok, htracks⟩ := hobserve _ aggregate' closed (hnew hfresh)
        hactive hnodup hclosed fun u => by
          rw [hmem]
          refine ⟨fun hu => ⟨hu, ?_⟩, fun hu => hu.1⟩
          obtain ⟨x, hx, rfl⟩ := mem_editors.mp hu
          exact hfresh x hx
      refine ⟨_, ?_, htracks⟩
      rw [Lifecycle.mergeRow]
      simp only [ne_eq, hsame, not_false_eq_true, if_true, hfinalize]
      show ((ExternalUser.new c.userId).observe c aggregate' >>= _) = _
      rw [hok]
      rfl

theorem editsOf_le_append (cs cs' : List Contribution) (u : ℤ) :
    editsOf cs u ≤ editsOf (cs ++ cs') u := by
  simp [editsOf, List.filter_append]

theorem activeEditors_le_append (cs cs' : List Contribution) (p : PeriodType) (key : ℤ) :
    activeEditors cs p key ≤ activeEditors (cs ++ cs') p key := by
  apply Finset.card_le_card
  intro u hu
  rw [List.filter_append, List.map_append, List.toFinset_append]
  exact Finset.mem_union_left _ hu

/-- The loop over the rows still to come. -/
theorem Tracks.foldlM (hsorted : all.Pairwise Contribution.Before)
    (hwf : ∀ x ∈ all, x.WellFormed) (hbound : (observed all).Bounded (editors all))
    (hedits : ∀ u, editsOf all u ≤ u32Max) (hcount : ∀ p key, activeEditors all p key ≤ u32Max) :
    ∀ {rest done : List Contribution} {st : MergeState}, all = done ++ rest →
      Tracks (observed all) done st →
      ∃ st', rest.foldlM Lifecycle.mergeRow st = .ok st' ∧ Tracks (observed all) all st' := by
  intro rest
  induction rest with
  | nil =>
    intro done st hall h
    rw [List.append_nil] at hall
    exact ⟨st, rfl, hall ▸ h⟩
  | cons c rest ih =>
    intro done st hall h
    have hassoc : all = (done ++ [c]) ++ rest := by rw [hall]; simp
    obtain ⟨st', hok, h'⟩ := h.mergeRow hall hsorted hwf hbound
      (le_trans (hassoc ▸ editsOf_le_append (done ++ [c]) rest c.userId) (hedits _))
      fun p key => le_trans (hassoc ▸ activeEditors_le_append (done ++ [c]) rest p key)
        (hcount p key)
    obtain ⟨st'', hrest, h''⟩ := ih hassoc h'
    refine ⟨st'', ?_, h''⟩
    rw [List.foldlM_cons, hok]
    exact hrest

/-- **The merge computes the resident state.** Its period maps are the resident
`active` counts, and every editor is closed exactly once with its final entries. -/
theorem merge_eq_observed (hsorted : all.Pairwise Contribution.Before)
    (hwf : ∀ x ∈ all, x.WellFormed) (hbound : (observed all).Bounded (editors all))
    (hedits : ∀ u, editsOf all u ≤ u32Max) (hcount : ∀ p key, activeEditors all p key ≤ u32Max) :
    ∃ st aggregate, all.foldlM mergeRow ((none, {}) : MergeState) = .ok st ∧
      finishMerge st = .ok aggregate ∧
      (∀ p, (aggregate.period p).active = ((observed all).churn p).active) ∧
      ∃ closed : List ℤ, closed.Perm (editors all) ∧ aggregate.Closed (observed all) closed := by
  obtain ⟨st, hok, h⟩ := Tracks.foldlM hsorted hwf hbound hedits hcount rfl
    (tracks_nil (observed all))
  have hperm : ∀ {closed : List ℤ}, closed.Nodup → (∀ u, u ∈ closed ↔ u ∈ editors all) →
      closed.Perm (editors all) := fun hnodup hmem =>
    (List.perm_ext_iff_of_nodup hnodup (List.nodup_dedup _)).mpr hmem
  obtain ⟨current, aggregate⟩ := st
  cases current with
  | none =>
    obtain ⟨closed, hnodup, hclosed, hmem⟩ := h.closed
    exact ⟨_, aggregate, hok, rfl, h.active, closed, hperm hnodup fun u => by simp [hmem],
      hclosed⟩
  | some user =>
    obtain ⟨-, -, hholds, -⟩ := h.current user rfl
    obtain ⟨aggregate', hfinalize, hactive, closed, hnodup, hclosed, hmem⟩ :=
      h.finalize hholds hbound fun u hu => hu
    exact ⟨_, aggregate', hok, hfinalize, hactive, closed, hperm hnodup hmem, hclosed⟩

end Merge

end WikiEcon.Compute.Lifecycle
