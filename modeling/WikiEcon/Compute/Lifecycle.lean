import Mathlib.Algebra.Order.Ring.Int
import Mathlib.Algebra.Order.Ring.Nat
import Mathlib.Data.Finset.Card
import Mathlib.Data.Finset.Dedup
import Mathlib.Data.Finset.Lattice.Basic
import Mathlib.Data.List.Dedup
import WikiEcon.Compute.Frames

/-!
# Editor lifecycle

The resident path of `compute/lifecycle`: month partitions are folded into one
state entry for each registered editor, and three outputs are read off the final
state. An editor counts once for each month, quarter and year: the accumulators
remember the pairs they have `seen`.

- Contributions can be observed in any order (`RegisteredState.observe_comm`),
  so neither the row order of a `group_by` nor the iteration order of a hash map
  shows in the outputs (`writeLifecycleOutputs_order`).
- What the state holds for an editor is a fold over that editor's contributions
  (`foldl_observe_funnelStats` and its siblings).
-/

namespace WikiEcon.Compute.Lifecycle

open Std (ExtTreeMap ExtTreeSet)
open Grouping

/-- Part of every fingerprint, so that outputs of another algorithm are not reused. -/
def algorithmVersion : String :=
  "editor-lifecycle-v4-explicit-identified-registered-editors-external-merge"

/-! ## Input -/

/-- The columns the lifecycle metrics read. -/
structure Row where
  userType : Option String
  eventUserId : Option ℤ
  revisionId : Option ℤ
  year : Option ℤ
  deriving DecidableEq

/-- A month of rows. Its directory names the year twice, and both agree. -/
structure Partition where
  year : ℤ
  yearMonth : YearMonth
  rows : List Row
  year_eq : year = yearMonth.year

/-- A partition by its month alone. -/
def Partition.ofMonth (m : YearMonth) (rows : List Row) : Partition := ⟨m.year, m, rows, rfl⟩

/-- The edits of one editor in a partition, and the earliest year that their rows have. -/
structure EditorTotal where
  userId : ℤ
  totalEdits : ℕ
  cohortYear : Option ℤ
  deriving DecidableEq

/-- Registered editors have an id; rows of anonymous and temporary ones are not counted here. -/
def Row.registered (row : Row) : Bool :=
  row.userType == some "registered" && row.eventUserId.isSome

/-- `registered_editor_totals_lazy`: edits are the rows with a revision id. -/
def registeredEditorTotals (order : RowOrder) (base : List Row) : List EditorTotal :=
  groupBy order Row.eventUserId (fun user rows => {
      userId := user.getD 0
      totalEdits := (rows.filterMap Row.revisionId).length
      cohortYear := (rows.filterMap Row.year).min? })
    (base.filter Row.registered)

/-! ## State -/

/-- The editors of each period of one length. `seen` keeps an editor from counting twice in a
period. -/
structure ChurnAccumulator where
  periodType : PeriodType
  seen : Finset (ℤ × ℤ)
  active : ExtTreeMap ℤ ℕ
  spans : ExtTreeMap ℤ (ℤ × ℤ)

def ChurnAccumulator.new (periodType : PeriodType) : ChurnAccumulator where
  periodType := periodType
  seen := ∅
  active := ∅
  spans := ∅

/-- Widen a first and last key. -/
def widen (span : Option (ℤ × ℤ)) (key : ℤ) : ℤ × ℤ :=
  match span with
  | none => (key, key)
  | some (first, last) => (min first key, max last key)

/-- An editor who was not seen in the period is counted in it and widens the span of the periods
they were active in. -/
def ChurnAccumulator.observe (acc : ChurnAccumulator) (userId periodKey : ℤ) :
    ChurnAccumulator :=
  if (userId, periodKey) ∈ acc.seen then acc
  else { acc with
    seen := insert (userId, periodKey) acc.seen
    active := addOne acc.active periodKey
    spans := acc.spans.alter userId fun span => some (widen span periodKey) }

/-- What the months so far leave behind: the edits and the span of years of each editor, and who
was active when. -/
structure RegisteredState where
  funnelStats : ExtTreeMap ℤ (ℤ × ℕ)
  cohortSpans : ExtTreeMap ℤ (ℤ × ℤ)
  churnMonth : ChurnAccumulator
  churnQuarter : ChurnAccumulator
  churnYear : ChurnAccumulator

def RegisteredState.new : RegisteredState where
  funnelStats := ∅
  cohortSpans := ∅
  churnMonth := .new .month
  churnQuarter := .new .quarter
  churnYear := .new .year

/-- One editor's share of one month. -/
structure Contribution where
  userId : ℤ
  yearMonthKey : ℤ
  year : ℤ
  cohortYear : ℤ
  totalEdits : ℕ
  deriving DecidableEq

/-- Edits add up, and the cohort of an editor is the earliest year. -/
def addFunnel (stats : Option (ℤ × ℕ)) (c : Contribution) : ℤ × ℕ :=
  match stats with
  | none => (c.cohortYear, c.totalEdits)
  | some (cohortYear, edits) =>
    (min cohortYear c.cohortYear, wrappingAdd u32Max edits c.totalEdits)

/-- The loop body of `observe_partition_lazy`. -/
def RegisteredState.observe (state : RegisteredState) (c : Contribution) : RegisteredState where
  funnelStats := state.funnelStats.alter c.userId fun stats => some (addFunnel stats c)
  cohortSpans := state.cohortSpans.alter c.userId fun span => some (widen span c.year)
  churnMonth := state.churnMonth.observe c.userId c.yearMonthKey
  churnQuarter := state.churnQuarter.observe c.userId (normalizePeriodKey c.yearMonthKey .quarter)
  churnYear := state.churnYear.observe c.userId c.year

/-- The rows `observe_partition_lazy` loops over: editors with a cohort year. -/
def contributions (order : RowOrder) (p : Partition) : List Contribution :=
  (registeredEditorTotals order p.rows).filterMap fun total =>
    total.cohortYear.map fun cohortYear => {
      userId := total.userId
      yearMonthKey := p.yearMonth.key
      year := p.year
      cohortYear := cohortYear
      totalEdits := total.totalEdits }

/-- One month: its rows are grouped by editor and observed one after another, in whatever order
the grouping leaves them. -/
def RegisteredState.observePartition (order : RowOrder) (state : RegisteredState)
    (p : Partition) : RegisteredState :=
  (contributions order p).foldl RegisteredState.observe state

/-! ## Outputs -/

/-- One period of the churn output. -/
structure ChurnRow where
  period : String
  activeEditors : ℕ
  arrivals : ℕ
  departures : ℕ
  periodType : String
  periodMonths : ℕ
  arrivalRate : ℕ × ℕ
  departureRate : ℕ × ℕ
  deriving DecidableEq

/-- One year of one cohort. -/
structure CohortRow where
  cohortYear : String
  year : String
  survivedEditors : ℕ
  initialEditors : ℕ
  deriving DecidableEq

/-- How many editors of a cohort reached each number of edits. -/
structure FunnelRow where
  cohortYear : String
  cohortSize : ℕ
  reached5 : ℕ
  reached25 : ℕ
  reached100 : ℕ
  deriving DecidableEq

/-- The counters of one cohort. -/
structure FunnelCounts where
  size : ℕ := 0
  reached5 : ℕ := 0
  reached25 : ℕ := 0
  reached100 : ℕ := 0
  deriving DecidableEq

/-- The rows of a churn frame. The rates are quotients of counts, kept as pairs. -/
def churnRows (periodType : PeriodType) (active arrivals departures : ExtTreeMap ℤ ℕ) :
    List ChurnRow :=
  active.toList.map fun (periodKey, activeEditors) => {
    period := formatPeriodKey periodKey periodType
    activeEditors := activeEditors
    arrivals := arrivals[periodKey]?.getD 0
    departures := departures[periodKey]?.getD 0
    periodType := periodType.label
    periodMonths := periodMonthsForType periodType
    arrivalRate := (arrivals[periodKey]?.getD 0, activeEditors)
    departureRate := (departures[periodKey]?.getD 0, activeEditors) }

/-- The rows come from the spans of the editors, which the hash map gives in any order. -/
def ChurnAccumulator.finish (order : RowOrder) (acc : ChurnAccumulator) : List ChurnRow :=
  let spans := order.arrange acc.spans.toList
  churnRows acc.periodType acc.active ((spans.map (·.2.1)).foldl addOne ∅)
    ((spans.map (·.2.2)).foldl addOne ∅)

/-- The counters wrap as `u32` additions in release builds do. -/
def FunnelCounts.observe (entry : FunnelCounts) (totalEdits : ℕ) : FunnelCounts where
  size := wrappingAdd u32Max entry.size 1
  reached5 := if totalEdits ≥ 5 then wrappingAdd u32Max entry.reached5 1 else entry.reached5
  reached25 := if totalEdits ≥ 25 then wrappingAdd u32Max entry.reached25 1 else entry.reached25
  reached100 :=
    if totalEdits ≥ 100 then wrappingAdd u32Max entry.reached100 1 else entry.reached100

/-- The cohorts in ascending order. -/
def funnelRows (byCohort : ExtTreeMap ℤ FunnelCounts) : List FunnelRow :=
  byCohort.toList.map fun (cohortYear, entry) => {
    cohortYear := toString cohortYear
    cohortSize := entry.size
    reached5 := entry.reached5
    reached25 := entry.reached25
    reached100 := entry.reached100 }

/-- Editors are counted into their cohorts, in whatever order the hash map has them. -/
def finalizeFunnel (order : RowOrder) (stats : ExtTreeMap ℤ (ℤ × ℕ)) : List FunnelRow :=
  funnelRows (((order.arrange stats.toList).map Prod.snd).foldl
    (fun byCohort (cohortYear, totalEdits) =>
      byCohort.alter cohortYear fun entry => some ((entry.getD {}).observe totalEdits)) ∅)

/-- `survivors` after each year from the last one down to the cohort's own, for
the years listed in descending order. -/
def survivorsFrom (ended : ℤ → ℕ) (cohortYear : ℤ) : List ℤ → ℕ → List (ℤ × ℕ)
  | [], _ => []
  | year :: years, survivors =>
    if year < cohortYear then survivorsFrom ended cohortYear years survivors
    else
      let survivors := wrappingAdd u32Max survivors (ended year)
      (year, survivors) :: survivorsFrom ended cohortYear years survivors

/-- The years of a cohort, with how many of its editors were still active in each. -/
def cohortRows (initialSizes : ExtTreeMap ℤ ℕ) (rows : ℤ → List (ℤ × ℕ)) : List CohortRow :=
  initialSizes.toList.flatMap fun (cohortYear, initial) =>
    (rows cohortYear).reverse.map fun (year, survived) => {
      cohortYear := toString cohortYear
      year := toString year
      survivedEditors := survived
      initialEditors := initial }

/-- `build_cohort_output`. -/
def buildCohortOutput (editorSpans : List (ℤ × ℤ)) (allYears : List ℤ) : List CohortRow :=
  let initialSizes := (editorSpans.map Prod.fst).foldl addOne ∅
  let endedBy := (editorSpans.map toLex).foldl addOne (∅ : ExtTreeMap (ℤ ×ₗ ℤ) ℕ)
  cohortRows initialSizes fun cohortYear =>
    survivorsFrom (fun year => endedBy[toLex (cohortYear, year)]?.getD 0) cohortYear
      allYears.reverse 0

/-- Each editor is active from their first year to their last, without regard to gaps. -/
def finalizeLaborCohorts (order : RowOrder) (spans : ExtTreeMap ℤ (ℤ × ℤ)) : List CohortRow :=
  let rows := ((order.arrange spans.toList).map Prod.snd).insertionSort fun a b =>
    toLex a ≤ toLex b
  let allYears := ExtTreeSet.ofList (rows.flatMap fun (first, last) => [first, last]) compare
  buildCohortOutput rows allYears.toList

/-- The three lifecycle tables of one wiki. -/
structure LifecycleOutputs where
  wiki : String
  businessFunnel : List FunnelRow
  laborCohorts : List CohortRow
  laborChurn : List ChurnRow
  deriving DecidableEq

/-- The three outputs are read off the final state, so they depend on the input only through it.
-/
def writeLifecycleOutputs (order : RowOrder) (wiki : String) (state : RegisteredState) :
    LifecycleOutputs where
  wiki := wiki
  businessFunnel := finalizeFunnel order state.funnelStats
  laborCohorts := finalizeLaborCohorts order state.cohortSpans
  laborChurn := concatFrames [state.churnMonth.finish order, state.churnQuarter.finish order,
    state.churnYear.finish order]

/-! ## The three granularities at once -/

/-- The accumulator of a length of period. -/
def RegisteredState.churn (state : RegisteredState) : PeriodType → ChurnAccumulator
  | .month => state.churnMonth
  | .quarter => state.churnQuarter
  | .year => state.churnYear

/-- The key a contribution is counted under. -/
def Contribution.periodKey (c : Contribution) : PeriodType → ℤ
  | .month => c.yearMonthKey
  | .quarter => normalizePeriodKey c.yearMonthKey .quarter
  | .year => c.year

@[simp] theorem RegisteredState.observe_churn (state : RegisteredState) (c : Contribution)
    (p : PeriodType) :
    (state.observe c).churn p = (state.churn p).observe c.userId (c.periodKey p) := by
  cases p <;> rfl

theorem ChurnAccumulator.observe_periodType (acc : ChurnAccumulator) (u k : ℤ) :
    (acc.observe u k).periodType = acc.periodType := by
  unfold ChurnAccumulator.observe
  split <;> rfl

/-- Two states agree if their maps and their three accumulators do. -/
theorem RegisteredState.ext_churn {a b : RegisteredState} (hfunnel : a.funnelStats = b.funnelStats)
    (hcohort : a.cohortSpans = b.cohortSpans) (hchurn : ∀ p, a.churn p = b.churn p) : a = b := by
  have hm := hchurn .month
  have hq := hchurn .quarter
  have hy := hchurn .year
  cases a
  cases b
  simp only [RegisteredState.churn] at hm hq hy
  simp only at hfunnel hcohort
  rw [hfunnel, hcohort, hm, hq, hy]

/-- A contribution has the month and the year of its partition. -/
theorem mem_contributions {order : RowOrder} {p : Partition} {c : Contribution}
    (h : c ∈ contributions order p) :
    c.yearMonthKey = p.yearMonth.key ∧ c.year = p.year := by
  obtain ⟨total, -, htotal⟩ := List.mem_filterMap.mp h
  obtain ⟨cohortYear, -, rfl⟩ := Option.map_eq_some_iff.mp htotal
  exact ⟨rfl, rfl⟩

/-- A partition's contributions are counted under its own month, quarter and year. -/
theorem periodKey_of_mem {order : RowOrder} {p : Partition} {c : Contribution}
    (h : c ∈ contributions order p) (t : PeriodType) :
    c.periodKey t = normalizePeriodKey p.yearMonth.key t := by
  obtain ⟨hkey, hyear⟩ := mem_contributions h
  cases t with
  | month => exact hkey
  | quarter => rw [Contribution.periodKey, hkey]
  | year => rw [Contribution.periodKey, hyear, p.year_eq, (normalizePeriodKey_key _).2]

/-! ## Order does not matter -/

/-- The span of two years and a third does not depend on which came first. -/
theorem widen_comm (span : Option (ℤ × ℤ)) (a b : ℤ) :
    widen (some (widen span a)) b = widen (some (widen span b)) a := by
  cases span with
  | none => simp only [widen, min_comm, max_comm]
  | some span => simp only [widen, min_right_comm, max_right_comm]

/-- Edits can be added in any order, and of several years the earliest stays. -/
theorem addFunnel_comm (stats : Option (ℤ × ℕ)) (c d : Contribution) :
    addFunnel (some (addFunnel stats c)) d = addFunnel (some (addFunnel stats d)) c := by
  cases stats with
  | none => simp only [addFunnel, min_comm, wrappingAdd, Nat.add_comm]
  | some stats =>
    simp only [addFunnel, wrappingAdd, Nat.mod_add_mod, Nat.add_right_comm, min_right_comm]

/-- Two editors, or two periods, can be observed in either order: each pair is counted once. -/
theorem ChurnAccumulator.observe_comm (acc : ChurnAccumulator) (u k u' k' : ℤ) :
    (acc.observe u k).observe u' k' = (acc.observe u' k').observe u k := by
  by_cases heq : (u, k) = (u', k')
  · obtain ⟨rfl, rfl⟩ := Prod.mk.inj heq
    rfl
  by_cases h : (u, k) ∈ acc.seen
  · by_cases h' : (u', k') ∈ acc.seen
    · simp [ChurnAccumulator.observe, h, h']
    · simp [ChurnAccumulator.observe, h, h']
  · by_cases h' : (u', k') ∈ acc.seen
    · simp [ChurnAccumulator.observe, h, h']
    · have hnot : (u', k') ∉ insert (u, k) acc.seen := by
        simp only [Finset.mem_insert, not_or]
        exact ⟨fun he => heq he.symm, h'⟩
      have hnot' : (u, k) ∉ insert (u', k') acc.seen := by
        simp only [Finset.mem_insert, not_or]
        exact ⟨heq, h⟩
      have hactive : addOne (addOne acc.active k) k' = addOne (addOne acc.active k') k :=
        alter_comm fun _ _ => rfl
      have hspans := alter_comm (m := acc.spans) (k := u) (j := u')
        (f := fun span => some (widen span k)) (g := fun span => some (widen span k'))
        fun _ span => congrArg some (widen_comm span k k')
      simp only [ChurnAccumulator.observe, h, h', hnot, hnot', if_false, hactive, hspans,
        Finset.insert_comm]

/-- Contributions can be observed in any order. -/
theorem RegisteredState.observe_comm (state : RegisteredState) (c d : Contribution) :
    (state.observe c).observe d = (state.observe d).observe c := by
  apply RegisteredState.ext_churn
  · exact alter_comm fun _ stats => congrArg some (addFunnel_comm stats c d)
  · exact alter_comm fun _ span => congrArg some (widen_comm span c.year d.year)
  · intro p
    simp only [RegisteredState.observe_churn]
    exact ChurnAccumulator.observe_comm ..

instance : RightCommutative RegisteredState.observe := ⟨RegisteredState.observe_comm⟩

/-- Two orders of a hash map give the same contributions in another order. -/
theorem contributions_perm (order order' : RowOrder) (p : Partition) :
    (contributions order p).Perm (contributions order' p) :=
  ((groupBy_perm order ..).trans (groupBy_perm order' ..).symm).filterMap _

/-- The state after a month does not depend on the order of the map it was grouped in. -/
theorem RegisteredState.observePartition_order (order order' : RowOrder)
    (state : RegisteredState) (p : Partition) :
    state.observePartition order p = state.observePartition order' p :=
  (contributions_perm order order' p).foldl_eq state

instance addOne_rightCommutative {κ : Type} [Ord κ] [Std.TransOrd κ] [Std.LawfulEqOrd κ]
    [DecidableEq κ] : RightCommutative (addOne : ExtTreeMap κ ℕ → κ → ExtTreeMap κ ℕ) :=
  ⟨fun _ _ _ => alter_comm fun _ _ => rfl⟩

/-- Counting two editors into a cohort can be done in either order. -/
theorem FunnelCounts.observe_comm (entry : FunnelCounts) (a b : ℕ) :
    (entry.observe a).observe b = (entry.observe b).observe a := by
  have hcount : ∀ (n bound : ℕ), (if b ≥ bound then
      wrappingAdd u32Max (if a ≥ bound then wrappingAdd u32Max n 1 else n) 1
      else if a ≥ bound then wrappingAdd u32Max n 1 else n)
      = if a ≥ bound then
        wrappingAdd u32Max (if b ≥ bound then wrappingAdd u32Max n 1 else n) 1
        else if b ≥ bound then wrappingAdd u32Max n 1 else n := by
    intro n bound
    by_cases ha : a ≥ bound
    · by_cases hb : b ≥ bound
      · simp [ha, hb]
      · simp [ha, hb]
    · by_cases hb : b ≥ bound
      · simp [ha, hb]
      · simp [ha, hb]
  simp only [FunnelCounts.observe, hcount]

/-- The loop of `finalize_funnel` over the editors' cohorts and totals. -/
def funnelByCohort (stats : List (ℤ × ℕ)) : ExtTreeMap ℤ FunnelCounts :=
  stats.foldl (fun byCohort (cohortYear, totalEdits) =>
    byCohort.alter cohortYear fun entry => some ((entry.getD {}).observe totalEdits)) ∅

/-- The funnel depends on the editors and not on the order they are counted in. -/
theorem funnelByCohort_perm {stats stats' : List (ℤ × ℕ)} (h : stats.Perm stats') :
    funnelByCohort stats = funnelByCohort stats' :=
  have : RightCommutative fun (byCohort : ExtTreeMap ℤ FunnelCounts) (stat : ℤ × ℕ) =>
      byCohort.alter stat.1 fun entry => some ((entry.getD {}).observe stat.2) :=
    ⟨fun _ x y => alter_comm fun _ entry =>
      congrArg some (FunnelCounts.observe_comm (entry.getD {}) x.2 y.2)⟩
  h.foldl_eq ∅

theorem finalizeFunnel_eq (order : RowOrder) (stats : ExtTreeMap ℤ (ℤ × ℕ)) :
    finalizeFunnel order stats
      = funnelRows (funnelByCohort ((order.arrange stats.toList).map Prod.snd)) := rfl

/-- Sorting forgets the order the rows came in. -/
theorem insertionSort_congr {l l' : List (ℤ × ℤ)} (h : l.Perm l') :
    l.insertionSort (fun a b => toLex a ≤ toLex b)
      = l'.insertionSort fun a b => toLex a ≤ toLex b := by
  have htotal : Std.Total fun a b : ℤ × ℤ => toLex a ≤ toLex b := ⟨fun _ _ => le_total _ _⟩
  have htrans : IsTrans (ℤ × ℤ) fun a b => toLex a ≤ toLex b := ⟨fun _ _ _ => le_trans⟩
  have hsorted := List.pairwise_insertionSort (fun a b : ℤ × ℤ => toLex a ≤ toLex b) l
  refine List.Perm.eq_of_pairwise ?_ hsorted (List.pairwise_insertionSort _ _)
    ((List.perm_insertionSort _ _).trans (h.trans (List.perm_insertionSort _ _).symm))
  intro a b _ _ hab hba
  exact toLex_inj.mp (le_antisymm hab hba)

/-- No output shows the order a hash map was iterated in. -/
theorem writeLifecycleOutputs_order (order order' : RowOrder) (wiki : String)
    (state : RegisteredState) :
    writeLifecycleOutputs order wiki state = writeLifecycleOutputs order' wiki state := by
  have hperm : ∀ {α : Type} (l : List α), (order.arrange l).Perm (order'.arrange l) :=
    fun l => (order.perm l).trans (order'.perm l).symm
  have hfinish : ∀ acc : ChurnAccumulator, acc.finish order = acc.finish order' := by
    intro acc
    simp only [ChurnAccumulator.finish]
    rw [((hperm acc.spans.toList).map _).foldl_eq, ((hperm acc.spans.toList).map _).foldl_eq]
  simp only [writeLifecycleOutputs, finalizeFunnel_eq, hfinish, finalizeLaborCohorts,
    funnelByCohort_perm ((hperm state.funnelStats.toList).map Prod.snd),
    insertionSort_congr ((hperm state.cohortSpans.toList).map Prod.snd)]

/-! ## What the state holds -/

/-- A fold of `widen` ends in the least and the greatest key. -/
theorem foldl_widen {keys : List ℤ} (hne : keys ≠ []) :
    ∃ first last, keys.foldl (fun span key => some (widen span key)) none = some (first, last) ∧
      first ∈ keys ∧ last ∈ keys ∧ ∀ k ∈ keys, first ≤ k ∧ k ≤ last := by
  induction keys using List.reverseRecOn with
  | nil => exact absurd rfl hne
  | append_singleton keys key ih =>
    rw [List.foldl_append, List.foldl_cons, List.foldl_nil]
    cases keys with
    | nil => exact ⟨key, key, rfl, by simp, by simp, by simp⟩
    | cons k keys =>
      obtain ⟨first, last, hfold, hfirst, hlast, hall⟩ := ih (List.cons_ne_nil _ _)
      rw [hfold]
      refine ⟨min first key, max last key, rfl, ?_, ?_, ?_⟩
      · rcases min_choice first key with h | h
        · rw [h]; exact List.mem_append_left _ hfirst
        · rw [h]; exact List.mem_append_right _ (List.mem_singleton_self _)
      · rcases max_choice last key with h | h
        · rw [h]; exact List.mem_append_left _ hlast
        · rw [h]; exact List.mem_append_right _ (List.mem_singleton_self _)
      · intro k' hk'
        rcases List.mem_append.mp hk' with hk' | hk'
        · have hspan := hall k' hk'
          omega
        · obtain rfl := List.mem_singleton.mp hk'
          omega

/-- A key already inside the span leaves it alone. -/
theorem widen_of_mem {keys : List ℤ} {key : ℤ} (hmem : key ∈ keys) :
    some (widen (keys.foldl (fun span key => some (widen span key)) none) key)
      = keys.foldl (fun span key => some (widen span key)) none := by
  obtain ⟨first, last, hfold, -, -, hall⟩ := foldl_widen (List.ne_nil_of_mem hmem)
  have hspan := hall key hmem
  rw [hfold, widen]
  congr 2 <;> omega

section Holds

variable (cs : List Contribution)

/-- The state after observing a list of contributions. -/
def observed : RegisteredState := cs.foldl RegisteredState.observe .new

theorem observed_concat (c : Contribution) : observed (cs ++ [c]) = (observed cs).observe c := by
  rw [observed, List.foldl_append]
  rfl

theorem observed_periodType (p : PeriodType) : ((observed cs).churn p).periodType = p := by
  induction cs using List.reverseRecOn with
  | nil => cases p <;> rfl
  | append_singleton cs c ih =>
    rw [observed_concat, RegisteredState.observe_churn, ChurnAccumulator.observe_periodType, ih]

/-- The state depends on the contributions alone. -/
theorem observed_perm {cs cs' : List Contribution} (h : cs.Perm cs') :
    observed cs = observed cs' :=
  h.foldl_eq _

/-- The funnel of an editor is a fold over their own contributions. -/
theorem observed_funnelStats :
    (observed cs).funnelStats = foldBy Contribution.userId addFunnel cs := by
  induction cs using List.reverseRecOn with
  | nil => rfl
  | append_singleton cs c ih => rw [observed_concat, foldBy_concat, ← ih]; rfl

/-- The span of years of an editor is a fold over their own contributions. -/
theorem observed_cohortSpans :
    (observed cs).cohortSpans
      = foldBy Contribution.userId (fun span c => widen span c.year) cs := by
  induction cs using List.reverseRecOn with
  | nil => rfl
  | append_singleton cs c ih => rw [observed_concat, foldBy_concat, ← ih]; rfl

/-- The pairs that were seen are the pairs that there are. -/
theorem observed_seen (p : PeriodType) :
    ((observed cs).churn p).seen = (cs.map fun c => (c.userId, c.periodKey p)).toFinset := by
  induction cs using List.reverseRecOn with
  | nil => cases p <;> rfl
  | append_singleton cs c ih =>
    rw [observed_concat, RegisteredState.observe_churn, ChurnAccumulator.observe, List.map_append,
      List.toFinset_append, ← ih]
    by_cases hmem : (c.userId, c.periodKey p) ∈ ((observed cs).churn p).seen
    · rw [if_pos hmem]
      simp [hmem]
    · rw [if_neg hmem]
      ext x
      simp

theorem foldl_widen_map (key : Contribution → ℤ) (rows : List Contribution) :
    rows.foldl (fun span c => some (widen span (key c))) none
      = (rows.map key).foldl (fun span k => some (widen span k)) none := by
  rw [List.foldl_map]

/-- Skipping a pair already seen changes no span. -/
theorem observed_spans (p : PeriodType) :
    ((observed cs).churn p).spans
      = foldBy Contribution.userId (fun span c => widen span (c.periodKey p)) cs := by
  induction cs using List.reverseRecOn with
  | nil => cases p <;> rfl
  | append_singleton cs c ih =>
    rw [observed_concat, RegisteredState.observe_churn, ChurnAccumulator.observe, foldBy_concat,
      ← ih]
    by_cases hmem : (c.userId, c.periodKey p) ∈ ((observed cs).churn p).seen
    · rw [if_pos hmem]
      rw [observed_seen, List.mem_toFinset, List.mem_map] at hmem
      obtain ⟨c', hc', heq⟩ := hmem
      obtain ⟨huser, hkey⟩ := Prod.mk.inj heq
      have hkeys : c.periodKey p
          ∈ (cs.filter (fun x => decide (x.userId = c.userId))).map (·.periodKey p) := by
        refine List.mem_map.mpr ⟨c', List.mem_filter.mpr ⟨hc', decide_eq_true huser⟩, hkey⟩
      apply Std.ExtTreeMap.ext_getElem?
      intro u
      simp only [Std.ExtTreeMap.getElem?_alter, Std.LawfulEqCmp.compare_eq_iff_eq]
      by_cases hu : c.userId = u
      · subst hu
        rw [if_pos rfl, ih, getElem?_foldBy, foldl_widen_map, widen_of_mem hkeys]
      · rw [if_neg hu]
    · rw [if_neg hmem]

/-- An editor's edits. -/
def editsOf (userId : ℤ) : ℕ :=
  ((cs.filter (·.userId = userId)).map Contribution.totalEdits).sum

theorem editsOf_concat (c : Contribution) :
    editsOf (cs ++ [c]) c.userId = editsOf cs c.userId + c.totalEdits := by
  simp [editsOf, List.filter_append]

/-- The sum of an editor's edits does not depend on their order. -/
theorem editsOf_perm {cs cs' : List Contribution} (h : cs.Perm cs') (u : ℤ) :
    editsOf cs u = editsOf cs' u :=
  List.Perm.sum_nat ((h.filter _).map _)

/-- How many editors contribute in a period. -/
def activeEditors (p : PeriodType) (key : ℤ) : ℕ :=
  ((cs.filter (·.periodKey p = key)).map Contribution.userId).toFinset.card

theorem activeEditors_le_concat (c : Contribution) (p : PeriodType) (key : ℤ) :
    activeEditors cs p key ≤ activeEditors (cs ++ [c]) p key := by
  apply Finset.card_le_card
  intro u hu
  rw [List.filter_append, List.map_append, List.toFinset_append]
  exact Finset.mem_union_left _ hu

theorem activeEditors_perm {cs cs' : List Contribution} (h : cs.Perm cs') (p : PeriodType)
    (key : ℤ) : activeEditors cs p key = activeEditors cs' p key := by
  rw [activeEditors, activeEditors, List.toFinset_eq_of_perm _ _ ((h.filter _).map _)]

/-- An editor who is new to the period adds one to its count. -/
theorem activeEditors_concat {c : Contribution} {p : PeriodType}
    (hnew : (c.userId, c.periodKey p) ∉ ((observed cs).churn p).seen) :
    activeEditors (cs ++ [c]) p (c.periodKey p) = activeEditors cs p (c.periodKey p) + 1 := by
  have hfresh : c.userId
      ∉ ((cs.filter (fun x => decide (x.periodKey p = c.periodKey p))).map
        Contribution.userId).toFinset := by
    intro hmem
    apply hnew
    rw [List.mem_toFinset, List.mem_map] at hmem
    obtain ⟨c', hc', huser⟩ := hmem
    obtain ⟨hc', hkey⟩ := List.mem_filter.mp hc'
    rw [observed_seen, List.mem_toFinset, List.mem_map]
    exact ⟨c', hc', by rw [huser, of_decide_eq_true hkey]⟩
  have hinsert : ((cs ++ [c]).filter (fun x => decide (x.periodKey p = c.periodKey p))).map
      Contribution.userId
      = (cs.filter (fun x => decide (x.periodKey p = c.periodKey p))).map Contribution.userId
        ++ [c.userId] := by
    simp [List.filter_append]
  rw [activeEditors, hinsert, List.toFinset_append, Finset.union_comm]
  exact Finset.card_insert_of_notMem hfresh

/-- A contribution to one period leaves the counts of the others. -/
theorem activeEditors_concat_ne {c : Contribution} {p : PeriodType} {key : ℤ}
    (hne : c.periodKey p ≠ key) : activeEditors (cs ++ [c]) p key = activeEditors cs p key := by
  simp [activeEditors, List.filter_append, hne]

/-- While no period has more than `u32::MAX` editors, `active` counts them. -/
theorem observed_active (p : PeriodType) (hbound : ∀ key, activeEditors cs p key ≤ u32Max)
    (key : ℤ) : ((observed cs).churn p).active[key]?.getD 0 = activeEditors cs p key := by
  induction cs using List.reverseRecOn with
  | nil => cases p <;> rfl
  | append_singleton cs c ih =>
    have hle : ∀ key, activeEditors cs p key ≤ u32Max := fun key =>
      le_trans (activeEditors_le_concat cs c p key) (hbound key)
    have ih := ih hle
    rw [observed_concat, RegisteredState.observe_churn, ChurnAccumulator.observe]
    by_cases hmem : (c.userId, c.periodKey p) ∈ ((observed cs).churn p).seen
    · rw [if_pos hmem, ih]
      by_cases hkey : c.periodKey p = key
      · subst hkey
        rw [observed_seen, List.mem_toFinset, List.mem_map] at hmem
        obtain ⟨c', hc', heq⟩ := hmem
        obtain ⟨huser, hkey⟩ := Prod.mk.inj heq
        rw [activeEditors, activeEditors]
        congr 1
        ext u
        simp only [List.filter_append, List.map_append, List.toFinset_append, Finset.mem_union]
        refine ⟨Or.inl, fun h => h.elim id fun h => ?_⟩
        simp only [List.filter_cons, decide_true, if_true, List.filter_nil, List.map_cons,
          List.map_nil, List.mem_toFinset, List.mem_singleton] at h
        rw [h, List.mem_toFinset, List.mem_map]
        exact ⟨c', List.mem_filter.mpr ⟨hc', decide_eq_true hkey⟩, huser⟩
      · rw [activeEditors_concat_ne cs hkey]
    · rw [if_neg hmem]
      show (addOne _ _)[key]?.getD 0 = _
      simp only [addOne, Std.ExtTreeMap.getElem?_alter, Std.LawfulEqCmp.compare_eq_iff_eq]
      by_cases hkey : c.periodKey p = key
      · subst hkey
        have hnext := hbound (c.periodKey p)
        rw [activeEditors_concat cs hmem] at hnext
        rw [if_pos rfl, activeEditors_concat cs hmem, Option.getD_some, ih,
          wrappingAdd_of_le hnext]
      · rw [if_neg hkey, activeEditors_concat_ne cs hkey]
        exact ih

end Holds

end WikiEcon.Compute.Lifecycle
