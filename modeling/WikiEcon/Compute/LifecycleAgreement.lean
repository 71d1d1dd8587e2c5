import WikiEcon.Compute.LifecycleExternal

/-!
# The two lifecycle paths agree

`merge_eq_observed` compares states; this file compares what is written. The
runs of ascending months hold every editor's months once (`merged_before`), so
the merge applies, and both sets of frames come from the same entries.

Every editor of a cohort, and every editor that arrives or departs in a period,
is active in it, so the bound on the active counts is a bound on all of them
(`observed_bounded`).
-/

namespace WikiEcon.Compute.Lifecycle

open Std (ExtTreeMap ExtTreeSet)
open Grouping KWayMerge

/-! ## What the final state holds -/

section Final

variable {cs : List Contribution}

/-- The year spans are the spans of the year accumulator. -/
theorem observed_cohortSpans_eq (cs : List Contribution) :
    (observed cs).cohortSpans = ((observed cs).churn .year).spans := by
  rw [observed_cohortSpans, observed_spans]
  rfl

theorem observed_years_eq (cs : List Contribution) (u : ℤ) :
    (observed cs).years u = (observed cs).span .year u := by
  rw [RegisteredState.years, RegisteredState.span, observed_cohortSpans_eq]

/-- An editor's first and last period are periods of its rows. -/
theorem observed_span_mem (p : PeriodType) {u : ℤ} (hu : u ∈ editors cs) :
    (∃ c ∈ cs, c.userId = u ∧ c.periodKey p = ((observed cs).span p u).1) ∧
      ∃ c ∈ cs, c.userId = u ∧ c.periodKey p = ((observed cs).span p u).2 := by
  obtain ⟨c, hc, huser⟩ := mem_editors.mp hu
  have hne : (cs.filter fun c => decide (c.userId = u)).map (·.periodKey p) ≠ [] :=
    List.ne_nil_of_mem (List.mem_map.mpr
      ⟨c, List.mem_filter.mpr ⟨hc, decide_eq_true huser⟩, rfl⟩)
  obtain ⟨first, last, hfold, hfirst, hlast, -⟩ := foldl_widen hne
  have hspan : (observed cs).span p u = (first, last) := by
    rw [RegisteredState.span, observed_spans, getElem?_foldBy, foldl_widen_map, hfold]
    rfl
  have hrow : ∀ {k : ℤ}, k ∈ (cs.filter fun c => decide (c.userId = u)).map (·.periodKey p) →
      ∃ c ∈ cs, c.userId = u ∧ c.periodKey p = k := by
    intro k hk
    obtain ⟨c, hc, hkey⟩ := List.mem_map.mp hk
    obtain ⟨hc, huser⟩ := List.mem_filter.mp hc
    exact ⟨c, hc, of_decide_eq_true huser, hkey⟩
  rw [hspan]
  exact ⟨hrow hfirst, hrow hlast⟩

theorem foldl_addFunnel {rows : List Contribution} (hyear : ∀ c ∈ rows, c.cohortYear = c.year)
    (hsum : (rows.map Contribution.totalEdits).sum ≤ u32Max) :
    rows.foldl (fun stats c => some (addFunnel stats c)) none
      = (rows.foldl (fun span c => some (widen span c.year)) none).map fun span =>
        (span.1, (rows.map Contribution.totalEdits).sum) := by
  induction rows using List.reverseRecOn with
  | nil => rfl
  | append_singleton rows c ih =>
    rw [List.map_append, List.sum_append, List.map_cons, List.map_nil, List.sum_singleton] at hsum
    have hc := hyear c (by simp)
    have ih := ih (fun c' hc' => hyear c' (List.mem_append_left _ hc')) (by omega)
    rw [List.foldl_append, List.foldl_append, ih, List.map_append, List.sum_append, List.map_cons,
      List.map_nil, List.sum_singleton]
    cases rows with
    | nil => simp [addFunnel, widen, hc]
    | cons r rows =>
      have hne : (r :: rows).map Contribution.year ≠ [] := List.cons_ne_nil _ _
      obtain ⟨first, last, hfold, -⟩ := foldl_widen hne
      rw [foldl_widen_map, hfold]
      simp only [Option.map_some, List.foldl_cons, List.foldl_nil, addFunnel, widen, hc,
        wrappingAdd_of_le hsum]

/-- An editor's cohort is its first year, and its edits are all counted. -/
theorem observed_stats (hwf : ∀ c ∈ cs, c.WellFormed) {u : ℤ} (hu : u ∈ editors cs)
    (hedits : editsOf cs u ≤ u32Max) :
    (observed cs).stats u = (((observed cs).years u).1, editsOf cs u) := by
  have hyear : ∀ c ∈ cs.filter (fun c => decide (c.userId = u)), c.cohortYear = c.year := by
    intro c hc
    obtain ⟨-, -, -, h⟩ := hwf c (List.mem_filter.mp hc).1
    exact h
  have hsome := (isSome_getElem?_foldBy Contribution.userId
    (fun span c => widen span c.year) cs u).mpr (List.mem_dedup.mp hu)
  obtain ⟨span, hspan⟩ := Option.isSome_iff_exists.mp hsome
  rw [RegisteredState.stats, RegisteredState.years, observed_funnelStats, observed_cohortSpans,
    getElem?_foldBy, foldl_addFunnel hyear hedits, ← getElem?_foldBy, hspan]
  rfl

/-- Editors that are active whenever they are counted are no more than the active
ones. -/
theorem count_le_activeEditors {p : PeriodType} {f : ℤ → ℤ}
    (hf : ∀ u ∈ editors cs, ∃ c ∈ cs, c.userId = u ∧ c.periodKey p = f u) (key : ℤ) :
    ((editors cs).map f).count key ≤ activeEditors cs p key := by
  have hnodup : ((editors cs).filter fun u => f u == key).Nodup :=
    (List.nodup_dedup _).filter _
  rw [List.count, List.countP_map, List.countP_eq_length_filter]
  show ((editors cs).filter fun u => f u == key).length ≤ _
  rw [← List.toFinset_card_of_nodup hnodup]
  apply Finset.card_le_card
  intro u hu
  obtain ⟨hu, hkey⟩ := List.mem_filter.mp (List.mem_toFinset.mp hu)
  obtain ⟨c, hc, huser, hperiod⟩ := hf u hu
  rw [List.mem_toFinset, List.mem_map]
  exact ⟨c, List.mem_filter.mpr ⟨hc, decide_eq_true (hperiod.trans (beq_iff_eq.mp hkey))⟩, huser⟩

theorem observed_bounded (hwf : ∀ c ∈ cs, c.WellFormed) (hedits : ∀ u, editsOf cs u ≤ u32Max)
    (hcount : ∀ p key, activeEditors cs p key ≤ u32Max) :
    (observed cs).Bounded (editors cs) where
  edits u hu := by
    rw [observed_stats hwf hu (hedits u)]
    exact hedits u
  cohort y := by
    refine le_trans (count_le_activeEditors (p := .year) (fun u hu => ?_) y) (hcount .year y)
    rw [observed_stats hwf hu (hedits u), observed_years_eq]
    exact (observed_span_mem .year hu).1
  arrivals p k :=
    le_trans (count_le_activeEditors (fun u hu => (observed_span_mem p hu).1) k) (hcount p k)
  departures p k :=
    le_trans (count_le_activeEditors (fun u hu => (observed_span_mem p hu).2) k) (hcount p k)

end Final

/-! ## What is written -/

section Written

variable {cs : List Contribution} {aggregate : ExternalLifecycleAggregate} {closed : List ℤ}

/-- The churn frame of the closed editors is the resident one. -/
theorem externalChurnFrame_eq (order : RowOrder) (p : PeriodType)
    (hperm : closed.Perm (editors cs)) (hbound : (observed cs).Bounded (editors cs))
    (hactive : (aggregate.period p).active = ((observed cs).churn p).active)
    (hclosed : aggregate.Closed (observed cs) closed) :
    externalChurnFrame p (aggregate.period p) = ((observed cs).churn p).finish order := by
  have hspans : ((order.arrange ((observed cs).churn p).spans.toList).map Prod.snd).Perm
      (closed.map ((observed cs).span p)) := by
    have hlist := toList_foldBy_perm Contribution.userId
      (fun span c => widen span (c.periodKey p)) cs (0, 0)
    rw [← observed_spans] at hlist
    have h := ((order.perm _).trans hlist).map Prod.snd
    rw [List.map_map] at h
    exact h.trans (hperm.map _).symm
  have hcount : ∀ (f : ℤ × ℤ → ℤ),
      (∀ k, ((editors cs).map fun u => f ((observed cs).span p u)).count k ≤ u32Max) →
      ((order.arrange ((observed cs).churn p).spans.toList).map fun e => f e.2).foldl addOne ∅
        = tally (closed.map fun u => f ((observed cs).span p u)) := by
    intro f hle
    have h := hspans.map f
    rw [List.map_map, List.map_map] at h
    rw [foldl_addOne fun k => ?_]
    · exact tally_congr h
    · exact le_trans (le_of_eq (h.count_eq k))
        (le_trans (le_of_eq ((hperm.map _).count_eq k)) (hle k))
  rw [externalChurnFrame, ChurnAccumulator.finish, hactive, hclosed.arrivals p,
    hclosed.departures p, observed_periodType]
  show _ = churnRows p _ _ _
  rw [hcount Prod.fst (hbound.arrivals p), hcount Prod.snd (hbound.departures p)]

/-- The funnel of the closed editors is the resident one. -/
theorem externalFunnel_eq (order : RowOrder) (hperm : closed.Perm (editors cs))
    (hclosed : aggregate.Closed (observed cs) closed) :
    funnelRows aggregate.funnel = finalizeFunnel order (observed cs).funnelStats := by
  have hlist := toList_foldBy_perm Contribution.userId addFunnel cs (0, 0)
  rw [← observed_funnelStats] at hlist
  have h := ((order.perm _).trans hlist).map Prod.snd
  rw [List.map_map] at h
  rw [finalizeFunnel_eq, hclosed.funnel]
  exact congrArg funnelRows (funnelByCohort_perm ((hperm.map _).trans h.symm))

/-- The cohort frame of the closed editors is the resident one, and none of its
checked sums overflows. -/
theorem externalCohortFrame_eq (order : RowOrder) (hperm : closed.Perm (editors cs))
    (hwf : ∀ c ∈ cs, c.WellFormed) (hedits : ∀ u, editsOf cs u ≤ u32Max)
    (hbound : (observed cs).Bounded (editors cs))
    (hclosed : aggregate.Closed (observed cs) closed) :
    externalCohortFrame aggregate.initialSizes aggregate.endedBy aggregate.allYears
      = .ok (finalizeLaborCohorts order (observed cs).cohortSpans) := by
  have hyears : ∀ u ∈ closed, ((observed cs).stats u).1 = ((observed cs).years u).1 := by
    intro u hu
    rw [observed_stats hwf (hperm.mem_iff.mp hu) (hedits u)]
  -- the resident path counts over the sorted spans
  let rows := ((order.arrange (observed cs).cohortSpans.toList).map Prod.snd).insertionSort
    fun a b => toLex a ≤ toLex b
  have hrows : rows.Perm (closed.map (observed cs).years) := by
    have hlist := toList_foldBy_perm Contribution.userId
      (fun span c => widen span c.year) cs (0, 0)
    rw [← observed_cohortSpans] at hlist
    have h := ((order.perm _).trans hlist).map Prod.snd
    rw [List.map_map] at h
    exact (List.perm_insertionSort _ _).trans (h.trans (hperm.map _).symm)
  have hcohort : ∀ y, (rows.map Prod.fst).count y ≤ u32Max := by
    intro y
    have h := hbound.cohort y
    rw [← (hperm.map _).count_eq, List.map_congr_left hyears] at h
    rw [(hrows.map _).count_eq, List.map_map]
    exact h
  have hended : ∀ y : ℤ ×ₗ ℤ, @List.count _ instBEqOfDecidableEq y (rows.map toLex) ≤ u32Max := by
    intro y
    have h := sum_endedBy_le rows (ofLex y).1 (List.nodup_singleton (ofLex y).2)
    simp only [List.map_cons, List.map_nil, List.sum_cons, List.sum_nil, Nat.add_zero,
      getD_tally] at h
    exact le_trans h (hcohort _)
  have hinitial : (rows.map Prod.fst).foldl addOne ∅ = aggregate.initialSizes := by
    rw [foldl_addOne hcohort, hclosed.initialSizes]
    apply tally_congr
    have h := hrows.map Prod.fst
    rw [List.map_map] at h
    exact h.trans (List.Perm.of_eq (List.map_congr_left fun u hu => (hyears u hu).symm))
  have hendedBy : (rows.map toLex).foldl addOne (∅ : ExtTreeMap (ℤ ×ₗ ℤ) ℕ)
      = aggregate.endedBy := by
    rw [foldl_addOne hended, hclosed.endedBy]
    apply tally_congr
    have h := hrows.map toLex
    rw [List.map_map] at h
    refine h.trans (List.Perm.of_eq (List.map_congr_left fun u hu => ?_))
    rw [hyears u hu]
    rfl
  have hall : ExtTreeSet.ofList (rows.flatMap fun span => [span.1, span.2]) compare
      = aggregate.allYears := by
    apply ExtTreeSet.ext_mem
    intro y
    rw [ExtTreeSet.mem_ofList, List.contains_iff_mem, hclosed.allYears, List.mem_flatMap]
    simp only [hrows.mem_iff, List.mem_map, exists_exists_and_eq_and, List.mem_cons,
      List.not_mem_nil, or_false]
  have hsurvivors : ∀ cohortYear, survivorsFromChecked
      (fun year => aggregate.endedBy[toLex (cohortYear, year)]?.getD 0) cohortYear
        aggregate.allYears.toList.reverse 0
      = .ok (survivorsFrom (fun year => aggregate.endedBy[toLex (cohortYear, year)]?.getD 0)
        cohortYear aggregate.allYears.toList.reverse 0) := by
    intro cohortYear
    apply survivorsFromChecked_eq
    have hnodup : aggregate.allYears.toList.reverse.Nodup :=
      List.nodup_reverse.mpr (aggregate.allYears.distinct_toList.imp fun hne heq =>
        hne (by rw [heq]; exact Std.ReflCmp.compare_self))
    have h := sum_endedBy_le rows cohortYear hnodup
    rw [← foldl_addOne hended, hendedBy] at h
    rw [Nat.zero_add]
    exact le_trans h (hcohort cohortYear)
  let frame := fun (e : ℤ × ℕ) (survivors : List (ℤ × ℕ)) =>
    survivors.reverse.map fun survivor => ({
      cohortYear := toString e.1
      year := toString survivor.1
      survivedEditors := survivor.2
      initialEditors := e.2 } : CohortRow)
  have hframes : aggregate.initialSizes.toList.mapM (fun e =>
        (survivorsFromChecked (fun year => aggregate.endedBy[toLex (e.1, year)]?.getD 0) e.1
          aggregate.allYears.toList.reverse 0) >>= fun survivors => .ok (frame e survivors))
      = .ok (aggregate.initialSizes.toList.map fun e => frame e (survivorsFrom
        (fun year => aggregate.endedBy[toLex (e.1, year)]?.getD 0) e.1
        aggregate.allYears.toList.reverse 0)) :=
    mapM_eq_ok fun e _ => by rw [hsurvivors]; rfl
  refine (congrArg (· >>= fun frames => Except.ok frames.flatten) hframes).trans ?_
  show Except.ok _ = Except.ok (buildCohortOutput rows
    (ExtTreeSet.ofList (rows.flatMap fun span => [span.1, span.2]) compare).toList)
  rw [hall, buildCohortOutput, hinitial, hendedBy, cohortRows, List.flatMap_def]

end Written

/-! ## The runs -/

section Runs

variable {order : RowOrder}

/-- A month has one total for each editor. -/
theorem registeredEditorTotals_nodup (order : RowOrder) (base : List Row) :
    ((registeredEditorTotals order base).map EditorTotal.userId).Nodup := by
  have hperm := (groupBy_perm order Row.eventUserId (fun user rows => ({
      userId := user.getD 0
      totalEdits := (rows.filterMap Row.revisionId).length
      cohortYear := (rows.filterMap Row.year).min? } : EditorTotal))
    (base.filter Row.registered)).map EditorTotal.userId
  rw [List.map_map] at hperm
  refine hperm.nodup_iff.mpr ((List.nodup_dedup _).map_on fun u hu u' hu' heq => ?_)
  have hsome : ∀ u ∈ ((base.filter Row.registered).map Row.eventUserId).dedup,
      ∃ id, u = some id := by
    intro u hu
    obtain ⟨row, hrow, rfl⟩ := List.mem_map.mp (List.mem_dedup.mp hu)
    have hregistered := (List.mem_filter.mp hrow).2
    rw [Row.registered, Bool.and_eq_true] at hregistered
    exact Option.isSome_iff_exists.mp hregistered.2
  obtain ⟨id, rfl⟩ := hsome u hu
  obtain ⟨id', rfl⟩ := hsome u' hu'
  exact congrArg some heq

/-- Where every row has the partition's year, it is the cohort year of every total. -/
theorem cohortYear_of_mem {p : Partition} (hyears : ∀ row ∈ p.rows, row.year = some p.year)
    {total : EditorTotal} (h : total ∈ registeredEditorTotals order p.rows) :
    total.cohortYear = some p.year := by
  obtain ⟨user, huser, rfl⟩ := List.mem_map.mp ((groupBy_perm order ..).mem_iff.mp h)
  obtain ⟨row, hrow, hkey⟩ := List.mem_map.mp (List.mem_dedup.mp huser)
  have hall : ∀ y ∈ ((p.rows.filter Row.registered).filter
      fun r => decide (r.eventUserId = user)).filterMap Row.year, y = p.year := by
    intro y hy
    obtain ⟨r, hr, hry⟩ := List.mem_filterMap.mp hy
    have hyear := hyears r (List.mem_filter.mp (List.mem_filter.mp hr).1).1
    exact Option.some.inj (hry.symm.trans hyear)
  have hmem : p.year ∈ ((p.rows.filter Row.registered).filter
      fun r => decide (r.eventUserId = user)).filterMap Row.year :=
    List.mem_filterMap.mpr ⟨row, List.mem_filter.mpr ⟨hrow, decide_eq_true hkey⟩,
      hyears row (List.mem_filter.mp hrow).1⟩
  exact List.min?_eq_some_iff.mpr ⟨hmem, fun y hy => le_of_eq (hall y hy).symm⟩

/-- The contribution of a total whose cohort year is the partition's. -/
def contributionOf (p : Partition) (total : EditorTotal) : Contribution where
  userId := total.userId
  yearMonthKey := p.yearMonth.key
  year := p.year
  cohortYear := p.year
  totalEdits := total.totalEdits

theorem contributions_eq {p : Partition} (hyears : ∀ row ∈ p.rows, row.year = some p.year) :
    contributions order p = (registeredEditorTotals order p.rows).map (contributionOf p) := by
  rw [contributions, ← List.filterMap_eq_map]
  refine List.filterMap_congr fun total htotal => ?_
  rw [cohortYear_of_mem hyears htotal]
  rfl

/-- The rows of a month's run. -/
def sortedRun (order : RowOrder) (p : Partition) : List Contribution :=
  ((registeredEditorTotals order p.rows).insertionSort fun a b => a.userId ≤ b.userId).map
    (contributionOf p)

theorem externalRun_eq {p : Partition} (hyears : ∀ row ∈ p.rows, row.year = some p.year) :
    externalRun order p = .ok (sortedRun order p) := by
  refine mapM_eq_ok fun total htotal => ?_
  rw [readContribution, cohortYear_of_mem hyears ((List.perm_insertionSort _ _).mem_iff.mp htotal)]
  rfl

theorem sortedRun_perm {p : Partition} (hyears : ∀ row ∈ p.rows, row.year = some p.year) :
    (sortedRun order p).Perm (contributions order p) := by
  rw [contributions_eq hyears]
  exact (List.perm_insertionSort _ _).map _

/-- Sorting by editor is sorting: no editor comes twice. -/
theorem sortedRun_chain (p : Partition) :
    (sortedRun order p).IsChain fun a b => decide (a < b) = true := by
  have htotal : Std.Total fun a b : EditorTotal => a.userId ≤ b.userId :=
    ⟨fun _ _ => le_total _ _⟩
  have htrans : IsTrans EditorTotal fun a b => a.userId ≤ b.userId := ⟨fun _ _ _ => le_trans⟩
  have hsorted := List.pairwise_insertionSort (fun a b : EditorTotal => a.userId ≤ b.userId)
    (registeredEditorTotals order p.rows)
  have hnodup := ((List.perm_insertionSort (fun a b : EditorTotal => a.userId ≤ b.userId) _).map
    EditorTotal.userId).nodup_iff.mpr (registeredEditorTotals_nodup order p.rows)
  rw [List.Nodup, List.pairwise_map] at hnodup
  refine List.Pairwise.isChain ?_
  rw [sortedRun, List.pairwise_map]
  refine (hsorted.and hnodup).imp fun {a b} h => decide_eq_true ?_
  show Contribution.orderKey _ < Contribution.orderKey _
  exact Prod.Lex.toLex_lt_toLex.mpr (Or.inl (lt_of_le_of_ne h.1 h.2))

theorem contributions_wellFormed {p : Partition}
    (hyears : ∀ row ∈ p.rows, row.year = some p.year) {c : Contribution}
    (h : c ∈ contributions order p) : c.WellFormed := by
  rw [contributions_eq hyears] at h
  obtain ⟨total, -, rfl⟩ := List.mem_map.mp h
  exact ⟨p.yearMonth, rfl, p.year_eq, rfl⟩

/-- Over ascending months an editor and a month name one contribution. -/
theorem contributions_distinct {partitions : List Partition}
    (hasc : partitions.Pairwise fun p q => p.yearMonth < q.yearMonth)
    (hyears : ∀ p ∈ partitions, ∀ row ∈ p.rows, row.year = some p.year) :
    (partitions.flatMap (contributions order)).Pairwise fun a b =>
      ¬(a.userId = b.userId ∧ a.yearMonthKey = b.yearMonthKey) := by
  rw [List.flatMap_def, List.pairwise_flatten, List.pairwise_map]
  constructor
  · intro run hrun
    obtain ⟨p, hp, rfl⟩ := List.mem_map.mp hrun
    have hnodup := registeredEditorTotals_nodup order p.rows
    rw [List.Nodup, List.pairwise_map] at hnodup
    rw [contributions_eq (hyears p hp), List.pairwise_map]
    exact hnodup.imp fun hne h => hne h.1
  · refine hasc.imp fun {p q} hlt a ha b hb h => ?_
    rw [(mem_contributions ha).1, (mem_contributions hb).1] at h
    exact absurd h.2 (ne_of_lt (YearMonth.lt_iff.mp hlt))

/-- The merge hands out the editors in turn and each one's months in order. -/
theorem merged_before {partitions : List Partition}
    (hasc : partitions.Pairwise fun p q => p.yearMonth < q.yearMonth)
    (hyears : ∀ p ∈ partitions, ∀ row ∈ p.rows, row.year = some p.year)
    {runs : List (List Contribution)}
    (hperm : (merged runs).Perm (partitions.flatMap (contributions order))) :
    (merged runs).Pairwise Contribution.Before := by
  have hdistinct := (hperm.pairwise_iff fun {a b} h hba => h ⟨hba.1.symm, hba.2.symm⟩).mpr
    (contributions_distinct hasc hyears)
  refine ((merged_pairwise runs).and hdistinct).imp fun {a b} h => ?_
  have hle : a.orderKey ≤ b.orderKey := h.1
  rcases Prod.Lex.toLex_le_toLex.mp hle with hlt | ⟨huser, hrest⟩
  · exact Or.inl hlt
  · rcases Prod.Lex.toLex_le_toLex.mp hrest with hlt | ⟨hkey, -⟩
    · exact Or.inr ⟨huser, hlt⟩
    · exact absurd ⟨huser, hkey⟩ h.2

end Runs

/-- **Merging the months is folding them.** With every count in the range of a
`u32`, the external computation succeeds and writes, row for row, what the
resident one writes. -/
theorem computeExternal_eq (order order' : RowOrder) (wiki : String)
    (partitions : List Partition) (hne : partitions ≠ [])
    (hasc : partitions.Pairwise fun p q => p.yearMonth < q.yearMonth)
    (hyears : ∀ p ∈ partitions, ∀ row ∈ p.rows, row.year = some p.year)
    (hedits : ∀ u, editsOf (partitions.flatMap (contributions order)) u ≤ u32Max)
    (hcount : ∀ p key, activeEditors (partitions.flatMap (contributions order)) p key ≤ u32Max) :
    computeExternal order' wiki partitions = .ok (writeLifecycleOutputs order wiki
      (partitions.foldl (RegisteredState.observePartition order) .new)) := by
  have hruns : partitions.mapM (externalRun order') = .ok (partitions.map (sortedRun order')) :=
    mapM_eq_ok fun p hp => externalRun_eq (hyears p hp)
  -- Empty runs have no part in the merge.
  let runs := (partitions.map (sortedRun order')).filter fun run => !run.isEmpty
  -- The merged contributions are those of the months, in another order.
  have hperm : (merged runs).Perm (partitions.flatMap (contributions order)) := by
    refine (merged_perm runs).trans ?_
    rw [List.flatten_filter_not_isEmpty, ← List.flatMap_def]
    exact List.Perm.flatMap_left _ fun p hp =>
      (sortedRun_perm (hyears p hp)).trans (contributions_perm order' order p)
  have hsorted := merged_before hasc hyears hperm
  have hwf : ∀ c ∈ merged runs, c.WellFormed := by
    intro c hc
    obtain ⟨p, hp, hmem⟩ := List.mem_flatMap.mp (hperm.mem_iff.mp hc)
    exact contributions_wellFormed (hyears p hp) hmem
  have hedits' : ∀ u, editsOf (merged runs) u ≤ u32Max := fun u => by
    rw [editsOf_perm hperm]; exact hedits u
  have hcount' : ∀ p key, activeEditors (merged runs) p key ≤ u32Max := fun p key => by
    rw [activeEditors_perm hperm]; exact hcount p key
  have hbound := observed_bounded hwf hedits' hcount'
  obtain ⟨st, aggregate, hfold, hfinish, hactive, closed, hclosedperm, hclosed⟩ :=
    merge_eq_observed hsorted hwf hbound hedits' hcount'
  -- What the months observe does not depend on that order.
  have hstate : partitions.foldl (RegisteredState.observePartition order) .new
      = observed (merged runs) := by
    rw [observed_perm hperm, observed, List.foldl_flatMap]
    rfl
  have hinOrder : ∀ run ∈ runs, run.IsChain fun a b => decide (a < b) = true := by
    intro run hrun
    obtain ⟨p, -, rfl⟩ := List.mem_map.mp (List.mem_filter.mp hrun).1
    exact sortedRun_chain p
  have hdrain := drain_eq_foldlM
    "lifecycle contribution run contains duplicate or unordered user-month rows"
    (fun a b h => le_of_lt (of_decide_eq_true h)) true mergeRow runs ((none, {}) : MergeState)
    hinOrder
  rw [computeExternal, (ensure_eq_ok (u := ())).mpr (List.isEmpty_eq_false_iff.mpr hne), hruns]
  show (drain _ _ true mergeRow runs ((none, {}) : MergeState) >>= _) = _
  rw [hdrain, hfold]
  show (finishMerge st >>= _) = _
  rw [hfinish]
  show writeExternalLifecycleOutputs wiki aggregate = _
  rw [writeExternalLifecycleOutputs,
    externalCohortFrame_eq order hclosedperm hwf hedits' hbound hclosed, hstate,
    writeLifecycleOutputs, externalFunnel_eq order hclosedperm hclosed]
  have hchurn := fun p => externalChurnFrame_eq order p hclosedperm hbound (hactive p) hclosed
  have hmonth := hchurn .month
  have hquarter := hchurn .quarter
  have hyear := hchurn .year
  simp only [ExternalLifecycleAggregate.period, RegisteredState.churn] at hmonth hquarter hyear
  rw [hmonth, hquarter, hyear]
  rfl

/-- A computation over no month is refused, where the fold writes empty tables. -/
theorem computeExternal_nil_ne :
    computeExternal RowOrder.asComputed "simplewiki" []
      ≠ .ok (writeLifecycleOutputs RowOrder.asComputed "simplewiki"
        (List.foldl (RegisteredState.observePartition RowOrder.asComputed) .new [])) := by
  intro h
  have herror : computeExternal RowOrder.asComputed "simplewiki" []
      = .error "external lifecycle computation requires at least one input partition" := rfl
  exact absurd (herror.symm.trans h) (by simp)

section Sample

/-- One registered editor with one revision. -/
def sampleRow (userId year : ℤ) : Row where
  userType := some "registered"
  eventUserId := some userId
  revisionId := some 1
  year := some year

/-- Two editors in one month and one of them two months later, in another year. -/
def samplePartitions : List Partition :=
  [.ofMonth (.ofYear 2023 10) [sampleRow 8 2023, sampleRow 7 2023],
    .ofMonth (.ofYear 2024 0) [sampleRow 7 2024]]

theorem editsOf_le_sum (cs : List Contribution) (u : ℤ) :
    editsOf cs u ≤ (cs.map Contribution.totalEdits).sum :=
  (List.filter_sublist.map _).sum_le_sum fun _ _ => Nat.zero_le _

theorem activeEditors_le_length (cs : List Contribution) (p : PeriodType) (key : ℤ) :
    activeEditors cs p key ≤ cs.length :=
  le_trans (List.toFinset_card_le _)
    (by rw [List.length_map]; exact List.length_filter_le _ _)

theorem computeExternal_eq_2023 :
    computeExternal RowOrder.asComputed "simplewiki" samplePartitions
      = .ok (writeLifecycleOutputs RowOrder.asComputed "simplewiki"
        (samplePartitions.foldl (RegisteredState.observePartition RowOrder.asComputed) .new)) :=
  computeExternal_eq RowOrder.asComputed RowOrder.asComputed "simplewiki" samplePartitions
    (List.cons_ne_nil _ _) (by decide) (by decide)
    (fun u => le_trans (editsOf_le_sum _ u) (by decide))
    (fun p key => le_trans (activeEditors_le_length _ p key) (by decide))

end Sample

end WikiEcon.Compute.Lifecycle
