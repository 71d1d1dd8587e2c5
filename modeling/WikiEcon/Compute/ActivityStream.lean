import WikiEcon.Compute.Activity
import WikiEcon.Lib.Reports

/-!
# What the activity stream puts out

The stream fails only where a tier computation does, and it never reads what it
has put out, so its run is a pure run that makes reports, rendered in turn
(`streamActivityTiers_eq`).

The pure run is followed with the editor-months `Q` and `Y` of the open quarter
and year. The accumulator holds, for each editor of `Y`, the sums over the
editor's rows in `Q` and in `Y`; zeroing the quarter columns is letting `Q` be
empty. A quarter is reported from the sums over all its rows, and only then is
the filter for edits applied: that is `streamPeriods`, and `stream_covers` says
that each quarter and each year is reported exactly once.
-/

namespace WikiEcon.Compute.Activity

open Reports
open SortedTable (filter_key_eq_singleton)

/-! ## The run without its failures -/

/-- A tier computation the stream asks for. -/
structure Report where
  period : PeriodType
  frame : List EditorMonth

def Report.render (order : RowOrder) (report : Report) : Except String (List TierRow) :=
  gdpActivityTiersForPeriod order report.frame report.period

abbrev Traced : Type := ActivityTierStream × List Report

def quarterReport (stream : ActivityTierStream) : Traced :=
  match stream.accumulator with
  | none => (stream, [])
  | some accumulator =>
    ({ stream with accumulator := some (accumulator.map AccumulatorRow.zeroQuarter) },
      [⟨.quarter, accumulator.map AccumulatorRow.quarterColumns⟩])

def yearReport (stream : ActivityTierStream) : Traced :=
  match stream.accumulator with
  | none => (stream, [])
  | some accumulator =>
    ({ stream with accumulator := none },
      [⟨.year, accumulator.map AccumulatorRow.yearColumns⟩])

def forgetQuarter (stream : ActivityTierStream) : Traced :=
  ({ stream with currentQuarterKey := none }, [])

def forgetYear (stream : ActivityTierStream) : Traced :=
  ({ stream with currentYear := none }, [])

def forgetBoth (stream : ActivityTierStream) : Traced :=
  ({ stream with currentQuarterKey := none, currentYear := none }, [])

def finishReports : ActivityTierStream → Traced :=
  andThen quarterReport (andThen yearReport forgetBoth)

def closePastReports (year quarterKey : ℤ) (stream : ActivityTierStream) : Traced :=
  if stream.currentYear.any (· ≠ year) then finishReports stream
  else if stream.currentQuarterKey.any (· ≠ quarterKey) then
    andThen quarterReport forgetQuarter stream
  else (stream, [])

def closeQuarterReports (month : ℤ) (stream : ActivityTierStream) : Traced :=
  if month.tmod 3 = 0 then andThen quarterReport forgetQuarter stream else (stream, [])

def closeYearReports (month : ℤ) (stream : ActivityTierStream) : Traced :=
  if month = 12 then andThen yearReport forgetYear stream else (stream, [])

section Run

variable (order : RowOrder)

def monthReport (year quarterKey : ℤ) (editorMonth : List EditorMonth)
    (stream : ActivityTierStream) : Traced :=
  (absorbMonth order editorMonth
    { stream with currentYear := some year, currentQuarterKey := some quarterKey },
    [⟨.month, editorMonth⟩])

def pushReports (m : YearMonth) (editorMonth : List EditorMonth) : ActivityTierStream → Traced :=
  let year := m.key.tdiv 100
  let month := m.key.tmod 100
  let quarterKey := year * 10 + (month - 1).tdiv 3 + 1
  andThen (closePastReports year quarterKey)
    (andThen (monthReport order year quarterKey editorMonth)
      (andThen (closeQuarterReports month) (closeYearReports month)))

theorem finishQuarter_emits :
    Emits (Report.render order) (finishQuarter order) quarterReport := by
  rintro ⟨_ | accumulator, q, y⟩ output
  · exact emits_state (Report.render order) id _ output
  · show (Report.render order ⟨.quarter, accumulator.map AccumulatorRow.quarterColumns⟩ >>= _)
      = Except.map _ ([_].mapM (Report.render order))
    rw [List.mapM_cons, List.mapM_nil]
    cases Report.render order ⟨.quarter, accumulator.map AccumulatorRow.quarterColumns⟩ <;> rfl

theorem finishYear_emits : Emits (Report.render order) (finishYear order) yearReport := by
  rintro ⟨_ | accumulator, q, y⟩ output
  · exact emits_state (Report.render order) id _ output
  · show (Report.render order ⟨.year, accumulator.map AccumulatorRow.yearColumns⟩ >>= _)
      = Except.map _ ([_].mapM (Report.render order))
    rw [List.mapM_cons, List.mapM_nil]
    cases Report.render order ⟨.year, accumulator.map AccumulatorRow.yearColumns⟩ <;> rfl

theorem finish_emits : Emits (Report.render order) (finish order) finishReports :=
  (finishQuarter_emits order).bind ((finishYear_emits order).bind
    (emits_state (Report.render order) fun s : ActivityTierStream =>
      { s with currentQuarterKey := none, currentYear := none }))

theorem closePast_emits (year quarterKey : ℤ) :
    Emits (Report.render order) (closePast order year quarterKey)
      (closePastReports year quarterKey) := by
  intro s output
  rw [closePast, closePastReports]
  split
  · exact finish_emits order s output
  · split
    · exact ((finishQuarter_emits order).bind
        (emits_state (Report.render order) fun s : ActivityTierStream =>
          { s with currentQuarterKey := none })) s output
    · exact emits_state (Report.render order) id s output

theorem closeQuarter_emits (month : ℤ) :
    Emits (Report.render order) (closeQuarter order month) (closeQuarterReports month) := by
  intro s output
  rw [closeQuarter, closeQuarterReports]
  split
  · exact ((finishQuarter_emits order).bind
      (emits_state (Report.render order) fun s : ActivityTierStream =>
        { s with currentQuarterKey := none })) s output
  · exact emits_state (Report.render order) id s output

theorem closeYear_emits (month : ℤ) :
    Emits (Report.render order) (closeYear order month) (closeYearReports month) := by
  intro s output
  rw [closeYear, closeYearReports]
  split
  · exact ((finishYear_emits order).bind
      (emits_state (Report.render order) fun s : ActivityTierStream =>
        { s with currentYear := none })) s output
  · exact emits_state (Report.render order) id s output

theorem pushMonth_emits (m : YearMonth) (editorMonth : List EditorMonth) :
    Emits (Report.render order) (fun st => pushMonth order st editorMonth m.key)
      (pushReports order m editorMonth) := by
  have h1 := m.month_pos
  have h2 := m.month_le
  have hmonth : 1 ≤ m.key.tmod 100 ∧ m.key.tmod 100 ≤ 12 := by
    rw [(key_digits m).1.2]
    omega
  have hchain := (closePast_emits order (m.key.tdiv 100)
    (m.key.tdiv 100 * 10 + (m.key.tmod 100 - 1).tdiv 3 + 1)).bind
    ((emits_report (Report.render order) (fun _ => ⟨.month, editorMonth⟩) fun s =>
      absorbMonth order editorMonth { s with
        currentYear := some (m.key.tdiv 100)
        currentQuarterKey := some (m.key.tdiv 100 * 10 + (m.key.tmod 100 - 1).tdiv 3 + 1) }).bind
      ((closeQuarter_emits order (m.key.tmod 100)).bind (closeYear_emits order (m.key.tmod 100))))
  intro s output
  refine Eq.trans ?_ (hchain s output)
  show pushMonth order (s, output) editorMonth m.key = _
  rw [pushMonth, (ensure_eq_ok (u := ())).mpr hmonth]
  show (closePast order _ _ (s, output) >>= _) = (closePast order _ _ (s, output) >>= _)
  congr 1
  funext st
  show _ = (Except.map _ (gdpActivityTiersForPeriod order editorMonth .month) >>= _)
  cases gdpActivityTiersForPeriod order editorMonth .month <;> rfl

/-- The stream's rows are the rendered reports of the pure run. -/
theorem streamActivityTiers_eq (months : List (YearMonth × List EditorMonth)) :
    streamActivityTiers order (months.map fun m => (m.1.key, m.2))
      = ((andThen (sweep (fun m => pushReports order m.1 m.2) months) finishReports {}).2.mapM
          (Report.render order)).map concatFrames := by
  have hloop : Emits (Report.render order)
      (fun st => months.foldlM (fun st m => pushMonth order st m.2 m.1.key) st)
      (sweep (fun m => pushReports order m.1 m.2) months) :=
    Emits.foldlM fun m _ => pushMonth_emits order m.1 m.2
  rw [← (hloop.bind (finish_emits order)).output {}, streamActivityTiers, List.foldlM_map]
  show (months.foldlM (fun st m => pushMonth order st m.2 m.1.key) (({}, []) : StreamState) >>= _)
    = Except.map _ (Except.map _ (_ >>= _))
  cases months.foldlM (fun st m => pushMonth order st m.2 m.1.key) (({}, []) : StreamState) with
  | error e => rfl
  | ok st =>
    show (finish order st >>= _) = Except.map _ (Except.map _ (finish order st))
    cases finish order st <;> rfl

end Run

/-! ## What the accumulator holds -/

def identities (rows : List EditorMonth) : List Identity := (rows.map EditorMonth.identity).dedup

def rowsOf (rows : List EditorMonth) (u : Identity) : List EditorMonth :=
  rows.filter (·.identity = u)

/-- An editor's rows added up into one. -/
def monthSummary (key : Identity → ℤ) (rows : List EditorMonth) (u : Identity) : EditorMonth where
  yearMonthKey := key u
  identity := u
  userTypeRank := maxRank ((rowsOf rows u).map EditorMonth.userTypeRank)
  edits := sumU32 ((rowsOf rows u).map EditorMonth.edits)
  netBytes := ((rowsOf rows u).map EditorMonth.netBytes).sum
  grossBytes := ((rowsOf rows u).map EditorMonth.grossBytes).sum

def lastKey (rows : List EditorMonth) (u : Identity) : ℤ :=
  maxKey ((rowsOf rows u).map EditorMonth.yearMonthKey)

/-- An editor's accumulator row while the rows `Y` of the year and `Q` of the
quarter are open. -/
def accumulated (Y Q : List EditorMonth) (u : Identity) : AccumulatorRow where
  yearMonthKey := lastKey Y u
  identity := u
  quarterUserTypeRank := (monthSummary (lastKey Y) Q u).userTypeRank
  quarterEdits := (monthSummary (lastKey Y) Q u).edits
  quarterNetBytes := (monthSummary (lastKey Y) Q u).netBytes
  quarterGrossBytes := (monthSummary (lastKey Y) Q u).grossBytes
  yearUserTypeRank := (monthSummary (lastKey Y) Y u).userTypeRank
  yearEdits := (monthSummary (lastKey Y) Y u).edits
  yearNetBytes := (monthSummary (lastKey Y) Y u).netBytes
  yearGrossBytes := (monthSummary (lastKey Y) Y u).grossBytes

/-- The accumulator of the open rows. It is absent exactly while the year has no row. -/
def Accumulates (accumulator : Option (List AccumulatorRow)) (Y Q : List EditorMonth) : Prop :=
  match accumulator with
  | none => Y = []
  | some rows => rows.Perm ((identities Y).map (accumulated Y Q))

theorem mem_identities {rows : List EditorMonth} {u : Identity} :
    u ∈ identities rows ↔ ∃ m ∈ rows, m.identity = u := by
  rw [identities, List.mem_dedup, List.mem_map]

theorem rowsOf_append (rows rows' : List EditorMonth) (u : Identity) :
    rowsOf (rows ++ rows') u = rowsOf rows u ++ rowsOf rows' u := List.filter_append ..

theorem rowsOf_eq_nil {rows : List EditorMonth} {u : Identity} (h : u ∉ identities rows) :
    rowsOf rows u = [] :=
  List.filter_eq_nil_iff.mpr fun m hm heq => h (mem_identities.mpr ⟨m, hm, of_decide_eq_true heq⟩)

theorem rowsOf_ne_nil {rows : List EditorMonth} {u : Identity} (h : u ∈ identities rows) :
    rowsOf rows u ≠ [] := by
  obtain ⟨m, hm, huser⟩ := mem_identities.mp h
  exact List.ne_nil_of_mem (List.mem_filter.mpr ⟨hm, decide_eq_true huser⟩)

theorem maxRank_append (l l' : List ℕ) : maxRank (l ++ l') = max (maxRank l) (maxRank l') := by
  induction l with
  | nil => exact (Nat.zero_max _).symm
  | cons a l ih =>
    show max a (maxRank (l ++ l')) = max (max a (maxRank l)) (maxRank l')
    rw [ih, max_assoc]

theorem sumU32_cons_sumU32 (l l' : List ℕ) : sumU32 (sumU32 l :: l') = sumU32 (l ++ l') := by
  rw [sumU32, sumU32, sumU32, List.sum_cons, List.sum_append, Nat.mod_add_mod]

theorem maxKey_mem {l : List ℤ} (h : l ≠ []) : maxKey l ∈ l ∧ ∀ k ∈ l, k ≤ maxKey l := by
  cases hmax : l.max? with
  | none => exact absurd (List.max?_eq_none_iff.mp hmax) h
  | some k =>
    rw [maxKey, hmax]
    exact List.max?_eq_some_iff.mp hmax

theorem maxKey_eq {l : List ℤ} {k : ℤ} (hmem : k ∈ l) (hle : ∀ k' ∈ l, k' ≤ k) :
    maxKey l = k := by
  rw [maxKey, List.max?_eq_some_iff.mpr ⟨hmem, hle⟩]
  rfl

theorem maxKey_congr {l l' : List ℤ} (h : l.Perm l') : maxKey l = maxKey l' := by
  by_cases hnil : l' = []
  · subst hnil
    rw [List.perm_nil.mp h]
  · obtain ⟨hmem, hle⟩ := maxKey_mem hnil
    exact maxKey_eq (h.mem_iff.mpr hmem) fun k hk => hle k (h.mem_iff.mp hk)

theorem maxKey_cons_maxKey {l r : List ℤ} (h : l ≠ []) :
    maxKey (maxKey l :: r) = maxKey (l ++ r) := by
  obtain ⟨hmem, hle⟩ := maxKey_mem h
  obtain ⟨hmem', hle'⟩ := maxKey_mem (List.cons_ne_nil (maxKey l) r)
  refine (maxKey_eq ?_ fun k hk => ?_).symm
  · rcases List.mem_cons.mp hmem' with heq | hin
    · rw [heq]
      exact List.mem_append_left _ hmem
    · exact List.mem_append_right _ hin
  · rcases List.mem_append.mp hk with hk | hk
    · exact le_trans (hle k hk) (hle' _ (List.mem_cons_self ..))
    · exact hle' k (List.mem_cons_of_mem _ hk)

/-- A month's frame: rows of one month, one for each editor. -/
structure IsMonthFrame (month : YearMonth) (rows : List EditorMonth) : Prop where
  key : ∀ m ∈ rows, m.yearMonthKey = month.key
  nodup : (rows.map EditorMonth.identity).Nodup
  edits : ∀ m ∈ rows, m.edits ≤ u32Max
  rank : ∀ m ∈ rows, m.userTypeRank ≤ 3

theorem maxRank_le {ranks : List ℕ} {n : ℕ} (h : ∀ r ∈ ranks, r ≤ n) : maxRank ranks ≤ n := by
  induction ranks with
  | nil => exact Nat.zero_le n
  | cons r ranks ih =>
    exact max_le (h r (List.mem_cons_self ..)) (ih fun r' hr' => h r' (List.mem_cons_of_mem _ hr'))

theorem userTypeRank_le (userType : Option String) : userTypeRank userType ≤ 3 := by
  unfold userTypeRank
  split <;> omega

theorem editorMonthFrame_isMonthFrame (order : RowOrder) (month : YearMonth)
    (base : List RevisionRow) : IsMonthFrame month (editorMonthFrame order month.key base) := by
  have hmem : ∀ m ∈ editorMonthFrame order month.key base, m.yearMonthKey = month.key ∧
      m.edits ≤ u32Max ∧ m.userTypeRank ≤ 3 := by
    intro m hm
    obtain ⟨u, -, rfl⟩ := List.mem_map.mp ((groupBy_perm order ..).mem_iff.mp hm)
    refine ⟨rfl, Nat.lt_succ_iff.mp (Nat.mod_lt _ (Nat.succ_pos _)), maxRank_le fun r hr => ?_⟩
    obtain ⟨row, -, rfl⟩ := List.mem_map.mp hr
    exact userTypeRank_le _
  refine ⟨fun m hm => (hmem m hm).1, ?_, fun m hm => (hmem m hm).2.1, fun m hm => (hmem m hm).2.2⟩
  refine (((groupBy_perm order ..).map EditorMonth.identity).nodup_iff).mpr ?_
  rw [List.map_map]
  exact (List.nodup_dedup _).map fun _ _ h => h

section Accumulator

variable {month : YearMonth} {M Y Q : List EditorMonth}

theorem IsMonthFrame.rowsOf_eq (h : IsMonthFrame month M) {m : EditorMonth} (hm : m ∈ M) :
    rowsOf M m.identity = [m] := filter_key_eq_singleton EditorMonth.identity h.nodup hm

/-- A frame's rows are the summaries of its editors. -/
theorem IsMonthFrame.monthSummary_eq (h : IsMonthFrame month M) {m : EditorMonth} (hm : m ∈ M) :
    monthSummary (fun _ => month.key) M m.identity = m := by
  have hedits : sumU32 [m.edits] = m.edits := by
    have hle := h.edits m hm
    rw [sumU32_of_le (by simpa using hle), List.sum_singleton]
  rw [monthSummary, h.rowsOf_eq hm]
  simp only [List.map_cons, List.map_nil, hedits, List.sum_singleton, maxRank, List.foldr_cons,
    List.foldr_nil, Nat.max_zero]
  rw [← h.key m hm]

theorem IsMonthFrame.perm_summaries (h : IsMonthFrame month M) :
    M.Perm ((identities M).map (monthSummary (fun _ => month.key) M)) := by
  rw [identities, h.nodup.dedup, List.map_map]
  exact List.Perm.of_eq ((List.map_id M).symm.trans
    (List.map_congr_left fun m hm => (h.monthSummary_eq hm).symm))

/-- Merging a month is opening its rows. -/
theorem Accumulates.merge (order : RowOrder) {accumulator : Option (List AccumulatorRow)}
    (hM : IsMonthFrame month M) (hsub : ∀ m ∈ Q, m ∈ Y) (h : Accumulates accumulator Y Q) :
    (mergeActivityAccumulator order accumulator M).Perm
      ((identities (Y ++ M)).map (accumulated (Y ++ M) (Q ++ M))) := by
  cases accumulator with
  | none =>
    -- The first month is taken over as it is.
    obtain rfl : Y = [] := h
    obtain rfl : Q = [] := List.eq_nil_iff_forall_not_mem.mpr fun m hm =>
      List.not_mem_nil (hsub m hm)
    show (M.map AccumulatorRow.ofMonth).Perm ((identities M).map (accumulated M M))
    rw [identities, hM.nodup.dedup, List.map_map]
    refine List.Perm.of_eq (List.map_congr_left fun m hm => ?_)
    have hmax : maxKey [m.yearMonthKey] = m.yearMonthKey := rfl
    have hedits : sumU32 [m.edits] = m.edits := by
      have hle := hM.edits m hm
      rw [sumU32_of_le (by simpa using hle), List.sum_singleton]
    simp only [Function.comp_apply, accumulated, monthSummary, lastKey, hM.rowsOf_eq hm,
      List.map_cons, List.map_nil, hmax, hedits, List.sum_singleton, maxRank, List.foldr_cons,
      List.foldr_nil, Nat.max_zero]
    rfl
  | some rows =>
    -- The accumulator is grouped again with the new month; the order of its rows does not matter.
    have hconcat : (concatFrames [rows, M.map AccumulatorRow.ofMonth]).Perm
        ((identities Y).map (accumulated Y Q) ++ M.map AccumulatorRow.ofMonth) := by
      refine (concatFrames_perm _).trans ?_
      rw [List.flatten_cons, List.flatten_singleton]
      exact List.Perm.append_right _ h
    refine (groupBy_congr order .asComputed hconcat fun u {l l'} hl => ?_).trans ?_
    · simp only [AccumulatorRow.reduce, maxKey_congr (hl.map _), maxRank_congr (hl.map _),
        sumU32_congr (hl.map _), (hl.map _).sum_eq]
    let combined := (identities Y).map (accumulated Y Q) ++ M.map AccumulatorRow.ofMonth
    have hkeys : ((combined.map AccumulatorRow.identity).dedup).Perm (identities (Y ++ M)) := by
      refine (List.perm_ext_iff_of_nodup (List.nodup_dedup _) (List.nodup_dedup _)).mpr fun u => ?_
      have hid : combined.map AccumulatorRow.identity
          = identities Y ++ M.map EditorMonth.identity := by
        rw [List.map_append, List.map_map, List.map_map]
        exact congrArg (· ++ _) (List.map_id _)
      show u ∈ (combined.map AccumulatorRow.identity).dedup ↔ u ∈ identities (Y ++ M)
      rw [List.mem_dedup, hid, List.mem_append, mem_identities, mem_identities, List.mem_map]
      simp only [List.mem_append, or_and_right, exists_or]
    have hrows : ∀ u, combined.filter (·.identity = u)
        = ((identities Y).map (accumulated Y Q)).filter (·.identity = u)
          ++ (rowsOf M u).map AccumulatorRow.ofMonth := by
      intro u
      rw [List.filter_append]
      exact congrArg (_ ++ ·) List.filter_map
    have hreduce : ∀ u, AccumulatorRow.reduce u (combined.filter (·.identity = u))
        = accumulated (Y ++ M) (Q ++ M) u := by
      intro u
      rw [hrows]
      by_cases hu : u ∈ identities Y
      · -- an editor the accumulator knows: one row that holds the sums so far
        have hone : ((identities Y).map (accumulated Y Q)).filter (·.identity = u)
            = [accumulated Y Q u] := by
          refine filter_key_eq_singleton AccumulatorRow.identity ?_
            (a := accumulated Y Q u) (List.mem_map_of_mem hu)
          rw [List.map_map]
          exact (List.nodup_dedup _).map fun _ _ h => h
        have hne : (rowsOf Y u).map EditorMonth.yearMonthKey ≠ [] := fun hnil =>
          rowsOf_ne_nil hu (List.map_eq_nil_iff.mp hnil)
        have hmax := maxKey_cons_maxKey (r := (rowsOf M u).map EditorMonth.yearMonthKey) hne
        have hrank : ∀ l l' : List ℕ, maxRank (maxRank l :: l') = maxRank (l ++ l') :=
          fun l l' => (maxRank_append l l').symm
        rw [hone]
        simp only [AccumulatorRow.reduce, accumulated, monthSummary, lastKey, rowsOf_append,
          List.cons_append, List.nil_append, List.map_cons, List.map_map, List.map_append,
          Function.comp_def, AccumulatorRow.ofMonth, hrank, sumU32_cons_sumU32,
          List.sum_cons, List.sum_append]
        show AccumulatorRow.mk (maxKey (maxKey _ :: _)) _ _ _ _ _ _ _ _ _ = _
        rw [hmax]
      · -- an editor the accumulator does not know: only the month's row
        have hnone : ((identities Y).map (accumulated Y Q)).filter (·.identity = u) = [] := by
          refine List.filter_eq_nil_iff.mpr fun row hrow heq => hu ?_
          obtain ⟨u', hu', rfl⟩ := List.mem_map.mp hrow
          obtain rfl : u' = u := of_decide_eq_true heq
          exact hu'
        have hY := rowsOf_eq_nil hu
        have hQ : rowsOf Q u = [] := by
          refine rowsOf_eq_nil fun hmem => hu ?_
          obtain ⟨m, hm, huser⟩ := mem_identities.mp hmem
          exact mem_identities.mpr ⟨m, hsub m hm, huser⟩
        rw [hnone]
        simp only [AccumulatorRow.reduce, accumulated, monthSummary, lastKey, rowsOf_append, hY,
          hQ, List.nil_append, List.map_map, Function.comp_def, AccumulatorRow.ofMonth]
    show ((combined.map AccumulatorRow.identity).dedup.map fun u =>
      AccumulatorRow.reduce u (combined.filter (·.identity = u))).Perm _
    simp only [hreduce]
    exact hkeys.map _

/-- Zeroing the quarter columns leaves no row of the quarter open. -/
theorem Accumulates.zeroQuarter {rows : List AccumulatorRow} (h : Accumulates (some rows) Y Q) :
    Accumulates (some (rows.map AccumulatorRow.zeroQuarter)) Y [] := by
  have hmap := List.Perm.map AccumulatorRow.zeroQuarter h
  rw [List.map_map] at hmap
  exact hmap

end Accumulator

/-! ## What a report says -/

/-- The editor-periods a streamed report is made from: all rows of the period
are added up, and those without an edit are dropped afterwards. -/
def streamPeriods (period : PeriodType) (rows : List EditorMonth) : List EditorPeriod :=
  (editorPeriods .asComputed period rows).filter (0 < ·.edits)

/-- The editor-periods of a tier computation: rows without an edit are dropped first. -/
def batchPeriods (period : PeriodType) (rows : List EditorMonth) : List EditorPeriod :=
  editorPeriods .asComputed period (activeMonths rows)

theorem sum_activeMonths (rows : List EditorMonth) :
    ((activeMonths rows).map EditorMonth.edits).sum = (rows.map EditorMonth.edits).sum := by
  induction rows with
  | nil => rfl
  | cons m rows ih =>
    rw [activeMonths, List.filter_cons]
    split
    · rw [List.map_cons, List.sum_cons, List.map_cons, List.sum_cons]
      exact congrArg _ ih
    next h =>
      have hzero : m.edits = 0 := by simpa using h
      rw [List.map_cons, List.sum_cons, hzero, Nat.zero_add]
      exact ih

/-- Rows of different periods are reported apart. -/
theorem streamPeriods_append {period : PeriodType} {rows rows' : List EditorMonth}
    (h : ∀ a ∈ rows, ∀ b ∈ rows', a.periodKey period ≠ b.periodKey period) :
    (streamPeriods period (rows ++ rows')).Perm
      (streamPeriods period rows ++ streamPeriods period rows') := by
  have hperm : (editorPeriods .asComputed period (rows ++ rows')).Perm
      (editorPeriods .asComputed period rows ++ editorPeriods .asComputed period rows') :=
    groupBy_append .asComputed fun a ha b hb heq => h a ha b hb (Prod.mk.inj heq).1
  rw [streamPeriods, streamPeriods, streamPeriods, ← List.filter_append]
  exact hperm.filter _

theorem tierGroups_append {period : PeriodType} {rows rows' : List EditorPeriod}
    (h : ∀ a ∈ rows, ∀ b ∈ rows', a.periodKey ≠ b.periodKey) :
    (tierGroups .asComputed period (rows ++ rows')).Perm
      (tierGroups .asComputed period rows ++ tierGroups .asComputed period rows') :=
  groupBy_append .asComputed fun a ha b hb heq =>
    h a ha b hb (congrArg TierKey.periodKey heq)

section Content

variable {period : PeriodType} {k : ℤ} {key : Identity → ℤ} {Z frame : List EditorMonth}
  {ids : List Identity}

/-- The streamed editor-periods of rows that all lie in one period. -/
theorem streamPeriods_eq (key : Identity → ℤ) (hZ : ∀ m ∈ Z, m.periodKey period = k) :
    streamPeriods period Z = ((identities Z).filter fun u => 0 < (monthSummary key Z u).edits).map
      fun u => editorPeriod (k, u) (rowsOf Z u) := by
  have hkeys : Z.map (fun m => (m.periodKey period, m.identity))
      = (Z.map EditorMonth.identity).map fun u => (k, u) := by
    rw [List.map_map]
    exact List.map_congr_left fun m hm => by rw [hZ m hm]; rfl
  have hrows : ∀ u, Z.filter (fun m => decide ((m.periodKey period, m.identity) = (k, u)))
      = rowsOf Z u := by
    intro u
    refine List.filter_congr fun m hm => decide_eq_decide.mpr ?_
    rw [hZ m hm, Prod.mk.injEq, eq_self_iff_true, true_and]
  rw [streamPeriods, editorPeriods, groupBy]
  show ((Z.map fun m => (m.periodKey period, m.identity)).dedup.map fun k =>
    editorPeriod k (Z.filter fun m => decide ((m.periodKey period, m.identity) = k))).filter _ = _
  rw [hkeys, List.dedup_map_of_injective fun _ _ h => (Prod.mk.inj h).2, List.map_map]
  simp only [Function.comp_def, hrows]
  rw [List.filter_map]
  rfl

/-- A frame of summaries is reported as the rows it sums up. -/
theorem report_periods (hnodup : ids.Nodup) (hids : ∀ u ∈ identities Z, u ∈ ids)
    (hZ : ∀ m ∈ Z, m.periodKey period = k)
    (hkey : ∀ u ∈ identities Z, normalizePeriodKey (key u) period = k)
    (hframe : frame.Perm (ids.map (monthSummary key Z))) :
    (batchPeriods period frame).Perm (streamPeriods period Z) ∧
      (frame.map EditorMonth.edits).sum
        = ((streamPeriods period Z).map EditorPeriod.edits).sum := by
  let counted := (identities Z).filter fun u => 0 < (monthSummary key Z u).edits
  have hcounted : (ids.filter fun u => 0 < (monthSummary key Z u).edits).Perm counted := by
    refine (List.perm_ext_iff_of_nodup (hnodup.filter _) ((List.nodup_dedup _).filter _)).mpr
      fun u => ?_
    rw [List.mem_filter, List.mem_filter]
    refine ⟨fun h => ⟨?_, h.2⟩, fun h => ⟨hids u h.1, h.2⟩⟩
    -- an editor with an edit has a row
    by_contra hnot
    have hpos : 0 < (monthSummary key Z u).edits := of_decide_eq_true h.2
    rw [monthSummary, rowsOf_eq_nil hnot] at hpos
    exact absurd hpos (Nat.not_lt_zero 0)
  have hactive : (activeMonths frame).Perm (counted.map (monthSummary key Z)) := by
    refine (hframe.filter _).trans ?_
    rw [List.filter_map]
    exact hcounted.map _
  have hstream := streamPeriods_eq key hZ
  constructor
  · have hkeys : ((counted.map (monthSummary key Z)).map fun m =>
        (m.periodKey period, m.identity)).Nodup := by
      refine List.Nodup.of_map Prod.snd ?_
      rw [List.map_map, List.map_map]
      exact ((List.nodup_dedup _).filter _).map fun _ _ h => h
    refine (groupBy_congr _ .asComputed hactive fun key {_ _} => editorPeriod_congr key).trans
      ((groupBy_of_nodup .asComputed hkeys).trans (List.Perm.of_eq ?_))
    rw [hstream, List.map_map]
    refine List.map_congr_left fun u hu => ?_
    have hperiod : (monthSummary key Z u).periodKey period = k :=
      hkey u (List.mem_filter.mp hu).1
    have hrank : ∀ l, maxRank [maxRank l] = maxRank l := fun l => Nat.max_zero _
    have hsum : ∀ l, sumU32 [sumU32 l] = sumU32 l := fun l => by
      rw [sumU32_cons_sumU32, List.append_nil]
    rw [Function.comp_apply, hperiod]
    simp only [editorPeriod, monthSummary, List.map_cons, List.map_nil, hrank, hsum,
      List.sum_singleton]
  · rw [← sum_activeMonths, (hactive.map _).sum_nat, hstream, List.map_map, List.map_map]
    rfl

end Content

/-- The reports of one kind of period say what the tiers of `rows` are. -/
structure Covers (period : PeriodType) (reports : List Report) (rows : List EditorMonth) :
    Prop where
  valid : ∀ r ∈ reports.filter (·.period = period), ∀ m ∈ r.frame, m.Valid
  tiers : ((reports.filter (·.period = period)).flatMap fun r =>
    tierRows period (batchPeriods period r.frame)).Perm
      (tierRows period (streamPeriods period rows))
  input : ((reports.filter (·.period = period)).map fun r =>
    (r.frame.map EditorMonth.edits).sum).sum
      = ((streamPeriods period rows).map EditorPeriod.edits).sum
  output : ((reports.filter (·.period = period)).map fun r =>
    tierEdits period (batchPeriods period r.frame)).sum =
      tierEdits period (streamPeriods period rows)

theorem covers_nil (period : PeriodType) : Covers period [] [] :=
  ⟨fun _ hr => absurd hr List.not_mem_nil, List.Perm.refl _, rfl, rfl⟩

/-- A report of another kind is not looked at. -/
theorem Covers.other {period : PeriodType} {reports : List Report} {rows : List EditorMonth}
    (h : Covers period reports rows) {report : Report} (hne : report.period ≠ period) :
    Covers period (reports ++ [report]) rows := by
  have hfilter : (reports ++ [report]).filter (fun r => decide (r.period = period))
      = reports.filter fun r => decide (r.period = period) := by
    rw [List.filter_append, List.filter_cons, if_neg (by simpa using hne), List.filter_nil,
      List.append_nil]
  exact ⟨by rw [hfilter]; exact h.valid, by rw [hfilter]; exact h.tiers, by
    rw [hfilter]; exact h.input,
    by rw [hfilter]; exact h.output⟩

/-- A report on rows of a new period. -/
theorem Covers.report {period : PeriodType} {reports : List Report}
    {rows Z frame : List EditorMonth} (h : Covers period reports rows)
    (hvalid : ∀ m ∈ frame, m.Valid)
    (hdisjoint : ∀ a ∈ rows, ∀ b ∈ Z, a.periodKey period ≠ b.periodKey period)
    (hperiods : (batchPeriods period frame).Perm (streamPeriods period Z))
    (hedits : (frame.map EditorMonth.edits).sum
      = ((streamPeriods period Z).map EditorPeriod.edits).sum) :
    Covers period (reports ++ [⟨period, frame⟩]) (rows ++ Z) := by
  have hfilter : (reports ++ [(⟨period, frame⟩ : Report)]).filter
    (fun r => decide (r.period = period))
      = reports.filter (fun r => decide (r.period = period)) ++ [(⟨period, frame⟩ : Report)] := by
    rw [List.filter_append, List.filter_cons, if_pos (decide_eq_true rfl), List.filter_nil]
  have happend := streamPeriods_append hdisjoint
  have hkeys : ∀ a ∈ streamPeriods period rows, ∀ b ∈ streamPeriods period Z,
      a.periodKey ≠ b.periodKey := by
    intro a ha b hb
    obtain ⟨m, hm, hma, -⟩ := mem_editorPeriods (List.mem_filter.mp ha).1
    obtain ⟨m', hm', hmb, -⟩ := mem_editorPeriods (List.mem_filter.mp hb).1
    rw [hma, hmb]
    exact hdisjoint m hm m' hm'
  have hgroups := (tierGroups_congr .asComputed .asComputed period happend).trans
    (tierGroups_append hkeys)
  refine ⟨?_, ?_, ?_, ?_⟩
  · rw [hfilter]
    intro r hr
    rcases List.mem_append.mp hr with hr | hr
    · exact h.valid r hr
    · obtain rfl := List.mem_singleton.mp hr
      exact hvalid
  · rw [hfilter, List.flatMap_append, List.flatMap_singleton]
    have hmap := hgroups.map fun g =>
      tierRow period (periodTexts period g.key.periodKey) g
    rw [List.map_append] at hmap
    exact (h.tiers.append (tierRows_congr period hperiods)).trans hmap.symm
  · rw [hfilter, List.map_append, List.sum_append, h.input, List.map_cons, List.map_nil,
      List.sum_singleton, hedits, (happend.map _).sum_nat, List.map_append, List.sum_append]
  · rw [hfilter, List.map_append, List.sum_append, h.output, List.map_cons, List.map_nil,
      List.sum_singleton, tierEdits_congr period hperiods, tierEdits, tierEdits, tierEdits,
      (hgroups.map _).sum_nat, List.map_append, List.sum_append]

/-! ## The run -/

/-- What has been put out once the rows `done` are pushed: the quarters of `pastQ`
and the years of `pastY`. The rows `Q` and `Y` are still open. -/
structure Tracks (done pastQ Q pastY Y : List EditorMonth)
    (accumulator : Option (List AccumulatorRow)) (reports : List Report) : Prop where
  quarters : done = pastQ ++ Q
  years : done = pastY ++ Y
  sub : ∀ m ∈ Q, m ∈ Y
  holds : Accumulates accumulator Y Q
  month : Covers .month reports done
  quarter : Covers .quarter reports pastQ
  year : Covers .year reports pastY

/-- The open rows lie in one quarter and one year, which no closed row shares. -/
structure Separate (q y : ℤ) (pastQ Q pastY Y : List EditorMonth) : Prop where
  valid : ∀ m ∈ Y, m.Valid
  quarter : ∀ m ∈ Q, m.periodKey .quarter = q
  year : ∀ m ∈ Y, m.periodKey .year = y
  upTo : ∀ m ∈ Y, m.periodKey .quarter ≤ q
  pastQuarter : ∀ a ∈ pastQ, ∀ b ∈ Q, a.periodKey .quarter ≠ b.periodKey .quarter
  pastYear : ∀ a ∈ pastY, ∀ b ∈ Y, a.periodKey .year ≠ b.periodKey .year

section Close

variable {q y : ℤ} {done pastQ Q pastY Y : List EditorMonth} {s : ActivityTierStream}
  {reports : List Report}

/-- An editor's last month in `Y` is in the open quarter if the editor has rows in it. -/
theorem Separate.lastKey_quarter (h : Separate q y pastQ Q pastY Y) (hsub : ∀ m ∈ Q, m ∈ Y)
    {u : Identity} (hu : u ∈ identities Q) : normalizePeriodKey (lastKey Y u) .quarter = q := by
  obtain ⟨m, hm, huser⟩ := mem_identities.mp hu
  have hmY : m ∈ rowsOf Y u := List.mem_filter.mpr ⟨hsub m hm, decide_eq_true huser⟩
  obtain ⟨hmem, hle⟩ := maxKey_mem (l := (rowsOf Y u).map EditorMonth.yearMonthKey)
    (List.ne_nil_of_mem (List.mem_map_of_mem hmY))
  obtain ⟨last, hlast, hkey⟩ := List.mem_map.mp hmem
  have hlastY := (List.mem_filter.mp hlast).1
  obtain ⟨month, hmonth⟩ := h.valid m (hsub m hm)
  obtain ⟨month', hmonth'⟩ := h.valid last hlastY
  have hle' : month.key ≤ month'.key := by
    rw [← hmonth, ← hmonth', hkey]
    exact hle _ (List.mem_map_of_mem hmY)
  have hlower := normalizePeriodKey_mono (a := month) (b := month') hle' .quarter
  have hquarter := h.quarter m hm
  have hupper := h.upTo last hlastY
  rw [EditorMonth.periodKey, hmonth] at hquarter
  rw [EditorMonth.periodKey, hmonth'] at hupper
  rw [lastKey, ← hkey, hmonth']
  omega

theorem Separate.lastKey_year (h : Separate q y pastQ Q pastY Y) {u : Identity}
    (hu : u ∈ identities Y) : normalizePeriodKey (lastKey Y u) .year = y := by
  have hne := rowsOf_ne_nil hu
  obtain ⟨hmem, -⟩ := maxKey_mem (l := (rowsOf Y u).map EditorMonth.yearMonthKey)
    fun hnil => hne (List.map_eq_nil_iff.mp hnil)
  obtain ⟨last, hlast, hkey⟩ := List.mem_map.mp hmem
  rw [lastKey, ← hkey]
  exact h.year last (List.mem_filter.mp hlast).1

/-- Summaries carry the months of their rows. -/
theorem Separate.valid_frame (h : Separate q y pastQ Q pastY Y) {Z frame : List EditorMonth}
    (hframe : frame.Perm ((identities Y).map (monthSummary (lastKey Y) Z))) :
    ∀ m ∈ frame, m.Valid := by
  intro m hm
  obtain ⟨u, hu, rfl⟩ := List.mem_map.mp (hframe.mem_iff.mp hm)
  obtain ⟨hmem, -⟩ := maxKey_mem (l := (rowsOf Y u).map EditorMonth.yearMonthKey)
    fun hnil => rowsOf_ne_nil hu (List.map_eq_nil_iff.mp hnil)
  obtain ⟨last, hlast, hkey⟩ := List.mem_map.mp hmem
  obtain ⟨month, hmonth⟩ := h.valid last (List.mem_filter.mp hlast).1
  exact ⟨month, hkey.symm.trans hmonth⟩

/-- Reporting the quarter closes its rows. -/
theorem Tracks.quarterReport (h : Tracks done pastQ Q pastY Y s.accumulator reports)
    (hs : Separate q y pastQ Q pastY Y) :
    Tracks done done [] pastY Y (Activity.quarterReport s).1.accumulator
      (reports ++ (Activity.quarterReport s).2) := by
  have hdone : done = done ++ [] := (List.append_nil _).symm
  obtain ⟨accumulator, quarterKey, year⟩ := s
  cases accumulator with
  | none =>
    obtain rfl : Y = [] := h.holds
    obtain rfl : Q = [] := List.eq_nil_iff_forall_not_mem.mpr fun m hm =>
      List.not_mem_nil (h.sub m hm)
    have hpast : pastQ = done := by rw [h.quarters, List.append_nil]
    rw [Activity.quarterReport, List.append_nil]
    exact ⟨hdone, h.years, h.sub, h.holds, h.month, hpast ▸ h.quarter, h.year⟩
  | some rows =>
    have hframe : (rows.map AccumulatorRow.quarterColumns).Perm
        ((identities Y).map (monthSummary (lastKey Y) Q)) := by
      have hmap := List.Perm.map AccumulatorRow.quarterColumns h.holds
      rw [List.map_map] at hmap
      exact hmap
    have hids : ∀ u ∈ identities Q, u ∈ identities Y := by
      intro u hu
      obtain ⟨m, hm, huser⟩ := mem_identities.mp hu
      exact mem_identities.mpr ⟨m, h.sub m hm, huser⟩
    obtain ⟨hperiods, hedits⟩ := report_periods (List.nodup_dedup _) hids hs.quarter
      (fun u hu => hs.lastKey_quarter h.sub hu) hframe
    have hquarter := h.quarter.report (hs.valid_frame hframe) hs.pastQuarter hperiods hedits
    rw [← h.quarters] at hquarter
    exact ⟨hdone, h.years, fun m hm => absurd hm List.not_mem_nil, Accumulates.zeroQuarter h.holds,
      h.month.other (by simp), hquarter, h.year.other (by simp)⟩

/-- Reporting the year closes its rows. -/
theorem Tracks.yearReport (h : Tracks done done [] pastY Y s.accumulator reports)
    (hs : Separate q y pastQ Q pastY Y) :
    Tracks done done [] done [] (Activity.yearReport s).1.accumulator
      (reports ++ (Activity.yearReport s).2) := by
  have hdone : done = done ++ [] := (List.append_nil _).symm
  have hsub : ∀ m ∈ ([] : List EditorMonth), m ∈ ([] : List EditorMonth) := fun m hm => hm
  obtain ⟨accumulator, quarterKey, year⟩ := s
  cases accumulator with
  | none =>
    obtain rfl : Y = [] := h.holds
    have hpast : pastY = done := by rw [h.years, List.append_nil]
    rw [Activity.yearReport, List.append_nil]
    exact ⟨hdone, hdone, hsub, rfl, h.month, h.quarter, hpast ▸ h.year⟩
  | some rows =>
    have hframe : (rows.map AccumulatorRow.yearColumns).Perm
        ((identities Y).map (monthSummary (lastKey Y) Y)) := by
      have hmap := List.Perm.map AccumulatorRow.yearColumns h.holds
      rw [List.map_map] at hmap
      exact hmap
    obtain ⟨hperiods, hedits⟩ := report_periods (List.nodup_dedup _) (fun u hu => hu) hs.year
      (fun u hu => hs.lastKey_year hu) hframe
    have hyear := h.year.report (hs.valid_frame hframe) hs.pastYear hperiods hedits
    rw [← h.years] at hyear
    exact ⟨hdone, hdone, hsub, rfl, h.month.other (by simp), h.quarter.other (by simp), hyear⟩

/-- Finishing closes everything. -/
theorem Tracks.finishReports (h : Tracks done pastQ Q pastY Y s.accumulator reports)
    (hs : Separate q y pastQ Q pastY Y) :
    Tracks done done [] done [] (Activity.finishReports s).1.accumulator
      (reports ++ (Activity.finishReports s).2) := by
  have hquarter := h.quarterReport hs
  have hyear := Tracks.yearReport (s := (Activity.quarterReport s).1) hquarter hs
  simpa only [Activity.finishReports, andThen, forgetBoth, List.append_nil, List.append_assoc]
    using hyear

end Close

def quarterOf (m : YearMonth) : ℤ := normalizePeriodKey m.key .quarter
def yearOf (m : YearMonth) : ℤ := normalizePeriodKey m.key .year

/-- The open rows are of the month's own quarter and year, the closed ones are earlier. -/
structure Within (m : YearMonth) (pastQ Q pastY Y : List EditorMonth) : Prop where
  valid : ∀ r ∈ Y, r.Valid
  quarter : ∀ r ∈ Q, r.periodKey .quarter = quarterOf m
  pastQuarter : ∀ r ∈ pastQ, r.periodKey .quarter < quarterOf m
  year : ∀ r ∈ Y, r.periodKey .year = yearOf m
  pastYear : ∀ r ∈ pastY, r.periodKey .year < yearOf m
  upTo : ∀ r ∈ Y, r.periodKey .quarter ≤ quarterOf m

theorem Within.separate {m : YearMonth} {pastQ Q pastY Y : List EditorMonth}
    (h : Within m pastQ Q pastY Y) : Separate (quarterOf m) (yearOf m) pastQ Q pastY Y where
  valid := h.valid
  quarter := h.quarter
  year := h.year
  upTo := h.upTo
  pastQuarter a ha b hb := by
    rw [h.quarter b hb]
    exact ne_of_lt (h.pastQuarter a ha)
  pastYear a ha b hb := by
    rw [h.year b hb]
    exact ne_of_lt (h.pastYear a ha)

/-- The stream once the month `m` is pushed. -/
structure After (m : YearMonth) (s : ActivityTierStream) (done pastQ Q pastY Y : List EditorMonth) :
    Prop where
  quarterKey : s.currentQuarterKey = if m.month % 3 = 0 then none else some (quarterOf m)
  yearKey : s.currentYear = if m.month = 12 then none else some (yearOf m)
  rows : ∀ r ∈ done, ∃ month : YearMonth, r.yearMonthKey = month.key ∧ month ≤ m
  openQuarter : ∀ r ∈ Q, r.periodKey .quarter = quarterOf m
  endOfQuarter : m.month % 3 = 0 → Q = []
  pastQuarter : ∀ r ∈ pastQ, m.month % 3 = 0 ∨ r.periodKey .quarter < quarterOf m
  openYear : ∀ r ∈ Y, r.periodKey .year = yearOf m
  endOfYear : m.month = 12 → Y = []
  pastYear : ∀ r ∈ pastY, m.month = 12 ∨ r.periodKey .year < yearOf m

/-- How the periods of two months compare. -/
theorem periods_of_lt {m next : YearMonth} (h : m < next) :
    quarterOf m ≤ quarterOf next ∧ yearOf m ≤ yearOf next ∧
      (yearOf m ≠ yearOf next → quarterOf m < quarterOf next) ∧
      (m.month % 3 = 0 → quarterOf m < quarterOf next) ∧
      (m.month = 12 → yearOf m < yearOf next) := by
  have hkey : m.key < next.key := h
  have h1 := m.month_pos
  have h2 := m.month_le
  have h3 := next.month_pos
  have h4 := next.month_le
  simp only [YearMonth.key] at hkey
  simp only [quarterOf, yearOf, (normalizePeriodKey_key m).1, (normalizePeriodKey_key m).2,
    (normalizePeriodKey_key next).1, (normalizePeriodKey_key next).2]
  refine ⟨by omega, by omega, fun h => by omega, fun h => by omega, fun h => by omega⟩

section After

variable {m next : YearMonth} {s : ActivityTierStream} {done pastQ Q pastY Y : List EditorMonth}
  {reports : List Report}

theorem After.upTo (h : After m s done pastQ Q pastY Y) {r : EditorMonth} (hr : r ∈ done) :
    r.Valid ∧ r.periodKey .quarter ≤ quarterOf m ∧ r.periodKey .year ≤ yearOf m := by
  obtain ⟨month, hkey, hle⟩ := h.rows r hr
  refine ⟨⟨month, hkey⟩, ?_, ?_⟩
  · rw [EditorMonth.periodKey, hkey]
    exact normalizePeriodKey_mono hle .quarter
  · rw [EditorMonth.periodKey, hkey]
    exact normalizePeriodKey_mono hle .year

theorem After.separate (h : After m s done pastQ Q pastY Y) (hyears : done = pastY ++ Y) :
    Separate (quarterOf m) (yearOf m) pastQ Q pastY Y := by
  have hdone : ∀ r ∈ Y, r ∈ done := fun r hr => by
    rw [hyears]
    exact List.mem_append_right _ hr
  refine ⟨fun r hr => (h.upTo (hdone r hr)).1, h.openQuarter, h.openYear,
    fun r hr => (h.upTo (hdone r hr)).2.1, fun a ha b hb => ?_, fun a ha b hb => ?_⟩
  · rw [h.openQuarter b hb]
    rcases h.pastQuarter a ha with hend | hlt
    · rw [h.endOfQuarter hend] at hb
      exact absurd hb List.not_mem_nil
    · exact ne_of_lt hlt
  · rw [h.openYear b hb]
    rcases h.pastYear a ha with hend | hlt
    · rw [h.endOfYear hend] at hb
      exact absurd hb List.not_mem_nil
    · exact ne_of_lt hlt

/-- Before a later month is pushed, everything it does not belong to is closed. -/
theorem After.closePast (h : After m s done pastQ Q pastY Y)
    (ht : Tracks done pastQ Q pastY Y s.accumulator reports) (hlt : m < next) :
    ∃ pastQ' Q' pastY' Y',
      Tracks done pastQ' Q' pastY' Y'
        (closePastReports (yearOf next) (quarterOf next) s).1.accumulator
        (reports ++ (closePastReports (yearOf next) (quarterOf next) s).2) ∧
      Within next pastQ' Q' pastY' Y' := by
  obtain ⟨hqle, hyle, hyq, hqend, hyend⟩ := periods_of_lt hlt
  have hs := h.separate ht.years
  have hnone : ∀ r ∈ ([] : List EditorMonth), ∀ P : Prop, P :=
    fun r hr => absurd hr List.not_mem_nil
  have hin : ∀ r ∈ Y, r ∈ done := fun r hr => by
    rw [ht.years]
    exact List.mem_append_right _ hr
  -- The year of the next month is still open, or it is over.
  by_cases hyear : yearOf m = yearOf next
  · have hmonth : ¬ m.month = 12 := fun h12 => absurd (hyend h12) (by omega)
    have hcurrent : s.currentYear.any (· ≠ yearOf next) = false := by
      rw [h.yearKey, if_neg hmonth, Option.any_some, hyear]
      exact decide_eq_false (not_not.mpr rfl)
    have hpastYear : ∀ r ∈ pastY, r.periodKey .year < yearOf next := fun r hr =>
      hyear ▸ (h.pastYear r hr).resolve_left hmonth
    have hopenYear : ∀ r ∈ Y, r.periodKey .year = yearOf next := fun r hr =>
      hyear ▸ h.openYear r hr
    have hupTo : ∀ r ∈ Y, r.periodKey .quarter ≤ quarterOf next := fun r hr =>
      le_trans (h.upTo (hin r hr)).2.1 hqle
    by_cases hend : m.month % 3 = 0
    · -- the quarter was closed with its last month
      have hclose : closePastReports (yearOf next) (quarterOf next) s = (s, []) := by
        rw [closePastReports, hcurrent, h.quarterKey, if_pos hend]
        rfl
      have hQ := h.endOfQuarter hend
      rw [hclose, List.append_nil]
      refine ⟨pastQ, Q, pastY, Y, ht, hs.valid, ?_, fun r hr => ?_, hopenYear, hpastYear, hupTo⟩
      · rw [hQ]
        exact fun r hr => hnone r hr _
      · have hle := (h.upTo (r := r) (by rw [ht.quarters]; exact List.mem_append_left _ hr)).2.1
        have hqlt := hqend hend
        omega
    -- Within the year the quarter is the same, or an earlier one that is reported now.
    · by_cases hquarter : quarterOf m = quarterOf next
      · have hclose : closePastReports (yearOf next) (quarterOf next) s = (s, []) := by
          rw [closePastReports, hcurrent, h.quarterKey, if_neg hend, hquarter, Option.any_some,
            decide_eq_false (not_not.mpr rfl)]
          rfl
        rw [hclose, List.append_nil]
        exact ⟨pastQ, Q, pastY, Y, ht, hs.valid, fun r hr => hquarter ▸ h.openQuarter r hr,
          fun r hr => hquarter ▸ (h.pastQuarter r hr).resolve_left hend, hopenYear, hpastYear,
          hupTo⟩
      · -- an open quarter of an earlier month
        have hclose : closePastReports (yearOf next) (quarterOf next) s
            = andThen quarterReport forgetQuarter s := by
          rw [closePastReports, hcurrent, h.quarterKey, if_neg hend, Option.any_some,
            decide_eq_true hquarter]
          rfl
        have hquarters := ht.quarterReport hs
        rw [hclose]
        refine ⟨done, [], pastY, Y, ?_, hs.valid, fun r hr => hnone r hr _, fun r hr => ?_,
          hopenYear, hpastYear, hupTo⟩
        · simpa only [andThen, forgetQuarter, List.append_nil] using hquarters
        · have hle := (h.upTo hr).2.1
          omega
  · have hqlt := hyq hyear
    have hpast : ∀ r ∈ done, r.periodKey .quarter < quarterOf next ∧
        r.periodKey .year < yearOf next := by
      intro r hr
      obtain ⟨-, hq, hy⟩ := h.upTo hr
      omega
    -- After a December both were reported with the month; otherwise both are reported now.
    by_cases hmonth : m.month = 12
    · have hend : m.month % 3 = 0 := by omega
      have hclose : closePastReports (yearOf next) (quarterOf next) s = (s, []) := by
        rw [closePastReports, h.yearKey, if_pos hmonth, h.quarterKey, if_pos hend]
        rfl
      have hQ := h.endOfQuarter hend
      have hY := h.endOfYear hmonth
      rw [hclose, List.append_nil]
      refine ⟨pastQ, Q, pastY, Y, ht, hs.valid, ?_, fun r hr => ?_, ?_, fun r hr => ?_, ?_⟩
      · rw [hQ]
        exact fun r hr => hnone r hr _
      · exact (hpast r (by rw [ht.quarters]; exact List.mem_append_left _ hr)).1
      · rw [hY]
        exact fun r hr => hnone r hr _
      · exact (hpast r (by rw [ht.years]; exact List.mem_append_left _ hr)).2
      · rw [hY]
        exact fun r hr => hnone r hr _
    · have hclose : closePastReports (yearOf next) (quarterOf next) s = finishReports s := by
        rw [closePastReports, h.yearKey, if_neg hmonth, Option.any_some, decide_eq_true hyear]
        rfl
      rw [hclose]
      exact ⟨done, [], done, [], ht.finishReports hs, fun r hr => hnone r hr _,
        fun r hr => hnone r hr _, fun r hr => (hpast r hr).1, fun r hr => hnone r hr _,
        fun r hr => (hpast r hr).2, fun r hr => hnone r hr _⟩

/-- A month is reported and its rows are opened. -/
theorem Tracks.monthReport (order : RowOrder) {M : List EditorMonth} (hM : IsMonthFrame m M)
    (ht : Tracks done pastQ Q pastY Y s.accumulator reports)
    (hdone : ∀ r ∈ done, r.yearMonthKey < m.key) (year quarterKey : ℤ) :
    Tracks (done ++ M) pastQ (Q ++ M) pastY (Y ++ M)
      (Activity.monthReport order year quarterKey M s).1.accumulator
      (reports ++ (Activity.monthReport order year quarterKey M s).2) := by
  have hkeys : ∀ r ∈ M, r.periodKey .month = m.key := hM.key
  obtain ⟨hperiods, hedits⟩ := report_periods (List.nodup_dedup _)
    (fun u hu => hu) hkeys (fun _ _ => rfl) hM.perm_summaries
  have hvalid : ∀ r ∈ M, r.Valid := fun r hr => ⟨m, hM.key r hr⟩
  have hmonth := ht.month.report hvalid (fun a ha b hb => by
    rw [hkeys b hb]
    exact ne_of_lt (hdone a ha)) hperiods hedits
  refine ⟨?_, ?_, ?_, ?_, hmonth, ht.quarter.other (by simp), ht.year.other (by simp)⟩
  · rw [ht.quarters, List.append_assoc]
  · rw [ht.years, List.append_assoc]
  · intro r hr
    rcases List.mem_append.mp hr with hr | hr
    · exact List.mem_append_left _ (ht.sub r hr)
    · exact List.mem_append_right _ hr
  · show Accumulates (absorbMonth order M _).accumulator _ _
    rw [absorbMonth]
    split
    · exact ht.holds.merge order hM ht.sub
    next hempty =>
      obtain rfl : M = [] := List.length_eq_zero_iff.mp (by omega)
      rw [List.append_nil, List.append_nil]
      exact ht.holds

theorem Within.append {M : List EditorMonth} (hM : IsMonthFrame m M)
    (h : Within m pastQ Q pastY Y) : Within m pastQ (Q ++ M) pastY (Y ++ M) := by
  have hquarter : ∀ r ∈ M, r.periodKey .quarter = quarterOf m := fun r hr => by
    rw [EditorMonth.periodKey, hM.key r hr, quarterOf]
  have hyear : ∀ r ∈ M, r.periodKey .year = yearOf m := fun r hr => by
    rw [EditorMonth.periodKey, hM.key r hr, yearOf]
  refine ⟨fun r hr => ?_, fun r hr => ?_, h.pastQuarter, fun r hr => ?_, h.pastYear, fun r hr => ?_⟩
  · exact (List.mem_append.mp hr).elim (h.valid r) fun hr => ⟨m, hM.key r hr⟩
  · exact (List.mem_append.mp hr).elim (h.quarter r) (hquarter r)
  · exact (List.mem_append.mp hr).elim (h.year r) (hyear r)
  · exact (List.mem_append.mp hr).elim (h.upTo r) fun hr => le_of_eq (hquarter r hr)

theorem quarterReport_currentYear (s : ActivityTierStream) :
    (quarterReport s).1.currentYear = s.currentYear := by
  rcases s with ⟨_ | _, _, _⟩ <;> rfl

theorem yearReport_currentQuarterKey (s : ActivityTierStream) :
    (yearReport s).1.currentQuarterKey = s.currentQuarterKey := by
  rcases s with ⟨_ | _, _, _⟩ <;> rfl

/-- The last month of a quarter closes it, December the year as well. -/
theorem Tracks.closeMonth (ht : Tracks done pastQ Q pastY Y s.accumulator reports)
    (hw : Within m pastQ Q pastY Y)
    (hrows : ∀ r ∈ done, ∃ month : YearMonth, r.yearMonthKey = month.key ∧ month ≤ m)
    (hquarter : s.currentQuarterKey = some (quarterOf m))
    (hyear : s.currentYear = some (yearOf m)) :
    let closing := andThen (closeQuarterReports (m.key.tmod 100))
      (closeYearReports (m.key.tmod 100))
    ∃ pastQ' Q' pastY' Y', Tracks done pastQ' Q' pastY' Y' (closing s).1.accumulator
      (reports ++ (closing s).2) ∧ After m (closing s).1 done pastQ' Q' pastY' Y' := by
  intro closing
  have hkey := (key_digits m).1.2
  have hthird : (m.key.tmod 100).tmod 3 = 0 ↔ m.month % 3 = 0 := by
    rw [hkey, Int.tmod_eq_emod_of_nonneg (by omega)]
    omega
  have hlast : m.key.tmod 100 = 12 ↔ m.month = 12 := by
    rw [hkey]
    omega
  have hnone : ∀ r ∈ ([] : List EditorMonth), ∀ P : Prop, P :=
    fun r hr => absurd hr List.not_mem_nil
  -- The third month of a quarter reports the quarter, a December the year as well.
  by_cases hend : m.month % 3 = 0
  · have hquarters := ht.quarterReport hw.separate
    have hqclose : closeQuarterReports (m.key.tmod 100) s =
      andThen Activity.quarterReport forgetQuarter s :=
      if_pos (hthird.mpr hend)
    by_cases h12 : m.month = 12
    · have hyears := Tracks.yearReport (s := (Activity.quarterReport s).1) hquarters hw.separate
      have hclose : closing s = ({ (Activity.yearReport { (Activity.quarterReport s).1 with
          currentQuarterKey := none }).1 with currentYear := none },
          (Activity.quarterReport s).2 ++
            (Activity.yearReport (Activity.quarterReport s).1).2) := by
        show andThen _ _ s = _
        rw [andThen, hqclose, closeYearReports, if_pos (hlast.mpr h12)]
        simp only [andThen, forgetQuarter, forgetYear, List.append_nil]
        rcases Activity.quarterReport s with ⟨⟨_ | _, _, _⟩, _⟩ <;> rfl
      have hacc : (closing s).1.accumulator =
        (Activity.yearReport (Activity.quarterReport s).1).1.accumulator := by
        rw [hclose]
        rcases Activity.quarterReport s with ⟨⟨_ | _, _, _⟩, _⟩ <;> rfl
      refine ⟨done, [], done, [], ?_, ?_, ?_, hrows, fun r hr => hnone r hr _, fun _ => rfl,
        fun r hr => Or.inl hend, fun r hr => hnone r hr _, fun _ => rfl, fun r hr => Or.inl h12⟩
      · rw [hacc, hclose, ← List.append_assoc]
        exact hyears
      · rw [hclose, if_pos hend]
        exact yearReport_currentQuarterKey _
      · rw [hclose, if_pos h12]
    · have hclose : closing s = ({ (Activity.quarterReport s).1 with currentQuarterKey := none },
          (Activity.quarterReport s).2) := by
        show andThen _ _ s = _
        rw [andThen, hqclose, closeYearReports, if_neg fun h => h12 (hlast.mp h)]
        simp only [andThen, forgetQuarter, List.append_nil]
      refine ⟨done, [], pastY, Y, ?_, ?_, ?_, hrows, fun r hr => hnone r hr _, fun _ => rfl,
        fun r hr => Or.inl hend, hw.year, fun h => absurd h h12, fun r hr =>
          Or.inr (hw.pastYear r hr)⟩
      · rw [hclose]
        exact hquarters
      · rw [hclose, if_pos hend]
      · rw [hclose, if_neg h12, ← hyear]
        exact quarterReport_currentYear s
  -- Within a quarter nothing is reported.
  · have h12 : ¬ m.month = 12 := by omega
    have hclose : closing s = (s, []) := by
      show andThen _ _ s = _
      rw [andThen, closeQuarterReports, if_neg fun h => hend (hthird.mp h), closeYearReports,
        if_neg fun h => h12 (hlast.mp h)]
      rfl
    rw [hclose, List.append_nil]
    exact ⟨pastQ, Q, pastY, Y, ht, by rw [if_neg hend, hquarter], by rw [if_neg h12, hyear], hrows,
      hw.quarter, fun h => absurd h hend, fun r hr => Or.inr (hw.pastQuarter r hr), hw.year,
      fun h => absurd h h12, fun r hr => Or.inr (hw.pastYear r hr)⟩

theorem absorbMonth_keys (order : RowOrder) (M : List EditorMonth) (s : ActivityTierStream) :
    (absorbMonth order M s).currentQuarterKey = s.currentQuarterKey ∧
      (absorbMonth order M s).currentYear = s.currentYear := by
  unfold absorbMonth
  split
  · exact ⟨rfl, rfl⟩
  · exact ⟨rfl, rfl⟩

end After

/-- The stream is ready for every month that `later` allows, and for finishing. -/
structure Ready (later : YearMonth → Prop) (done : List EditorMonth) (s : ActivityTierStream)
    (reports : List Report) : Prop where
  push : ∀ next, later next →
    (∀ r ∈ done, ∃ month : YearMonth, r.yearMonthKey = month.key ∧ month < next) ∧
    ∃ pastQ Q pastY Y, Tracks done pastQ Q pastY Y
      (closePastReports (yearOf next) (quarterOf next) s).1.accumulator
      (reports ++ (closePastReports (yearOf next) (quarterOf next) s).2) ∧
      Within next pastQ Q pastY Y
  finish : ∀ period, Covers period (reports ++ (finishReports s).2) done

theorem ready_start : Ready (fun _ => True) [] {} [] where
  push next _ := by
    have hnone : ∀ r ∈ ([] : List EditorMonth), ∀ P : Prop, P :=
      fun r hr => absurd hr List.not_mem_nil
    exact ⟨fun r hr => hnone r hr _, [], [], [], [], ⟨rfl, rfl, fun r hr => hnone r hr _, rfl,
        covers_nil _, covers_nil _, covers_nil _⟩,
      fun r hr => hnone r hr _, fun r hr => hnone r hr _, fun r hr => hnone r hr _,
      fun r hr => hnone r hr _, fun r hr => hnone r hr _, fun r hr => hnone r hr _⟩
  finish period := covers_nil period

/-- Pushing a month. -/
theorem Ready.push_month (order : RowOrder) {later : YearMonth → Prop} {done : List EditorMonth}
    {s : ActivityTierStream} {reports : List Report} (h : Ready later done s reports)
    {m : YearMonth} (hm : later m) {M : List EditorMonth} (hM : IsMonthFrame m M) :
    Ready (fun next => m < next) (done ++ M) (pushReports order m M s).1
      (reports ++ (pushReports order m M s).2) := by
  obtain ⟨hdone, pastQ, Q, pastY, Y, ht, hw⟩ := h.push m hm
  let s₁ := (closePastReports (yearOf m) (quarterOf m) s).1
  let s₂ := (monthReport order (yearOf m) (quarterOf m) M s₁).1
  have hmonth := Tracks.monthReport (s := s₁) order hM ht (fun r hr => by
    obtain ⟨month, hkey, hlt⟩ := hdone r hr
    rw [hkey]
    exact hlt) (yearOf m) (quarterOf m)
  have hrows : ∀ r ∈ done ++ M, ∃ month : YearMonth, r.yearMonthKey = month.key ∧ month ≤ m := by
    intro r hr
    rcases List.mem_append.mp hr with hr | hr
    · obtain ⟨month, hkey, hlt⟩ := hdone r hr
      exact ⟨month, hkey, le_of_lt hlt⟩
    · exact ⟨m, hM.key r hr, le_refl m⟩
  obtain ⟨hquarter, hyear⟩ := absorbMonth_keys order M
    { s₁ with currentYear := some (yearOf m), currentQuarterKey := some (quarterOf m) }
  obtain ⟨pastQ', Q', pastY', Y', hclose, hafter⟩ :=
    Tracks.closeMonth (s := s₂) hmonth (hw.append hM) hrows hquarter hyear
  have hpush : pushReports order m M s
      = andThen (closePastReports (yearOf m) (quarterOf m))
        (andThen (monthReport order (yearOf m) (quarterOf m) M)
          (andThen (closeQuarterReports (m.key.tmod 100))
            (closeYearReports (m.key.tmod 100)))) s := rfl
  rw [List.append_assoc, List.append_assoc] at hclose
  rw [hpush]
  refine ⟨fun next hlt => ⟨fun r hr => ?_, hafter.closePast hclose hlt⟩, fun period => ?_⟩
  · obtain ⟨month, hkey, hle⟩ := hrows r hr
    exact ⟨month, hkey, lt_of_le_of_lt hle hlt⟩
  · have hfinish := Tracks.finishReports hclose (hafter.separate hclose.years)
    cases period with
    | month => exact hfinish.month
    | quarter => exact hfinish.quarter
    | year => exact hfinish.year

/-- Pushing months in order. -/
theorem Ready.sweep (order : RowOrder) {months : List (YearMonth × List EditorMonth)} :
    ∀ {later : YearMonth → Prop} {done : List EditorMonth} {s : ActivityTierStream}
      {reports : List Report}, (∀ m ∈ months, later m.1) →
      months.Pairwise (fun a b => a.1 < b.1) → (∀ m ∈ months, IsMonthFrame m.1 m.2) →
      Ready later done s reports →
      let run := andThen (Reports.sweep (fun m => pushReports order m.1 m.2) months) finishReports
      ∀ period, Covers period (reports ++ (run s).2) (done ++ months.flatMap Prod.snd) := by
  induction months with
  | nil =>
    intro later done s reports _ _ _ h run period
    have hdone : done ++ List.flatMap Prod.snd ([] : List (YearMonth × List EditorMonth)) = done :=
      List.append_nil done
    rw [hdone]
    exact h.finish period
  | cons m months ih =>
    intro later done s reports hlater hasc hframes h run period
    obtain ⟨hlt, hasc⟩ := List.pairwise_cons.mp hasc
    have hpush := h.push_month order (hlater m (List.mem_cons_self ..))
      (hframes m (List.mem_cons_self ..))
    have hrest := ih hlt hasc (fun m' hm' => hframes m' (List.mem_cons_of_mem _ hm')) hpush period
    rw [List.flatMap_cons, ← List.append_assoc]
    rw [List.append_assoc] at hrest
    have hrun : (run s).2 = (pushReports order m.1 m.2 s).2
        ++ (andThen (Reports.sweep (fun m => pushReports order m.1 m.2) months) finishReports
          (pushReports order m.1 m.2 s).1).2 := by
      show (andThen (andThen _ _) _ s).2 = _
      simp only [andThen, List.append_assoc]
    rw [hrun]
    exact hrest

/-- **Each period is reported once.** Over months in order the reports of the
stream are the tiers of all its rows, month by month, quarter by quarter and year
by year. -/
theorem stream_covers (order : RowOrder) {months : List (YearMonth × List EditorMonth)}
    (hasc : months.Pairwise fun a b => a.1 < b.1) (hframes : ∀ m ∈ months, IsMonthFrame m.1 m.2)
    (period : PeriodType) :
    Covers period (andThen (Reports.sweep (fun m => pushReports order m.1 m.2) months)
      finishReports {}).2 (months.flatMap Prod.snd) :=
  ready_start.sweep order (fun _ _ => trivial) hasc hframes period

end WikiEcon.Compute.Activity
