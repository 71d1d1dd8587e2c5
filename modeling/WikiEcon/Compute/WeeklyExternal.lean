import WikiEcon.Compute.Weekly

/-!
# Page weeks by a bounded merge

`compute_page_weekly_external_qualification` spills one sorted contribution for
each month and merges them. Only the row the merge is at, the last finished row
and a batch of output rows are resident: a row is finished when the merge moves
on to the next key, its predecessor is the last finished row, and full batches
go to the writer.

`Emitted` says what the writer and the batch hold together after some finished
rows. It does not mention where one ends and the other begins, so a flush keeps
it (`Emitted.flush`) and batch sizes cannot show.
-/

namespace WikiEcon.Compute.Weekly

open KWayMerge SortedTable

/-! ## Rows of a run -/

structure WeeklyContributionRow where
  pageId : Option ℤ
  pageNamespace : Option ℤ
  pageTitle : Option String
  weekStart : Monday
  edits : ℕ

def WeeklyContributionRow.key (row : WeeklyContributionRow) : WeeklyKey where
  pageId := row.pageId
  pageNamespace := row.pageNamespace
  pageTitle := row.pageTitle
  weekStart := some row.weekStart

def WeeklyContributionRow.toWeeklyRow (row : WeeklyContributionRow) : WeeklyRow where
  toWeeklyKey := row.key
  edits := row.edits

/-- The derived order: the fields in turn. -/
def WeeklyContributionRow.orderKey (row : WeeklyContributionRow) : WeeklyKey ×ₗ ℕ :=
  toLex (row.key, row.edits)

theorem WeeklyContributionRow.orderKey_injective :
    Function.Injective WeeklyContributionRow.orderKey := by
  intro a b h
  cases a
  cases b
  simp only [orderKey, key, toLex_inj, Prod.mk.injEq, WeeklyKey.mk.injEq, Option.some.injEq] at h
  obtain ⟨⟨rfl, rfl, rfl, rfl⟩, rfl⟩ := h
  rfl

instance : LinearOrder WeeklyContributionRow :=
  LinearOrder.lift' WeeklyContributionRow.orderKey WeeklyContributionRow.orderKey_injective

def WeeklyContributionRow.sameKey (a b : WeeklyContributionRow) : Bool :=
  a.pageId = b.pageId && a.pageNamespace = b.pageNamespace && a.pageTitle = b.pageTitle
    && a.weekStart.day = b.weekStart.day

theorem WeeklyContributionRow.sameKey_iff {a b : WeeklyContributionRow} :
    a.sameKey b = true ↔ a.key = b.key := by
  simp only [sameKey, key, Bool.and_eq_true, decide_eq_true_eq, WeeklyKey.mk.injEq,
    Option.some.injEq, Monday.day_injective.eq_iff, and_assoc]

theorem WeeklyContributionRow.key_le {a b : WeeklyContributionRow} (h : a ≤ b) :
    a.key ≤ b.key := by
  rcases Prod.Lex.toLex_le_toLex.mp h with hlt | ⟨heq, -⟩
  · exact le_of_lt hlt
  · exact le_of_eq heq

theorem WeeklyContributionRow.le_of_key_lt {a b : WeeklyContributionRow} (h : a.key < b.key) :
    a ≤ b :=
  Prod.Lex.toLex_le_toLex.mpr (Or.inl h)

/-- A row of a spilled run. Reading the run at once changes no more than which
error comes first. -/
def readContribution (row : WeeklyRow) : Except String WeeklyContributionRow := do
  let week ← context row.weekStart "weekly contribution has no week"
  return {
    pageId := row.pageId
    pageNamespace := row.pageNamespace
    pageTitle := row.pageTitle
    weekStart := week
    edits := row.edits }

theorem readContribution_toWeeklyRow (row : WeeklyContributionRow) :
    readContribution row.toWeeklyRow = .ok row := rfl

/-! ## Output batches -/

structure WeeklyFinalBatch where
  rows : List WeeklyOutputRow := []
  previous : Option WeeklyContributionRow := none

section Merge

variable (calendar : Calendar) (wiki : String)

/-- The edits of the row pushed last, if it is the same page a week earlier. -/
def WeeklyFinalBatch.previousEdits (batch : WeeklyFinalBatch) (row : WeeklyContributionRow) : ℕ :=
  match batch.previous with
  | none => 0
  | some previous =>
    if previous.pageId = row.pageId ∧ previous.pageNamespace = row.pageNamespace
        ∧ previous.pageTitle = row.pageTitle
        ∧ checkedSubDays row.weekStart.day previous.weekStart.day = some 7
    then previous.edits else 0

def WeeklyFinalBatch.push (batch : WeeklyFinalBatch) (row : WeeklyContributionRow) :
    Except String WeeklyFinalBatch := do
  let date ← context (formatEpochDay calendar row.weekStart.day)
    "weekly contribution date overflow"
  let parsed ← context (calendar.parse date) "input contains invalid characters"
  let previous := batch.previousEdits row
  ensure (calendar.isoWeek parsed < 2 ^ 31) "out of range integral type conversion attempted"
  let change : ℤ := row.edits - previous
  return {
    rows := batch.rows ++ [{
      weekStart := some date
      isoYear := some (calendar.isoYear parsed)
      isoWeek := some (calendar.isoWeek parsed)
      pageId := row.pageId
      pageTitle := row.pageTitle
      pageNamespace := row.pageNamespace
      edits := row.edits
      previousWeekEdits := previous
      wowChange := change
      wowRate := wowRate change previous
      wiki := wiki }]
    previous := some row }

/-- `take_frame` empties the batch but remembers the row pushed last. -/
def WeeklyFinalBatch.takeFrame (batch : WeeklyFinalBatch) :
    List WeeklyOutputRow × WeeklyFinalBatch :=
  (batch.rows, { previous := batch.previous })

/-! ## The merge -/

/-- The loop's variables. The writer holds the frames written to it. -/
structure WeeklyMerge where
  writer : Option (List (List WeeklyOutputRow)) := none
  batch : WeeklyFinalBatch := {}
  current : Option WeeklyContributionRow := none
  outputRows : ℕ := 0
  totalEditsAfter : ℤ := 0
  minimumWeek : Option ℤ := none
  maximumWeek : Option ℤ := none

/-- The writer is opened at the first flush. -/
def WeeklyMerge.flush (merge : WeeklyMerge) : WeeklyMerge :=
  let (frame, batch) := merge.batch.takeFrame
  { merge with
    writer := some (merge.writer.getD [] ++ [frame])
    batch := batch }

/-- Hand a finished row to the batch; the loop and its end both do. -/
def WeeklyMerge.complete (merge : WeeklyMerge) (completed : WeeklyContributionRow) :
    Except String WeeklyMerge := do
  let week := completed.weekStart.day
  let total ← context (checkedAddI64 merge.totalEditsAfter completed.edits)
    "external weekly output edit overflow"
  let batch ← merge.batch.push calendar wiki completed
  return { merge with
    batch := batch
    outputRows := merge.outputRows + 1
    totalEditsAfter := total
    minimumWeek := some (merge.minimumWeek.elim week (min · week))
    maximumWeek := some (merge.maximumWeek.elim week (max · week)) }

/-- One popped row, with `WEEKLY_EXTERNAL_BATCH_ROWS` a parameter. -/
def mergeRow (batchRows : ℕ) (merge : WeeklyMerge) (row : WeeklyContributionRow) :
    Except String WeeklyMerge :=
  match merge.current with
  | none => .ok { merge with current := some row }
  | some active =>
    if active.sameKey row then do
      let edits ← context (checkedAdd u32Max active.edits row.edits)
        "external weekly boundary edit overflow"
      return { merge with current := some { active with edits := edits } }
    else do
      let merge ← WeeklyMerge.complete calendar wiki { merge with current := some row } active
      return if batchRows ≤ merge.batch.rows.length then merge.flush else merge

/-- What is published, with the counts of the report. -/
structure WeeklyExternalReport where
  rows : List WeeklyOutputRow
  stagedRows : ℕ
  outputRows : ℕ
  totalEdits : ℤ
  minimumWeekStart : Option String
  maximumWeekStart : Option String

def finishMerge (stagedRows : ℕ) (totalEditsBefore : ℤ) (merge : WeeklyMerge) :
    Except String WeeklyExternalReport := do
  let completed ← context merge.current "external weekly merge produced no rows"
  let merge ← WeeklyMerge.complete calendar wiki merge completed
  let merge := merge.flush
  ensure (totalEditsBefore = merge.totalEditsAfter)
    "external weekly merge lost or duplicated edits"
  let writer ← context merge.writer "external weekly merge produced no output"
  return {
    rows := writer.flatten
    stagedRows := stagedRows
    outputRows := merge.outputRows
    totalEdits := merge.totalEditsAfter
    minimumWeekStart := merge.minimumWeek.bind (formatEpochDay calendar)
    maximumWeekStart := merge.maximumWeek.bind (formatEpochDay calendar) }

/-- The counts taken while the contributions are spilled. -/
def stageRun (counts : ℤ × ℕ) (run : List WeeklyRow) : Except String (ℤ × ℕ) := do
  let total ← context (checkedAddI64 counts.1 (sumEditsColumn run))
    "external weekly input edit overflow"
  let rows ← context (checkedAdd u64Max counts.2 run.length)
    "external weekly contribution row overflow"
  return (total, rows)

/-- Spill the contributions and merge them. -/
def mergeContributions (batchRows : ℕ) (contributions : List (List WeeklyRow)) :
    Except String WeeklyExternalReport := do
  let (totalEditsBefore, stagedRows) ← contributions.foldlM stageRun (0, 0)
  let runs ← contributions.mapM fun run => run.mapM readContribution
  let merge ← drain (fun a b => decide (a ≤ b))
    "weekly contribution run violates its logical order" true
    (mergeRow calendar wiki batchRows) runs {}
  finishMerge calendar wiki stagedRows totalEditsBefore merge

variable (order : RowOrder) (toDate : String → Option ℤ)

/-- The contribution of one month, which must account for all its rows. -/
def externalMonth (revisions : List Revision) : Except String (List WeeklyRow) := do
  let contribution ← monthContribution order toDate revisions
  let edits := sumEditsColumn contribution
  ensure (0 ≤ edits) "out of range integral type conversion attempted"
  ensure (edits = revisions.length) "external weekly month lost edits"
  return contribution

/-- `compute_page_weekly_external_qualification` over the months of a snapshot. -/
def computePageWeeklyExternalQualification (batchRows : ℕ) (months : List (List Revision)) :
    Except String WeeklyExternalReport := do
  ensure (months ≠ []) "external weekly qualification requires at least one input partition"
  let contributions ← months.mapM (externalMonth order toDate)
  mergeContributions calendar wiki batchRows contributions

end Merge

/-! ## What has been written -/

section Correct

variable {calendar : Calendar} {wiki : String}

/-- The test on the row pushed last is the test for the key right below. -/
theorem previousEdits_eq_lag (batch : WeeklyFinalBatch) (row : WeeklyContributionRow) :
    batch.previousEdits row
      = lag WeeklyRow.toWeeklyKey WeeklyKey.lastWeek WeeklyRow.edits
          (batch.previous.map WeeklyContributionRow.toWeeklyRow) row.toWeeklyRow := by
  unfold WeeklyFinalBatch.previousEdits
  cases batch.previous with
  | none => rfl
  | some p =>
    have hiff : (p.pageId = row.pageId ∧ p.pageNamespace = row.pageNamespace
        ∧ p.pageTitle = row.pageTitle ∧ checkedSubDays row.weekStart.day p.weekStart.day = some 7)
        ↔ row.key.lastWeek = some p.key := by
      rw [checkedSubDays_eq_seven]
      simp only [WeeklyContributionRow.key, WeeklyKey.lastWeek, Option.map_some,
        Option.some.injEq, WeeklyKey.mk.injEq, Monday.lastWeek,
        ← Monday.day_injective.eq_iff]
      constructor
      · rintro ⟨hid, hns, htitle, hweek⟩
        exact ⟨hid.symm, hns.symm, htitle.symm, by omega⟩
      · rintro ⟨hid, hns, htitle, hweek⟩
        exact ⟨hid.symm, hns.symm, htitle.symm, by omega⟩
    show (if _ then p.edits else 0)
      = if row.key.lastWeek = some p.key then p.edits else 0
    simp only [hiff]

/-- A representable week is pushed as the row beside the one before it. -/
theorem push_eq (batch : WeeklyFinalBatch) {row : WeeklyContributionRow}
    (hdate : (calendar.ofEpochDay row.weekStart.day).isSome) :
    batch.push calendar wiki row = .ok {
      rows := batch.rows ++ [lagRow calendar wiki
        (batch.previous.map WeeklyContributionRow.toWeeklyRow) row.toWeeklyRow]
      previous := some row } := by
  obtain ⟨date, hdate⟩ := Option.isSome_iff_exists.mp hdate
  have hweek : ensure (calendar.isoWeek date < 2 ^ 31)
      "out of range integral type conversion attempted" = .ok () := by
    rw [ensure_eq_ok]
    have := calendar.isoWeek_le date
    omega
  have hlast : lagRow calendar wiki (batch.previous.map WeeklyContributionRow.toWeeklyRow)
      row.toWeeklyRow = outputRow calendar wiki row.key row.edits (batch.previousEdits row) := by
    rw [previousEdits_eq_lag]
    rfl
  have hformat : context (formatEpochDay calendar row.weekStart.day)
      "weekly contribution date overflow" = .ok (calendar.format date) := by
    rw [context_eq_ok, formatEpochDay, hdate]
    rfl
  have hparse : context (calendar.parse (calendar.format date))
      "input contains invalid characters" = .ok date := by
    rw [context_eq_ok, calendar.parse_format]
  rw [WeeklyFinalBatch.push, hformat, hlast]
  show (context (calendar.parse (calendar.format date)) _ >>= _) = _
  rw [hparse]
  show (ensure _ _ >>= _) = _
  rw [hweek]
  simp only [outputRow, WeeklyContributionRow.key, Option.bind_some, hdate, Option.map_some]
  rfl

/-- The rows handed over so far, in the writer and in the batch. -/
def WeeklyMerge.written (merge : WeeklyMerge) : List WeeklyOutputRow :=
  (merge.writer.getD []).flatten ++ merge.batch.rows

variable (calendar wiki) in
/-- Exactly the rows of `done` have been handed over. -/
structure Emitted (merge : WeeklyMerge) (done : List WeeklyContributionRow) : Prop where
  written : merge.written
    = withPrevious (lagRow calendar wiki) none (done.map WeeklyContributionRow.toWeeklyRow)
  previous : merge.batch.previous = done.getLast?
  outputRows : merge.outputRows = done.length
  total : merge.totalEditsAfter = ((done.map WeeklyContributionRow.edits).sum : ℕ)

/-- Where a batch ends does not show in what was handed over. -/
theorem Emitted.flush {merge : WeeklyMerge} {done : List WeeklyContributionRow}
    (h : Emitted calendar wiki merge done) : Emitted calendar wiki merge.flush done where
  written := by
    rw [← h.written]
    simp [WeeklyMerge.written, WeeklyMerge.flush, WeeklyFinalBatch.takeFrame]
  previous := h.previous
  outputRows := h.outputRows
  total := h.total

/-- One finished row. -/
theorem Emitted.complete {merge : WeeklyMerge} {done : List WeeklyContributionRow}
    (h : Emitted calendar wiki merge done) {row : WeeklyContributionRow}
    (hdate : (calendar.ofEpochDay row.weekStart.day).isSome)
    (htotal : (((done ++ [row]).map WeeklyContributionRow.edits).sum : ℕ) ≤ i64Max) :
    ∃ next, merge.complete calendar wiki row = .ok next ∧
      Emitted calendar wiki next (done ++ [row]) ∧ next.current = merge.current := by
  have hsum : (((done ++ [row]).map WeeklyContributionRow.edits).sum : ℤ)
      = merge.totalEditsAfter + row.edits := by
    rw [h.total]
    simp
  have hadd : checkedAddI64 merge.totalEditsAfter row.edits
      = some (merge.totalEditsAfter + row.edits) := by
    refine checkedAddI64_eq_some.mpr ⟨⟨?_, ?_⟩, rfl⟩
    · rw [h.total]
      unfold i64Min
      omega
    · rw [← hsum]
      exact_mod_cast htotal
  have hcomplete : merge.complete calendar wiki row = .ok { merge with
      batch := {
        rows := merge.batch.rows ++ [lagRow calendar wiki
          (merge.batch.previous.map WeeklyContributionRow.toWeeklyRow) row.toWeeklyRow]
        previous := some row }
      outputRows := merge.outputRows + 1
      totalEditsAfter := merge.totalEditsAfter + row.edits
      minimumWeek := some (merge.minimumWeek.elim row.weekStart.day (min · row.weekStart.day))
      maximumWeek := some (merge.maximumWeek.elim row.weekStart.day (max · row.weekStart.day))
        } := by
    rw [WeeklyMerge.complete, hadd, push_eq merge.batch hdate]
    rfl
  refine ⟨_, hcomplete, ⟨?_, ?_, ?_, ?_⟩, rfl⟩
  · rw [List.map_append, List.map_singleton, withPrevious_append, ← h.written]
    simp [WeeklyMerge.written, h.previous, List.getLast?_map]
  · rw [List.getLast?_concat]
  · simp [h.outputRows]
  · rw [← hsum]

/-! ## The loop -/

/-- A later month's row of the same key. -/
def WeeklyContributionRow.combine (a b : WeeklyContributionRow) : WeeklyContributionRow :=
  { a with edits := a.edits + b.edits }

theorem WeeklyContributionRow.key_combine (a b : WeeklyContributionRow) :
    (a.combine b).key = a.key := rfl

theorem WeeklyContributionRow.edits_combine (a b : WeeklyContributionRow) :
    (a.combine b).edits = a.edits + b.edits := rfl

/-- The finished rows, from the row the loop is at. -/
def finishedRows (current : WeeklyContributionRow) (rows : List WeeklyContributionRow) :
    List WeeklyContributionRow :=
  coalesceFrom WeeklyContributionRow.key WeeklyContributionRow.combine current rows

theorem sum_finishedRows (current : WeeklyContributionRow) (rows : List WeeklyContributionRow) :
    ((finishedRows current rows).map WeeklyContributionRow.edits).sum
      = ((current :: rows).map WeeklyContributionRow.edits).sum := by
  induction rows generalizing current with
  | nil => rfl
  | cons row rows ih =>
    rw [finishedRows, coalesceFrom]
    split
    · rw [← finishedRows, ih]
      simp only [WeeklyContributionRow.edits_combine, List.map_cons, List.sum_cons]
      omega
    · rw [← finishedRows, List.map_cons, List.sum_cons, ih]
      rfl

/-- The edits of one key among rows. -/
def keyEdits (rows : List WeeklyContributionRow) (k : WeeklyKey) : ℕ :=
  ((rows.filter (·.key = k)).map WeeklyContributionRow.edits).sum

theorem keyEdits_combine (current row : WeeklyContributionRow) (rows : List WeeklyContributionRow)
    (h : current.key = row.key) (k : WeeklyKey) :
    keyEdits (current.combine row :: rows) k = keyEdits (current :: row :: rows) k := by
  by_cases hk : row.key = k
  · simp [keyEdits, WeeklyContributionRow.key_combine, WeeklyContributionRow.edits_combine, h, hk,
      Nat.add_assoc]
  · simp [keyEdits, WeeklyContributionRow.key_combine, h, hk]

theorem keyEdits_cons_le (row : WeeklyContributionRow) (rows : List WeeklyContributionRow)
    (k : WeeklyKey) : keyEdits rows k ≤ keyEdits (row :: rows) k := by
  by_cases hk : row.key = k
  · simp [keyEdits, hk]
  · simp [keyEdits, hk]

variable (calendar) in
/-- Rows the merge has no reason to reject. -/
structure Mergeable (rows : List WeeklyContributionRow) : Prop where
  dates : ∀ row ∈ rows, (calendar.ofEpochDay row.weekStart.day).isSome
  keyEdits_le : ∀ k, keyEdits rows k ≤ u32Max

/-- **The loop hands over the finished rows**, all but the last, which it is at. -/
theorem foldlM_mergeRow (batchRows : ℕ) :
    ∀ (rows : List WeeklyContributionRow) {merge : WeeklyMerge}
      {current : WeeklyContributionRow} {done : List WeeklyContributionRow},
      Emitted calendar wiki merge done → merge.current = some current →
      Mergeable calendar (current :: rows) →
      (((done ++ current :: rows).map WeeklyContributionRow.edits).sum : ℕ) ≤ i64Max →
      ∃ next init last, rows.foldlM (mergeRow calendar wiki batchRows) merge = .ok next ∧
        finishedRows current rows = init ++ [last] ∧
        Emitted calendar wiki next (done ++ init) ∧ next.current = some last ∧
        (calendar.ofEpochDay last.weekStart.day).isSome := by
  intro rows
  induction rows with
  | nil =>
    intro merge current done hemitted hcurrent hrows _
    refine ⟨merge, [], current, rfl, rfl, ?_, hcurrent, hrows.dates current (by simp)⟩
    rw [List.append_nil]
    exact hemitted
  | cons row rows ih =>
    intro merge current done hemitted hcurrent hrows htotal
    rw [List.foldlM_cons, mergeRow, hcurrent]
    by_cases hkey : current.key = row.key
    · -- the same key: the row at hand absorbs it
      have hle : current.edits + row.edits ≤ u32Max := by
        have := hrows.keyEdits_le row.key
        simp only [keyEdits, List.filter_cons, hkey, decide_true, if_true, List.map_cons,
          List.sum_cons] at this
        omega
      have hadd : checkedAdd u32Max current.edits row.edits = some (current.edits + row.edits) :=
        checkedAdd_eq_some.mpr ⟨hle, rfl⟩
      have hrows' : Mergeable calendar (current.combine row :: rows) := by
        constructor
        · intro r hr
          rcases List.mem_cons.mp hr with rfl | hr
          · exact hrows.dates current (by simp)
          · exact hrows.dates r (by simp [hr])
        · intro k
          rw [keyEdits_combine _ _ _ hkey]
          exact hrows.keyEdits_le k
      have hsum : ((done ++ current.combine row :: rows).map WeeklyContributionRow.edits).sum
          = ((done ++ current :: row :: rows).map WeeklyContributionRow.edits).sum := by
        simp only [WeeklyContributionRow.edits_combine, List.map_append, List.map_cons,
          List.sum_append, List.sum_cons]
        omega
      have hemitted' : Emitted calendar wiki { merge with current := some (current.combine row) }
          done := ⟨hemitted.written, hemitted.previous, hemitted.outputRows, hemitted.total⟩
      obtain ⟨next, init, last, hfold, hfinished, hrest⟩ :=
        ih hemitted' rfl hrows' (by rw [hsum]; exact htotal)
      refine ⟨next, init, last, ?_, ?_, hrest⟩
      · simp only [WeeklyContributionRow.sameKey_iff.mpr hkey, if_true, hadd]
        exact hfold
      · rw [finishedRows, coalesceFrom, if_pos hkey]
        exact hfinished
    · -- the next key: the row at hand is finished
      have hsame : current.sameKey row = false :=
        Bool.eq_false_iff.mpr fun h => hkey (WeeklyContributionRow.sameKey_iff.mp h)
      have hemitted' : Emitted calendar wiki { merge with current := some row } done :=
        ⟨hemitted.written, hemitted.previous, hemitted.outputRows, hemitted.total⟩
      have hlist : done ++ current :: row :: rows = (done ++ [current]) ++ row :: rows := by simp
      rw [hlist] at htotal
      -- What is finished so far stays within the total, so counting it does not overflow.
      have hprefix : (((done ++ [current]).map WeeklyContributionRow.edits).sum : ℕ) ≤ i64Max := by
        rw [List.map_append, List.sum_append] at htotal
        omega
      obtain ⟨finished, hcomplete, hfin, hcur⟩ :=
        hemitted'.complete (hrows.dates current (by simp)) hprefix
      have hrows' : Mergeable calendar (row :: rows) :=
        ⟨fun r hr => hrows.dates r (List.mem_cons_of_mem _ hr),
          fun k => le_trans (keyEdits_cons_le current _ k) (hrows.keyEdits_le k)⟩
      -- Whether the batch is flushed here or later makes no difference to what is emitted.
      have hflushed : Emitted calendar wiki
          (if batchRows ≤ finished.batch.rows.length then finished.flush else finished)
          (done ++ [current]) := by
        split
        · exact hfin.flush
        · exact hfin
      have hcur' : (if batchRows ≤ finished.batch.rows.length then finished.flush
          else finished).current = some row := by
        split
        · exact hcur
        · exact hcur
      obtain ⟨next, init, last, hfold, hfinished, hemit, hrest⟩ := ih hflushed hcur' hrows' htotal
      refine ⟨next, current :: init, last, ?_, ?_, ?_, hrest⟩
      · simp only [hsame, Bool.false_eq_true, if_false, hcomplete]
        exact hfold
      · rw [finishedRows, coalesceFrom, if_neg hkey, ← finishedRows, hfinished]
        rfl
      · rw [List.append_assoc] at hemit
        exact hemit

/-! ## The merged table -/

/-- The finished rows of a sorted list add its rows up. -/
theorem totals_finishedRows {current : WeeklyContributionRow} {rows : List WeeklyContributionRow}
    (hsorted : (current :: rows).Pairwise (· ≤ ·)) :
    Totals ((current :: rows).map WeeklyContributionRow.toWeeklyRow)
      ((finishedRows current rows).map WeeklyContributionRow.toWeeklyRow) := by
  have hkeys : (current :: rows).Pairwise (·.key ≤ ·.key) :=
    hsorted.imp WeeklyContributionRow.key_le
  constructor
  · rw [Reduced, List.pairwise_map]
    exact List.pairwise_map.mp (pairwise_coalesceFrom WeeklyContributionRow.key_combine hkeys)
  · intro k
    have hmem : k ∈ (finishedRows current rows).map WeeklyContributionRow.key ↔
        ∃ a ∈ current :: rows, a.key = k :=
      mem_map_coalesceFrom WeeklyContributionRow.key_combine
    rw [List.mem_map] at hmem
    simp only [List.mem_map, exists_exists_and_eq_and]
    exact hmem
  · intro a ha
    obtain ⟨g, hg, rfl⟩ := List.mem_map.mp ha
    have hweight : g.edits = keyEdits (current :: rows) g.key :=
      weight_coalesceFrom WeeklyContributionRow.key_combine (fun _ _ => rfl) hkeys hg
    rw [editsOf, List.filter_map, List.map_map]
    exact hweight

/-! ## The whole merge -/

/-- The contributions of typed runs. -/
def contributionsOf (runs : List (List WeeklyContributionRow)) : List (List WeeklyRow) :=
  runs.map fun run => run.map WeeklyContributionRow.toWeeklyRow

theorem flatten_contributionsOf (runs : List (List WeeklyContributionRow)) :
    (contributionsOf runs).flatten = runs.flatten.map WeeklyContributionRow.toWeeklyRow := by
  rw [contributionsOf, List.map_flatten]

/-- Typed runs are read back as they are. -/
theorem mapM_readContribution (runs : List (List WeeklyContributionRow)) :
    (contributionsOf runs).mapM (fun run => run.mapM readContribution) = .ok runs := by
  have hrun : ∀ run : List WeeklyContributionRow,
      (run.map WeeklyContributionRow.toWeeklyRow).mapM readContribution = .ok run := by
    intro run
    rw [List.mapM_map]
    exact (mapM_eq_ok fun row _ => readContribution_toWeeklyRow row).trans (by rw [List.map_id'])
  rw [contributionsOf, List.mapM_map]
  exact (mapM_eq_ok fun run _ => hrun run).trans (by rw [List.map_id'])

theorem sumEditsColumn_eq {rows : List WeeklyRow}
    (h : ((rows.map (·.edits)).sum : ℕ) ≤ i64Max) :
    sumEditsColumn rows = ((rows.map (·.edits)).sum : ℕ) :=
  wrapI64_of_le (by unfold i64Min; omega) h

/-- Counting in range succeeds. -/
theorem foldlM_stageRun : ∀ (contributions : List (List WeeklyRow)) (total rows : ℕ),
    ((total + (contributions.flatten.map (·.edits)).sum : ℕ) : ℤ) ≤ i64Max →
    rows + contributions.flatten.length ≤ u64Max →
    contributions.foldlM stageRun ((total : ℤ), rows)
      = .ok (((total + (contributions.flatten.map (·.edits)).sum : ℕ) : ℤ),
          rows + contributions.flatten.length) := by
  intro contributions
  induction contributions with
  | nil => intro total rows _ _; rfl
  | cons run contributions ih =>
    intro total rows htotal hrows
    rw [List.flatten_cons, List.map_append, List.sum_append] at htotal ⊢
    rw [List.flatten_cons] at hrows
    rw [List.length_append] at hrows ⊢
    have hsum : sumEditsColumn run = ((run.map (·.edits)).sum : ℕ) :=
      sumEditsColumn_eq (by omega)
    have hadd : checkedAddI64 total (sumEditsColumn run)
        = some ((total + (run.map (·.edits)).sum : ℕ) : ℤ) := by
      rw [hsum]
      refine checkedAddI64_eq_some.mpr ⟨⟨?_, ?_⟩, by omega⟩
      · unfold i64Min
        omega
      · omega
    have hlength : checkedAdd u64Max rows run.length = some (rows + run.length) :=
      checkedAdd_eq_some.mpr ⟨by omega, rfl⟩
    have hstep : stageRun ((total : ℤ), rows) run
        = .ok (((total + (run.map (·.edits)).sum : ℕ) : ℤ), rows + run.length) := by
      rw [stageRun]
      simp only [hadd, hlength]
      rfl
    rw [List.foldlM_cons, hstep]
    refine (ih _ _ (by omega) (by omega)).trans ?_
    rw [Nat.add_assoc, Nat.add_assoc]

/-- The end of the loop hands over the last row and publishes them all. -/
theorem finishMerge_eq (stagedRows : ℕ) {merge : WeeklyMerge} {init : List WeeklyContributionRow}
    {last : WeeklyContributionRow} (hemitted : Emitted calendar wiki merge init)
    (hcurrent : merge.current = some last)
    (hdate : (calendar.ofEpochDay last.weekStart.day).isSome)
    (htotal : (((init ++ [last]).map WeeklyContributionRow.edits).sum : ℕ) ≤ i64Max) :
    ∃ report,
      finishMerge calendar wiki stagedRows
        (((init ++ [last]).map WeeklyContributionRow.edits).sum : ℕ) merge = .ok report ∧
      report.rows = withPrevious (lagRow calendar wiki) none
        ((init ++ [last]).map WeeklyContributionRow.toWeeklyRow) ∧
      report.outputRows = (init ++ [last]).length ∧
      report.totalEdits = (((init ++ [last]).map WeeklyContributionRow.edits).sum : ℕ) := by
  obtain ⟨final, hcomplete, hfinal, -⟩ := hemitted.complete hdate htotal
  have hflush := hfinal.flush
  have hheld : final.flush.written = (final.flush.writer.getD []).flatten := by
    simp [WeeklyMerge.written, WeeklyMerge.flush, WeeklyFinalBatch.takeFrame]
  have hensure : ensure
      ((((init ++ [last]).map WeeklyContributionRow.edits).sum : ℕ) = final.flush.totalEditsAfter)
      "external weekly merge lost or duplicated edits" = .ok () :=
    ensure_eq_ok.mpr hflush.total.symm
  refine ⟨{
    rows := (final.flush.writer.getD []).flatten
    stagedRows := stagedRows
    outputRows := final.flush.outputRows
    totalEdits := final.flush.totalEditsAfter
    minimumWeekStart := final.flush.minimumWeek.bind (formatEpochDay calendar)
    maximumWeekStart := final.flush.maximumWeek.bind (formatEpochDay calendar) },
    ?_, hheld.symm.trans hflush.written, hflush.outputRows, hflush.total⟩
  rw [finishMerge, hcurrent]
  show (WeeklyMerge.complete calendar wiki merge last >>= _) = _
  rw [hcomplete]
  show (ensure _ _ >>= _) = _
  rw [hensure]
  rfl

/-- **The bounded merge publishes the table of its contributions**, with as many
rows as there are keys and all their edits, whatever the batch size. -/
theorem mergeContributions_eq (calendar : Calendar) (wiki : String) (batchRows : ℕ)
    (runs : List (List WeeklyContributionRow))
    (hruns : ∀ run ∈ runs, run.Pairwise (·.key < ·.key))
    (hkeys : ∀ k, editsOf (contributionsOf runs).flatten k ≤ u32Max)
    (hrows : (contributionsOf runs).flatten ≠ [])
    (hdates : ∀ row ∈ runs.flatten, (calendar.ofEpochDay row.weekStart.day).isSome)
    (hheight : (contributionsOf runs).flatten.length ≤ u64Max)
    (htotal : (((contributionsOf runs).flatten.map (·.edits)).sum : ℕ) ≤ i64Max) :
    ∃ report,
      mergeContributions calendar wiki batchRows (contributionsOf runs) = .ok report ∧
      report.rows = weeklyTable calendar wiki (contributionsOf runs).flatten ∧
      report.outputRows = (weeklyKeys (contributionsOf runs).flatten).length ∧
      report.totalEdits = (((contributionsOf runs).flatten.map (·.edits)).sum : ℕ) ∧
      ∀ row ∈ report.rows, row.wowChange = row.edits - row.previousWeekEdits ∧
        (row.wowRate = none ↔ row.previousWeekEdits = 0) := by
  have hchain : ∀ run ∈ runs, run.IsChain fun a b => decide (a ≤ b) = true := by
    intro run hrun
    refine List.Pairwise.isChain ((hruns run hrun).imp fun h => ?_)
    exact decide_eq_true (WeeklyContributionRow.le_of_key_lt h)
  -- The heap merge takes the rows in the order of the merged list.
  have hdrain := drain_eq_foldlM "weekly contribution run violates its logical order"
    (fun _ _ => of_decide_eq_true) true (mergeRow calendar wiki batchRows) runs {} hchain
  have hperm := merged_perm runs
  have hsorted := merged_pairwise runs
  -- Staging the runs only counts them, within the bounds.
  have hstage : (contributionsOf runs).foldlM stageRun (0, 0)
      = .ok ((((contributionsOf runs).flatten.map (·.edits)).sum : ℕ),
          (contributionsOf runs).flatten.length) := by
    have h := foldlM_stageRun (contributionsOf runs) 0 0 (by simpa using htotal)
      (by simpa using hheight)
    rwa [Nat.zero_add, Nat.zero_add] at h
  have hsum : ((merged runs).map WeeklyContributionRow.edits).sum
      = ((contributionsOf runs).flatten.map (·.edits)).sum := by
    rw [flatten_contributionsOf, List.map_map]
    exact (hperm.map _).sum_eq
  have htable : weeklyTable calendar wiki ((merged runs).map WeeklyContributionRow.toWeeklyRow)
      = weeklyTable calendar wiki (contributionsOf runs).flatten := by
    rw [flatten_contributionsOf]
    exact weeklyTable_congr calendar wiki (hperm.map _)
  have hmergeable : Mergeable calendar (merged runs) := by
    refine ⟨fun row hrow => hdates row (hperm.mem_iff.mp hrow), fun k => ?_⟩
    have hk := hkeys k
    rw [flatten_contributionsOf, editsOf, List.filter_map, List.map_map] at hk
    exact le_trans (le_of_eq ((hperm.filter _).map _).sum_eq) hk
  cases hmerged : merged runs with
  | nil =>
    rw [hmerged] at hperm
    rw [flatten_contributionsOf, List.nil_perm.mp hperm] at hrows
    exact absurd rfl hrows
  | cons current rest =>
    -- The first row opens the table; each further row is combined with it or finishes it.
    rw [hmerged] at hsorted hsum htable hmergeable
    have hempty : Emitted calendar wiki { current := some current } [] := ⟨rfl, rfl, rfl, rfl⟩
    obtain ⟨merge, init, last, hfold, hfinished, hemitted, hcurrent, hdate⟩ :=
      foldlM_mergeRow batchRows rest hempty rfl hmergeable (by
        rw [List.nil_append, hsum]
        exact htotal)
    have hfinishedSum : ((init ++ [last]).map WeeklyContributionRow.edits).sum
        = ((contributionsOf runs).flatten.map (·.edits)).sum := by
      rw [← hfinished, sum_finishedRows, hsum]
    -- The finished rows have the keys and totals of all rows, so they are the weekly table.
    have hreduced := totals_finishedRows hsorted
    rw [hfinished] at hreduced
    rw [List.nil_append] at hemitted
    obtain ⟨report, hreport, hpublished, houtput, hedits⟩ :=
      finishMerge_eq (contributionsOf runs).flatten.length hemitted hcurrent hdate (by
        rw [hfinishedSum]
        exact htotal)
    rw [hreduced.withPrevious_eq calendar wiki, htable] at hpublished
    rw [hfinishedSum] at hreport hedits
    refine ⟨report, ?_, hpublished, ?_, hedits, fun row hrow => wow_weeklyTable (hpublished ▸ hrow)⟩
    · rw [mergeContributions, hstage]
      show (((contributionsOf runs).mapM fun run => run.mapM readContribution) >>= _) = _
      rw [mapM_readContribution]
      show (drain _ _ _ _ runs _ >>= _) = _
      rw [hdrain, hmerged, List.foldlM_cons]
      show ((rest.foldlM _ _) >>= _) = _
      rw [hfold]
      exact hreport
    · have hkeys' : weeklyKeys (contributionsOf runs).flatten
          = ((init ++ [last]).map WeeklyContributionRow.toWeeklyRow).map WeeklyRow.toWeeklyKey := by
        rw [← hreduced.weeklyKeys_eq, weeklyKeys, weeklyKeys, flatten_contributionsOf, ← hmerged]
        exact (SortedTable.keys_congr (hperm.map _)).symm
      rw [houtput, hkeys', List.length_map, List.length_map]

end Correct

/-! ## A week that spans two months -/

/-- The last two weeks that start in January 2024. -/
def january2024 : Calendar where
  Date := Fin 2
  ofEpochDay day := if day = 19744 then some 0 else if day = 19751 then some 1 else none
  format date := if date = 0 then "2024-01-22" else "2024-01-29"
  parse text := if text = "2024-01-22" then some 0 else if text = "2024-01-29" then some 1 else none
  isoYear _ := 2024
  isoWeek date := if date = 0 then 4 else 5
  parse_format := by decide
  isoWeek_le := by decide

/-- One page: January ends and February begins within the same week. -/
def januaryFebruary : List (List WeeklyContributionRow) :=
  [[⟨some 1, some 0, some "Paris", .ofDay 19744, 3⟩,
    ⟨some 1, some 0, some "Paris", .ofDay 19751, 2⟩],
    [⟨some 1, some 0, some "Paris", .ofDay 19751, 5⟩]]

theorem mergeContributions_eq_january_february :
    ∃ report,
      mergeContributions january2024 "frwiki" 1 (contributionsOf januaryFebruary) = .ok report ∧
      report.rows.map (fun row => (row.edits, row.previousWeekEdits, row.wowChange))
        = [(3, 0, 3), (7, 3, 4)] := by
  obtain ⟨report, hreport, hrows, -⟩ :=
    mergeContributions_eq january2024 "frwiki" 1 januaryFebruary (by decide) (by
      intro k
      refine le_trans (List.Sublist.sum_le_sum (List.filter_sublist.map _) ?_) (b := 10) ?_
      all_goals decide) (by decide) (by decide) (by decide) (by decide)
  refine ⟨report, hreport, ?_⟩
  rw [hrows]
  decide

/-- Without a row the merge has no last one to finish, and says so. -/
theorem mergeContributions_nil_ne :
    ¬ ∃ report, mergeContributions january2024 "frwiki" 1 (contributionsOf [[], []]) = .ok report ∧
      report.rows = weeklyTable january2024 "frwiki" (contributionsOf [[], []]).flatten := by
  have herror : mergeContributions january2024 "frwiki" 1 (contributionsOf [[], []])
      = .error "external weekly merge produced no rows" := rfl
  rintro ⟨report, hreport, -⟩
  rw [herror] at hreport
  exact absurd hreport (by simp)

end WikiEcon.Compute.Weekly
