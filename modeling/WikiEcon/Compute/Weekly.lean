import Mathlib
import WikiEcon.Compute.Frames
import WikiEcon.Lib.KWayMerge
import WikiEcon.Lib.SortedTable

/-!
# Page weeks

`page_weekly_edits` counts the revisions of each page in each week and sets each
count beside the one of the week before. A month's revisions are first reduced to
a contribution: one row per page and week, with the number of revisions. A week
that spans two months has a row in both, so the contributions have to be added
up before the weeks are compared.

`weeklyTable` is what the table should say, read off the contributions in one
pass. Both ways of computing it, the bounded merge and the bucketed reduction,
are compared with it.
-/

namespace WikiEcon.Compute.Weekly

open Grouping KWayMerge

/-! ## Weeks and keys -/

/-- The start of a week, in days from 1970-01-01. That was a Thursday. -/
structure Monday where
  day : ℤ
  monday : day % 7 = 4

/-- `truncate("1w")`. -/
def Monday.ofDay (day : ℤ) : Monday := ⟨day - (day - 4) % 7, by omega⟩

def Monday.lastWeek (week : Monday) : Monday := ⟨week.day - 7, by have := week.monday; omega⟩

/-- `checked_sub` of two `i32` days. -/
def checkedSubDays (a b : ℤ) : Option ℤ :=
  if -2 ^ 31 ≤ a - b ∧ a - b < 2 ^ 31 then some (a - b) else none

theorem checkedSubDays_eq_seven {a b : ℤ} : checkedSubDays a b = some 7 ↔ a = b + 7 := by
  unfold checkedSubDays
  split
  · simp only [Option.some.injEq]
    omega
  · simp only [reduceCtorEq, false_iff]
    omega

theorem Monday.day_injective : Function.Injective Monday.day := by
  rintro ⟨a, ha⟩ ⟨b, hb⟩ h
  simp only at h
  subst h
  rfl

/-- What a contribution is grouped by. Revisions of suppressed or deleted pages
have no page identity; they make pages of their own. -/
structure WeeklyKey where
  pageId : Option ℤ
  pageNamespace : Option ℤ
  pageTitle : Option String
  weekStart : Option Monday

/-- The fields in turn, nulls first. -/
def WeeklyKey.orderKey (k : WeeklyKey) : WithBot ℤ ×ₗ WithBot ℤ ×ₗ WithBot String ×ₗ WithBot ℤ :=
  toLex (nullFirst k.pageId, toLex (nullFirst k.pageNamespace,
    toLex (nullFirst k.pageTitle, nullFirst (k.weekStart.map Monday.day))))

theorem WeeklyKey.orderKey_injective : Function.Injective WeeklyKey.orderKey := by
  intro a b h
  cases a
  cases b
  simp only [orderKey, toLex_inj, Prod.mk.injEq, nullFirst_inj] at h
  obtain ⟨rfl, rfl, rfl, hweek⟩ := h
  obtain rfl := Option.map_injective Monday.day_injective hweek
  rfl

instance : LinearOrder WeeklyKey :=
  LinearOrder.lift' WeeklyKey.orderKey WeeklyKey.orderKey_injective

theorem WeeklyKey.lt_iff {a b : WeeklyKey} : a < b ↔ a.orderKey < b.orderKey := Iff.rfl

/-- `same_page`: everything but the week. -/
def WeeklyKey.samePage (a b : WeeklyKey) : Bool :=
  a.pageId = b.pageId && a.pageNamespace = b.pageNamespace && a.pageTitle = b.pageTitle

/-- The same page a week earlier. -/
def WeeklyKey.lastWeek (k : WeeklyKey) : Option WeeklyKey :=
  k.weekStart.map fun week => { k with weekStart := some week.lastWeek }

/-- Between two keys that agree on the leading field lies nothing that does not. -/
theorem lex_squeeze {α : Type} [LinearOrder α] {x y : α} {low high : Prop}
    (hlow : x < y ∨ x = y ∧ low) (hhigh : y < x ∨ y = x ∧ high) : y = x ∧ low ∧ high := by
  rcases hlow with hlow | ⟨rfl, hlow⟩
  · rcases hhigh with hhigh | ⟨rfl, -⟩
    · exact absurd hlow (lt_asymm hhigh)
    · exact absurd hlow (lt_irrefl _)
  · exact ⟨rfl, hlow, (hhigh.resolve_left (lt_irrefl _)).2⟩

/-- Weeks being Mondays, the week before comes right before. -/
theorem WeeklyKey.lastWeek_covBy {k q : WeeklyKey} (h : k.lastWeek = some q) : q ⋖ k := by
  rcases k with ⟨id, ns, title, week⟩
  cases week with
  | none => exact absurd h (by simp [lastWeek])
  | some week =>
    obtain rfl := Option.some.inj h
    constructor
    · simp only [lt_iff, orderKey, Prod.Lex.toLex_lt_toLex, lt_self_iff_false, true_and, false_or]
      exact WithBot.coe_lt_coe.mpr (by simp only [Monday.lastWeek]; omega)
    · rintro ⟨id', ns', title', week'⟩ hlow hhigh
      simp only [lt_iff, orderKey, Prod.Lex.toLex_lt_toLex] at hlow hhigh
      -- squeezed between two keys of one page, a key is of that page
      obtain ⟨-, hlow, hhigh⟩ := lex_squeeze hlow hhigh
      obtain ⟨-, hlow, hhigh⟩ := lex_squeeze hlow hhigh
      obtain ⟨-, hlow, hhigh⟩ := lex_squeeze hlow hhigh
      cases week' with
      | none => exact absurd hlow (WithBot.not_lt_bot _)
      | some week' =>
        have hlow' := WithBot.coe_lt_coe.mp hlow
        have hhigh' := WithBot.coe_lt_coe.mp hhigh
        have hweek := week.monday
        have hweek' := week'.monday
        simp only [Monday.lastWeek] at hlow'
        omega

/-! ## Contributions -/

/-- A row of a contribution, and of what contributions add up to. -/
structure WeeklyRow extends WeeklyKey where
  edits : ℕ

/-- The largest row index Polars has, one below which its frames end. -/
def idxSizeMax : ℕ := u32Max

/-- A frame of contribution rows: no longer than Polars can index, its edit
counts `u32`. -/
structure WeeklyFrame where
  rows : List WeeklyRow
  height_le : rows.length ≤ idxSizeMax
  edits_le : ∀ row ∈ rows, row.edits ≤ u32Max

/-- The `i64` sum of the `edits` column. -/
def sumEditsColumn (rows : List WeeklyRow) : ℤ := wrapI64 ((rows.map (·.edits)).sum : ℕ)

/-- `checked_sum_i64`. -/
def checkedSumI64 (values : List ℤ) (label : String) : Except String ℤ :=
  values.foldlM (fun total value =>
    context (checkedAddI64 total value) (label ++ " overflow")) 0

/-- `checked_sum_usize`. -/
def checkedSumUsize (values : List ℕ) (label : String) : Except String ℕ :=
  values.foldlM (fun total value =>
    context (checkedAdd u64Max total value) (label ++ " overflow")) 0

/-- `sort_frame(_, weekly_sort_keys())`. The keys of a grouped frame differ, so
how the sort treats equal ones does not matter. -/
def sortByKey (rows : List WeeklyRow) : List WeeklyRow :=
  rows.insertionSort fun a b => a.toWeeklyKey ≤ b.toWeeklyKey

/-- The revisions of a month, as the warehouse holds them. -/
structure Revision where
  pageId : Option ℤ
  pageNamespace : Option ℤ
  pageTitle : Option String
  eventTimestamp : Option String

section Reduction

variable (order : RowOrder) (toDate : String → Option ℤ)

/-- The key a revision is counted under. A text that is no date is an error, a
missing one is a missing week. -/
def Revision.key (revision : Revision) : Except String WeeklyKey := do
  let week ← match revision.eventTimestamp with
    | none => pure none
    | some text => do
      let day ← context (toDate (String.ofList (text.toList.take 10)))
        "conversion from str to date failed"
      pure (some (Monday.ofDay day))
  return {
    pageId := revision.pageId
    pageNamespace := revision.pageNamespace
    pageTitle := revision.pageTitle
    weekStart := week }

/-- Reduce one month to its contribution. -/
def monthContribution (revisions : List Revision) : Except String (List WeeklyRow) := do
  let keys ← revisions.mapM (Revision.key toDate)
  return sortByKey (groupBy order id
    (fun key rows => { toWeeklyKey := key, edits := rows.length % (u32Max + 1) }) keys)

end Reduction

/-! ## Output rows -/

/-- What the date libraries are asked about a day. -/
structure Calendar where
  Date : Type
  ofEpochDay : ℤ → Option Date
  format : Date → String
  parse : String → Option Date
  isoYear : Date → ℤ
  isoWeek : Date → ℕ
  /-- What was formatted parses back. -/
  parse_format : ∀ date, parse (format date) = some date
  /-- No year has more ISO weeks. -/
  isoWeek_le : ∀ date, isoWeek date ≤ 53

/-- `format_epoch_day`. -/
def formatEpochDay (calendar : Calendar) (day : ℤ) : Option String :=
  (calendar.ofEpochDay day).map calendar.format

/-- A row of `page_weekly_edits`. -/
structure WeeklyOutputRow where
  weekStart : Option String
  isoYear : Option ℤ
  isoWeek : Option ℤ
  pageId : Option ℤ
  pageTitle : Option String
  pageNamespace : Option ℤ
  edits : ℕ
  previousWeekEdits : ℕ
  wowChange : ℤ
  wowRate : Option Float
  wiki : String

/-- `wow_rate`: null where there was nothing the week before. -/
def wowRate (change : ℤ) (previous : ℕ) : Option Float :=
  if previous ≠ 0 then some (Float.ofInt change / Float.ofNat previous) else none

/-- The row of a key, its edits and the edits of the week before. -/
def outputRow (calendar : Calendar) (wiki : String) (key : WeeklyKey) (edits previous : ℕ) :
    WeeklyOutputRow :=
  let date := key.weekStart.bind fun week => calendar.ofEpochDay week.day
  let change : ℤ := edits - previous
  { weekStart := date.map calendar.format
    isoYear := date.map calendar.isoYear
    isoWeek := date.map fun date => (calendar.isoWeek date : ℤ)
    pageId := key.pageId
    pageTitle := key.pageTitle
    pageNamespace := key.pageNamespace
    edits := edits
    previousWeekEdits := previous
    wowChange := change
    wowRate := wowRate change previous
    wiki := wiki }

/-! ## The table in one pass -/

/-- All edits under a key. -/
def editsOf (rows : List WeeklyRow) (k : WeeklyKey) : ℕ :=
  ((rows.filter (·.toWeeklyKey = k)).map (·.edits)).sum

/-- All edits of the same page the week before; none if it has no such row. -/
def previousEditsOf (rows : List WeeklyRow) (k : WeeklyKey) : ℕ :=
  (k.lastWeek.map (editsOf rows)).getD 0

/-- The keys of all rows, each once and in order. -/
def weeklyKeys (rows : List WeeklyRow) : List WeeklyKey :=
  SortedTable.keys WeeklyRow.toWeeklyKey rows

/-- **The table the contributions describe**: a row for each key, in order. -/
def weeklyTable (calendar : Calendar) (wiki : String) (rows : List WeeklyRow) :
    List WeeklyOutputRow :=
  (weeklyKeys rows).map fun k =>
    outputRow calendar wiki k (editsOf rows k) (previousEditsOf rows k)

theorem editsOf_congr {rows rows' : List WeeklyRow} (h : rows.Perm rows') (k : WeeklyKey) :
    editsOf rows k = editsOf rows' k :=
  ((h.filter _).map _).sum_eq

theorem weeklyTable_congr (calendar : Calendar) (wiki : String) {rows rows' : List WeeklyRow}
    (h : rows.Perm rows') : weeklyTable calendar wiki rows = weeklyTable calendar wiki rows' := by
  have hedits : editsOf rows = editsOf rows' := funext (editsOf_congr h)
  rw [weeklyTable, weeklyTable, weeklyKeys, weeklyKeys, SortedTable.keys_congr h]
  simp only [previousEditsOf, hedits]

/-- The change is the signed difference; the rate is null exactly where nothing precedes. -/
theorem wow_weeklyTable {calendar : Calendar} {wiki : String} {rows : List WeeklyRow}
    {row : WeeklyOutputRow} (h : row ∈ weeklyTable calendar wiki rows) :
    row.wowChange = row.edits - row.previousWeekEdits ∧
      (row.wowRate = none ↔ row.previousWeekEdits = 0) := by
  obtain ⟨k, -, rfl⟩ := List.mem_map.mp h
  refine ⟨rfl, ?_⟩
  show wowRate _ (previousEditsOf rows k) = none ↔ previousEditsOf rows k = 0
  unfold wowRate
  split
  next hne => simp [hne]
  next heq => simpa using heq

/-! ## Reduced tables -/

/-- Every key once, in order: what a reduction leaves. -/
def Reduced (rows : List WeeklyRow) : Prop :=
  rows.Pairwise (·.toWeeklyKey < ·.toWeeklyKey)

/-- `reduced` adds up `rows`. -/
structure Totals (rows reduced : List WeeklyRow) : Prop where
  sorted : Reduced reduced
  mem : ∀ k, (∃ a ∈ reduced, a.toWeeklyKey = k) ↔ ∃ a ∈ rows, a.toWeeklyKey = k
  edits : ∀ a ∈ reduced, a.edits = editsOf rows a.toWeeklyKey

/-- A row beside the one before it. -/
def lagRow (calendar : Calendar) (wiki : String) (previous : Option WeeklyRow) (row : WeeklyRow) :
    WeeklyOutputRow :=
  outputRow calendar wiki row.toWeeklyKey row.edits
    (SortedTable.lag WeeklyRow.toWeeklyKey WeeklyKey.lastWeek WeeklyRow.edits previous row)

theorem Totals.weeklyKeys_eq {rows reduced : List WeeklyRow} (h : Totals rows reduced) :
    weeklyKeys rows = reduced.map WeeklyRow.toWeeklyKey := by
  refine SortedTable.keys_eq (List.pairwise_map.mpr h.sorted) fun k => ?_
  rw [List.mem_map]
  exact h.mem k

/-- **Comparing neighbours of a reduced table gives the table of its rows.** -/
theorem Totals.withPrevious_eq {rows reduced : List WeeklyRow} (h : Totals rows reduced)
    (calendar : Calendar) (wiki : String) :
    SortedTable.withPrevious (lagRow calendar wiki) none reduced
      = weeklyTable calendar wiki rows := by
  have hlag := SortedTable.withPrevious_eq_map (fun _ _ => WeeklyKey.lastWeek_covBy)
    WeeklyRow.edits (fun row => outputRow calendar wiki row.toWeeklyKey row.edits) h.sorted
  have hnodup : (reduced.map WeeklyRow.toWeeklyKey).Nodup :=
    (List.pairwise_map.mpr h.sorted).imp fun h => ne_of_lt h
  rw [weeklyTable, h.weeklyKeys_eq, List.map_map]
  refine hlag.trans (List.map_congr_left fun a ha => ?_)
  simp only [Function.comp_def]
  rw [h.edits a ha, previousEditsOf]
  congr 1
  cases hlast : a.toWeeklyKey.lastWeek with
  | none => simp
  | some q =>
    simp only [Option.some.injEq, Option.map_some, Option.getD_some]
    -- the week before has one reduced row or none
    by_cases hq : ∃ b ∈ reduced, b.toWeeklyKey = q
    · obtain ⟨b, hb, rfl⟩ := hq
      simp only [eq_comm (a := b.toWeeklyKey)]
      rw [SortedTable.filter_key_eq_singleton WeeklyRow.toWeeklyKey hnodup hb, List.map_singleton,
        List.sum_singleton, h.edits b hb]
    · have hnone : reduced.filter (fun b => decide (q = b.toWeeklyKey)) = [] :=
        List.filter_eq_nil_iff.mpr fun b hb heq => hq ⟨b, hb, (of_decide_eq_true heq).symm⟩
      have hnone' : rows.filter (fun b => decide (b.toWeeklyKey = q)) = [] :=
        List.filter_eq_nil_iff.mpr fun b hb heq =>
          hq ((h.mem q).mpr ⟨b, hb, of_decide_eq_true heq⟩)
      rw [hnone, editsOf, hnone']

end WikiEcon.Compute.Weekly
