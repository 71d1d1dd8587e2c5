import Mathlib.Algebra.Order.BigOperators.Group.List
import Mathlib.Algebra.Order.Group.Nat
import Mathlib.Algebra.Order.Ring.Int
import Mathlib.Algebra.Order.Ring.Nat
import Mathlib.Data.String.Basic
import WikiEcon.Compute.Frames

/-!
# Activity tiers

`compute/activity`: editors are ranked by their edits in each month, quarter and
year, and each period gets a row for each user type and tier with the number of
editors and their edit and byte totals.

There are two paths from the editor-months to the rows. `activityTiersAllPeriods`
groups the concatenated frames once for each kind of period. `ActivityTierStream`
takes one month at a time and keeps a single accumulator row for each editor of
the current year, whose quarter columns are zeroed when a quarter ends.

`tiersForPeriod_eq` says what one call of the shared tier computation returns.
-/

namespace WikiEcon.Compute.Activity

/-! ## Editor-months -/

/-- The columns the activity metrics read. -/
structure RevisionRow where
  eventUserId : Option ℤ
  editorActor : Option String
  userType : Option String
  revisionId : Option ℤ
  revisionTextBytesDiff : Option Int64
  deriving DecidableEq

/-- `editor_identity_expr`. -/
structure Identity where
  eventUserId : Option ℤ
  editorActor : Option String
  deriving DecidableEq

def RevisionRow.identity (row : RevisionRow) : Identity where
  eventUserId := row.eventUserId
  editorActor := row.editorActor

/-- `editor_identity_available_expr`. -/
def RevisionRow.identityAvailable (row : RevisionRow) : Bool :=
  row.eventUserId.isSome || row.editorActor.any (· ≠ "")

/-- `user_type_rank_expr`. -/
def userTypeRank : Option String → ℕ
  | some "bot" => 3
  | some "temporary" => 2
  | some "anonymous" => 1
  | _ => 0

inductive UserType
  | bot
  | temporary
  | anonymous
  | registered
  deriving DecidableEq

def UserType.label : UserType → String
  | .bot => "bot"
  | .temporary => "temporary"
  | .anonymous => "anonymous"
  | .registered => "registered"

/-- `user_type_from_rank_expr`. -/
def userTypeFromRank : ℕ → UserType
  | 3 => .bot
  | 2 => .temporary
  | 1 => .anonymous
  | _ => .registered

/-- The largest of some ranks; a rank is never negative. -/
def maxRank (ranks : List ℕ) : ℕ := ranks.foldr max 0

/-- The largest of some month keys. -/
def maxKey (keys : List ℤ) : ℤ := keys.max?.getD 0

/-- The sum of a `u32` column. -/
def sumU32 (values : List ℕ) : ℕ := values.sum % (u32Max + 1)

/-- One editor's share of one month. The month's text column is left out: it is
carried along and never read. The byte columns are `i64` and wrap. -/
structure EditorMonth where
  yearMonthKey : ℤ
  identity : Identity
  userTypeRank : ℕ
  edits : ℕ
  netBytes : Int64
  grossBytes : Int64
  deriving DecidableEq

/-- `gdp_editor_month_frame_lazy` over the rows of one month. A row without a
revision id counts no edit but still belongs to its editor. -/
def editorMonthFrame (order : RowOrder) (yearMonthKey : ℤ) (base : List RevisionRow) :
    List EditorMonth :=
  groupBy order RevisionRow.identity (fun identity rows => {
      yearMonthKey := yearMonthKey
      identity := identity
      userTypeRank := maxRank (rows.map fun row => Activity.userTypeRank row.userType)
      edits := (rows.filterMap RevisionRow.revisionId).length % (u32Max + 1)
      netBytes := (rows.filterMap RevisionRow.revisionTextBytesDiff).sum
      grossBytes := ((rows.filterMap RevisionRow.revisionTextBytesDiff).filter (0 < ·)).sum })
    (base.filter RevisionRow.identityAvailable)

/-! ## Tiers of one kind of period -/

/-- A period's text and its first and last month. -/
def periodTexts (period : PeriodType) (key : ℤ) : String × String × String :=
  match period with
  | .month =>
    let text := zeroPad 4 (key.tdiv 100) ++ "-" ++ zeroPad 2 (key.tmod 100)
    (text, text, text)
  | .quarter =>
    let year := zeroPad 4 (key.tdiv 10)
    let firstMonth := (key.tmod 10 - 1) * 3 + 1
    (year ++ "-" ++ "Q" ++ zeroPad 0 (key.tmod 10), year ++ "-" ++ zeroPad 2 firstMonth,
      year ++ "-" ++ zeroPad 2 (firstMonth + 2))
  | .year => (zeroPad 4 key, zeroPad 4 key ++ "-01", zeroPad 4 key ++ "-12")

/-- `ActivityPeriod::fields`. -/
def periodFields (period : PeriodType) (key : ℤ) : Except String (String × String × String) := do
  match period with
  | .month =>
    ensure (1 ≤ key.tmod 100 ∧ key.tmod 100 ≤ 12) ("invalid activity month key " ++ toString key)
  | .quarter =>
    ensure (1 ≤ key.tmod 10 ∧ key.tmod 10 ≤ 4) ("invalid activity quarter key " ++ toString key)
  | .year => pure ()
  return periodTexts period key

def activityTierLabels (months : ℕ) : List String :=
  [if months = 1 then "1 edit" else "1-" ++ toString months ++ " edits",
    toString (months + 1) ++ "-" ++ toString (5 * months - 1) ++ " edits",
    toString (5 * months) ++ "-" ++ toString (25 * months - 1) ++ " edits",
    toString (25 * months) ++ "-" ++ toString (100 * months - 1) ++ " edits",
    toString (100 * months) ++ "+ edits"]

def tierRank (months edits : ℕ) : ℕ :=
  if edits ≤ months then 0
  else if edits < 5 * months then 1
  else if edits < 25 * months then 2
  else if edits < 100 * months then 3
  else 4

/-- One editor's share of one period. -/
structure EditorPeriod where
  periodKey : ℤ
  identity : Identity
  userTypeRank : ℕ
  edits : ℕ
  netBytes : Int64
  grossBytes : Int64
  deriving DecidableEq

/-- What the tier rows are grouped by. The label goes with the rank. -/
structure TierKey where
  periodKey : ℤ
  userType : UserType
  tierRank : ℕ
  activityTier : String
  deriving DecidableEq

structure TierGroup where
  key : TierKey
  editors : ℕ
  totalEdits : ℕ
  netBytes : Int64
  grossBytes : Int64
  deriving DecidableEq

structure TierRow where
  yearMonth : String
  period : String
  periodStart : String
  periodEnd : String
  periodType : String
  periodMonths : ℕ
  userType : UserType
  activityTier : String
  tierRank : ℕ
  editors : ℕ
  totalEdits : ℕ
  netBytes : Int64
  grossBytes : Int64
  deriving DecidableEq

/-- What `sort_frame` compares. -/
def TierRow.sortKey (row : TierRow) : String ×ₗ String ×ₗ ℕ :=
  toLex (row.period, toLex (row.userType.label, row.tierRank))

def EditorMonth.periodKey (period : PeriodType) (m : EditorMonth) : ℤ :=
  normalizePeriodKey m.yearMonthKey period

/-- The inner `group_by`: the rows of an editor in a period, added up. -/
def editorPeriod (key : ℤ × Identity) (rows : List EditorMonth) : EditorPeriod where
  periodKey := key.1
  identity := key.2
  userTypeRank := maxRank (rows.map EditorMonth.userTypeRank)
  edits := sumU32 (rows.map EditorMonth.edits)
  netBytes := (rows.map EditorMonth.netBytes).sum
  grossBytes := (rows.map EditorMonth.grossBytes).sum

def editorPeriods (order : RowOrder) (period : PeriodType) (rows : List EditorMonth) :
    List EditorPeriod :=
  groupBy order (fun m => (m.periodKey period, m.identity)) editorPeriod rows

def EditorPeriod.tierKey (period : PeriodType) (e : EditorPeriod) : TierKey where
  periodKey := e.periodKey
  userType := userTypeFromRank e.userTypeRank
  tierRank := Activity.tierRank (periodMonthsForType period) e.edits
  activityTier := (activityTierLabels (periodMonthsForType period)).getD
    (Activity.tierRank (periodMonthsForType period) e.edits) ""

/-- The outer `group_by`: the editors of a tier, counted and added up. -/
def tierGroup (key : TierKey) (rows : List EditorPeriod) : TierGroup where
  key := key
  editors := (rows.map EditorPeriod.identity).dedup.length
  totalEdits := sumU32 (rows.map EditorPeriod.edits)
  netBytes := (rows.map EditorPeriod.netBytes).sum
  grossBytes := (rows.map EditorPeriod.grossBytes).sum

def tierGroups (order : RowOrder) (period : PeriodType) (rows : List EditorPeriod) :
    List TierGroup :=
  groupBy order (EditorPeriod.tierKey period) tierGroup rows

/-- The period columns, in the column order of the output. -/
def tierRow (period : PeriodType) (texts : String × String × String) (g : TierGroup) : TierRow where
  yearMonth := texts.2.1
  period := texts.1
  periodStart := texts.2.1
  periodEnd := texts.2.2
  periodType := period.label
  periodMonths := periodMonthsForType period
  userType := g.key.userType
  activityTier := g.key.activityTier
  tierRank := g.key.tierRank
  editors := g.editors
  totalEdits := g.totalEdits
  netBytes := g.netBytes
  grossBytes := g.grossBytes

def conservationFailed (period : PeriodType) (input output : ℕ) : String :=
  period.label ++ " activity-tier edit conservation failed: input=" ++ toString input
    ++ ", output=" ++ toString output

/-- `gdp_activity_tiers_for_period_columns`, on the columns it was asked to read. -/
def gdpActivityTiersForPeriod (order : RowOrder) (editorMonths : List EditorMonth)
    (period : PeriodType) : Except String (List TierRow) := do
  let inputEdits := (editorMonths.map EditorMonth.edits).sum
  let groups := tierGroups order period
    (editorPeriods order period (editorMonths.filter (0 < ·.edits)))
  let outputEdits := (groups.map TierGroup.totalEdits).sum
  ensure (inputEdits = outputEdits) (conservationFailed period inputEdits outputEdits)
  let rows ← groups.mapM fun g => do
    let texts ← periodFields period g.key.periodKey
    return tierRow period texts g
  return rows.insertionSort fun a b => a.sortKey ≤ b.sortKey

/-- `finish_activity_year` and `activity_tiers_all_periods`: every period from the
concatenated frames. -/
def activityTiersAllPeriods (order : RowOrder) (frames : List (List EditorMonth)) :
    Except String (List TierRow) := do
  let editorMonths := concatFrames frames
  let monthly ← gdpActivityTiersForPeriod order editorMonths .month
  let quarterly ← gdpActivityTiersForPeriod order editorMonths .quarter
  let yearly ← gdpActivityTiersForPeriod order editorMonths .year
  return concatFrames [monthly, quarterly, yearly]

/-! ## The stream -/

/-- An editor's row in the shared accumulator. -/
structure AccumulatorRow where
  yearMonthKey : ℤ
  identity : Identity
  quarterUserTypeRank : ℕ
  quarterEdits : ℕ
  quarterNetBytes : Int64
  quarterGrossBytes : Int64
  yearUserTypeRank : ℕ
  yearEdits : ℕ
  yearNetBytes : Int64
  yearGrossBytes : Int64

/-- `QUARTER_ACTIVITY_TIER_COLUMNS`. -/
def AccumulatorRow.quarterColumns (row : AccumulatorRow) : EditorMonth where
  yearMonthKey := row.yearMonthKey
  identity := row.identity
  userTypeRank := row.quarterUserTypeRank
  edits := row.quarterEdits
  netBytes := row.quarterNetBytes
  grossBytes := row.quarterGrossBytes

/-- `YEAR_ACTIVITY_TIER_COLUMNS`. -/
def AccumulatorRow.yearColumns (row : AccumulatorRow) : EditorMonth where
  yearMonthKey := row.yearMonthKey
  identity := row.identity
  userTypeRank := row.yearUserTypeRank
  edits := row.yearEdits
  netBytes := row.yearNetBytes
  grossBytes := row.yearGrossBytes

/-- An editor-month as an accumulator row: it counts for its quarter and its year. -/
def AccumulatorRow.ofMonth (m : EditorMonth) : AccumulatorRow where
  yearMonthKey := m.yearMonthKey
  identity := m.identity
  quarterUserTypeRank := m.userTypeRank
  quarterEdits := m.edits
  quarterNetBytes := m.netBytes
  quarterGrossBytes := m.grossBytes
  yearUserTypeRank := m.userTypeRank
  yearEdits := m.edits
  yearNetBytes := m.netBytes
  yearGrossBytes := m.grossBytes

/-- The rows of one editor, reduced. -/
def AccumulatorRow.reduce (identity : Identity) (rows : List AccumulatorRow) :
    AccumulatorRow where
  yearMonthKey := maxKey (rows.map AccumulatorRow.yearMonthKey)
  identity := identity
  quarterUserTypeRank := maxRank (rows.map AccumulatorRow.quarterUserTypeRank)
  quarterEdits := sumU32 (rows.map AccumulatorRow.quarterEdits)
  quarterNetBytes := (rows.map AccumulatorRow.quarterNetBytes).sum
  quarterGrossBytes := (rows.map AccumulatorRow.quarterGrossBytes).sum
  yearUserTypeRank := maxRank (rows.map AccumulatorRow.yearUserTypeRank)
  yearEdits := sumU32 (rows.map AccumulatorRow.yearEdits)
  yearNetBytes := (rows.map AccumulatorRow.yearNetBytes).sum
  yearGrossBytes := (rows.map AccumulatorRow.yearGrossBytes).sum

def mergeActivityAccumulator (order : RowOrder) (accumulator : Option (List AccumulatorRow))
    (editorMonth : List EditorMonth) : List AccumulatorRow :=
  let editorMonth := editorMonth.map AccumulatorRow.ofMonth
  match accumulator with
  | none => editorMonth
  | some accumulator =>
    groupBy order AccumulatorRow.identity AccumulatorRow.reduce
      (concatFrames [accumulator, editorMonth])

/-- The row once its quarter is out. -/
def AccumulatorRow.zeroQuarter (row : AccumulatorRow) : AccumulatorRow :=
  { row with
    quarterUserTypeRank := 0
    quarterEdits := 0
    quarterNetBytes := 0
    quarterGrossBytes := 0 }

structure ActivityTierStream where
  accumulator : Option (List AccumulatorRow) := none
  currentQuarterKey : Option ℤ := none
  currentYear : Option ℤ := none

/-- The stream and the frames it has put out. -/
abbrev StreamState : Type := ActivityTierStream × List (List TierRow)

section Stream

variable (order : RowOrder)

def finishQuarter : StreamState → Except String StreamState
  | (stream, output) =>
    match stream.accumulator with
    | none => .ok (stream, output)
    | some accumulator => do
      let tiers ← gdpActivityTiersForPeriod order
        (accumulator.map AccumulatorRow.quarterColumns) .quarter
      return ({ stream with accumulator := some (accumulator.map AccumulatorRow.zeroQuarter) },
        output ++ [tiers])

def finishYear : StreamState → Except String StreamState
  | (stream, output) =>
    match stream.accumulator with
    | none => .ok (stream, output)
    | some accumulator => do
      let tiers ← gdpActivityTiersForPeriod order
        (accumulator.map AccumulatorRow.yearColumns) .year
      return ({ stream with accumulator := none }, output ++ [tiers])

def finish (st : StreamState) : Except String StreamState := do
  let st ← finishQuarter order st
  let (stream, output) ← finishYear order st
  return ({ stream with currentQuarterKey := none, currentYear := none }, output)

/-- Close what the new month does not belong to. -/
def closePast (year quarterKey : ℤ) (st : StreamState) : Except String StreamState :=
  if st.1.currentYear.any (· ≠ year) then finish order st
  else if st.1.currentQuarterKey.any (· ≠ quarterKey) then do
    let (stream, output) ← finishQuarter order st
    return ({ stream with currentQuarterKey := none }, output)
  else .ok st

/-- A quarter ends with its third month. -/
def closeQuarter (month : ℤ) (st : StreamState) : Except String StreamState :=
  if month.tmod 3 = 0 then do
    let (stream, output) ← finishQuarter order st
    return ({ stream with currentQuarterKey := none }, output)
  else .ok st

/-- A year ends with December. -/
def closeYear (month : ℤ) (st : StreamState) : Except String StreamState :=
  if month = 12 then do
    let (stream, output) ← finishYear order st
    return ({ stream with currentYear := none }, output)
  else .ok st

/-- Put the month's rows into the accumulator; an empty month leaves it alone. -/
def absorbMonth (editorMonth : List EditorMonth) (stream : ActivityTierStream) :
    ActivityTierStream :=
  if editorMonth.length > 0 then
    { stream with
      accumulator := some (mergeActivityAccumulator order stream.accumulator editorMonth) }
  else stream

def pushMonth (st : StreamState) (editorMonth : List EditorMonth) (yearMonthKey : ℤ) :
    Except String StreamState := do
  let year := yearMonthKey.tdiv 100
  let month := yearMonthKey.tmod 100
  ensure (1 ≤ month ∧ month ≤ 12) ("invalid activity month key " ++ toString yearMonthKey)
  let quarterKey := year * 10 + (month - 1).tdiv 3 + 1
  let (stream, output) ← closePast order year quarterKey st
  let stream := { stream with currentYear := some year, currentQuarterKey := some quarterKey }
  let monthlyTiers ← gdpActivityTiersForPeriod order editorMonth .month
  let st ← closeQuarter order month (absorbMonth order editorMonth stream, output ++ [monthlyTiers])
  closeYear order month st

/-- Push every month and finish. -/
def streamActivityTiers (months : List (ℤ × List EditorMonth)) : Except String (List TierRow) := do
  let st ← months.foldlM (fun st (yearMonthKey, editorMonth) =>
    pushMonth order st editorMonth yearMonthKey) (({}, []) : StreamState)
  let (_, output) ← finish order st
  return concatFrames output

end Stream

/-! ## Period keys name periods -/

/-- The numbers in a month's period keys. -/
theorem key_digits (m : YearMonth) :
    (m.key.tdiv 100 = m.year ∧ m.key.tmod 100 = m.month) ∧
      (normalizePeriodKey m.key .quarter).tdiv 10 = m.year ∧
      (normalizePeriodKey m.key .quarter).tmod 10 = (((m.month - 1) / 3 + 1 : ℕ) : ℤ) := by
  have h1 := m.month_pos
  have h2 := m.month_le
  have hq := (normalizePeriodKey_key m).1
  have hnonneg : 0 ≤ m.key := by simp only [YearMonth.key]; omega
  have hnonneg' : 0 ≤ normalizePeriodKey m.key .quarter := by rw [hq]; omega
  rw [Int.tdiv_eq_ediv_of_nonneg hnonneg, Int.tmod_eq_emod_of_nonneg hnonneg,
    Int.tdiv_eq_ediv_of_nonneg hnonneg', Int.tmod_eq_emod_of_nonneg hnonneg', hq]
  simp only [YearMonth.key]
  omega

theorem periodFields_eq (period : PeriodType) (m : YearMonth) :
    periodFields period (normalizePeriodKey m.key period)
      = .ok (periodTexts period (normalizePeriodKey m.key period)) := by
  have h1 := m.month_pos
  have h2 := m.month_le
  obtain ⟨⟨-, hmonth⟩, -, hquarter⟩ := key_digits m
  cases period with
  | month =>
    have hrange : 1 ≤ (normalizePeriodKey m.key .month).tmod 100 ∧
        (normalizePeriodKey m.key .month).tmod 100 ≤ 12 := by
      show 1 ≤ m.key.tmod 100 ∧ m.key.tmod 100 ≤ 12
      rw [hmonth]
      omega
    rw [periodFields, (ensure_eq_ok (u := ())).mpr hrange]
    rfl
  | quarter =>
    have hrange : 1 ≤ (normalizePeriodKey m.key .quarter).tmod 10 ∧
        (normalizePeriodKey m.key .quarter).tmod 10 ≤ 4 := by
      rw [hquarter]
      omega
    rw [periodFields, (ensure_eq_ok (u := ())).mpr hrange]
    rfl
  | year => rfl

/-- Different periods have different texts. -/
theorem periodTexts_inj {period : PeriodType} {a b : YearMonth}
    (h : (periodTexts period (normalizePeriodKey a.key period)).1
      = (periodTexts period (normalizePeriodKey b.key period)).1) :
    normalizePeriodKey a.key period = normalizePeriodKey b.key period := by
  obtain ⟨⟨hyear, hmonth⟩, hqyear, hquarter⟩ := key_digits a
  obtain ⟨⟨hyear', hmonth'⟩, hqyear', hquarter'⟩ := key_digits b
  cases period with
  | month =>
    simp only [periodTexts, normalizePeriodKey, hyear, hmonth, hyear', hmonth'] at h
    have htext : zeroPad 4 a.year ++ "-" ++ "" ++ zeroPad 2 a.month
        = zeroPad 4 b.year ++ "-" ++ "" ++ zeroPad 2 b.month := by
      simpa only [String.append_empty] using h
    obtain ⟨hy, hm⟩ := zeroPad_dash_inj (by simp) htext
    show a.key = b.key
    rw [YearMonth.key, YearMonth.key, hy, hm]
  | quarter =>
    simp only [periodTexts, hqyear, hquarter, hqyear', hquarter'] at h
    obtain ⟨hy, hq⟩ := zeroPad_dash_inj (by decide) h
    have ha := a.month_pos
    have hb := b.month_pos
    rw [(normalizePeriodKey_key a).1, (normalizePeriodKey_key b).1, hy]
    omega
  | year =>
    simp only [periodTexts, (normalizePeriodKey_key a).2, (normalizePeriodKey_key b).2] at h
    rw [(normalizePeriodKey_key a).2, (normalizePeriodKey_key b).2, zeroPad_inj h]

/-! ## One call of the tier computation -/

/-- The row's key is a month's. -/
def EditorMonth.Valid (m : EditorMonth) : Prop := ∃ month : YearMonth, m.yearMonthKey = month.key

/-- The editor-months that count an edit. -/
def activeMonths (rows : List EditorMonth) : List EditorMonth := rows.filter (0 < ·.edits)

/-- The tier rows of some editor-periods. -/
def tierRows (period : PeriodType) (rows : List EditorPeriod) : List TierRow :=
  (tierGroups .asComputed period rows).map fun g =>
    tierRow period (periodTexts period g.key.periodKey) g

/-- The edits of the tier rows. -/
def tierEdits (period : PeriodType) (rows : List EditorPeriod) : ℕ :=
  ((tierGroups .asComputed period rows).map TierGroup.totalEdits).sum

theorem maxRank_congr {l l' : List ℕ} (h : l.Perm l') : maxRank l = maxRank l' :=
  h.foldr_eq' (fun a _ b _ c => max_left_comm b a c) 0

theorem sumU32_congr {l l' : List ℕ} (h : l.Perm l') : sumU32 l = sumU32 l' := by
  rw [sumU32, sumU32, h.sum_nat]

theorem editorPeriod_congr (key : ℤ × Identity) {rows rows' : List EditorMonth}
    (h : rows.Perm rows') : editorPeriod key rows = editorPeriod key rows' := by
  simp only [editorPeriod, maxRank_congr (h.map _), sumU32_congr (h.map _), (h.map _).sum_eq]

theorem tierGroup_congr (key : TierKey) {rows rows' : List EditorPeriod} (h : rows.Perm rows') :
    tierGroup key rows = tierGroup key rows' := by
  simp only [tierGroup, ((h.map _).dedup).length_eq, sumU32_congr (h.map _), (h.map _).sum_eq]

theorem editorPeriods_congr (order order' : RowOrder) (period : PeriodType)
    {rows rows' : List EditorMonth} (h : rows.Perm rows') :
    (editorPeriods order period rows).Perm (editorPeriods order' period rows') :=
  groupBy_congr order order' h fun key {_ _} => editorPeriod_congr key

theorem tierGroups_congr (order order' : RowOrder) (period : PeriodType)
    {rows rows' : List EditorPeriod} (h : rows.Perm rows') :
    (tierGroups order period rows).Perm (tierGroups order' period rows') :=
  groupBy_congr order order' h fun key {_ _} => tierGroup_congr key

theorem tierRows_congr (period : PeriodType) {rows rows' : List EditorPeriod}
    (h : rows.Perm rows') : (tierRows period rows).Perm (tierRows period rows') :=
  (tierGroups_congr _ _ period h).map _

theorem tierEdits_congr (period : PeriodType) {rows rows' : List EditorPeriod}
    (h : rows.Perm rows') : tierEdits period rows = tierEdits period rows' :=
  ((tierGroups_congr _ _ period h).map _).sum_nat

/-- An editor-period has the period of one of its rows. -/
theorem mem_editorPeriods {order : RowOrder} {period : PeriodType} {rows : List EditorMonth}
    {e : EditorPeriod} (h : e ∈ editorPeriods order period rows) :
    ∃ m ∈ rows, e.periodKey = m.periodKey period ∧ e.identity = m.identity := by
  obtain ⟨key, hkey, rfl⟩ := List.mem_map.mp ((groupBy_perm order ..).mem_iff.mp h)
  obtain ⟨m, hm, rfl⟩ := List.mem_map.mp (List.mem_dedup.mp hkey)
  exact ⟨m, hm, rfl, rfl⟩

theorem mem_tierGroups {order : RowOrder} {period : PeriodType} {rows : List EditorPeriod}
    {g : TierGroup} (h : g ∈ tierGroups order period rows) :
    ∃ e ∈ rows, g.key = e.tierKey period := by
  obtain ⟨key, hkey, rfl⟩ := List.mem_map.mp ((groupBy_perm order ..).mem_iff.mp h)
  obtain ⟨e, he, rfl⟩ := List.mem_map.mp (List.mem_dedup.mp hkey)
  exact ⟨e, he, rfl⟩

/-- What one call returns: the tier rows, if no total left the range of a `u32`. -/
theorem gdpActivityTiersForPeriod_eq (order : RowOrder) (period : PeriodType)
    {frame : List EditorMonth} (hvalid : ∀ m ∈ frame, m.Valid) :
    let periods := editorPeriods .asComputed period (activeMonths frame)
    ∃ rows, rows.Perm (tierRows period periods) ∧
      gdpActivityTiersForPeriod order frame period
        = if (frame.map EditorMonth.edits).sum = tierEdits period periods then .ok rows
          else .error (conservationFailed period (frame.map EditorMonth.edits).sum
            (tierEdits period periods)) := by
  intro periods
  let groups := tierGroups order period (editorPeriods order period (activeMonths frame))
  have hgroups : groups.Perm (tierGroups .asComputed period periods) :=
    tierGroups_congr _ _ period (editorPeriods_congr _ _ period (List.Perm.refl _))
  have hedits : (groups.map TierGroup.totalEdits).sum = tierEdits period periods :=
    (hgroups.map _).sum_nat
  have hrows : groups.mapM (fun g => do
        let texts ← periodFields period g.key.periodKey
        return tierRow period texts g)
      = .ok (groups.map fun g => tierRow period (periodTexts period g.key.periodKey) g) := by
    refine mapM_eq_ok fun g hg => ?_
    obtain ⟨e, he, hkey⟩ := mem_tierGroups hg
    obtain ⟨m, hm, hperiod, -⟩ := mem_editorPeriods he
    obtain ⟨month, hmonth⟩ := hvalid m (List.mem_filter.mp hm).1
    have hname : g.key.periodKey = normalizePeriodKey month.key period := by
      rw [hkey, EditorPeriod.tierKey, hperiod, EditorMonth.periodKey, hmonth]
    rw [hname, periodFields_eq]
    rfl
  let rows := (groups.map fun g => tierRow period (periodTexts period g.key.periodKey) g)
  refine ⟨rows.insertionSort fun a b => a.sortKey ≤ b.sortKey, ?_, ?_⟩
  · exact (List.perm_insertionSort _ _).trans (hgroups.map _)
  · show (ensure ((frame.map EditorMonth.edits).sum = (groups.map TierGroup.totalEdits).sum)
      (conservationFailed period _ (groups.map TierGroup.totalEdits).sum) >>= fun _ =>
        groups.mapM _ >>= _) = _
    rw [hedits, hrows, ensure]
    split
    · rfl
    · rfl

/-! ## Totals that stay in range -/

theorem sumU32_le (values : List ℕ) : sumU32 values ≤ values.sum := Nat.mod_le _ _

theorem sumU32_of_le {values : List ℕ} (h : values.sum ≤ u32Max) :
    sumU32 values = values.sum :=
  Nat.mod_eq_of_lt (by omega)

/-- A sum that wrapping leaves alone wraps nowhere. -/
theorem eq_of_sum_eq {α : Type} {f g : α → ℕ} {l : List α} (hle : ∀ a ∈ l, f a ≤ g a)
    (hsum : (l.map f).sum = (l.map g).sum) : ∀ a ∈ l, f a = g a := by
  induction l with
  | nil => intro a ha; exact absurd ha List.not_mem_nil
  | cons a l ih =>
    have hhead := hle a (List.mem_cons_self ..)
    have htail : (l.map f).sum ≤ (l.map g).sum :=
      List.sum_le_sum fun b hb => hle b (List.mem_cons_of_mem _ hb)
    rw [List.map_cons, List.map_cons, List.sum_cons, List.sum_cons] at hsum
    intro b hb
    rcases List.mem_cons.mp hb with rfl | hb
    · omega
    · exact ih (fun c hc => hle c (List.mem_cons_of_mem _ hc)) (by omega) b hb

/-- Tier totals never exceed what went in. -/
theorem tierEdits_le (period : PeriodType) (rows : List EditorPeriod) :
    tierEdits period rows ≤ (rows.map EditorPeriod.edits).sum := by
  rw [← sum_groups (EditorPeriod.tierKey period) EditorPeriod.edits rows, tierEdits, tierGroups,
    groupBy, RowOrder.asComputed, List.map_map]
  exact List.sum_le_sum fun key _ => sumU32_le _

end WikiEcon.Compute.Activity
