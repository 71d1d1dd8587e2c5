import Mathlib.Algebra.BigOperators.Ring.Finset
import Mathlib.Data.List.Lex
import Mathlib.Data.Rat.Floor
import Mathlib.Order.Bounds.Basic
import WikiEcon.Compute.Activity
import WikiEcon.Lib.Concentration

/-!
# How unequally editing is shared

`compute/monthly/inequality.rs`: editor-months are added up to editors of a month, a quarter
or a year, the editors of a period are grouped by their user type, and each group is a row of
measures. A year is computed when its last month is there, and may come from a cache.

Sums and quotients are rational and the logarithm is a parameter. The months of the frame are
well formed, as the months of partitions are.

`inequality_exact` says what the rows are and that years may be computed one by one.
-/

namespace WikiEcon.Compute.Inequality

open Activity (Identity userTypeFromRank maxRank sumU32 periodFields periodTexts)
open Grouping (foldBy)

/-! ## Measures -/

/-- Of values in ascending order. -/
def giniFromSorted (values : List ℚ) : ℚ :=
  let n : ℚ := values.length
  if values.length < 2 then 0
  else
    let total := values.sum
    if total = 0 then 0
    else
      let weightedSum := (values.zipIdx.map fun entry => ((entry.2 : ℚ) + 1) * entry.1).sum
      2 * weightedSum / (n * total) - (n + 1) / n

def theilFromValues (ln : ℚ → ℚ) (values : List ℚ) : ℚ :=
  let n : ℚ := values.length
  if n < 2 then 0
  else
    let mean := values.sum / n
    if mean = 0 then 0
    else ((values.filter (0 < ·)).map fun v => v / mean * ln (v / mean)).sum / n

/-- The top is infinity. -/
def palmaFromSorted (values : List ℚ) : WithTop ℚ :=
  let n := values.length
  if n < 10 then ((0 : ℚ) : WithTop ℚ)
  else if values.sum = 0 then ((0 : ℚ) : WithTop ℚ)
  else
    let bottom40End := 4 * n / 10
    let top10Start := n - n / 10
    let bottom40 := (values.take bottom40End).sum
    let top10 := (values.drop top10Start).sum
    if bottom40 = 0 then ⊤ else ((top10 / bottom40 : ℚ) : WithTop ℚ)

/-- The loop of `min_editors_50pct`, `i` values in. -/
def minEditorsFrom (total : ℚ) : ℚ → ℕ → List ℚ → ℕ
  | _, i, [] => i
  | cumsum, i, v :: rest =>
    if total * (1 / 2) ≤ cumsum + v then i + 1 else minEditorsFrom total (cumsum + v) (i + 1) rest

/-- Of values in descending order. -/
def minEditors50pct (sortedDesc : List ℚ) : ℕ :=
  if sortedDesc.sum = 0 then 0 else minEditorsFrom sortedDesc.sum 0 0 sortedDesc

/-! ## Frames -/

/-- One editor's share of one month, with the columns that are read. -/
structure EditorMonth where
  yearMonth : YearMonth
  identity : Identity
  userTypeRank : ℕ
  edits : ℕ
  deriving DecidableEq

/-- One editor's share of one period. -/
structure EditorPeriod where
  periodKey : ℤ
  identity : Identity
  userTypeRank : ℕ
  edits : ℕ
  deriving DecidableEq

structure InequalityRow where
  yearMonth : String
  period : String
  periodStart : String
  periodEnd : String
  periodType : String
  periodMonths : ℕ
  userType : String
  gini : ℚ
  theil : ℚ
  palma : WithTop ℚ
  minEditors50pct : ℕ
  totalEditors : ℕ
  totalEdits : ℕ
  deriving DecidableEq

/-- What a period and an editor are told by. -/
def EditorMonth.key (period : PeriodType) (m : EditorMonth) : ℤ × Identity :=
  (normalizePeriodKey m.yearMonth.key period, m.identity)

def editorPeriod (key : ℤ × Identity) (rows : List EditorMonth) : EditorPeriod where
  periodKey := key.1
  identity := key.2
  userTypeRank := maxRank (rows.map EditorMonth.userTypeRank)
  edits := sumU32 (rows.map EditorMonth.edits)

def editorPeriods (order : RowOrder) (period : PeriodType) (rows : List EditorMonth) :
    List EditorPeriod :=
  groupBy order (EditorMonth.key period) editorPeriod rows

/-- The key of the map, compared field by field. -/
def EditorPeriod.groupKey (e : EditorPeriod) : ℤ ×ₗ String :=
  toLex (e.periodKey, (userTypeFromRank e.userTypeRank).label)

/-- `u32::try_from`. -/
def u32TryFrom (n : ℕ) : Except String ℕ := do
  ensure (n ≤ u32Max) "out of range integral type conversion attempted"
  return n

/-- The body of the loop over the groups. -/
def groupRow (ln : ℚ → ℚ) (period : PeriodType) (group : (ℤ ×ₗ String) × List ℚ) :
    Except String InequalityRow := do
  let values := group.2.insertionSort (· ≤ ·)
  let sortedDesc := values.reverse
  let texts ← periodFields period (ofLex group.1).1
  let fragility ← u32TryFrom (minEditors50pct sortedDesc)
  let totalEditors ← u32TryFrom sortedDesc.length
  ensure (⌊sortedDesc.sum⌋₊ ≤ u32Max)
    (period.label ++ " inequality edit total exceeds u32")
  return {
    yearMonth := texts.2.1
    period := texts.1
    periodStart := texts.2.1
    periodEnd := texts.2.2
    periodType := period.label
    periodMonths := periodMonthsForType period
    userType := (ofLex group.1).2
    gini := giniFromSorted values
    theil := theilFromValues ln values
    palma := palmaFromSorted values
    minEditors50pct := fragility
    totalEditors := totalEditors
    totalEdits := ⌊sortedDesc.sum⌋₊ }

def rowsFromEditorPeriod (ln : ℚ → ℚ) (rows : List EditorPeriod) (period : PeriodType) :
    Except String (List InequalityRow) :=
  (foldBy EditorPeriod.groupKey (fun entry e => entry.getD [] ++ [(e.edits : ℚ)]) rows).toList.mapM
    (groupRow ln period)

def computePeriodFrame (ln : ℚ → ℚ) (order : RowOrder) (editorMonthly : List EditorMonth)
    (period : PeriodType) : Except String (List InequalityRow) := do
  let inputEdits := (editorMonthly.map EditorMonth.edits).sum
  let resultRows ← rowsFromEditorPeriod ln (editorPeriods order period editorMonthly) period
  let outputEdits := (resultRows.map InequalityRow.totalEdits).sum
  ensure (inputEdits = outputEdits)
    (period.label ++ " inequality edit conservation failed: input=" ++ toString inputEdits
      ++ ", output=" ++ toString outputEdits)
  return resultRows

/-- What the frame is sorted by. -/
def InequalityRow.sortKey (row : InequalityRow) : String ×ₗ String ×ₗ String :=
  toLex (row.period, toLex (row.periodType, row.userType))

def computePeriods (ln : ℚ → ℚ) (order : RowOrder) (editorMonthly : List EditorMonth) :
    Except String (List InequalityRow) := do
  let monthly ← computePeriodFrame ln order editorMonthly .month
  let quarterly ← computePeriodFrame ln order editorMonthly .quarter
  let yearly ← computePeriodFrame ln order editorMonthly .year
  return (concatFrames [monthly, quarterly, yearly]).insertionSort fun a b => a.sortKey ≤ b.sortKey

/-! ## Year by year -/

/-- The cached frames of years, under the digests of their months. The digest of a year's input
is a hash of these. -/
abbrev CrossSnapshotCache := List (List String × List InequalityRow)

/-- The loop over the partitions: what is in hand of a year, and what is out. -/
structure YearState where
  editorMonthFrames : List (List EditorMonth)
  outputFrames : List (List InequalityRow)
  monthDigests : List String
  cache : Option CrossSnapshotCache
  inequalityYear : Option ℕ

/-- A partition, its editor-months and the digest of its month. -/
structure Partition where
  yearMonth : YearMonth
  editorMonths : List EditorMonth
  digest : String

/-- The frame of a year from the cache, or into it. -/
def cachedYear (ln : ℚ → ℚ) (order : RowOrder) (s : YearState) (cache : CrossSnapshotCache) :
    Except String YearState :=
  match cache.lookup s.monthDigests with
  | some frame =>
    .ok { s with
      editorMonthFrames := []
      monthDigests := []
      outputFrames := s.outputFrames ++ [frame] }
  | none => do
    let frame ← computePeriods ln order (concatFrames s.editorMonthFrames)
    return { s with
      editorMonthFrames := []
      monthDigests := []
      cache := some ((s.monthDigests, frame) :: cache)
      outputFrames := s.outputFrames ++ [frame] }

def finishInequalityYearCached (ln : ℚ → ℚ) (order : RowOrder) (s : YearState) :
    Except String YearState :=
  if s.editorMonthFrames = [] then .ok { s with monthDigests := [] }
  else
    match s.cache with
    | some cache => do
      ensure (s.editorMonthFrames.length = s.monthDigests.length)
        "inequality cache month inputs and identities disagree"
      cachedYear ln order s cache
    | none => do
      let frame ← computePeriods ln order (concatFrames s.editorMonthFrames)
      return { s with editorMonthFrames := [], outputFrames := s.outputFrames ++ [frame] }

/-- The year in hand is finished when a partition of another comes. -/
def closeYear (ln : ℚ → ℚ) (order : RowOrder) (year : ℕ) (s : YearState) :
    Except String YearState :=
  match s.inequalityYear with
  | none => .ok s
  | some currentYear => do
    ensure (currentYear ≤ year) "analytical partitions are not ordered chronologically"
    if year ≠ currentYear then finishInequalityYearCached ln order s else return s

/-- The body of the loop, as far as the inequality frames go. -/
def observePartition (ln : ℚ → ℚ) (order : RowOrder) (s : YearState) (partition : Partition) :
    Except String YearState := do
  let s ← closeYear ln order partition.yearMonth.year s
  return { s with
    inequalityYear := some partition.yearMonth.year
    editorMonthFrames := s.editorMonthFrames ++ [partition.editorMonths]
    monthDigests := if s.cache.isSome then s.monthDigests ++ [partition.digest]
      else s.monthDigests }

/-- All partitions, and the year that is left. -/
def inequalityFrames (ln : ℚ → ℚ) (order : RowOrder) (cache : Option CrossSnapshotCache)
    (partitions : List Partition) : Except String YearState := do
  let s ← partitions.foldlM (observePartition ln order) ⟨[], [], [], cache, none⟩
  finishInequalityYearCached ln order s

/-! ## The measures are exact -/

theorem sum_zipIdx (values : List ℚ) (start : ℕ) :
    ((values.zipIdx start).map fun entry => ((entry.2 : ℚ) + 1) * entry.1).sum
      = Concentration.weightedFrom (start + 1) values := by
  induction values generalizing start with
  | nil => rfl
  | cons v rest ih =>
    rw [List.zipIdx_cons, List.map_cons, List.sum_cons, ih]
    show ((start : ℚ) + 1) * v + _ = ((start + 1 : ℕ) : ℚ) * v + _
    rw [Nat.cast_add, Nat.cast_one]

/-- What the closed formula is, where there is something to share. -/
theorem giniFromSorted_eq {values : List ℚ} (hmany : 2 ≤ values.length) (hsome : values.sum ≠ 0) :
    giniFromSorted values = Concentration.gini values := by
  unfold giniFromSorted
  rw [if_neg (by omega), if_neg hsome]
  show 2 * ((values.zipIdx.map _).sum) / _ - _ = _
  rw [sum_zipIdx]
  rfl

theorem giniFromSorted_zero {values : List ℚ} (h : values.length < 2 ∨ values.sum = 0) :
    giniFromSorted values = 0 := by
  unfold giniFromSorted
  by_cases hfew : values.length < 2
  · rw [if_pos hfew]
  · rw [if_neg hfew, if_pos (h.resolve_left hfew)]

theorem giniFromSorted_range {values : List ℚ} (hsorted : values.Pairwise (· ≤ ·))
    (hnonneg : ∀ v ∈ values, 0 ≤ v) : 0 ≤ giniFromSorted values ∧ giniFromSorted values < 1 := by
  by_cases htrivial : values.length < 2 ∨ values.sum = 0
  · rw [giniFromSorted_zero htrivial]
    exact ⟨le_refl _, zero_lt_one⟩
  · obtain ⟨hmany, hsome⟩ := not_or.mp htrivial
    have hpos : 0 < values.sum := lt_of_le_of_ne (List.sum_nonneg hnonneg) (Ne.symm hsome)
    rw [giniFromSorted_eq (by omega) hsome]
    exact ⟨Concentration.gini_nonneg hsorted hpos, Concentration.gini_lt_one hnonneg hpos⟩

theorem giniFromSorted_scale {c : ℚ} (hc : c ≠ 0) (values : List ℚ) :
    giniFromSorted (values.map (c * ·)) = giniFromSorted values := by
  have hsum : (values.map (c * ·)).sum = c * values.sum := Concentration.sum_scale c values
  have hlength : (values.map (c * ·)).length = values.length := List.length_map _
  by_cases htrivial : values.length < 2 ∨ values.sum = 0
  · rw [giniFromSorted_zero htrivial, giniFromSorted_zero]
    rw [hlength, hsum]
    exact htrivial.imp id fun h => by rw [h, mul_zero]
  · obtain ⟨hmany, hsome⟩ := not_or.mp htrivial
    have hscaled : (values.map (c * ·)).sum ≠ 0 := by
      rw [hsum]
      exact mul_ne_zero hc hsome
    rw [giniFromSorted_eq (by omega) hsome, giniFromSorted_eq (by omega) hscaled,
      Concentration.gini_scale hc]

/-- The search ends where half of the total is reached, or at the end. -/
theorem minEditorsFrom_spec (total cumsum : ℚ) (i : ℕ) (rest : List ℚ) :
    ∃ j, minEditorsFrom total cumsum i rest = i + j ∧ j ≤ rest.length ∧
      (total ≤ 2 * (cumsum + (rest.take j).sum) ∨ j = rest.length) ∧
      ∀ n, 1 ≤ n → n < j → ¬total ≤ 2 * (cumsum + (rest.take n).sum) := by
  induction rest generalizing cumsum i with
  | nil => exact ⟨0, rfl, le_refl _, Or.inr rfl, fun n _ hn => absurd hn (by omega)⟩
  | cons v rest ih =>
    unfold minEditorsFrom
    by_cases hreached : total * (1 / 2) ≤ cumsum + v
    · rw [if_pos hreached]
      refine ⟨1, rfl, by simp, Or.inl ?_, fun n _ hn => absurd hn (by omega)⟩
      show total ≤ 2 * (cumsum + [v].sum)
      rw [List.sum_singleton]
      linarith
    · rw [if_neg hreached]
      obtain ⟨j, heq, hle, hends, hbefore⟩ := ih (cumsum + v) (i + 1)
      have htake : ∀ n, cumsum + ((v :: rest).take (n + 1)).sum =
          cumsum + v + (rest.take n).sum := by
        intro n
        rw [List.take_succ_cons, List.sum_cons, add_assoc]
      refine ⟨j + 1, by omega, by simpa using hle, ?_, fun n hpos hn => ?_⟩
      · rw [htake, List.length_cons]
        exact hends.imp id fun h => by omega
      · obtain ⟨m, rfl⟩ := Nat.exists_eq_add_of_le' hpos
        rw [htake]
        by_cases hm : m = 0
        · subst hm
          rw [List.take_zero, List.sum_nil, add_zero]
          intro hle
          exact hreached (by linarith)
        · exact hbefore m (by omega) (by omega)

/-- The least number of the largest values that are half of the total. -/
theorem minEditors50pct_isLeast {sortedDesc : List ℚ} (hnonneg : ∀ v ∈ sortedDesc, 0 ≤ v) :
    IsLeast {n : ℕ | sortedDesc.sum ≤ 2 * (sortedDesc.take n).sum}
      (minEditors50pct sortedDesc) := by
  have htotal := List.sum_nonneg hnonneg
  unfold minEditors50pct
  by_cases hzero : sortedDesc.sum = 0
  · rw [if_pos hzero]
    refine ⟨?_, fun n _ => Nat.zero_le n⟩
    show sortedDesc.sum ≤ 2 * (sortedDesc.take 0).sum
    rw [hzero, List.take_zero, List.sum_nil, mul_zero]
  · rw [if_neg hzero]
    obtain ⟨j, heq, -, hends, hbefore⟩ := minEditorsFrom_spec sortedDesc.sum 0 0 sortedDesc
    rw [heq, Nat.zero_add]
    simp only [zero_add] at hends hbefore
    refine ⟨?_, fun n hn => ?_⟩
    · rcases hends with hreached | rfl
      · exact hreached
      · show sortedDesc.sum ≤ 2 * (sortedDesc.take sortedDesc.length).sum
        rw [List.take_length]
        linarith
    · have hn : sortedDesc.sum ≤ 2 * (sortedDesc.take n).sum := hn
      by_contra hlt
      by_cases hpos : 1 ≤ n
      · exact hbefore n hpos (by omega) hn
      · obtain rfl : n = 0 := by omega
        rw [List.take_zero, List.sum_nil, mul_zero] at hn
        exact hzero (le_antisymm hn htotal)

theorem minEditors50pct_le (sortedDesc : List ℚ) :
    minEditors50pct sortedDesc ≤ sortedDesc.length := by
  unfold minEditors50pct
  by_cases hzero : sortedDesc.sum = 0
  · rw [if_pos hzero]
    exact Nat.zero_le _
  · rw [if_neg hzero]
    obtain ⟨j, heq, hle, -, -⟩ := minEditorsFrom_spec sortedDesc.sum 0 0 sortedDesc
    omega

/-! ## What the rows are -/

section Rows

variable (rows : List EditorMonth) (period : PeriodType)

/-- An editor's edits in a period. -/
def editsIn (k : ℤ) (e : Identity) : ℕ :=
  ((rows.filter fun m => m.key period = (k, e)).map EditorMonth.edits).sum

/-- An editor's highest rank in a period. -/
def rankIn (k : ℤ) (e : Identity) : ℕ :=
  maxRank ((rows.filter fun m => m.key period = (k, e)).map EditorMonth.userTypeRank)

/-- The editors of a period. -/
def activeIn (k : ℤ) : List Identity :=
  ((rows.filter fun m => (m.key period).1 = k).map EditorMonth.identity).dedup

/-- The editors of a period whose highest rank is that of a user type. -/
def editorsIn (k : ℤ) (userType : String) : List Identity :=
  (activeIn rows period k).filter fun e =>
    (userTypeFromRank (rankIn rows period k e)).label = userType

/-- Their edits. -/
def countsIn (k : ℤ) (userType : String) : List ℕ :=
  (editorsIn rows period k userType).map (editsIn rows period k)

/-- The totals of a period fit their columns. -/
structure InRange : Prop where
  edits : ∀ k, ((rows.filter fun m => (m.key period).1 = k).map EditorMonth.edits).sum ≤ u32Max
  editors : ∀ k, (activeIn rows period k).length ≤ u32Max

end Rows

/-- Counts as the measures take them. -/
def ascending (counts : List ℕ) : List ℚ :=
  (counts.map fun n : ℕ => (n : ℚ)).insertionSort (· ≤ ·)

/-- The row of a period and a user type, from the edits of its editors. -/
def exactRow (ln : ℚ → ℚ) (period : PeriodType) (k : ℤ) (userType : String) (counts : List ℕ) :
    InequalityRow where
  yearMonth := (periodTexts period k).2.1
  period := (periodTexts period k).1
  periodStart := (periodTexts period k).2.1
  periodEnd := (periodTexts period k).2.2
  periodType := period.label
  periodMonths := periodMonthsForType period
  userType := userType
  gini := giniFromSorted (ascending counts)
  theil := theilFromValues ln (ascending counts)
  palma := palmaFromSorted (ascending counts)
  minEditors50pct := Inequality.minEditors50pct (ascending counts).reverse
  totalEditors := counts.length
  totalEdits := counts.sum

/-- What tells the groups of a period apart. -/
def groupOf (rows : List EditorMonth) (period : PeriodType) (key : ℤ × Identity) : ℤ ×ₗ String :=
  toLex (key.1, (userTypeFromRank (rankIn rows period key.1 key.2)).label)

/-- A row for each user type in each period. -/
def exactRows (ln : ℚ → ℚ) (rows : List EditorMonth) (period : PeriodType) : List InequalityRow :=
  (rows.map fun m => groupOf rows period (m.key period)).dedup.map fun g =>
    exactRow ln period (ofLex g).1 (ofLex g).2 (countsIn rows period (ofLex g).1 (ofLex g).2)

/-! ## A group -/

theorem insertionSort_congr {values values' : List ℚ} (h : values.Perm values') :
    values.insertionSort (· ≤ ·) = values'.insertionSort (· ≤ ·) := by
  have hperm := (List.perm_insertionSort (· ≤ ·) values).trans
    (h.trans (List.perm_insertionSort (· ≤ ·) values').symm)
  exact hperm.eq_of_pairwise (fun _ _ _ _ h h' => le_antisymm h h')
    (List.pairwise_insertionSort _ _) (List.pairwise_insertionSort _ _)

theorem ascending_congr {counts counts' : List ℕ} (h : counts.Perm counts') :
    ascending counts = ascending counts' := insertionSort_congr (h.map _)

theorem exactRow_congr (ln : ℚ → ℚ) (period : PeriodType) (k : ℤ) (userType : String)
    {counts counts' : List ℕ} (h : counts.Perm counts') :
    exactRow ln period k userType counts = exactRow ln period k userType counts' := by
  unfold exactRow
  rw [ascending_congr h, h.length_eq, h.sum_nat]

theorem sum_ascending (counts : List ℕ) : (ascending counts).sum = (counts.sum : ℕ) := by
  unfold ascending
  rw [(List.perm_insertionSort _ _).sum_eq, Nat.cast_list_sum]

theorem length_ascending (counts : List ℕ) : (ascending counts).length = counts.length := by
  unfold ascending
  rw [List.length_insertionSort, List.length_map]

theorem ascending_nonneg {counts : List ℕ} {v : ℚ} (h : v ∈ ascending counts) : 0 ≤ v := by
  obtain ⟨n, -, rfl⟩ := List.mem_map.mp ((List.mem_insertionSort _).mp h)
  exact Nat.cast_nonneg n

theorem u32TryFrom_of_le {n : ℕ} (h : n ≤ u32Max) : u32TryFrom n = .ok n :=
  bind_eq_ok.mpr ⟨(), ensure_eq_ok.mpr h, rfl⟩

theorem groupRow_eq (ln : ℚ → ℚ) (period : PeriodType) (m : YearMonth) (userType : String)
    {values : List ℚ} {counts : List ℕ} (hvalues : values.Perm (counts.map fun n : ℕ => (n : ℚ)))
    (hlength : counts.length ≤ u32Max) (hsum : counts.sum ≤ u32Max) :
    groupRow ln period (toLex (normalizePeriodKey m.key period, userType), values)
      = .ok (exactRow ln period (normalizePeriodKey m.key period) userType counts) := by
  have hsorted : values.insertionSort (· ≤ ·) = ascending counts := insertionSort_congr hvalues
  have hfloor : ⌊(ascending counts).reverse.sum⌋₊ = counts.sum := by
    rw [List.sum_reverse, sum_ascending, Nat.floor_natCast]
  have hlengths : (ascending counts).reverse.length = counts.length := by
    rw [List.length_reverse, length_ascending]
  have hfragility := minEditors50pct_le (ascending counts).reverse
  rw [hlengths] at hfragility
  unfold groupRow
  simp only [hsorted]
  refine bind_eq_ok.mpr ⟨_, Activity.periodFields_eq period m, ?_⟩
  refine bind_eq_ok.mpr ⟨_, u32TryFrom_of_le (hfragility.trans hlength), ?_⟩
  refine bind_eq_ok.mpr ⟨_, u32TryFrom_of_le (hlengths.trans_le hlength), ?_⟩
  refine bind_eq_ok.mpr ⟨(), ensure_eq_ok.mpr (hfloor.trans_le hsum), ?_⟩
  rw [hfloor, hlengths]
  rfl

/-! ## The groups of a period -/

section Groups

variable {rows : List EditorMonth} {period : PeriodType}

/-- The editors of all periods. -/
def keysOf (rows : List EditorMonth) (period : PeriodType) : List (ℤ × Identity) :=
  (rows.map (EditorMonth.key period)).dedup

/-- What an editor's months of a period add up to. -/
def periodOf (rows : List EditorMonth) (period : PeriodType) (key : ℤ × Identity) :
    EditorPeriod where
  periodKey := key.1
  identity := key.2
  userTypeRank := rankIn rows period key.1 key.2
  edits := editsIn rows period key.1 key.2

theorem mem_keysOf {key : ℤ × Identity} :
    key ∈ keysOf rows period ↔ ∃ m ∈ rows, m.key period = key := by
  unfold keysOf
  rw [List.mem_dedup, List.mem_map]

theorem editsIn_le (h : InRange rows period) (k : ℤ) (e : Identity) :
    editsIn rows period k e ≤ u32Max := by
  refine le_trans ?_ (h.edits k)
  have hsub : (rows.filter fun m => m.key period = (k, e)).Sublist
      (rows.filter fun m => (m.key period).1 = k) := by
    refine List.monotone_filter_right rows fun m hm => ?_
    have hkey : m.key period = (k, e) := of_decide_eq_true hm
    exact decide_eq_true (by rw [hkey])
  exact (hsub.map EditorMonth.edits).sum_le_sum fun n _ => Nat.zero_le n

theorem editorPeriods_perm (order : RowOrder) (h : InRange rows period) :
    (editorPeriods order period rows).Perm ((keysOf rows period).map (periodOf rows period)) := by
  refine (groupBy_perm order ..).trans (List.Perm.of_eq (List.map_congr_left fun key _ => ?_))
  unfold editorPeriod
  rw [Activity.sumU32_of_le (editsIn_le h key.1 key.2)]
  rfl

/-- The keys of a group are its editors. -/
theorem filter_groupOf_perm (k : ℤ) (userType : String) :
    ((keysOf rows period).filter fun key => groupOf rows period key = toLex (k, userType)).Perm
      ((editorsIn rows period k userType).map fun e => (k, e)) := by
  have hleft : ((keysOf rows period).filter fun key =>
      groupOf rows period key = toLex (k, userType)).Nodup := (List.nodup_dedup _).filter _
  have hright : ((editorsIn rows period k userType).map fun e => (k, e)).Nodup :=
    ((List.nodup_dedup _).filter _).map fun _ _ h => (Prod.ext_iff.mp h).2
  refine (List.perm_ext_iff_of_nodup hleft hright).mpr fun key => ?_
  rw [List.mem_filter, mem_keysOf, List.mem_map, decide_eq_true_iff]
  constructor
  · rintro ⟨⟨m, hm, rfl⟩, hgroup⟩
    have hpair := toLex_inj.mp hgroup
    have hk : (m.key period).1 = k := congrArg Prod.fst hpair
    have htype := congrArg Prod.snd hpair
    subst hk
    refine ⟨m.identity, List.mem_filter.mpr ⟨?_, decide_eq_true htype⟩, rfl⟩
    exact List.mem_dedup.mpr (List.mem_map_of_mem (List.mem_filter.mpr ⟨hm, decide_eq_true rfl⟩))
  · rintro ⟨e, he, rfl⟩
    obtain ⟨hactive, htype⟩ := List.mem_filter.mp he
    obtain ⟨m, hm, rfl⟩ := List.mem_map.mp (List.mem_dedup.mp hactive)
    obtain ⟨hmem, hk⟩ := List.mem_filter.mp hm
    have hk : (m.key period).1 = k := of_decide_eq_true hk
    have htype := of_decide_eq_true htype
    refine ⟨⟨m, hmem, Prod.ext hk rfl⟩, ?_⟩
    show toLex (k, _) = toLex (k, userType)
    rw [htype]

theorem counts_perm (k : ℤ) (userType : String) :
    (((keysOf rows period).filter fun key => groupOf rows period key = toLex (k, userType)).map
      fun key => editsIn rows period key.1 key.2).Perm (countsIn rows period k userType) := by
  have hmap := (@filter_groupOf_perm rows period k userType).map
    fun key => editsIn rows period key.1 key.2
  rw [List.map_map] at hmap
  exact hmap

theorem foldl_push (f : EditorPeriod → ℚ) (l : List EditorPeriod) (init : List ℚ) :
    (l.foldl (fun (entry : Option (List ℚ)) e => some (entry.getD [] ++ [f e])) (some init))
      = some (init ++ l.map f) := by
  induction l generalizing init with
  | nil => rw [List.foldl_nil, List.map_nil, List.append_nil]
  | cons e l ih =>
    rw [List.foldl_cons, Option.getD_some, ih, List.append_assoc]
    rfl

/-- The entry of a group is what its editors pushed. -/
theorem getD_grouped (periods : List EditorPeriod) (g : ℤ ×ₗ String) :
    ((foldBy EditorPeriod.groupKey (fun entry e => entry.getD [] ++ [(e.edits : ℚ)])
      periods)[g]?.getD []) =
        (periods.filter fun e => e.groupKey = g).map fun e => (e.edits : ℚ) := by
  rw [Grouping.getElem?_foldBy]
  cases hgroup : periods.filter fun e => e.groupKey = g with
  | nil => rfl
  | cons e rest =>
    rw [List.foldl_cons, Option.getD_none, List.nil_append, foldl_push]
    rfl

/-- The values of a group, before they are sorted. -/
theorem values_perm (order : RowOrder) (h : InRange rows period) (k : ℤ) (userType : String) :
    (((editorPeriods order period rows).filter fun e => e.groupKey = toLex (k, userType)).map
      fun e => (e.edits : ℚ)).Perm
        ((countsIn rows period k userType).map fun n : ℕ => (n : ℚ)) := by
  refine (((editorPeriods_perm order h).filter _).map _).trans ?_
  rw [List.filter_map, List.map_map]
  have hcounts := (@counts_perm rows period k userType).map fun n : ℕ => (n : ℚ)
  rw [List.map_map] at hcounts
  exact hcounts

theorem groups_perm (order : RowOrder) (h : InRange rows period) :
    ((editorPeriods order period rows).map EditorPeriod.groupKey).dedup.Perm
      (rows.map fun m => groupOf rows period (m.key period)).dedup := by
  refine (List.perm_ext_iff_of_nodup (List.nodup_dedup _) (List.nodup_dedup _)).mpr fun g => ?_
  have hmap := (editorPeriods_perm order h).map EditorPeriod.groupKey
  rw [List.map_map] at hmap
  rw [List.mem_dedup, List.mem_dedup, hmap.mem_iff, List.mem_map, List.mem_map]
  constructor
  · rintro ⟨key, hkey, rfl⟩
    obtain ⟨m, hm, rfl⟩ := mem_keysOf.mp hkey
    exact ⟨m, hm, rfl⟩
  · rintro ⟨m, hm, rfl⟩
    exact ⟨m.key period, mem_keysOf.mpr ⟨m, hm, rfl⟩, rfl⟩

/-- The edits of a period, editor by editor. -/
theorem sum_keysOf (k : ℤ) :
    (((keysOf rows period).filter fun key => key.1 = k).map fun key =>
      editsIn rows period key.1 key.2).sum
      = ((rows.filter fun m => (m.key period).1 = k).map EditorMonth.edits).sum := by
  have hmem : ∀ m ∈ rows.filter fun m => (m.key period).1 = k,
      m.key period ∈ (keysOf rows period).filter fun key => key.1 = k := by
    intro m hm
    obtain ⟨hrows, hk⟩ := List.mem_filter.mp hm
    exact List.mem_filter.mpr ⟨mem_keysOf.mpr ⟨m, hrows, rfl⟩, hk⟩
  rw [← sum_filter_key (EditorMonth.key period) EditorMonth.edits
    ((List.nodup_dedup _).filter _) hmem]
  congr 1
  refine List.map_congr_left fun key hkey => ?_
  have hk : key.1 = k := of_decide_eq_true (List.mem_filter.mp hkey).2
  show ((rows.filter fun m => m.key period = key).map EditorMonth.edits).sum = _
  rw [List.filter_filter]
  congr 2
  refine List.filter_congr fun m _ => ?_
  by_cases hm : m.key period = key
  · simp [hm, hk]
  · simp [hm]

theorem counts_inRange (h : InRange rows period) (k : ℤ) (userType : String) :
    (countsIn rows period k userType).length ≤ u32Max ∧
      (countsIn rows period k userType).sum ≤ u32Max := by
  refine ⟨?_, ?_⟩
  · unfold countsIn editorsIn
    rw [List.length_map]
    exact (List.length_filter_le _ _).trans (h.editors k)
  · -- the editors of a user type are some of those of the period
    refine le_trans ?_ (h.edits k)
    rw [← (counts_perm k userType).sum_nat, ← sum_keysOf]
    have hsub : ((keysOf rows period).filter fun key =>
        groupOf rows period key = toLex (k, userType)).Sublist
        ((keysOf rows period).filter fun key => key.1 = k) := by
      refine List.monotone_filter_right _ fun key hkey => ?_
      exact decide_eq_true (congrArg Prod.fst (toLex_inj.mp (of_decide_eq_true hkey)))
    exact (hsub.map _).sum_le_sum fun n _ => Nat.zero_le n

variable (ln : ℚ → ℚ)

theorem rowsFromEditorPeriod_eq (order : RowOrder) (h : InRange rows period) :
    ∃ result, rowsFromEditorPeriod ln (editorPeriods order period rows) period = .ok result ∧
      result.Perm (exactRows ln rows period) := by
  let rowAt (g : ℤ ×ₗ String) : InequalityRow :=
    exactRow ln period (ofLex g).1 (ofLex g).2 (countsIn rows period (ofLex g).1 (ofLex g).2)
  let grouped := foldBy EditorPeriod.groupKey (fun entry e => entry.getD [] ++ [(e.edits : ℚ)])
    (editorPeriods order period rows)
  have hentries : grouped.toList.Perm
      (((editorPeriods order period rows).map EditorPeriod.groupKey).dedup.map
        fun g => (g, grouped[g]?.getD [])) := Grouping.toList_foldBy_perm _ _ _ []
  have hrows : grouped.toList.mapM (groupRow ln period)
      = .ok (grouped.toList.map fun entry => rowAt entry.1) := by
    refine mapM_eq_ok fun entry hentry => ?_
    obtain ⟨g, hg, rfl⟩ := List.mem_map.mp (hentries.mem_iff.mp hentry)
    have hkey := (groups_perm order h).mem_iff.mp hg
    obtain ⟨m, -, rfl⟩ := List.mem_map.mp (List.mem_dedup.mp hkey)
    obtain ⟨hlength, hsum⟩ := counts_inRange h (m.key period).1
      (userTypeFromRank (rankIn rows period (m.key period).1 (m.key period).2)).label
    refine groupRow_eq ln period m.yearMonth _ ?_ hlength hsum
    show (Option.getD grouped[_]? []).Perm _
    rw [getD_grouped]
    exact values_perm order h _ _
  refine ⟨_, hrows, ?_⟩
  have hkeys := hentries.map fun entry => rowAt entry.1
  rw [List.map_map] at hkeys
  exact hkeys.trans ((groups_perm order h).map rowAt)

theorem sum_exactRows :
    ((exactRows ln rows period).map InequalityRow.totalEdits).sum
      = (rows.map EditorMonth.edits).sum := by
  have hgroups : ∀ g : ℤ ×ₗ String, (countsIn rows period (ofLex g).1 (ofLex g).2).sum
      = (((keysOf rows period).filter fun key => groupOf rows period key = g).map fun key =>
        editsIn rows period key.1 key.2).sum := fun g =>
    (counts_perm (ofLex g).1 (ofLex g).2).sum_nat.symm
  have hmem : ∀ key ∈ keysOf rows period, groupOf rows period key
      ∈ (rows.map fun m => groupOf rows period (m.key period)).dedup := by
    intro key hkey
    obtain ⟨m, hm, rfl⟩ := mem_keysOf.mp hkey
    exact List.mem_dedup.mpr (List.mem_map_of_mem hm)
  unfold exactRows
  rw [List.map_map]
  show ((_ : List (ℤ ×ₗ String)).map fun g =>
    (countsIn rows period (ofLex g).1 (ofLex g).2).sum).sum = _
  simp only [hgroups]
  rw [sum_filter_key (groupOf rows period) _ (List.nodup_dedup _) hmem]
  exact sum_groups (EditorMonth.key period) EditorMonth.edits rows

/-- One call of the shared computation. -/
theorem computePeriodFrame_eq (order : RowOrder) (h : InRange rows period) :
    ∃ result, computePeriodFrame ln order rows period = .ok result ∧
      result.Perm (exactRows ln rows period) := by
  obtain ⟨result, hresult, hperm⟩ := rowsFromEditorPeriod_eq ln order h
  refine ⟨result, ?_, hperm⟩
  have hsum := (hperm.map InequalityRow.totalEdits).sum_nat
  unfold computePeriodFrame
  refine bind_eq_ok.mpr ⟨result, hresult, bind_eq_ok.mpr ⟨(), ensure_eq_ok.mpr ?_, rfl⟩⟩
  rw [hsum, sum_exactRows]

end Groups

/-! ## All periods -/

/-- The rows of the three kinds of period, in order. -/
def allRows (ln : ℚ → ℚ) (rows : List EditorMonth) : List InequalityRow :=
  (exactRows ln rows .month ++ exactRows ln rows .quarter ++ exactRows ln rows .year).insertionSort
    fun a b => a.sortKey ≤ b.sortKey

section Sorting

variable {ln : ℚ → ℚ} {rows : List EditorMonth}

theorem mem_exactRows {period : PeriodType} {row : InequalityRow}
    (h : row ∈ exactRows ln rows period) : ∃ m ∈ rows, ∃ userType,
      row = exactRow ln period (normalizePeriodKey m.yearMonth.key period) userType
        (countsIn rows period (normalizePeriodKey m.yearMonth.key period) userType) := by
  obtain ⟨g, hg, rfl⟩ := List.mem_map.mp h
  obtain ⟨m, hm, rfl⟩ := List.mem_map.mp (List.mem_dedup.mp hg)
  exact ⟨m, hm, _, rfl⟩

theorem mem_allRows {row : InequalityRow} :
    row ∈ allRows ln rows ↔ ∃ period, row ∈ exactRows ln rows period := by
  unfold allRows
  rw [List.mem_insertionSort, List.mem_append, List.mem_append]
  constructor
  · rintro ((h | h) | h)
    · exact ⟨.month, h⟩
    · exact ⟨.quarter, h⟩
    · exact ⟨.year, h⟩
  · rintro ⟨period, h⟩
    cases period with
    | month => exact Or.inl (Or.inl h)
    | quarter => exact Or.inl (Or.inr h)
    | year => exact Or.inr h

theorem label_injective {p q : PeriodType} (h : p.label = q.label) : p = q := by
  cases p <;> cases q <;> first | rfl | exact absurd h (by decide)

/-- Rows that are sorted alike are the same row. -/
theorem eq_of_sortKey_eq {row row' : InequalityRow} (h : row ∈ allRows ln rows)
    (h' : row' ∈ allRows ln rows) (heq : row.sortKey = row'.sortKey) : row = row' := by
  obtain ⟨period, hrow⟩ := mem_allRows.mp h
  obtain ⟨period', hrow'⟩ := mem_allRows.mp h'
  obtain ⟨m, -, userType, rfl⟩ := mem_exactRows hrow
  obtain ⟨m', -, userType', rfl⟩ := mem_exactRows hrow'
  have hfields := Prod.ext_iff.mp (toLex_inj.mp heq)
  have hrest := Prod.ext_iff.mp (toLex_inj.mp hfields.2)
  obtain rfl : period = period' := label_injective hrest.1
  obtain rfl : userType = userType' := hrest.2
  have hkey : normalizePeriodKey m.yearMonth.key period
      = normalizePeriodKey m'.yearMonth.key period := Activity.periodTexts_inj hfields.1
  rw [hkey]

theorem allRows_pairwise :
    (allRows ln rows).Pairwise fun a b => a.sortKey ≤ b.sortKey :=
  List.pairwise_insertionSort _ _

/-- Rows in order are told by which they are. -/
theorem eq_allRows {l : List InequalityRow} (hperm : l.Perm (allRows ln rows))
    (hsorted : l.Pairwise fun a b => a.sortKey ≤ b.sortKey) : l = allRows ln rows :=
  hperm.eq_of_pairwise (fun _ _ ha hb h h' =>
    eq_of_sortKey_eq (hperm.mem_iff.mp ha) hb (le_antisymm h h')) hsorted allRows_pairwise

/-- One call for all periods. -/
theorem computePeriods_eq (order : RowOrder) (h : ∀ period, InRange rows period) :
    computePeriods ln order rows = .ok (allRows ln rows) := by
  obtain ⟨monthly, hmonthly, hmonth⟩ := computePeriodFrame_eq ln order (h .month)
  obtain ⟨quarterly, hquarterly, hquarter⟩ := computePeriodFrame_eq ln order (h .quarter)
  obtain ⟨yearly, hyearly, hyear⟩ := computePeriodFrame_eq ln order (h .year)
  have hsorted : (concatFrames [monthly, quarterly, yearly]).insertionSort
      (fun a b => a.sortKey ≤ b.sortKey) = allRows ln rows := by
    refine eq_allRows ?_ (List.pairwise_insertionSort _ _)
    refine (List.perm_insertionSort _ _).trans ((concatFrames_perm _).trans ?_)
    refine List.Perm.trans ?_ (List.perm_insertionSort _ _).symm
    have hflatten : [monthly, quarterly, yearly].flatten = monthly ++ quarterly ++ yearly := by
      simp [List.append_assoc]
    rw [hflatten]
    exact (hmonth.append hquarter).append hyear
  unfold computePeriods
  refine bind_eq_ok.mpr ⟨monthly, hmonthly, bind_eq_ok.mpr ⟨quarterly, hquarterly, ?_⟩⟩
  refine bind_eq_ok.mpr ⟨yearly, hyearly, ?_⟩
  rw [hsorted]
  rfl

end Sorting

/-! ## Years apart -/

section Years

variable {ln : ℚ → ℚ} {before after : List EditorMonth}

theorem periodKey_lt {m n : YearMonth} (h : m.year < n.year) (period : PeriodType) :
    normalizePeriodKey m.key period < normalizePeriodKey n.key period := by
  have hm := m.month_le
  have hm' := m.month_pos
  have hn := n.month_le
  have hn' := n.month_pos
  have hyear := (normalizePeriodKey_key m).2
  have hyear' := (normalizePeriodKey_key n).2
  have hquarter := (normalizePeriodKey_key m).1
  have hquarter' := (normalizePeriodKey_key n).1
  cases period with
  | month =>
    show m.key < n.key
    unfold YearMonth.key
    omega
  | quarter => rw [hquarter, hquarter']; omega
  | year => rw [hyear, hyear']; omega

/-- The text of a period begins with its year. -/
theorem periodText_year (m : YearMonth) (period : PeriodType) :
    ∃ rest, (periodTexts period (normalizePeriodKey m.key period)).1.toList
      = (zeroPad 4 m.year).toList ++ rest := by
  obtain ⟨⟨hyear, -⟩, hquarter, -⟩ := Activity.key_digits m
  cases period with
  | month =>
    refine ⟨"-".toList ++ (zeroPad 2 (m.key.tmod 100)).toList, ?_⟩
    show (zeroPad 4 (m.key.tdiv 100) ++ "-" ++ zeroPad 2 (m.key.tmod 100)).toList = _
    rw [hyear, String.toList_append, String.toList_append, List.append_assoc]
  | quarter =>
    refine ⟨"-".toList ++ ("Q".toList
      ++ (zeroPad 0 ((normalizePeriodKey m.key .quarter).tmod 10)).toList), ?_⟩
    show (zeroPad 4 ((normalizePeriodKey m.key .quarter).tdiv 10) ++ "-" ++ "Q" ++ _).toList = _
    rw [hquarter, String.toList_append, String.toList_append, String.toList_append,
      List.append_assoc, List.append_assoc]
  | year =>
    refine ⟨[], ?_⟩
    show (zeroPad 4 (normalizePeriodKey m.key .year)).toList = _
    rw [(normalizePeriodKey_key m).2, List.append_nil]

/-- The rows of a year come before those of a later one. -/
theorem periodText_lt {m n : YearMonth} (h : m.year < n.year) (period period' : PeriodType) :
    (periodTexts period (normalizePeriodKey m.key period)).1
      < (periodTexts period' (normalizePeriodKey n.key period')).1 := by
  obtain ⟨rest, hrest⟩ := periodText_year m period
  obtain ⟨rest', hrest'⟩ := periodText_year n period'
  have hlength : (zeroPad 4 m.year).toList.length = 4 :=
    length_zeroPad (by omega) (by have := m.year_lt; omega)
  have hlength' : (zeroPad 4 n.year).toList.length = 4 :=
    length_zeroPad (by omega) (by have := n.year_lt; omega)
  rw [String.lt_iff_toList_lt, hrest, hrest',
    FixedWidth.append_lt_append_iff (hlength.trans hlength'.symm),
    FixedWidth.lt_iff_value_lt (hlength.trans hlength'.symm) all_isDigit_zeroPad
      all_isDigit_zeroPad,
    value_zeroPad, value_zeroPad]
  exact Or.inl h

/-- What is read of a period is read of its rows. -/
theorem countsIn_of_filter {rows rows' : List EditorMonth} {period : PeriodType} {k : ℤ}
    (h : (rows.filter fun m => (m.key period).1 = k) = rows'.filter fun m => (m.key period).1 = k) :
    (∀ e, rankIn rows period k e = rankIn rows' period k e) ∧
      ∀ userType, countsIn rows period k userType = countsIn rows' period k userType := by
  have hsplit : ∀ (l : List EditorMonth) (e : Identity), (l.filter fun m => m.key period = (k, e))
      = (l.filter fun m => (m.key period).1 = k).filter fun m => m.identity = e := by
    intro l e
    rw [List.filter_filter]
    refine List.filter_congr fun m _ => ?_
    have hiff : m.key period = (k, e) ↔ m.identity = e ∧ (m.key period).1 = k :=
      Prod.ext_iff.trans and_comm
    rw [decide_eq_decide.mpr hiff, Bool.decide_and]
  have hrank : ∀ e, rankIn rows period k e = rankIn rows' period k e := by
    intro e
    unfold rankIn
    rw [hsplit rows, hsplit rows', h]
  have hedits : editsIn rows period k = editsIn rows' period k := by
    funext e
    unfold editsIn
    rw [hsplit rows, hsplit rows', h]
  refine ⟨hrank, fun userType => ?_⟩
  unfold countsIn editorsIn activeIn
  rw [h, hedits]
  simp only [hrank]

variable (hapart : ∀ m ∈ before, ∀ n ∈ after, m.yearMonth.year < n.yearMonth.year)
include hapart

theorem filter_before {m : EditorMonth} (hm : m ∈ before) (period : PeriodType) :
    ((before ++ after).filter fun n => (n.key period).1 = (m.key period).1)
      = before.filter fun n => (n.key period).1 = (m.key period).1 := by
  have hnone : (after.filter fun n => (n.key period).1 = (m.key period).1) = [] := by
    refine List.filter_eq_nil_iff.mpr fun n hn heq => ?_
    exact absurd (of_decide_eq_true heq) (ne_of_gt (periodKey_lt (hapart m hm n hn) period))
  rw [List.filter_append, hnone, List.append_nil]

theorem filter_after {n : EditorMonth} (hn : n ∈ after) (period : PeriodType) :
    ((before ++ after).filter fun m => (m.key period).1 = (n.key period).1)
      = after.filter fun m => (m.key period).1 = (n.key period).1 := by
  have hnone : (before.filter fun m => (m.key period).1 = (n.key period).1) = [] := by
    refine List.filter_eq_nil_iff.mpr fun m hm heq => ?_
    exact absurd (of_decide_eq_true heq) (ne_of_lt (periodKey_lt (hapart m hm n hn) period))
  rw [List.filter_append, hnone, List.nil_append]

/-- No period crosses a year. -/
theorem exactRows_append (period : PeriodType) :
    exactRows ln (before ++ after) period
      = exactRows ln before period ++ exactRows ln after period := by
  have hbefore := fun m hm => countsIn_of_filter (filter_before hapart (m := m) hm period)
  have hafter := fun n hn => countsIn_of_filter (filter_after hapart (n := n) hn period)
  have hgroups : (before.map fun m => groupOf (before ++ after) period (m.key period))
      = before.map fun m => groupOf before period (m.key period) := by
    refine List.map_congr_left fun m hm => ?_
    unfold groupOf
    rw [(hbefore m hm).1]
  have hgroups' : (after.map fun n => groupOf (before ++ after) period (n.key period))
      = after.map fun n => groupOf after period (n.key period) := by
    refine List.map_congr_left fun n hn => ?_
    unfold groupOf
    rw [(hafter n hn).1]
  have hdisjoint : (before.map fun m => groupOf before period (m.key period)).Disjoint
      (after.map fun n => groupOf after period (n.key period)) := by
    intro g hg hg'
    obtain ⟨m, hm, rfl⟩ := List.mem_map.mp hg
    obtain ⟨n, hn, heq⟩ := List.mem_map.mp hg'
    have hkey : (n.key period).1 = (m.key period).1 := congrArg (fun g => (ofLex g).1) heq
    exact absurd hkey (ne_of_gt (periodKey_lt (hapart m hm n hn) period))
  unfold exactRows
  rw [List.map_append, hgroups, hgroups', hdisjoint.dedup_append, List.map_append]
  congr 1
  · refine List.map_congr_left fun g hg => ?_
    obtain ⟨m, hm, rfl⟩ := List.mem_map.mp (List.mem_dedup.mp hg)
    show exactRow ln period (m.key period).1 _ (countsIn _ period (m.key period).1 _) = _
    rw [(hbefore m hm).2]
    rfl
  · refine List.map_congr_left fun g hg => ?_
    obtain ⟨n, hn, rfl⟩ := List.mem_map.mp (List.mem_dedup.mp hg)
    show exactRow ln period (n.key period).1 _ (countsIn _ period (n.key period).1 _) = _
    rw [(hafter n hn).2]
    rfl

/-- **The rows of years apart are those of each.** -/
theorem allRows_append : allRows ln (before ++ after) = allRows ln before ++ allRows ln after := by
  refine (eq_allRows ?_ ?_).symm
  · refine ((List.perm_insertionSort _ _).append (List.perm_insertionSort _ _)).trans ?_
    refine List.Perm.trans ?_ (List.perm_insertionSort _ _).symm
    rw [exactRows_append hapart, exactRows_append hapart, exactRows_append hapart]
    refine List.perm_iff_count.mpr fun row => ?_
    simp only [List.count_append]
    omega
  · refine List.pairwise_append.mpr ⟨allRows_pairwise, allRows_pairwise, fun row h row' h' => ?_⟩
    obtain ⟨period, hrow⟩ := mem_allRows.mp h
    obtain ⟨period', hrow'⟩ := mem_allRows.mp h'
    obtain ⟨m, hm, userType, rfl⟩ := mem_exactRows hrow
    obtain ⟨n, hn, userType', rfl⟩ := mem_exactRows hrow'
    exact le_of_lt (Prod.Lex.toLex_lt_toLex.mpr
      (Or.inl (periodText_lt (hapart m hm n hn) period period')))

end Years

/-! ## The order of the rows -/

section Order

variable {rows rows' : List EditorMonth} (h : rows.Perm rows')
include h

theorem rankIn_congr (period : PeriodType) : rankIn rows period = rankIn rows' period := by
  funext k e
  exact Activity.maxRank_congr ((h.filter _).map _)

theorem countsIn_congr (period : PeriodType) (k : ℤ) (userType : String) :
    (countsIn rows period k userType).Perm (countsIn rows' period k userType) := by
  have hedits : editsIn rows period k = editsIn rows' period k := by
    funext e
    exact ((h.filter _).map _).sum_nat
  unfold countsIn editorsIn activeIn
  rw [hedits, rankIn_congr h]
  exact ((((h.filter _).map _).dedup).filter _).map _

theorem exactRows_congr (ln : ℚ → ℚ) (period : PeriodType) :
    (exactRows ln rows period).Perm (exactRows ln rows' period) := by
  have hrows : ∀ g : ℤ ×ₗ String,
      exactRow ln period (ofLex g).1 (ofLex g).2 (countsIn rows period (ofLex g).1 (ofLex g).2)
        = exactRow ln period (ofLex g).1 (ofLex g).2
          (countsIn rows' period (ofLex g).1 (ofLex g).2) :=
    fun g => exactRow_congr ln period _ _ (countsIn_congr h period _ _)
  unfold exactRows groupOf
  simp only [hrows, rankIn_congr h]
  exact ((h.map _).dedup).map _

theorem allRows_congr (ln : ℚ → ℚ) : allRows ln rows = allRows ln rows' := by
  refine eq_allRows ?_ allRows_pairwise
  refine (List.perm_insertionSort _ _).trans (List.Perm.trans ?_ (List.perm_insertionSort _ _).symm)
  exact ((exactRows_congr h ln _).append (exactRows_congr h ln _)).append (exactRows_congr h ln _)

theorem InRange.congr {period : PeriodType} (hrange : InRange rows period) :
    InRange rows' period := by
  refine ⟨fun k => ?_, fun k => ?_⟩
  · rw [← ((h.filter _).map _).sum_nat]
    exact hrange.edits k
  · have hlength : (activeIn rows period k).length = (activeIn rows' period k).length :=
      (((h.filter _).map _).dedup).length_eq
    rw [← hlength]
    exact hrange.editors k

end Order

theorem InRange.sublist {rows rows' : List EditorMonth} {period : PeriodType}
    (h : InRange rows period) (hsub : rows'.Sublist rows) : InRange rows' period := by
  refine ⟨fun k => ?_, fun k => ?_⟩
  · have hedits := ((hsub.filter fun m => (m.key period).1 = k).map EditorMonth.edits)
    exact (hedits.sum_le_sum fun n _ => Nat.zero_le n).trans (h.edits k)
  · have heditors := ((hsub.filter fun m => (m.key period).1 = k).map EditorMonth.identity).subset
    have hsubset : activeIn rows' period k ⊆ activeIn rows period k := fun e he =>
      List.mem_dedup.mpr (heditors (List.mem_dedup.mp he))
    exact ((List.nodup_dedup _).subperm hsubset).length_le.trans (h.editors k)

/-! ## The loop over the years -/

/-- The editor-months of some partitions. -/
def monthsOf (partitions : List Partition) : List EditorMonth :=
  (partitions.map Partition.editorMonths).flatten

/-- What is in the cache was computed from the months of its digests. -/
def Sound (ln : ℚ → ℚ) (content : String → List EditorMonth) (cache : CrossSnapshotCache) : Prop :=
  ∀ digests frame, cache.lookup digests = some frame → ∃ order months,
    months.Perm (digests.map content).flatten ∧ computePeriods ln order months = .ok frame

section Loop

variable {ln : ℚ → ℚ} {content : String → List EditorMonth}

theorem monthsOf_append (a b : List Partition) : monthsOf (a ++ b) = monthsOf a ++ monthsOf b := by
  unfold monthsOf
  rw [List.map_append, List.flatten_append]

theorem content_perm {partitions : List Partition}
    (h : ∀ p ∈ partitions, p.editorMonths.Perm (content p.digest)) :
    (monthsOf partitions).Perm ((partitions.map Partition.digest).map content).flatten := by
  induction partitions with
  | nil => exact List.Perm.refl _
  | cons p rest ih =>
    exact (h p List.mem_cons_self).append (ih fun q hq => h q (List.mem_cons_of_mem p hq))

/-- Where the loop is: the partitions of past years are out, those of the year in hand are not. -/
structure AtYear (ln : ℚ → ℚ) (content : String → List EditorMonth) (past inHand : List Partition)
    (s : YearState) : Prop where
  out : s.outputFrames.flatten = allRows ln (monthsOf past)
  frames : s.editorMonthFrames = inHand.map Partition.editorMonths
  digests : s.cache.isSome → s.monthDigests = inHand.map Partition.digest
  sound : ∀ cache, s.cache = some cache → Sound ln content cache
  current : ∀ p ∈ inHand, s.inequalityYear = some p.yearMonth.year
  seen : ∀ year, s.inequalityYear = some year → ∃ p ∈ past ++ inHand, p.yearMonth.year = year
  past_le : ∀ p ∈ past, ∃ year, s.inequalityYear = some year ∧ p.yearMonth.year ≤ year
  apart : ∀ p ∈ past, ∀ q ∈ inHand, p.yearMonth.year < q.yearMonth.year

/-- Partitions as they are listed, with the months that their digests identify. -/
structure Listed (content : String → List EditorMonth) (partitions : List Partition) : Prop where
  own : ∀ p ∈ partitions, ∀ m ∈ p.editorMonths, m.yearMonth = p.yearMonth
  ordered : partitions.Pairwise fun p q => p.yearMonth.year ≤ q.yearMonth.year
  identified : ∀ p ∈ partitions, p.editorMonths.Perm (content p.digest)
  inRange : ∀ period, InRange (monthsOf partitions) period

/-- What a finished year leaves. -/
structure Finished (ln : ℚ → ℚ) (content : String → List EditorMonth) (inHand : List Partition)
    (s t : YearState) : Prop where
  out : t.outputFrames.flatten = s.outputFrames.flatten ++ allRows ln (monthsOf inHand)
  frames : t.editorMonthFrames = []
  digests : t.cache.isSome → t.monthDigests = []
  sound : ∀ cache, t.cache = some cache → Sound ln content cache
  year : t.inequalityYear = s.inequalityYear

section Finish

variable {order : RowOrder} {past inHand : List Partition} {s : YearState}
  (h : AtYear ln content past inHand s) (hrange : ∀ period, InRange (monthsOf inHand) period)
include h hrange

theorem AtYear.compute : computePeriods ln order (concatFrames s.editorMonthFrames)
    = .ok (allRows ln (monthsOf inHand)) := by
  have hconcat : (concatFrames s.editorMonthFrames).Perm (monthsOf inHand) := by
    rw [h.frames]
    exact concatFrames_perm _
  rw [computePeriods_eq order fun period => (hrange period).congr hconcat.symm,
    allRows_congr hconcat]

variable (hcontent : ∀ p ∈ inHand, p.editorMonths.Perm (content p.digest))
include hcontent

theorem cachedYear_spec {cache : CrossSnapshotCache} (hcache : s.cache = some cache) :
    ∃ t, cachedYear ln order s cache = .ok t ∧ Finished ln content inHand s t := by
  have hdigests : s.monthDigests = inHand.map Partition.digest := h.digests (by rw [hcache]; rfl)
  have hperm := content_perm hcontent
  have hout : (s.outputFrames ++ [allRows ln (monthsOf inHand)]).flatten
      = s.outputFrames.flatten ++ allRows ln (monthsOf inHand) := by
    rw [List.flatten_append, List.flatten_singleton]
  unfold cachedYear
  cases hlookup : cache.lookup s.monthDigests with
  | some frame =>
    -- what the cache holds is what would be computed
    obtain ⟨order', months, hmonths, hframe⟩ := h.sound cache hcache _ _ hlookup
    rw [hdigests] at hmonths
    have hsame := hmonths.trans hperm.symm
    rw [computePeriods_eq order' fun period => (hrange period).congr hsame.symm,
      allRows_congr hsame] at hframe
    cases hframe
    exact ⟨_, rfl, hout, rfl, fun _ => rfl, h.sound, rfl⟩
  | none =>
    refine ⟨_, bind_eq_ok.mpr ⟨_, h.compute hrange, rfl⟩, hout, rfl, fun _ => rfl, ?_, rfl⟩
    intro stored hstored digests frame hfound
    cases hstored
    rw [List.lookup_cons] at hfound
    by_cases hkey : digests = s.monthDigests
    · subst hkey
      rw [beq_self_eq_true] at hfound
      cases hfound
      refine ⟨order, _, ?_, h.compute hrange⟩
      rw [hdigests, h.frames]
      exact (concatFrames_perm _).trans hperm
    · rw [beq_eq_false_iff_ne.mpr hkey] at hfound
      exact h.sound cache hcache digests frame hfound

/-- A year that is finished is out. -/
theorem finish_spec :
    ∃ t, finishInequalityYearCached ln order s = .ok t ∧ Finished ln content inHand s t := by
  unfold finishInequalityYearCached
  by_cases hempty : s.editorMonthFrames = []
  · rw [if_pos hempty]
    have hnone : inHand = [] := List.map_eq_nil_iff.mp (h.frames.symm.trans hempty)
    refine ⟨_, rfl, ?_, hempty, fun _ => rfl, h.sound, rfl⟩
    show s.outputFrames.flatten = _
    rw [hnone]
    exact (List.append_nil _).symm
  · rw [if_neg hempty]
    cases hcache : s.cache with
    | none =>
      refine ⟨_, bind_eq_ok.mpr ⟨_, h.compute hrange, rfl⟩, ?_, rfl, fun hsome => ?_, ?_, rfl⟩
      · show (s.outputFrames ++ [_]).flatten = _
        rw [List.flatten_append, List.flatten_singleton]
      · cases hsome
      · intro cache hsome
        cases hsome
    | some cache =>
      obtain ⟨t, ht, hfinished⟩ :=
        @cachedYear_spec ln content order past inHand s h hrange hcontent cache hcache
      have hlength : s.editorMonthFrames.length = s.monthDigests.length := by
        rw [h.frames, h.digests (by rw [hcache]; rfl), List.length_map, List.length_map]
      exact ⟨t, bind_eq_ok.mpr ⟨(), ensure_eq_ok.mpr hlength, ht⟩, hfinished⟩

end Finish

theorem monthsOf_sublist {a b : List Partition} (h : a.Sublist b) :
    (monthsOf a).Sublist (monthsOf b) := (h.map _).flatten

/-- A finished year joins those before it. -/
theorem Finished.atYear {past inHand : List Partition} {s t : YearState}
    (h : AtYear ln content past inHand s) (hfinished : Finished ln content inHand s t)
    (hown : ∀ p ∈ past ++ inHand, ∀ m ∈ p.editorMonths, m.yearMonth = p.yearMonth) :
    AtYear ln content (past ++ inHand) [] t := by
  refine ⟨?_, hfinished.frames, hfinished.digests, hfinished.sound, fun p hp => ?_,
    fun year hyear => ?_,
    fun p hp => ?_, fun p _ q hq => ?_⟩
  · have hapart : ∀ m ∈ monthsOf past, ∀ n ∈ monthsOf inHand,
      m.yearMonth.year < n.yearMonth.year := by
      intro m hm n hn
      obtain ⟨frame, hframe, hm⟩ := List.mem_flatten.mp hm
      obtain ⟨p, hp, rfl⟩ := List.mem_map.mp hframe
      obtain ⟨frame', hframe', hn⟩ := List.mem_flatten.mp hn
      obtain ⟨q, hq, rfl⟩ := List.mem_map.mp hframe'
      rw [hown p (List.mem_append_left _ hp) m hm, hown q (List.mem_append_right _ hq) n hn]
      exact h.apart p hp q hq
    rw [hfinished.out, h.out, monthsOf_append, allRows_append hapart]
  · exact absurd hp List.not_mem_nil
  · rw [List.append_nil]
    exact h.seen year (hfinished.year ▸ hyear)
  · rw [hfinished.year]
    rcases List.mem_append.mp hp with hp | hp
    · exact h.past_le p hp
    · exact ⟨_, h.current p hp, le_refl _⟩
  · exact absurd hq List.not_mem_nil

theorem closeYear_spec (order : RowOrder) {past inHand : List Partition} {s : YearState}
    (h : AtYear ln content past inHand s) (hbegun : s.inequalityYear ≠ none → inHand ≠ [])
    (hlisted : Listed content (past ++ inHand)) {year : ℕ}
    (hyear : ∀ p ∈ past ++ inHand, p.yearMonth.year ≤ year) :
    ∃ t past' inHand', closeYear ln order year s = .ok t ∧ past' ++ inHand' = past ++ inHand ∧
      AtYear ln content past' inHand' t ∧ (∀ p ∈ past', p.yearMonth.year < year) ∧
      ∀ p ∈ inHand', p.yearMonth.year = year := by
  unfold closeYear
  cases hcurrent : s.inequalityYear with
  | none =>
    refine ⟨s, past, inHand, rfl, rfl, h, fun p hp => ?_, fun p hp => ?_⟩
    · obtain ⟨year', hyear', -⟩ := h.past_le p hp
      exact absurd (hcurrent.symm.trans hyear') (by simp)
    · exact absurd (hcurrent.symm.trans (h.current p hp)) (by simp)
  | some currentYear =>
    obtain ⟨p, hp, hseen⟩ := h.seen currentYear hcurrent
    have hle : currentYear ≤ year := hseen ▸ hyear p hp
    have hinHand : ∀ p ∈ inHand, p.yearMonth.year = currentYear := fun p hp =>
      (Option.some.inj (hcurrent.symm.trans (h.current p hp))).symm
    -- The year goes on, or the one in hand is finished and joins those past.
    by_cases hsame : year = currentYear
    · refine ⟨s, past, inHand, bind_eq_ok.mpr ⟨(), ensure_eq_ok.mpr hle, ?_⟩, rfl, h,
        fun p hp => ?_, fun p hp => (hinHand p hp).trans hsame.symm⟩
      · rw [if_neg (not_not.mpr hsame)]
        rfl
      · -- a past year is not the one in hand
        obtain ⟨q, hq⟩ := List.exists_mem_of_ne_nil inHand (hbegun (by rw [hcurrent]; simp))
        have hbefore := h.apart p hp q hq
        have hcurrentYear := hinHand q hq
        omega
    · have hcontent : ∀ p ∈ inHand, p.editorMonths.Perm (content p.digest) := fun p hp =>
        hlisted.identified p (List.mem_append_right _ hp)
      have hrange : ∀ period, InRange (monthsOf inHand) period := fun period =>
        (hlisted.inRange period).sublist (monthsOf_sublist (List.sublist_append_right _ _))
      obtain ⟨t, ht, hfinished⟩ := @finish_spec ln content order past inHand s h hrange hcontent
      refine ⟨t, past ++ inHand, [], bind_eq_ok.mpr ⟨(), ensure_eq_ok.mpr hle, ?_⟩,
        List.append_nil _,
        hfinished.atYear h hlisted.own, fun p hp => ?_, fun p hp => absurd hp List.not_mem_nil⟩
      · rw [if_pos hsame]
        exact ht
      · rcases List.mem_append.mp hp with hp | hp
        · obtain ⟨year', hyear', hpast⟩ := h.past_le p hp
          cases Option.some.inj (hcurrent.symm.trans hyear')
          omega
        · have := hinHand p hp
          omega

theorem observePartition_spec (order : RowOrder) {past inHand : List Partition} {s : YearState}
    {p : Partition} (h : AtYear ln content past inHand s)
    (hbegun : s.inequalityYear ≠ none → inHand ≠ []) (hlisted : Listed content (past ++ inHand))
    (hyear : ∀ q ∈ past ++ inHand, q.yearMonth.year ≤ p.yearMonth.year) :
    ∃ t past' inHand', observePartition ln order s p = .ok t ∧
      past' ++ (inHand' ++ [p]) = past ++ inHand ++ [p] ∧
        AtYear ln content past' (inHand' ++ [p]) t := by
  obtain ⟨t, past', inHand', ht, hsplit, hat, hpast, hinHand⟩ :=
    closeYear_spec order h hbegun hlisted hyear
  refine ⟨_, past', inHand', bind_eq_ok.mpr ⟨t, ht, rfl⟩, by rw [← List.append_assoc, hsplit],
    hat.out, ?_, fun hsome => ?_, hat.sound, fun q hq => ?_, fun year hcurrent => ?_,
    fun q hq => ⟨_, rfl, (hpast q hq).le⟩, fun q hq r hr => ?_⟩
  · show t.editorMonthFrames ++ [p.editorMonths] = _
    rw [hat.frames, List.map_append]
    rfl
  · have hsome : t.cache.isSome = true := hsome
    show (if t.cache.isSome then t.monthDigests ++ [p.digest] else t.monthDigests) = _
    rw [if_pos hsome, hat.digests hsome, List.map_append]
    rfl
  · rcases List.mem_append.mp hq with hq | hq
    · exact congrArg some (hinHand q hq).symm
    · rw [List.mem_singleton.mp hq]
  · exact ⟨p, by simp, Option.some.inj hcurrent⟩
  · rcases List.mem_append.mp hr with hr | hr
    · exact (hpast q hq).trans_eq (hinHand r hr).symm
    · rw [List.mem_singleton.mp hr]
      exact hpast q hq

theorem Listed.sublist {part whole : List Partition} (h : Listed content whole)
    (hsub : part.Sublist whole) : Listed content part where
  own p hp := h.own p (hsub.subset hp)
  ordered := h.ordered.sublist hsub
  identified p hp := h.identified p (hsub.subset hp)
  inRange period := (h.inRange period).sublist (monthsOf_sublist hsub)

/-- The loop, over what is left of the partitions. -/
theorem observePartitions_spec (order : RowOrder) {rest past inHand : List Partition}
    {s : YearState}
    (h : AtYear ln content past inHand s) (hbegun : s.inequalityYear ≠ none → inHand ≠ [])
    (hlisted : Listed content (past ++ inHand ++ rest)) :
    ∃ t past' inHand', rest.foldlM (observePartition ln order) s = .ok t ∧
      past' ++ inHand' = past ++ inHand ++ rest ∧ AtYear ln content past' inHand' t := by
  induction rest generalizing past inHand s with
  | nil => exact ⟨s, past, inHand, rfl, (List.append_nil _).symm, h⟩
  | cons p rest ih =>
    have hbefore := (List.pairwise_append.mp hlisted.ordered).2.2
    obtain ⟨t, past', inHand', ht, hsplit, hat⟩ := observePartition_spec order h hbegun
      (hlisted.sublist (List.sublist_append_left _ _)) fun q hq => hbefore q hq p List.mem_cons_self
    have hwhole : past' ++ (inHand' ++ [p]) ++ rest = past ++ inHand ++ p :: rest := by
      rw [hsplit, List.append_assoc, List.singleton_append]
    obtain ⟨u, past'', inHand'', hu, hsplit', hat'⟩ := ih hat (fun _ => by simp)
      (by rw [hwhole]; exact hlisted)
    refine ⟨u, past'', inHand'', ?_, hsplit'.trans hwhole, hat'⟩
    rw [List.foldlM_cons]
    exact bind_eq_ok.mpr ⟨t, ht, hu⟩

/-- The frames of the years, one behind the other. -/
theorem inequalityFrames_spec (order : RowOrder) {cache : Option CrossSnapshotCache}
    {partitions : List Partition} (hlisted : Listed content partitions)
    (hsound : ∀ stored, cache = some stored → Sound ln content stored) :
    ∃ s, inequalityFrames ln order cache partitions = .ok s ∧
      s.outputFrames.flatten = allRows ln (monthsOf partitions) ∧
      ∀ stored, s.cache = some stored → Sound ln content stored := by
  have hstart : AtYear ln content [] [] ⟨[], [], [], cache, none⟩ :=
    ⟨rfl, rfl, fun _ => rfl, hsound, fun p hp => absurd hp List.not_mem_nil,
      fun year hyear => absurd hyear (by simp), fun p hp => absurd hp List.not_mem_nil,
      fun p hp => absurd hp List.not_mem_nil⟩
  obtain ⟨s, past, inHand, hs, hsplit, hat⟩ := @observePartitions_spec ln content order partitions
    [] [] _ hstart (fun hbegun => absurd rfl hbegun) hlisted
  have hsplit : past ++ inHand = partitions := hsplit
  subst hsplit
  obtain ⟨t, ht, hfinished⟩ := @finish_spec ln content order past inHand s hat
    (fun period => (hlisted.inRange period).sublist
      (monthsOf_sublist (List.sublist_append_right _ _)))
    fun p hp => hlisted.identified p (List.mem_append_right _ hp)
  have hout := (hfinished.atYear hat hlisted.own).out
  exact ⟨t, bind_eq_ok.mpr ⟨s, hs, ht⟩, hout, hfinished.sound⟩

end Loop

/-! ## What is promised -/

/-- What the frame of one kind of period is. -/
structure Exact (ln : ℚ → ℚ) (rows : List EditorMonth) (period : PeriodType)
    (result : List InequalityRow) : Prop where
  /-- There is a row for each user type with an editor, over the edits of its editors. -/
  mem_iff : ∀ row, row ∈ result ↔ ∃ k userType, editorsIn rows period k userType ≠ [] ∧
    row = exactRow ln period k userType (countsIn rows period k userType)
  nodup : (result.map fun row => (row.period, row.userType)).Nodup
  /-- An editor of a period is counted under one user type, once. -/
  once : ∀ m ∈ rows, ∃! userType,
    (editorsIn rows period (m.key period).1 userType).count m.identity = 1
  conserved : (result.map InequalityRow.totalEdits).sum = (rows.map EditorMonth.edits).sum
  /-- The fewest of the most active editors that have half of the edits. -/
  half : ∀ k userType, IsLeast
    {n : ℕ | (ascending (countsIn rows period k userType)).sum
      ≤ 2 * (((ascending (countsIn rows period k userType)).reverse.take n).sum)}
    (exactRow ln period k userType (countsIn rows period k userType)).minEditors50pct
  half_zero : ∀ row ∈ result, row.minEditors50pct = 0 ↔ row.totalEdits = 0
  gini : ∀ row ∈ result, 0 ≤ row.gini ∧ row.gini < 1

/-- All edits, times the same number. -/
def scale (c : ℕ) (rows : List EditorMonth) : List EditorMonth :=
  rows.map fun m => { m with edits := c * m.edits }

section Promise

variable {rows : List EditorMonth} {period : PeriodType}

theorem filter_scale (c : ℕ) (keep : ℤ × Identity → Bool) :
    (scale c rows).filter (fun m => keep (m.key period))
      = scale c (rows.filter fun m => keep (m.key period)) := by
  unfold scale
  rw [List.filter_map]
  rfl

theorem rankIn_scale (c : ℕ) : rankIn (scale c rows) period = rankIn rows period := by
  funext k e
  unfold rankIn
  rw [filter_scale c fun key => key = (k, e)]
  unfold scale
  rw [List.map_map]
  rfl

theorem editsIn_scale (c : ℕ) (k : ℤ) (e : Identity) :
    editsIn (scale c rows) period k e = c * editsIn rows period k e := by
  unfold editsIn
  rw [filter_scale c fun key => key = (k, e)]
  unfold scale
  rw [List.map_map, ← List.sum_map_mul_left]
  rfl

theorem countsIn_scale (c : ℕ) (k : ℤ) (userType : String) :
    countsIn (scale c rows) period k userType = (countsIn rows period k userType).map (c * ·) := by
  have hactive : activeIn (scale c rows) period k = activeIn rows period k := by
    unfold activeIn
    rw [filter_scale c fun key => key.1 = k]
    unfold scale
    rw [List.map_map]
    rfl
  unfold countsIn editorsIn
  rw [hactive, rankIn_scale, List.map_map]
  exact List.map_congr_left fun e _ => editsIn_scale c k e

theorem ascending_scale (c : ℕ) (counts : List ℕ) :
    ascending (counts.map (c * ·)) = (ascending counts).map ((c : ℚ) * ·) := by
  have hperm : (ascending (counts.map (c * ·))).Perm ((ascending counts).map ((c : ℚ) * ·)) := by
    refine (List.perm_insertionSort _ _).trans ?_
    refine List.Perm.trans (List.Perm.of_eq ?_) ((List.perm_insertionSort _ _).map _).symm
    rw [List.map_map, List.map_map]
    exact List.map_congr_left fun n _ => Nat.cast_mul c n
  refine hperm.eq_of_pairwise (fun _ _ _ _ h h' => le_antisymm h h')
    (List.pairwise_insertionSort _ _) ?_
  refine List.pairwise_map.mpr ((List.pairwise_insertionSort _ _).imp fun h => ?_)
  exact mul_le_mul_of_nonneg_left h (Nat.cast_nonneg c)

/-- The coefficient has no unit. -/
theorem exactRows_scale (ln : ℚ → ℚ) {c : ℕ} (hc : 0 < c) :
    (exactRows ln (scale c rows) period).map (fun row => (row.period, row.userType, row.gini))
      = (exactRows ln rows period).map fun row => (row.period, row.userType, row.gini) := by
  have hgroups : ((scale c rows).map fun m => groupOf (scale c rows) period (m.key period))
      = rows.map fun m => groupOf rows period (m.key period) := by
    unfold groupOf
    rw [rankIn_scale]
    unfold scale
    rw [List.map_map]
    rfl
  unfold exactRows
  rw [hgroups, List.map_map, List.map_map]
  refine List.map_congr_left fun g _ => ?_
  have hgini : giniFromSorted (ascending (countsIn (scale c rows) period (ofLex g).1 (ofLex g).2))
      = giniFromSorted (ascending (countsIn rows period (ofLex g).1 (ofLex g).2)) := by
    rw [countsIn_scale, ascending_scale, giniFromSorted_scale (Nat.cast_ne_zero.mpr (by omega))]
  exact congrArg (fun gini => (_, _, gini)) hgini

theorem mem_editorsIn {k : ℤ} {userType : String} {e : Identity} :
    e ∈ editorsIn rows period k userType ↔ (∃ m ∈ rows, m.key period = (k, e)) ∧
      (userTypeFromRank (rankIn rows period k e)).label = userType := by
  unfold editorsIn activeIn
  rw [List.mem_filter, List.mem_dedup, List.mem_map, decide_eq_true_iff]
  refine and_congr_left fun _ => ⟨?_, ?_⟩
  · rintro ⟨m, hm, rfl⟩
    obtain ⟨hrows, hk⟩ := List.mem_filter.mp hm
    exact ⟨m, hrows, Prod.ext (of_decide_eq_true hk) rfl⟩
  · rintro ⟨m, hrows, hkey⟩
    refine ⟨m, List.mem_filter.mpr ⟨hrows, decide_eq_true ?_⟩, congrArg Prod.snd hkey⟩
    rw [hkey]

theorem mem_exactRows_iff (ln : ℚ → ℚ) (row : InequalityRow) :
    row ∈ exactRows ln rows period ↔ ∃ k userType, editorsIn rows period k userType ≠ [] ∧
      row = exactRow ln period k userType (countsIn rows period k userType) := by
  unfold exactRows
  rw [List.mem_map]
  constructor
  · rintro ⟨g, hg, rfl⟩
    obtain ⟨m, hm, rfl⟩ := List.mem_map.mp (List.mem_dedup.mp hg)
    have hmem : m.identity ∈ editorsIn rows period (m.key period).1
        (userTypeFromRank (rankIn rows period (m.key period).1 (m.key period).2)).label :=
      mem_editorsIn.mpr ⟨⟨m, hm, rfl⟩, rfl⟩
    exact ⟨_, _, List.ne_nil_of_mem hmem, rfl⟩
  · rintro ⟨k, userType, hne, rfl⟩
    obtain ⟨e, he⟩ := List.exists_mem_of_ne_nil _ hne
    obtain ⟨⟨m, hm, hkey⟩, htype⟩ := mem_editorsIn.mp he
    refine ⟨toLex (k, userType), List.mem_dedup.mpr (List.mem_map.mpr ⟨m, hm, ?_⟩), rfl⟩
    rw [hkey]
    exact congrArg (fun t => toLex (k, t)) htype

/-- A period and a user type have one row. -/
theorem nodup_exactRows (ln : ℚ → ℚ) :
    ((exactRows ln rows period).map fun row => (row.period, row.userType)).Nodup := by
  unfold exactRows
  rw [List.map_map]
  refine (List.nodup_dedup _).map_on fun g hg g' hg' heq => ?_
  obtain ⟨m, -, rfl⟩ := List.mem_map.mp (List.mem_dedup.mp hg)
  obtain ⟨m', -, rfl⟩ := List.mem_map.mp (List.mem_dedup.mp hg')
  have hfields := Prod.ext_iff.mp heq
  exact toLex_inj.mpr (Prod.ext (Activity.periodTexts_inj hfields.1) hfields.2)

theorem isLeast_half (ln : ℚ → ℚ) (k : ℤ) (userType : String) (counts : List ℕ) :
    IsLeast {n : ℕ | (ascending counts).sum ≤ 2 * ((ascending counts).reverse.take n).sum}
      (exactRow ln period k userType counts).minEditors50pct := by
  have hleast := @minEditors50pct_isLeast (ascending counts).reverse fun v hv =>
    ascending_nonneg (List.mem_reverse.mp hv)
  rwa [List.sum_reverse] at hleast

theorem exact_of_perm {ln : ℚ → ℚ} {result : List InequalityRow}
    (hperm : result.Perm (exactRows ln rows period)) : Exact ln rows period result := by
  refine ⟨fun row => hperm.mem_iff.trans (mem_exactRows_iff ln row), ?_, fun m hm => ?_, ?_,
    fun k userType => isLeast_half ln k userType _, fun row hrow => ?_, fun row hrow => ?_⟩
  · exact (hperm.map _).nodup_iff.mpr (nodup_exactRows ln)
  · have hnodup : ∀ userType, (editorsIn rows period (m.key period).1 userType).Nodup :=
      fun userType => (List.nodup_dedup _).filter _
    refine ⟨_, List.count_eq_one_of_mem (hnodup _) (mem_editorsIn.mpr ⟨⟨m, hm, rfl⟩, rfl⟩),
      fun userType hone => ?_⟩
    have hmem : m.identity ∈ editorsIn rows period (m.key period).1 userType :=
      List.count_pos_iff.mp (by omega)
    exact (mem_editorsIn.mp hmem).2.symm
  · rw [(hperm.map _).sum_nat, sum_exactRows]
  · obtain ⟨k, userType, -, rfl⟩ := (mem_exactRows_iff ln row).mp (hperm.mem_iff.mp hrow)
    obtain ⟨hreached, hleast⟩ :=
      @isLeast_half period ln k userType (countsIn rows period k userType)
    have hsum := sum_ascending (countsIn rows period k userType)
    constructor
    · intro hzero
      have hnone : (ascending (countsIn rows period k userType)).sum
          ≤ 2 * ((ascending (countsIn rows period k userType)).reverse.take 0).sum :=
            hzero ▸ hreached
      rw [hsum, List.take_zero, List.sum_nil, mul_zero] at hnone
      exact Nat.le_zero.mp (by exact_mod_cast hnone)
    · intro hzero
      have hzero : (countsIn rows period k userType).sum = 0 := hzero
      refine Nat.le_zero.mp (hleast ?_)
      show (ascending (countsIn rows period k userType)).sum ≤ 2 * (List.take 0 _).sum
      rw [hsum, hzero, List.take_zero, List.sum_nil, mul_zero, Nat.cast_zero]
  · obtain ⟨k, userType, -, rfl⟩ := (mem_exactRows_iff ln row).mp (hperm.mem_iff.mp hrow)
    exact giniFromSorted_range (List.pairwise_insertionSort _ _) fun v hv => ascending_nonneg hv

end Promise

/-- **Inequality rows are exact per period**, the coefficient has no unit, and years may be
computed one by one. -/
theorem inequality_exact (ln : ℚ → ℚ) (order : RowOrder) :
    (∀ rows period, InRange rows period → ∃ result,
      computePeriodFrame ln order rows period = .ok result ∧ Exact ln rows period result ∧
      ∀ c, 0 < c → InRange (scale c rows) period → ∃ scaled,
        computePeriodFrame ln order (scale c rows) period = .ok scaled ∧
        (scaled.map fun row => (row.period, row.userType, row.gini)).Perm
          (result.map fun row => (row.period, row.userType, row.gini))) ∧
    ∀ content cache partitions, Listed content partitions →
      (∀ stored, cache = some stored → Sound ln content stored) → ∃ s result,
        inequalityFrames ln order cache partitions = .ok s ∧
        computePeriods ln order (concatFrames (partitions.map Partition.editorMonths)) =
          .ok result ∧
        s.outputFrames.flatten = result ∧
        ∀ stored, s.cache = some stored → Sound ln content stored := by
  refine ⟨fun rows period hrange => ?_, fun content cache partitions hlisted hsound => ?_⟩
  · obtain ⟨result, hresult, hperm⟩ := computePeriodFrame_eq ln order hrange
    refine ⟨result, hresult, exact_of_perm hperm, fun c hc hscaled => ?_⟩
    obtain ⟨scaled, hscaled, hperm'⟩ := computePeriodFrame_eq ln order hscaled
    refine ⟨scaled, hscaled, (hperm'.map _).trans ?_⟩
    rw [exactRows_scale ln hc]
    exact (hperm.map _).symm
  · obtain ⟨s, hs, hout, hkept⟩ := inequalityFrames_spec order hlisted hsound
    have hconcat : (concatFrames (partitions.map Partition.editorMonths)).Perm
      (monthsOf partitions) :=
      concatFrames_perm _
    refine ⟨s, allRows ln (monthsOf partitions), hs, ?_, hout, hkept⟩
    rw [computePeriods_eq order fun period => (hlisted.inRange period).congr hconcat.symm,
      allRows_congr hconcat]

theorem inRange_of_total {rows : List EditorMonth}
    (hedits : (rows.map EditorMonth.edits).sum ≤ u32Max)
    (hlength : rows.length ≤ u32Max) (period : PeriodType) : InRange rows period := by
  refine ⟨fun k => ?_, fun k => ?_⟩
  · have hsub := (List.filter_sublist (l := rows) (p := fun m => (m.key period).1 = k)).map
      EditorMonth.edits
    exact (hsub.sum_le_sum fun n _ => Nat.zero_le n).trans hedits
  · have hlist : (activeIn rows period k).length ≤ rows.length := by
      unfold activeIn
      refine (List.dedup_sublist _).length_le.trans ?_
      rw [List.length_map]
      exact List.length_filter_le _ _
    exact hlist.trans hlength

/-- Three editors of a December, two of them of one kind, one of whom goes on in the January
after it. -/
def twoYears : List Partition :=
  let december := YearMonth.ofYear 2023 11
  let january := YearMonth.ofYear 2024 0
  [⟨december, [⟨december, ⟨some 1, none⟩, 0, 3⟩, ⟨december, ⟨some 3, none⟩, 0, 3⟩,
      ⟨december, ⟨some 2, none⟩, 3, 3⟩], "december"⟩,
    ⟨january, [⟨january, ⟨some 1, none⟩, 1, 2⟩], "january"⟩]

def contentOfTwo (digest : String) : List EditorMonth :=
  if digest = "december" then (twoYears.map Partition.editorMonths).getD 0 []
  else (twoYears.map Partition.editorMonths).getD 1 []

theorem listed_twoYears : Listed contentOfTwo twoYears := by
  refine ⟨?_, ?_, ?_, inRange_of_total (by decide) (by decide)⟩
  · decide
  · decide
  · decide

/-- The logarithm of one is zero, and no editor here differs from the mean. -/
theorem inequality_exact_twoYears :
    (∃ result, computePeriodFrame (fun _ => 0) .asComputed (monthsOf twoYears) .year = .ok result ∧
      Exact (fun _ => 0) (monthsOf twoYears) .year result) ∧
    ∃ s result, inequalityFrames (fun _ => 0) .asComputed (some []) twoYears = .ok s ∧
      computePeriods (fun _ => 0) .asComputed (concatFrames (twoYears.map Partition.editorMonths))
        = .ok result ∧
      s.outputFrames.flatten = result := by
  obtain ⟨hperiod, hyears⟩ := inequality_exact (fun _ => 0) .asComputed
  obtain ⟨result, hresult, hexact, -⟩ :=
    hperiod (monthsOf twoYears) .year (listed_twoYears.inRange .year)
  obtain ⟨s, whole, hs, hwhole, hout, -⟩ := hyears contentOfTwo (some []) twoYears listed_twoYears
    fun stored hstored digests frame hfound => by
      cases hstored
      cases hfound
  exact ⟨⟨result, hresult, hexact⟩, s, whole, hs, hwhole, hout⟩

end WikiEcon.Compute.Inequality
