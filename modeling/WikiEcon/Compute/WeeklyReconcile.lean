import WikiEcon.Compute.WeeklyBuckets
import Mathlib.Algebra.Order.BigOperators.Group.List

/-!
# One bucket reconciled, and all buckets together

Reconciling a bucket groups its rows and compares neighbours. The sums are `u32`
and can wrap, but then the bucket's edits are not what they were before, and the
check that compares the two fails: `totals_mergeBucket`. So a reconciled bucket
is the table of its rows (`reconcileWeeklyBucket_ok`).

Buckets that are told by the page id split the table between them, because the
week before belongs to the same page: `weeklyTable_perm`.
-/

namespace WikiEcon.Compute.Weekly

open Routing Workers SortedTable

/-! ## Grouping one bucket -/

/-- Terms that are bounded by others and add up to as much are equal to them. -/
theorem eq_of_sum_eq {α : Type} {f g : α → ℕ} :
    ∀ {l : List α}, (∀ x ∈ l, f x ≤ g x) → (l.map f).sum = (l.map g).sum →
      ∀ x ∈ l, f x = g x := by
  intro l
  induction l with
  | nil => intro _ _ x hx; exact absurd hx List.not_mem_nil
  | cons a l ih =>
    intro hle hsum
    have hl : ∀ x ∈ l, f x ≤ g x := fun x hx => hle x (List.mem_cons_of_mem _ hx)
    have hle' := hle a (List.mem_cons_self ..)
    have hsum' : (l.map f).sum ≤ (l.map g).sum := List.sum_le_sum hl
    rw [List.map_cons, List.map_cons, List.sum_cons, List.sum_cons] at hsum
    intro x hx
    rcases List.mem_cons.mp hx with rfl | hx
    · omega
    · exact ih hl (by omega) x hx

/-- A frame Polars can hold has a sum no `i64` confuses with another. -/
theorem sum_edits_lt {rows : List WeeklyRow} (hheight : rows.length ≤ idxSizeMax)
    (hedits : ∀ row ∈ rows, row.edits ≤ u32Max) : (rows.map (·.edits)).sum < 2 ^ 64 := by
  have hsum : (rows.map (·.edits)).sum ≤ (rows.map (·.edits)).length • u32Max :=
    List.sum_le_card_nsmul _ _ fun x hx => by
      obtain ⟨row, hrow, rfl⟩ := List.mem_map.mp hx
      exact hedits row hrow
  rw [List.length_map, smul_eq_mul] at hsum
  have hmul : rows.length * u32Max ≤ idxSizeMax * u32Max := Nat.mul_le_mul_right _ hheight
  have hlt : idxSizeMax * u32Max < 2 ^ 64 := by decide
  omega

/-- Grouped rows before they are sorted: one for each key. -/
theorem mergeBucket_perm (order : RowOrder) (staged : List WeeklyRow) :
    (mergeBucket order staged).Perm ((staged.map WeeklyRow.toWeeklyKey).dedup.map fun k =>
      { toWeeklyKey := k, edits := editsOf staged k % (u32Max + 1) }) :=
  (List.perm_insertionSort _ _).trans (groupBy_perm order _ _ staged)

/-- **No wrapped sum goes unnoticed**: a bucket that keeps its edits is added up. -/
theorem totals_mergeBucket {order : RowOrder} {staged : List WeeklyRow}
    (hheight : staged.length ≤ idxSizeMax) (hedits : ∀ row ∈ staged, row.edits ≤ u32Max)
    (hsum : sumEditsColumn staged = sumEditsColumn (mergeBucket order staged)) :
    Totals staged (mergeBucket order staged) := by
  have hperm := mergeBucket_perm order staged
  have hkeys : ((mergeBucket order staged).map WeeklyRow.toWeeklyKey).Perm
      (staged.map WeeklyRow.toWeeklyKey).dedup := by
    have hmap := hperm.map WeeklyRow.toWeeklyKey
    rw [List.map_map] at hmap
    exact hmap.trans (List.Perm.of_eq (List.map_id _))
  have hnodup : ((mergeBucket order staged).map WeeklyRow.toWeeklyKey).Nodup :=
    hkeys.nodup_iff.mpr (List.nodup_dedup _)
  have hle : (mergeBucket order staged).Pairwise (·.toWeeklyKey ≤ ·.toWeeklyKey) :=
    List.pairwise_insertionSort _ _
  -- the sum over the keys of what a group holds and of what a `u32` keeps of it
  have htotal : (((staged.map WeeklyRow.toWeeklyKey).dedup).map (editsOf staged)).sum
      = (staged.map (·.edits)).sum :=
    sum_groups WeeklyRow.toWeeklyKey (·.edits) staged
  have hmerged : ((mergeBucket order staged).map (·.edits)).sum
      = (((staged.map WeeklyRow.toWeeklyKey).dedup).map
          fun k => editsOf staged k % (u32Max + 1)).sum := by
    rw [(hperm.map (·.edits)).sum_eq, List.map_map]
    rfl
  have hmod : (((staged.map WeeklyRow.toWeeklyKey).dedup).map
      fun k => editsOf staged k % (u32Max + 1)).sum ≤ (staged.map (·.edits)).sum := by
    rw [← htotal]
    exact List.sum_le_sum fun k _ => Nat.mod_le _ _
  have hlt := sum_edits_lt hheight hedits
  have hequal : (staged.map (·.edits)).sum = ((mergeBucket order staged).map (·.edits)).sum :=
    eq_of_wrapI64_eq hsum hlt (by rw [hmerged]; omega)
  have hexact : ∀ k ∈ (staged.map WeeklyRow.toWeeklyKey).dedup,
      editsOf staged k % (u32Max + 1) = editsOf staged k :=
    eq_of_sum_eq (fun _ _ => Nat.mod_le _ _) (by rw [htotal, hequal, hmerged])
  constructor
  · exact hle.imp₂ (fun _ _ h h' => lt_of_le_of_ne h h') (List.pairwise_map.mp hnodup)
  · intro k
    have hmem := hkeys.mem_iff (a := k)
    rwa [List.mem_dedup, List.mem_map, List.mem_map] at hmem
  · intro a ha
    obtain ⟨k, hk, rfl⟩ := List.mem_map.mp (hperm.mem_iff.mp ha)
    exact hexact k hk

/-! ## Comparing neighbours -/

/-- The test on the row above is the test for the key right below. -/
theorem isContinuation_iff (current prior : WeeklyRow) :
    isContinuation current prior = true ↔
      current.toWeeklyKey.lastWeek = some prior.toWeeklyKey := by
  rcases current with ⟨⟨id, ns, title, week⟩, edits⟩
  rcases prior with ⟨⟨id', ns', title', week'⟩, edits'⟩
  cases week with
  | none => simp [isContinuation, WeeklyKey.lastWeek]
  | some week =>
    cases week' with
    | none => simp [isContinuation, WeeklyKey.lastWeek]
    | some week' =>
      simp only [isContinuation, WeeklyKey.samePage, WeeklyKey.lastWeek, Option.map_some,
        Option.some.injEq,
        WeeklyKey.mk.injEq, Bool.and_eq_true, decide_eq_true_eq, checkedSubDays_eq_seven,
        Monday.lastWeek, ← Monday.day_injective.eq_iff]
      constructor
      · rintro ⟨⟨⟨hid, hns⟩, htitle⟩, hweek⟩
        exact ⟨hid, hns, htitle, by omega⟩
      · rintro ⟨hid, hns, htitle, hweek⟩
        exact ⟨⟨⟨hid, hns⟩, htitle⟩, by omega⟩

/-- Where the columns can be added they are what comparing neighbours gives. -/
theorem zipWith_previousWeekEditsFrom (calendar : Calendar) (wiki : String) :
    ∀ {weekly : List WeeklyRow} {row : ℕ} {prior : Option WeeklyRow} {previous : List ℕ},
      previousWeekEditsFrom row prior weekly = .ok previous →
      List.zipWith (fun row previous =>
          outputRow calendar wiki row.toWeeklyKey row.edits previous) weekly previous
        = withPrevious (lagRow calendar wiki) prior weekly := by
  intro weekly
  induction weekly with
  | nil =>
    intro row prior previous _
    rfl
  | cons current rest ih =>
    intro row prior previous h
    cases prior with
    | none =>
      obtain ⟨tail, htail, hlast⟩ := bind_eq_ok.mp h
      obtain rfl : 0 :: tail = previous := Except.ok.inj hlast
      rw [List.zipWith_cons_cons, ih htail, withPrevious]
      rfl
    | some prior =>
      obtain ⟨_, -, h⟩ := bind_eq_ok.mp h
      obtain ⟨tail, htail, hlast⟩ := bind_eq_ok.mp h
      obtain rfl := Except.ok.inj hlast
      rw [List.zipWith_cons_cons, ih htail, withPrevious]
      congr 1
      rw [lagRow, lag]
      congr 1
      simp only [isContinuation_iff]

theorem addWeeklyChangeColumns_ok {calendar : Calendar} {wiki : String} {weekly : List WeeklyRow}
    {rows : List WeeklyOutputRow} (h : addWeeklyChangeColumns calendar wiki weekly = .ok rows) :
    rows = withPrevious (lagRow calendar wiki) none weekly := by
  obtain ⟨previous, hprevious, hrows⟩ := bind_eq_ok.mp h
  rw [← zipWith_previousWeekEditsFrom calendar wiki hprevious]
  exact (Except.ok.inj hrows).symm

/-! ## One reconciled bucket -/

theorem collect_ok {α : Type} {rows rows' : List α} (h : collect rows = .ok rows') :
    rows' = rows ∧ rows.length ≤ idxSizeMax := by
  obtain ⟨_, hheight, hrows⟩ := bind_eq_ok.mp h
  exact ⟨(Except.ok.inj hrows).symm, ensure_eq_ok.mp hheight⟩

theorem stagedRowsOf_height {dir : RunDir} {stagedPaths : List ℕ} {bucket : PreparedWeeklyBucket}
    {staged : List WeeklyRow} (h : stagedRowsOf dir stagedPaths bucket = .ok staged) :
    staged.length ≤ idxSizeMax := by
  unfold stagedRowsOf at h
  split at h
  · obtain ⟨file, -, hfile⟩ := bind_eq_ok.mp h
    obtain ⟨rfl, hheight⟩ := collect_ok hfile
    exact hheight
  · obtain ⟨_, -, h⟩ := bind_eq_ok.mp h
    obtain ⟨files, -, hfiles⟩ := bind_eq_ok.mp h
    obtain ⟨rfl, hheight⟩ := collect_ok hfiles
    exact hheight

/-- **A reconciled bucket is the table of its rows**, in the result file. -/
theorem reconcileWeeklyBucket_ok {circumstances : Circumstances} {calendar : Calendar}
    {wiki : String} {stagedPaths : List ℕ} {dir dir' : RunDir} {bucket : PreparedWeeklyBucket}
    {result : WeeklyBucketResult}
    (h : reconcileWeeklyBucket circumstances calendar wiki stagedPaths dir bucket
      = .ok (result, dir')) :
    ∃ staged, stagedRowsOf dir stagedPaths bucket = .ok staged ∧
      result.logicalBucket = bucket.logicalBucket ∧ result.resultPath = bucket.logicalBucket ∧
      ∃ rows, dir' = reclaimCompletedWeeklyScratch { dir with
          results := Function.update dir.results bucket.logicalBucket (some rows) }
          bucket.stagedPath ∧
        ((∀ row ∈ staged, row.edits ≤ u32Max) → rows = weeklyTable calendar wiki staged) := by
  obtain ⟨staged, hstaged, h⟩ := bind_eq_ok.mp h
  obtain ⟨_, -, h⟩ := bind_eq_ok.mp h
  obtain ⟨_, hsum, h⟩ := bind_eq_ok.mp h
  obtain ⟨rows, hrows, h⟩ := bind_eq_ok.mp h
  obtain ⟨_, -, h⟩ := bind_eq_ok.mp h
  obtain ⟨rfl, rfl⟩ := Prod.mk.inj (Except.ok.inj h)
  refine ⟨staged, hstaged, rfl, rfl, rows, rfl, fun hedits => ?_⟩
  have htotals := totals_mergeBucket (stagedRowsOf_height hstaged) hedits (ensure_eq_ok.mp hsum)
  rw [addWeeklyChangeColumns_ok hrows, htotals.withPrevious_eq]

/-! ## All buckets -/

/-- The rows of one bucket. -/
def bucketRowsOf (bucketOf : Option ℤ → ℕ) (rows : List WeeklyRow) (bucket : ℕ) : List WeeklyRow :=
  rows.filter fun row => bucketOf row.pageId = bucket

/-- A page's rows are all in its bucket. -/
theorem editsOf_bucketRowsOf {bucketOf : Option ℤ → ℕ} {rows : List WeeklyRow} {bucket : ℕ}
    {k : WeeklyKey} (hk : bucketOf k.pageId = bucket) :
    editsOf (bucketRowsOf bucketOf rows bucket) k = editsOf rows k := by
  rw [editsOf, editsOf, bucketRowsOf, List.filter_filter]
  congr 2
  refine List.filter_congr fun row _ => ?_
  by_cases h : row.toWeeklyKey = k
  · simp [h, hk]
  · simp [h]

/-- **Buckets told by the page id split the table between them.** -/
theorem weeklyTable_perm (calendar : Calendar) (wiki : String) {bucketOf : Option ℤ → ℕ} {n : ℕ}
    (hbucket : ∀ pageId, bucketOf pageId < n) (rows : List WeeklyRow) :
    ((List.range n).flatMap fun bucket =>
      weeklyTable calendar wiki (bucketRowsOf bucketOf rows bucket)).Perm
      (weeklyTable calendar wiki rows) := by
  have hmem : ∀ bucket k, k ∈ weeklyKeys (bucketRowsOf bucketOf rows bucket) ↔
      k ∈ weeklyKeys rows ∧ bucketOf k.pageId = bucket := by
    intro bucket k
    rw [weeklyKeys, weeklyKeys, mem_keys, mem_keys]
    constructor
    · rintro ⟨row, hrow, rfl⟩
      obtain ⟨hrow, hb⟩ := List.mem_filter.mp hrow
      exact ⟨⟨row, hrow, rfl⟩, of_decide_eq_true hb⟩
    · rintro ⟨⟨row, hrow, rfl⟩, hb⟩
      exact ⟨row, List.mem_filter.mpr ⟨hrow, decide_eq_true hb⟩, rfl⟩
  have hkeys : ((List.range n).flatMap fun bucket =>
      weeklyKeys (bucketRowsOf bucketOf rows bucket)).Perm (weeklyKeys rows) := by
    refine (List.perm_ext_iff_of_nodup ?_ (keys_nodup rows)).mpr fun k => ?_
    · refine List.nodup_flatMap.mpr ⟨fun bucket _ => keys_nodup _, ?_⟩
      refine List.nodup_range.imp fun hne k hk hk' => hne ?_
      exact ((hmem _ k).mp hk).2.symm.trans ((hmem _ k).mp hk').2
    · simp only [List.mem_flatMap, List.mem_range, hmem]
      constructor
      · rintro ⟨bucket, -, hk, -⟩
        exact hk
      · exact fun hk => ⟨_, hbucket _, hk, rfl⟩
  have hrow : ∀ bucket, weeklyTable calendar wiki (bucketRowsOf bucketOf rows bucket)
      = (weeklyKeys (bucketRowsOf bucketOf rows bucket)).map fun k =>
          outputRow calendar wiki k (editsOf rows k) (previousEditsOf rows k) := by
    intro bucket
    refine List.map_congr_left fun k hk => ?_
    have hb := ((hmem bucket k).mp hk).2
    rw [editsOf_bucketRowsOf hb, previousEditsOf, previousEditsOf]
    congr 1
    cases hlast : k.lastWeek with
    | none => rfl
    | some q =>
      -- the week before is the same page's
      have hq : q.pageId = k.pageId := by
        obtain ⟨week, -, rfl⟩ := Option.map_eq_some_iff.mp hlast
        rfl
      rw [Option.map_some, Option.map_some, editsOf_bucketRowsOf (by rw [hq, hb])]
  simp only [hrow]
  rw [← List.map_flatMap]
  exact hkeys.map _

end WikiEcon.Compute.Weekly
