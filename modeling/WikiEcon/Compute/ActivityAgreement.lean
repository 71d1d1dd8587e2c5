import WikiEcon.Compute.ActivityStream
import Mathlib.Algebra.Order.Group.Multiset
import Mathlib.Tactic.Abel

/-!
# When the activity stream and the batch agree

The batch drops a month without an edit before it adds an editor's months up;
the stream adds them all up and drops what has no edit afterwards. Months are
reported alike, and so are the edits of quarters and years. The user type and
the byte sums of a quarter or a year differ as far as the editors' months
without an edit show in them.

`stream_eq_batch_iff` says exactly when they do not: such a month must not raise
its editor's rank, and in every tier the bytes of such months must cancel.
-/

namespace WikiEcon.Compute.Activity

open Reports

/-! ## Two versions of the same editor-periods -/

def UserType.rank : UserType → ℕ
  | .bot => 3
  | .temporary => 2
  | .anonymous => 1
  | .registered => 0

theorem rank_userTypeFromRank {rank : ℕ} (h : rank ≤ 3) : (userTypeFromRank rank).rank = rank := by
  obtain rfl | rfl | rfl | rfl : rank = 0 ∨ rank = 1 ∨ rank = 2 ∨ rank = 3 := by omega
  all_goals rfl

/-- Two lists of editor-periods that may differ in rank and bytes. -/
structure Comparable (period : PeriodType) (K : List (ℤ × Identity))
    (f b : ℤ × Identity → EditorPeriod) : Prop where
  nodup : K.Nodup
  valid : ∀ k ∈ K, ∃ month : YearMonth, k.1 = normalizePeriodKey month.key period
  periodKey : ∀ k ∈ K, (f k).periodKey = k.1 ∧ (b k).periodKey = k.1
  identity : ∀ k ∈ K, (f k).identity = k.2 ∧ (b k).identity = k.2
  edits : ∀ k ∈ K, (f k).edits = (b k).edits
  rank : ∀ k ∈ K, (b k).userTypeRank ≤ (f k).userTypeRank ∧ (f k).userTypeRank ≤ 3

section Compare

variable {period : PeriodType} {K : List (ℤ × Identity)} {f b g : ℤ × Identity → EditorPeriod}

theorem tierGroups_map (period : PeriodType) (K : List (ℤ × Identity))
    (g : ℤ × Identity → EditorPeriod) :
    tierGroups .asComputed period (K.map g)
      = (K.map fun k => (g k).tierKey period).dedup.map fun t =>
        tierGroup t ((K.filter fun k => (g k).tierKey period = t).map g) := by
  show ((K.map g).map (EditorPeriod.tierKey period)).dedup.map (fun t =>
    tierGroup t ((K.map g).filter fun e => decide (e.tierKey period = t))) = _
  rw [List.map_map]
  refine List.map_congr_left fun t _ => ?_
  rw [List.filter_map]
  rfl

/-- The members of a tier are different editors. -/
theorem editors_eq_length (hnodup : K.Nodup) (hkey : ∀ k ∈ K, (g k).periodKey = k.1)
    (hid : ∀ k ∈ K, (g k).identity = k.2) (t : TierKey) :
    (tierGroup t ((K.filter fun k => (g k).tierKey period = t).map g)).editors
      = (K.filter fun k => (g k).tierKey period = t).length := by
  let members := K.filter fun k => (g k).tierKey period = t
  have hmem : ∀ k ∈ members, k ∈ K ∧ (g k).tierKey period = t := fun k hk =>
    ⟨(List.mem_filter.mp hk).1, of_decide_eq_true (List.mem_filter.mp hk).2⟩
  have hperiod : ∀ k ∈ members, k.1 = t.periodKey := by
    intro k hk
    obtain ⟨hK, htier⟩ := hmem k hk
    rw [← hkey k hK, ← htier]
    rfl
  have hids : ((members.map g).map EditorPeriod.identity).Nodup := by
    rw [List.map_map]
    refine (hnodup.filter _).map_on fun k hk k' hk' heq => ?_
    have hsnd : k.2 = k'.2 := by
      rw [← hid k (hmem k hk).1, ← hid k' (hmem k' hk').1]
      exact heq
    exact Prod.ext ((hperiod k hk).trans (hperiod k' hk').symm) hsnd
  show ((members.map g).map EditorPeriod.identity).dedup.length = members.length
  rw [hids.dedup, List.length_map, List.length_map]

/-- The ranks of the rows, weighted by their editors, are the ranks of the editors. -/
theorem sum_rank_tierRows (period : PeriodType) (hnodup : K.Nodup)
    (hkey : ∀ k ∈ K, (g k).periodKey = k.1)
    (hid : ∀ k ∈ K, (g k).identity = k.2) (hrank : ∀ k ∈ K, (g k).userTypeRank ≤ 3) :
    ((tierRows period (K.map g)).map fun row => row.editors * row.userType.rank).sum
      = (K.map fun k => (g k).userTypeRank).sum := by
  have hsum := sum_groups (fun k => (g k).tierKey period) (fun k => (g k).userTypeRank) K
  rw [← hsum, tierRows, tierGroups_map, List.map_map, List.map_map]
  congr 1
  refine List.map_congr_left fun t _ => ?_
  show (tierGroup t _).editors * t.userType.rank = _
  rw [editors_eq_length hnodup hkey hid]
  have hconst : ∀ r ∈ (K.filter fun k => (g k).tierKey period = t).map
      (fun k => (g k).userTypeRank), r = t.userType.rank := by
    intro r hr
    obtain ⟨k, hk, rfl⟩ := List.mem_map.mp hr
    obtain ⟨hK, htier⟩ := List.mem_filter.mp hk
    rw [← of_decide_eq_true htier]
    exact (rank_userTypeFromRank (hrank k hK)).symm
  rw [List.sum_eq_card_nsmul _ _ hconst, List.length_map]
  rfl

/-- The tier's editors in both versions, when the ranks are equal. -/
theorem Comparable.tierKey_eq (h : Comparable period K f b) {k : ℤ × Identity} (hk : k ∈ K)
    (hrank : (f k).userTypeRank = (b k).userTypeRank) :
    (f k).tierKey period = (b k).tierKey period := by
  rw [EditorPeriod.tierKey, EditorPeriod.tierKey, hrank, h.edits k hk, (h.periodKey k hk).1,
    (h.periodKey k hk).2]

/-- A tier row names its tier. -/
theorem tierKey_of_row {e d : EditorPeriod} {month month' : YearMonth}
    (hkey : e.periodKey = normalizePeriodKey month.key period)
    (hkey' : d.periodKey = normalizePeriodKey month'.key period) {G G' : TierGroup}
    (hG : G.key = e.tierKey period) (hG' : G'.key = d.tierKey period)
    (hrow : tierRow period (periodTexts period G.key.periodKey) G
      = tierRow period (periodTexts period G'.key.periodKey) G') : G = G' := by
  simp only [tierRow, TierRow.mk.injEq] at hrow
  obtain ⟨-, htext, -, -, -, -, htype, htier, hrank, heditors, hedits, hnet, hgross⟩ := hrow
  have hperiod : G.key.periodKey = G'.key.periodKey := by
    rw [hG, hG'] at htext ⊢
    simp only [EditorPeriod.tierKey, hkey, hkey'] at htext ⊢
    exact periodTexts_inj htext
  obtain ⟨⟨_, _, _, _⟩, _, _, _, _⟩ := G
  obtain ⟨⟨_, _, _, _⟩, _, _, _, _⟩ := G'
  simp only at hperiod htype htier hrank heditors hedits hnet hgross
  subst hperiod htype htier hrank heditors hedits hnet hgross
  rfl

/-- Both versions put out the same rows exactly when no rank differs and in every
tier the byte sums agree. -/
theorem Comparable.tierRows_perm_iff (h : Comparable period K f b) :
    (tierRows period (K.map f)).Perm (tierRows period (K.map b)) ↔
      (∀ k ∈ K, (f k).userTypeRank = (b k).userTypeRank) ∧
      ∀ k₀ ∈ K,
        ((K.filter fun k => (b k).tierKey period = (b k₀).tierKey period).map fun k =>
          (f k).netBytes).sum
          = ((K.filter fun k => (b k).tierKey period = (b k₀).tierKey period).map fun k =>
            (b k).netBytes).sum ∧
        ((K.filter fun k => (b k).tierKey period = (b k₀).tierKey period).map fun k =>
          (f k).grossBytes).sum
          = ((K.filter fun k => (b k).tierKey period = (b k₀).tierKey period).map fun k =>
            (b k).grossBytes).sum := by
  constructor
  · intro hperm
    have hfsum := sum_rank_tierRows period h.nodup (fun k hk => (h.periodKey k hk).1)
      (fun k hk => (h.identity k hk).1) fun k hk => (h.rank k hk).2
    have hbsum := sum_rank_tierRows period h.nodup (fun k hk => (h.periodKey k hk).2)
      (fun k hk => (h.identity k hk).2) fun k hk => le_trans (h.rank k hk).1 (h.rank k hk).2
    -- ranks only go up, and their sum can be read off the rows
    have hranks : ∀ k ∈ K, (f k).userTypeRank = (b k).userTypeRank := by
      intro k hk
      refine (eq_of_sum_eq (fun k hk => (h.rank k hk).1) ?_ k hk).symm
      rw [← hfsum, ← hbsum]
      exact ((hperm.map _).sum_nat).symm
    have htiers : ∀ k ∈ K, (f k).tierKey period = (b k).tierKey period := fun k hk =>
      h.tierKey_eq hk (hranks k hk)
    refine ⟨hranks, fun k₀ hk₀ => ?_⟩
    let t := (b k₀).tierKey period
    have hmembers : K.filter (fun k => (f k).tierKey period = t)
        = K.filter fun k => (b k).tierKey period = t :=
      List.filter_congr fun k hk => by rw [htiers k hk]
    let F := tierGroup t ((K.filter fun k => (f k).tierKey period = t).map f)
    have hF : F ∈ tierGroups .asComputed period (K.map f) := by
      rw [tierGroups_map]
      exact List.mem_map.mpr ⟨t,
        List.mem_dedup.mpr (List.mem_map.mpr ⟨k₀, hk₀, htiers k₀ hk₀⟩), rfl⟩
    obtain ⟨G, hG, hrow⟩ := List.mem_map.mp (hperm.mem_iff.mp (List.mem_map_of_mem hF))
    rw [tierGroups_map] at hG
    obtain ⟨t', ht', rfl⟩ := List.mem_map.mp hG
    obtain ⟨k₁, hk₁, rfl⟩ := List.mem_map.mp (List.mem_dedup.mp ht')
    obtain ⟨month, hmonth⟩ := h.valid k₁ hk₁
    obtain ⟨month', hmonth'⟩ := h.valid k₀ hk₀
    have hgroup := tierKey_of_row (e := b k₁) (d := b k₀)
      ((h.periodKey k₁ hk₁).2.trans hmonth) ((h.periodKey k₀ hk₀).2.trans hmonth') rfl rfl hrow
    have hkeys : (b k₁).tierKey period = (b k₀).tierKey period := congrArg TierGroup.key hgroup
    have hnet := congrArg TierGroup.netBytes hgroup
    have hgross := congrArg TierGroup.grossBytes hgroup
    simp only [F, tierGroup, List.map_map, hmembers, hkeys] at hnet hgross
    exact ⟨hnet.symm, hgross.symm⟩
  · rintro ⟨hranks, hbytes⟩
    have htiers : ∀ k ∈ K, (f k).tierKey period = (b k).tierKey period := fun k hk =>
      h.tierKey_eq hk (hranks k hk)
    have hgroups : tierGroups .asComputed period (K.map f)
        = tierGroups .asComputed period (K.map b) := by
      rw [tierGroups_map, tierGroups_map, List.map_congr_left htiers]
      refine List.map_congr_left fun t ht => ?_
      obtain ⟨k₀, hk₀, rfl⟩ := List.mem_map.mp (List.mem_dedup.mp ht)
      have hmembers : K.filter (fun k => (f k).tierKey period = (b k₀).tierKey period)
          = K.filter fun k => (b k).tierKey period = (b k₀).tierKey period :=
        List.filter_congr fun k hk => by rw [htiers k hk]
      have hin : ∀ k ∈ K.filter (fun k => (b k).tierKey period = (b k₀).tierKey period), k ∈ K :=
        fun k hk => (List.mem_filter.mp hk).1
      obtain ⟨hnet, hgross⟩ := hbytes k₀ hk₀
      rw [hmembers, tierGroup, tierGroup]
      simp only [List.map_map, Function.comp_def]
      rw [List.map_congr_left fun k hk => (h.identity k (hin k hk)).1.trans
          (h.identity k (hin k hk)).2.symm,
        List.map_congr_left fun k hk => h.edits k (hin k hk), hnet, hgross]
    rw [tierRows, tierRows, hgroups]

end Compare

/-! ## Both paths as editor-periods -/

/-- The rows of all three kinds of period. -/
def allRows (R : PeriodType → List EditorPeriod) : List TierRow :=
  tierRows .month (R .month) ++ tierRows .quarter (R .quarter) ++ tierRows .year (R .year)

theorem mem_tierRows {period : PeriodType} {R : List EditorPeriod} {row : TierRow}
    (h : row ∈ tierRows period R) : row.periodType = period.label := by
  obtain ⟨g, -, rfl⟩ := List.mem_map.mp h
  rfl

theorem label_injective : Function.Injective PeriodType.label := by
  intro a b h
  cases a <;> cases b <;> first | rfl | exact absurd h (by decide)

/-- The rows of one kind of period are found by their label. -/
theorem filter_allRows (R : PeriodType → List EditorPeriod) (period : PeriodType) :
    (allRows R).filter (·.periodType = period.label) = tierRows period (R period) := by
  have hself : ∀ p, (tierRows p (R p)).filter (·.periodType = p.label) = tierRows p (R p) :=
    fun p => List.filter_eq_self.mpr fun row hrow => decide_eq_true (mem_tierRows hrow)
  have hother : ∀ p, p ≠ period → (tierRows p (R p)).filter (·.periodType = period.label) = [] :=
    fun p hne => List.filter_eq_nil_iff.mpr fun row hrow heq => hne (label_injective
      ((mem_tierRows hrow).symm.trans (of_decide_eq_true heq)))
  rw [allRows, List.filter_append, List.filter_append]
  cases period with
  | month => rw [hself, hother .quarter (by simp), hother .year (by simp), List.append_nil,
      List.append_nil]
  | quarter => rw [hother .month (by simp), hself, hother .year (by simp), List.append_nil,
      List.nil_append]
  | year => rw [hother .month (by simp), hother .quarter (by simp), hself, List.nil_append,
      List.nil_append]

/-- What one report counts, in and out. -/
def Report.input (r : Report) : ℕ := (r.frame.map EditorMonth.edits).sum
def Report.output (r : Report) : ℕ := tierEdits r.period (batchPeriods r.period r.frame)

theorem batch_edits_le (period : PeriodType) (frame : List EditorMonth) :
    ((batchPeriods period frame).map EditorPeriod.edits).sum
      ≤ (frame.map EditorMonth.edits).sum := by
  have hsum := sum_groups (fun m : EditorMonth => (m.periodKey period, m.identity))
    EditorMonth.edits (activeMonths frame)
  rw [← sum_activeMonths, ← hsum]
  show (((((activeMonths frame).map fun m => (m.periodKey period, m.identity)).dedup.map _).map
    EditorPeriod.edits)).sum ≤ _
  rw [List.map_map]
  exact List.sum_le_sum fun k _ => sumU32_le _

section Rendering

variable (order : RowOrder) {reports : List Report}

theorem mapM_render_of_exact (hvalid : ∀ r ∈ reports, ∀ m ∈ r.frame, m.Valid)
    (hexact : ∀ r ∈ reports, r.input = r.output) :
    ∃ frames, reports.mapM (Report.render order) = .ok frames ∧
      frames.flatten.Perm (reports.flatMap fun r =>
        tierRows r.period (batchPeriods r.period r.frame)) := by
  induction reports with
  | nil => exact ⟨[], rfl, List.Perm.refl _⟩
  | cons r reports ih =>
    obtain ⟨frames, hframes, hperm⟩ := ih (fun r' hr' => hvalid r' (List.mem_cons_of_mem _ hr'))
      fun r' hr' => hexact r' (List.mem_cons_of_mem _ hr')
    obtain ⟨rows, hrows, heq⟩ := gdpActivityTiersForPeriod_eq order r.period
      (hvalid r (List.mem_cons_self ..))
    have hr : r.input = r.output := hexact r (List.mem_cons_self ..)
    have hrender : Report.render order r = .ok rows := heq.trans (if_pos hr)
    refine ⟨rows :: frames, ?_, ?_⟩
    · rw [List.mapM_cons, hrender, hframes]
      rfl
    · rw [List.flatten_cons, List.flatMap_cons]
      exact hrows.append hperm

theorem exact_of_mapM_render (hvalid : ∀ r ∈ reports, ∀ m ∈ r.frame, m.Valid) :
    ∀ {frames : List (List TierRow)}, reports.mapM (Report.render order) = .ok frames →
      ∀ r ∈ reports, r.input = r.output := by
  induction reports with
  | nil => intro frames _ r hr; exact absurd hr List.not_mem_nil
  | cons r reports ih =>
    intro frames h
    rw [List.mapM_cons] at h
    obtain ⟨rows, hrows, hrest⟩ := bind_eq_ok.mp h
    obtain ⟨frames', hframes', -⟩ := bind_eq_ok.mp hrest
    obtain ⟨rows', -, heq⟩ := gdpActivityTiersForPeriod_eq order r.period
      (hvalid r (List.mem_cons_self ..))
    have hr : r.input = r.output := by
      by_contra hne
      have herror := heq.trans (if_neg hne)
      exact absurd (hrows.symm.trans herror) (by simp)
    intro r' hr'
    rcases List.mem_cons.mp hr' with rfl | hr'
    · exact hr
    · exact ih (fun r' hr' => hvalid r' (List.mem_cons_of_mem _ hr')) hframes' r' hr'

end Rendering

/-- Reports sorted out by the kind of their period. -/
theorem flatMap_by_period (reports : List Report) (rowsOf : Report → List TierRow) :
    (reports.flatMap rowsOf).Perm
      ((reports.filter (·.period = .month)).flatMap rowsOf
        ++ (reports.filter (·.period = .quarter)).flatMap rowsOf
        ++ (reports.filter (·.period = .year)).flatMap rowsOf) := by
  induction reports with
  | nil => exact List.Perm.refl _
  | cons r reports ih =>
    rw [List.flatMap_cons]
    refine (List.Perm.append_left (rowsOf r) ih).trans ?_
    rw [← Multiset.coe_eq_coe]
    cases hperiod : r.period with
    | month => simp [hperiod, ← Multiset.coe_add]
    | quarter =>
      simp only [List.filter_cons, hperiod, decide_true, if_true, reduceCtorEq, decide_false,
        Bool.false_eq_true, if_false, List.flatMap_cons, ← Multiset.coe_add]
      abel
    | year =>
      simp only [List.filter_cons, hperiod, decide_true, if_true, reduceCtorEq, decide_false,
        Bool.false_eq_true, if_false, List.flatMap_cons, ← Multiset.coe_add]
      abel

section Paths

variable {months : List (YearMonth × List EditorMonth)}

/-- The stream succeeds when no tier total leaves the range of a `u32`, and then
puts out the rows of its editor-periods. -/
theorem stream_spec (order : RowOrder) (hasc : months.Pairwise fun a b => a.1 < b.1)
    (hframes : ∀ m ∈ months, IsMonthFrame m.1 m.2) :
    let E := months.flatMap Prod.snd
    let stream := streamActivityTiers order (months.map fun m => (m.1.key, m.2))
    ((∀ period, ((streamPeriods period E).map EditorPeriod.edits).sum
        = tierEdits period (streamPeriods period E)) →
      ∃ rows, stream = .ok rows ∧ rows.Perm (allRows fun period => streamPeriods period E)) ∧
    ∀ rows, stream = .ok rows → rows.Perm (allRows fun period => streamPeriods period E) := by
  intro E stream
  let reports := (andThen (Reports.sweep (fun m => pushReports order m.1 m.2) months)
    finishReports {}).2
  -- The reports of each period cover its tiers, whenever they were made.
  have hcovers := stream_covers order hasc hframes
  have hstream : stream = (reports.mapM (Report.render order)).map concatFrames :=
    streamActivityTiers_eq order months
  have hvalid : ∀ r ∈ reports, ∀ m ∈ r.frame, m.Valid := fun r hr =>
    (hcovers r.period).valid r (List.mem_filter.mpr ⟨hr, decide_eq_true rfl⟩)
  have hrows : (reports.flatMap fun r => tierRows r.period (batchPeriods r.period r.frame)).Perm
      (allRows fun period => streamPeriods period E) := by
    have hone : ∀ period, (reports.filter (·.period = period)).flatMap
        (fun r => tierRows r.period (batchPeriods r.period r.frame))
        = (reports.filter (·.period = period)).flatMap
          fun r => tierRows period (batchPeriods period r.frame) := by
      intro period
      refine List.flatMap_congr fun r hr => ?_
      rw [of_decide_eq_true (List.mem_filter.mp hr).2]
    refine (flatMap_by_period reports _).trans ?_
    rw [hone, hone, hone]
    exact ((hcovers .month).tiers.append (hcovers .quarter).tiers).append (hcovers .year).tiers
  have hok : (∀ r ∈ reports, r.input = r.output) →
      ∃ rows, stream = .ok rows ∧ rows.Perm (allRows fun period => streamPeriods period E) := by
    intro hexact
    obtain ⟨frames, hmap, hperm⟩ := mapM_render_of_exact order hvalid hexact
    exact ⟨concatFrames frames, by rw [hstream, hmap]; rfl,
      (concatFrames_perm frames).trans (hperm.trans hrows)⟩
  constructor
  -- The totals agree as a whole, and no report counts more than it was given, so each agrees.
  · intro hconserved
    refine hok fun r hr => ?_
    have hsum : ((reports.filter (·.period = r.period)).map fun r' =>
          tierEdits r.period (batchPeriods r.period r'.frame)).sum
        = ((reports.filter (·.period = r.period)).map fun r' =>
          (r'.frame.map EditorMonth.edits).sum).sum := by
      rw [(hcovers r.period).input, (hcovers r.period).output, hconserved r.period]
    refine (eq_of_sum_eq (fun r' hr' => ?_) hsum r
      (List.mem_filter.mpr ⟨hr, decide_eq_true rfl⟩)).symm
    exact le_trans (tierEdits_le _ _) (batch_edits_le _ _)
  · intro rows heq
    rw [hstream] at heq
    cases hmap : reports.mapM (Report.render order) with
    | error e => rw [hmap] at heq; exact absurd heq (by simp [Except.map])
    | ok frames =>
      obtain ⟨rows', hrows', hperm⟩ := hok (exact_of_mapM_render order hvalid hmap)
      rw [hstream, heq] at hrows'
      obtain rfl := Except.ok.inj hrows'
      exact hperm

/-- The batch succeeds only without overflow, and then puts out the rows of its
editor-periods. -/
theorem batch_spec (order : RowOrder) {frames : List (List EditorMonth)} {rows : List TierRow}
    (hvalid : ∀ m ∈ frames.flatten, m.Valid)
    (h : activityTiersAllPeriods order frames = .ok rows) :
    rows.Perm (allRows fun period => batchPeriods period frames.flatten) ∧
      ∀ period, (frames.flatten.map EditorMonth.edits).sum
        = tierEdits period (batchPeriods period frames.flatten) := by
  have hperm := concatFrames_perm frames
  have hvalid' : ∀ m ∈ concatFrames frames, m.Valid := fun m hm =>
    hvalid m (hperm.mem_iff.mp hm)
  -- One period: its rows are those of the batch periods, and the total was checked.
  have hone : ∀ period tiers,
      gdpActivityTiersForPeriod order (concatFrames frames) period = .ok tiers →
      tiers.Perm (tierRows period (batchPeriods period frames.flatten)) ∧
      (frames.flatten.map EditorMonth.edits).sum
        = tierEdits period (batchPeriods period frames.flatten) := by
    intro period tiers hok
    obtain ⟨tiers', htiers', heq⟩ := gdpActivityTiersForPeriod_eq order period hvalid'
    have hbatch : (editorPeriods .asComputed period (activeMonths (concatFrames frames))).Perm
        (batchPeriods period frames.flatten) :=
      editorPeriods_congr _ _ period (hperm.filter _)
    rw [heq] at hok
    split at hok
    next hexact =>
      obtain rfl := Except.ok.inj hok
      rw [(hperm.map _).sum_nat, tierEdits_congr period hbatch] at hexact
      exact ⟨htiers'.trans (tierRows_congr period hbatch), hexact⟩
    · exact absurd hok (by simp)
  rw [activityTiersAllPeriods] at h
  obtain ⟨monthly, hmonthly, h⟩ := bind_eq_ok.mp h
  obtain ⟨quarterly, hquarterly, h⟩ := bind_eq_ok.mp h
  obtain ⟨yearly, hyearly, h⟩ := bind_eq_ok.mp h
  obtain rfl := Except.ok.inj h
  obtain ⟨hm, hem⟩ := hone .month monthly hmonthly
  obtain ⟨hq, heq⟩ := hone .quarter quarterly hquarterly
  obtain ⟨hy, hey⟩ := hone .year yearly hyearly
  refine ⟨(concatFrames_perm _).trans ?_, fun period => ?_⟩
  · rw [List.flatten_cons, List.flatten_cons, List.flatten_singleton, ← List.append_assoc]
    exact (hm.append hq).append hy
  · cases period with
    | month => exact hem
    | quarter => exact heq
    | year => exact hey

end Paths

/-! ## Months without an edit -/

/-- An editor's months of a period that count no edit. -/
def zeroEditMonths (period : PeriodType) (E : List EditorMonth) (e : EditorPeriod) :
    List EditorMonth :=
  E.filter fun m => m.edits = 0 ∧ (m.periodKey period, m.identity) = (e.periodKey, e.identity)

/-- The months without an edit do not show: none has a higher rank than its editor
has in the months with edits, and in each tier their bytes add up to nothing, as `i64`
sums do: modulo `2 ^ 64`. -/
structure QuietMonths (period : PeriodType) (E : List EditorMonth) : Prop where
  rank : ∀ e ∈ batchPeriods period E, ∀ m ∈ zeroEditMonths period E e,
    m.userTypeRank ≤ e.userTypeRank
  netBytes : ∀ e ∈ batchPeriods period E,
    (((batchPeriods period E).filter (·.tierKey period = e.tierKey period)).map fun e' =>
      ((zeroEditMonths period E e').map EditorMonth.netBytes).sum).sum = 0
  grossBytes : ∀ e ∈ batchPeriods period E,
    (((batchPeriods period E).filter (·.tierKey period = e.tierKey period)).map fun e' =>
      ((zeroEditMonths period E e').map EditorMonth.grossBytes).sum).sum = 0

section Quiet

variable (period : PeriodType) (E : List EditorMonth)

/-- The editors and periods with an edit. -/
def countedKeys : List (ℤ × Identity) :=
  ((activeMonths E).map fun m => (m.periodKey period, m.identity)).dedup

/-- An editor's rows of a period with an edit, and all of them. -/
def countedRows (k : ℤ × Identity) : List EditorMonth :=
  (activeMonths E).filter fun m => (m.periodKey period, m.identity) = k

def periodRows (k : ℤ × Identity) : List EditorMonth :=
  E.filter fun m => (m.periodKey period, m.identity) = k

def counted (k : ℤ × Identity) : EditorPeriod := editorPeriod k (countedRows period E k)
def streamed (k : ℤ × Identity) : EditorPeriod := editorPeriod k (periodRows period E k)

theorem batchPeriods_eq :
    batchPeriods period E = (countedKeys period E).map (counted period E) := rfl

/-- All rows are the counted ones and those without an edit. -/
theorem periodRows_perm (k : ℤ × Identity) :
    (periodRows period E k).Perm
      (countedRows period E k ++ zeroEditMonths period E (counted period E k)) := by
  have hcounted : countedRows period E k = (periodRows period E k).filter (0 < ·.edits) := by
    rw [countedRows, activeMonths, periodRows, List.filter_filter, List.filter_filter]
    exact List.filter_congr fun m _ => Bool.and_comm _ _
  have hzero : zeroEditMonths period E (counted period E k)
      = (periodRows period E k).filter fun m => !decide (0 < m.edits) := by
    rw [zeroEditMonths, periodRows, List.filter_filter]
    refine List.filter_congr fun m _ => ?_
    have hkey : ((counted period E k).periodKey, (counted period E k).identity) = k := rfl
    rw [hkey, Bool.eq_iff_iff]
    simp only [decide_eq_true_eq, Bool.and_eq_true, Bool.not_eq_true', decide_eq_false_iff_not,
      not_lt, Nat.le_zero]
  rw [hcounted, hzero]
  exact (List.filter_append_perm _ _).symm

theorem maxRank_le_iff {ranks : List ℕ} {n : ℕ} : maxRank ranks ≤ n ↔ ∀ r ∈ ranks, r ≤ n := by
  refine ⟨fun h r hr => le_trans ?_ h, maxRank_le⟩
  clear h
  induction ranks with
  | nil => exact absurd hr List.not_mem_nil
  | cons r' ranks ih =>
    rcases List.mem_cons.mp hr with rfl | hr
    · exact le_max_left _ _
    · exact le_trans (ih hr) (le_max_right _ _)

/-- How the streamed editor-period differs from the counted one. -/
theorem streamed_eq (k : ℤ × Identity) :
    let zero := zeroEditMonths period E (counted period E k)
    (streamed period E k).userTypeRank
        = max (counted period E k).userTypeRank (maxRank (zero.map EditorMonth.userTypeRank)) ∧
      (streamed period E k).edits = (counted period E k).edits ∧
      (streamed period E k).netBytes
        = (counted period E k).netBytes + (zero.map EditorMonth.netBytes).sum ∧
      (streamed period E k).grossBytes
        = (counted period E k).grossBytes + (zero.map EditorMonth.grossBytes).sum := by
  intro zero
  have hedits : (zero.map EditorMonth.edits).sum = 0 := by
    refine List.sum_eq_zero fun n hn => ?_
    obtain ⟨m, hm, rfl⟩ := List.mem_map.mp hn
    exact (of_decide_eq_true (List.mem_filter.mp hm).2).1
  rw [streamed, editorPeriod_congr k (periodRows_perm period E k)]
  simp only [editorPeriod, List.map_append, maxRank_append, List.sum_append, sumU32, counted]
  refine ⟨rfl, ?_, rfl, rfl⟩
  show (_ + (zero.map EditorMonth.edits).sum) % _ = _
  rw [hedits, Nat.add_zero]

variable {period} {E}

/-- Quiet months are what makes the two versions put out the same rows. -/
theorem quietMonths_iff : QuietMonths period E ↔
    (∀ k ∈ countedKeys period E,
      (streamed period E k).userTypeRank = (counted period E k).userTypeRank) ∧
    ∀ k₀ ∈ countedKeys period E,
      (((countedKeys period E).filter fun k =>
          (counted period E k).tierKey period = (counted period E k₀).tierKey period).map fun k =>
        (streamed period E k).netBytes).sum
        = (((countedKeys period E).filter fun k =>
          (counted period E k).tierKey period = (counted period E k₀).tierKey period).map fun k =>
          (counted period E k).netBytes).sum ∧
      (((countedKeys period E).filter fun k =>
          (counted period E k).tierKey period = (counted period E k₀).tierKey period).map fun k =>
        (streamed period E k).grossBytes).sum
        = (((countedKeys period E).filter fun k =>
          (counted period E k).tierKey period = (counted period E k₀).tierKey period).map fun k =>
          (counted period E k).grossBytes).sum := by
  -- The streamed rank is the maximum of the counted one and those of the months without edits.
  have hrank : ∀ k, (streamed period E k).userTypeRank = (counted period E k).userTypeRank ↔
      ∀ m ∈ zeroEditMonths period E (counted period E k),
        m.userTypeRank ≤ (counted period E k).userTypeRank := by
    intro k
    rw [(streamed_eq period E k).1, max_eq_left_iff, maxRank_le_iff, List.forall_mem_map]
  -- The streamed bytes are the counted ones and those of these months, so the sums agree if
  -- theirs is zero.
  have hbytes : ∀ (value : EditorMonth → Int64) (sum sum' : ℤ × Identity → Int64),
      (∀ k, sum' k = sum k + ((zeroEditMonths period E (counted period E k)).map value).sum) →
      ∀ k₀, ((((countedKeys period E).filter fun k => (counted period E k).tierKey period
          = (counted period E k₀).tierKey period).map sum').sum
        = (((countedKeys period E).filter fun k => (counted period E k).tierKey period
          = (counted period E k₀).tierKey period).map sum).sum ↔
        (((batchPeriods period E).filter
          (·.tierKey period = (counted period E k₀).tierKey period)).map fun e' =>
            ((zeroEditMonths period E e').map value).sum).sum = 0) := by
    intro value sum sum' hsum k₀
    rw [batchPeriods_eq, List.filter_map, List.map_map, funext hsum, List.sum_map_add]
    exact add_eq_left
  have hnet := hbytes EditorMonth.netBytes (fun k => (counted period E k).netBytes)
    (fun k => (streamed period E k).netBytes) fun k => (streamed_eq period E k).2.2.1
  have hgross := hbytes EditorMonth.grossBytes (fun k => (counted period E k).grossBytes)
    (fun k => (streamed period E k).grossBytes) fun k => (streamed_eq period E k).2.2.2
  constructor
  · intro h
    have hmem : ∀ k ∈ countedKeys period E, counted period E k ∈ batchPeriods period E :=
      fun k hk => List.mem_map_of_mem hk
    exact ⟨fun k hk => (hrank k).mpr (h.rank _ (hmem k hk)), fun k₀ hk₀ =>
      ⟨(hnet k₀).mpr (h.netBytes _ (hmem k₀ hk₀)), (hgross k₀).mpr (h.grossBytes _ (hmem k₀ hk₀))⟩⟩
  · rintro ⟨hranks, hsums⟩
    refine ⟨fun e he => ?_, fun e he => ?_, fun e he => ?_⟩
    · obtain ⟨k, hk, rfl⟩ := List.mem_map.mp he
      exact (hrank k).mp (hranks k hk)
    · obtain ⟨k, hk, rfl⟩ := List.mem_map.mp he
      exact (hnet k).mp (hsums k hk).1
    · obtain ⟨k, hk, rfl⟩ := List.mem_map.mp he
      exact (hgross k).mp (hsums k hk).2

end Quiet

/-! ## The comparison -/

section Comparison

variable {period : PeriodType} {E : List EditorMonth}

/-- A tier computation that conserves its edits wrapped no editor's sum. -/
theorem counted_edits_le
    (h : (E.map EditorMonth.edits).sum = tierEdits period (batchPeriods period E)) :
    ∀ k ∈ countedKeys period E, ((countedRows period E k).map EditorMonth.edits).sum ≤ u32Max := by
  have hsum := sum_groups (fun m : EditorMonth => (m.periodKey period, m.identity))
    EditorMonth.edits (activeMonths E)
  have hmap : (batchPeriods period E).map EditorPeriod.edits = (countedKeys period E).map fun k =>
      sumU32 ((countedRows period E k).map EditorMonth.edits) := by
    rw [batchPeriods_eq, List.map_map]
    rfl
  have hle := tierEdits_le period (batchPeriods period E)
  have hle' := batch_edits_le period E
  rw [hmap] at hle hle'
  have heq : ((countedKeys period E).map fun k =>
        sumU32 ((countedRows period E k).map EditorMonth.edits)).sum
      = ((countedKeys period E).map fun k =>
        ((countedRows period E k).map EditorMonth.edits).sum).sum := by
    refine le_antisymm (List.sum_le_sum fun k _ => sumU32_le _) ?_
    rw [← sum_activeMonths] at h
    exact le_trans (le_of_eq hsum) (h ▸ hle)
  intro k hk
  have hk := eq_of_sum_eq (fun k _ => sumU32_le _) heq k hk
  rw [← hk]
  exact Nat.lt_succ_iff.mp (Nat.mod_lt _ (Nat.succ_pos _))

/-- Without overflow the stream reports the same editors and periods. -/
theorem streamPeriods_perm
    (h : ∀ k ∈ countedKeys period E,
      ((countedRows period E k).map EditorMonth.edits).sum ≤ u32Max) :
    (streamPeriods period E).Perm ((countedKeys period E).map (streamed period E)) := by
  have hkeys : streamPeriods period E =
    (((E.map fun m => (m.periodKey period, m.identity)).dedup.filter
      fun k => 0 < (streamed period E k).edits).map (streamed period E)) := List.filter_map
  rw [hkeys]
  refine List.Perm.map _ ((List.perm_ext_iff_of_nodup ((List.nodup_dedup _).filter _)
    (List.nodup_dedup _)).mpr fun k => ?_)
  rw [List.mem_filter, decide_eq_true_eq, (streamed_eq period E k).2.1, List.mem_dedup,
    List.mem_dedup]
  constructor
  · rintro ⟨-, hpos⟩
    have hne : countedRows period E k ≠ [] := by
      intro hnil
      rw [counted, hnil] at hpos
      exact absurd hpos (Nat.not_lt_zero 0)
    obtain ⟨m, hm⟩ := List.exists_mem_of_ne_nil _ hne
    obtain ⟨hmem, hkey⟩ := List.mem_filter.mp hm
    exact List.mem_map.mpr ⟨m, hmem, of_decide_eq_true hkey⟩
  · intro hk
    have hle := h k (List.mem_dedup.mpr hk)
    obtain ⟨m, hm, rfl⟩ := List.mem_map.mp hk
    obtain ⟨hmem, hpos⟩ := List.mem_filter.mp hm
    refine ⟨List.mem_map_of_mem hmem, ?_⟩
    show 0 < sumU32 _
    rw [sumU32_of_le hle]
    have hin : m ∈ countedRows period E (m.periodKey period, m.identity) :=
      List.mem_filter.mpr ⟨hm, decide_eq_true rfl⟩
    exact lt_of_lt_of_le (of_decide_eq_true hpos)
      (List.single_le_sum (fun _ _ => Nat.zero_le _) _ (List.mem_map_of_mem hin))

theorem comparable (hvalid : ∀ m ∈ E, m.Valid) (hrank : ∀ m ∈ E, m.userTypeRank ≤ 3) :
    Comparable period (countedKeys period E) (streamed period E) (counted period E) where
  nodup := List.nodup_dedup _
  valid k hk := by
    obtain ⟨m, hm, rfl⟩ := List.mem_map.mp (List.mem_dedup.mp hk)
    obtain ⟨month, hmonth⟩ := hvalid m (List.mem_filter.mp hm).1
    exact ⟨month, by rw [EditorMonth.periodKey, hmonth]⟩
  periodKey k _ := ⟨rfl, rfl⟩
  identity k _ := ⟨rfl, rfl⟩
  edits k _ := (streamed_eq period E k).2.1
  rank k _ := by
    refine ⟨?_, maxRank_le fun r hr => ?_⟩
    · rw [(streamed_eq period E k).1]
      exact le_max_left _ _
    · obtain ⟨m, hm, rfl⟩ := List.mem_map.mp hr
      exact hrank m (List.mem_filter.mp hm).1

/-- A tier's edits can be read off its rows. -/
theorem tierEdits_eq (R : List EditorPeriod) :
    tierEdits period R = ((tierRows period R).map TierRow.totalEdits).sum := by
  rw [tierEdits, tierRows, List.map_map]
  rfl

end Comparison

/-- An editor has one row in a month, so months are always quiet. -/
theorem quietMonths_month {months : List (YearMonth × List EditorMonth)}
    (hasc : months.Pairwise fun a b => a.1 < b.1) (hframes : ∀ m ∈ months, IsMonthFrame m.1 m.2) :
    QuietMonths .month (months.flatMap Prod.snd) := by
  have hkeys : (months.map Prod.fst).Nodup := by
    rw [List.Nodup, List.pairwise_map]
    exact hasc.imp ne_of_lt
  have hnone : ∀ e ∈ batchPeriods .month (months.flatMap Prod.snd),
      zeroEditMonths .month (months.flatMap Prod.snd) e = [] := by
    intro e he
    obtain ⟨k, hk, rfl⟩ := List.mem_map.mp he
    obtain ⟨a, ha, rfl⟩ := List.mem_map.mp (List.mem_dedup.mp hk)
    obtain ⟨haE, hpos⟩ := List.mem_filter.mp ha
    refine List.filter_eq_nil_iff.mpr fun m hmE hm => ?_
    obtain ⟨hzero, heq⟩ := of_decide_eq_true hm
    obtain ⟨hkey, hid⟩ := Prod.mk.inj heq
    obtain ⟨A, hA, haA⟩ := List.mem_flatMap.mp haE
    obtain ⟨M, hM, hmM⟩ := List.mem_flatMap.mp hmE
    -- rows of the same month come from the same frame
    have hmonth : M.1 = A.1 := by
      apply YearMonth.key_injective
      rw [← (hframes M hM).key m hmM, ← (hframes A hA).key a haA]
      exact hkey
    obtain rfl : M = A := List.inj_on_of_nodup_map hkeys hM hA hmonth
    obtain rfl : m = a := List.inj_on_of_nodup_map (hframes M hM).nodup hmM haA hid
    exact absurd hzero (Nat.pos_iff_ne_zero.mp (of_decide_eq_true hpos))
  have hsum : ∀ (value : EditorMonth → Int64) (t : TierKey),
      (((batchPeriods .month (months.flatMap Prod.snd)).filter (·.tierKey .month = t)).map fun e =>
        ((zeroEditMonths .month (months.flatMap Prod.snd) e).map value).sum).sum = 0 := by
    intro value t
    refine List.sum_eq_zero fun n hn => ?_
    obtain ⟨e, he, rfl⟩ := List.mem_map.mp hn
    rw [hnone e (List.mem_filter.mp he).1]
    rfl
  refine ⟨fun e he m hm => ?_, fun e _ => hsum _ _, fun e _ => hsum _ _⟩
  rw [hnone e he] at hm
  exact absurd hm List.not_mem_nil

/-- The editor-month frames of some months of rows. -/
def monthFrames (order : RowOrder) (months : List (YearMonth × List RevisionRow)) :
    List (YearMonth × List EditorMonth) :=
  months.map fun m => (m.1, editorMonthFrame order m.1.key m.2)

/-- **The stream's rows are the batch's rows exactly when the quarters and years
are quiet.** -/
theorem stream_eq_batch_iff (order order' order'' : RowOrder)
    (months : List (YearMonth × List RevisionRow)) (hasc : months.Pairwise fun a b => a.1 < b.1)
    (rows : List TierRow)
    (hbatch : activityTiersAllPeriods order''
      ((monthFrames order months).map Prod.snd) = .ok rows) :
    (∃ rows', streamActivityTiers order' ((monthFrames order months).map fun m => (m.1.key, m.2))
        = .ok rows' ∧ rows'.Perm rows) ↔
      QuietMonths .quarter ((monthFrames order months).flatMap Prod.snd) ∧
        QuietMonths .year ((monthFrames order months).flatMap Prod.snd) := by
  have hasc' : (monthFrames order months).Pairwise fun a b => a.1 < b.1 :=
    List.pairwise_map.mpr hasc
  have hframes : ∀ m ∈ monthFrames order months, IsMonthFrame m.1 m.2 := by
    intro m hm
    obtain ⟨m', -, rfl⟩ := List.mem_map.mp hm
    exact editorMonthFrame_isMonthFrame order m'.1 m'.2
  let E := (monthFrames order months).flatMap Prod.snd
  have hrow : ∀ m ∈ E, m.Valid ∧ m.userTypeRank ≤ 3 := by
    intro m hm
    obtain ⟨M, hM, hmM⟩ := List.mem_flatMap.mp hm
    exact ⟨⟨M.1, (hframes M hM).key m hmM⟩, (hframes M hM).rank m hmM⟩
  have hflat : ((monthFrames order months).map Prod.snd).flatten = E := rfl
  obtain ⟨hrows, hexact⟩ := batch_spec order'' (fun m hm => (hrow m (hflat ▸ hm)).1) hbatch
  rw [hflat] at hrows hexact
  obtain ⟨hok, hperm⟩ := stream_spec order' hasc' hframes
  -- Both paths have the same keys; they differ in what a period sums.
  have hstreamed : ∀ period, (streamPeriods period E).Perm
      ((countedKeys period E).map (streamed period E)) := fun period =>
    streamPeriods_perm (counted_edits_le (hexact period))
  -- So they agree on a period just where the months without edits cancel out.
  have hagree : ∀ period, (tierRows period (streamPeriods period E)).Perm
      (tierRows period (batchPeriods period E)) ↔ QuietMonths period E := by
    intro period
    rw [quietMonths_iff, ← (comparable (fun m hm => (hrow m hm).1)
      fun m hm => (hrow m hm).2).tierRows_perm_iff, ← batchPeriods_eq]
    have hp := tierRows_congr period (hstreamed period)
    exact ⟨fun h => hp.symm.trans h, fun h => hp.trans h⟩
  constructor
  · rintro ⟨rows', hstream, hsame⟩
    have hall := (hperm rows' hstream).symm.trans (hsame.trans hrows)
    -- The rows of a period are those with its label.
    have hone : ∀ period, QuietMonths period E := by
      intro period
      have hfilter := hall.filter (·.periodType = period.label)
      rw [filter_allRows, filter_allRows] at hfilter
      exact (hagree period).mp hfilter
    exact ⟨hone .quarter, hone .year⟩
  -- Months need no condition: a month without edits is in no row of its own.
  · rintro ⟨hquarter, hyear⟩
    have htiers : ∀ period, (tierRows period (streamPeriods period E)).Perm
        (tierRows period (batchPeriods period E)) := by
      intro period
      refine (hagree period).mpr ?_
      cases period with
      | month => exact quietMonths_month hasc' hframes
      | quarter => exact hquarter
      | year => exact hyear
    obtain ⟨rows', hstream, hrows'⟩ := hok fun period => by
      have hedits : ((streamPeriods period E).map EditorPeriod.edits).sum
          = ((batchPeriods period E).map EditorPeriod.edits).sum := by
        rw [((hstreamed period).map _).sum_nat, batchPeriods_eq, List.map_map, List.map_map]
        exact congrArg List.sum (List.map_congr_left fun k _ => (streamed_eq period E k).2.1)
      rw [hedits, tierEdits_eq, ((htiers period).map _).sum_nat, ← tierEdits_eq]
      refine le_antisymm ?_ (tierEdits_le _ _)
      rw [← hexact period]
      exact batch_edits_le period E
    refine ⟨rows', hstream, hrows'.trans (List.Perm.trans ?_ hrows.symm)⟩
    exact ((htiers .month).append (htiers .quarter)).append (htiers .year)

section Sample

/-- A registered editor's row in a month. -/
def revision (revisionId : Option ℤ) (bytesDiff : Int64) : RevisionRow where
  eventUserId := some 1
  editorActor := none
  userType := some "registered"
  revisionId := revisionId
  revisionTextBytesDiff := some bytesDiff

/-- January and February of one year, with the rows given. -/
def twoMonths (january february : List RevisionRow) : List (YearMonth × List RevisionRow) :=
  [(.ofYear 2024 0, january), (.ofYear 2024 1, february)]

def netBytesOf (rows : Except String (List TierRow)) : Option (List Int64) :=
  rows.toOption.map fun rows => rows.map TierRow.netBytes

theorem netBytesOf_eq_some (result : Except String (List TierRow)) (bytes : List Int64)
    (h : netBytesOf result = some bytes) :
    ∃ rows, result = .ok rows ∧ rows.map TierRow.netBytes = bytes := by
  cases result with
  | error e => exact absurd h (by simp [netBytesOf, Except.toOption])
  | ok rows => exact ⟨rows, rfl, Option.some.inj h⟩

/-- January without an edit, its byte sums wrapped to nothing, and an edit in February. -/
def quietJanuary : List (YearMonth × List RevisionRow) :=
  twoMonths [revision none (-2 ^ 63), revision none (-2 ^ 63)] [revision (some 7) 3]

theorem stream_eq_batch_iff_two_months :
    let frames := monthFrames .asComputed quietJanuary
    frames.map (fun m => m.2.map EditorMonth.edits) = [[0], [1]] ∧
    ∃ rows, activityTiersAllPeriods .asComputed (frames.map Prod.snd) = .ok rows ∧
      ∃ rows', streamActivityTiers .asComputed (frames.map fun m => (m.1.key, m.2)) = .ok rows' ∧
        rows'.Perm rows := by
  intro frames
  obtain ⟨rows, hbatch, -⟩ := netBytesOf_eq_some
    (activityTiersAllPeriods .asComputed (frames.map Prod.snd)) [3, 3, 3] (by decide +kernel)
  exact ⟨by decide, rows, hbatch, (stream_eq_batch_iff .asComputed .asComputed .asComputed
    quietJanuary (by decide) rows hbatch).mpr
    ⟨⟨by decide +kernel, by decide +kernel, by decide +kernel⟩,
      ⟨by decide +kernel, by decide +kernel, by decide +kernel⟩⟩⟩

/-- A row without a revision id in January shows in the stream's quarter and year,
and not in the batch's. -/
theorem stream_ne_batch :
    let frames := monthFrames .asComputed (twoMonths [revision none 10] [revision (some 7) 3])
    ∃ rows rows', activityTiersAllPeriods .asComputed (frames.map Prod.snd) = .ok rows ∧
      streamActivityTiers .asComputed (frames.map fun m => (m.1.key, m.2)) = .ok rows' ∧
        ¬rows'.Perm rows := by
  intro frames
  obtain ⟨rows, hbatch, hnet⟩ := netBytesOf_eq_some
    (activityTiersAllPeriods .asComputed (frames.map Prod.snd)) [3, 3, 3] (by decide +kernel)
  obtain ⟨rows', hstream, hnet'⟩ := netBytesOf_eq_some
    (streamActivityTiers .asComputed (frames.map fun m => (m.1.key, m.2))) [13, 3, 13]
      (by decide +kernel)
  refine ⟨rows, rows', hbatch, hstream, fun hperm => ?_⟩
  have hsame := hperm.map TierRow.netBytes
  rw [hnet, hnet'] at hsame
  exact absurd hsame.sum_eq (by decide)

end Sample

end WikiEcon.Compute.Activity
