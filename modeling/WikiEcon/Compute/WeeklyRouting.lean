import WikiEcon.Compute.WeeklyReconcile

/-!
# Where the rows go

The way of the rows through the run directory, as far as it succeeds. Staging
tags every contribution row with its primary bucket (`Staged`). Compaction writes
to a primary file the rows of its bucket, whatever the writer limit
(`compactWeeklyPrimaryBuckets_ok`); secondary routing does the same one level down,
whatever the limit and the batches (`routePrimaryToSecondaryBuckets_ok`).

Files are told up to the order of their rows, which a grouping does not see.
-/

namespace WikiEcon.Compute.Weekly

open Routing Workers

variable {circumstances : Circumstances} {config : WeeklyAggregationConfig}

def primaryOf (config : WeeklyAggregationConfig) (pageId : Option ℤ) : ℕ :=
  stableWeeklyBucket pageId config.primaryBucketCount

def secondaryOf (config : WeeklyAggregationConfig) (pageId : Option ℤ) : ℕ :=
  stableWeeklySecondaryBucket pageId config.primaryBucketCount config.secondaryBucketCount

theorem primaryBucketCount_pos (config : WeeklyAggregationConfig) :
    0 < config.primaryBucketCount := by
  have h := config.primary_supported
  simp only [supportedPrimaryBucketCounts, List.mem_cons, List.not_mem_nil, or_false] at h
  omega

theorem secondaryBucketCount_pos (config : WeeklyAggregationConfig) :
    0 < config.secondaryBucketCount := by
  have h := config.secondary_supported
  simp only [supportedSecondaryBucketCounts, List.mem_cons, List.not_mem_nil, or_false] at h
  omega

theorem primaryOf_lt (config : WeeklyAggregationConfig) (pageId : Option ℤ) :
    primaryOf config pageId < config.primaryBucketCount := by
  have hand : primaryOf config pageId ≤ config.primaryBucketCount - 1 := Nat.and_le_right
  have hpos := primaryBucketCount_pos config
  omega

theorem secondaryOf_lt (config : WeeklyAggregationConfig) (pageId : Option ℤ) :
    secondaryOf config pageId < config.secondaryBucketCount := by
  have hand : secondaryOf config pageId ≤ config.secondaryBucketCount - 1 := Nat.and_le_right
  have hpos := secondaryBucketCount_pos config
  omega

/-! ## Staging -/

variable (config) in
/-- Part of a partition file: tagged rows of the buckets below `n`. -/
structure StagedBelow (rows : List WeeklyRow) (before : Staging) (n : ℕ)
    (st : Option (List (ℕ × WeeklyRow)) × Staging) : Prop where
  tagged : ∀ x ∈ st.1.getD [], x.1 = primaryOf config x.2.pageId
  contents : ((st.1.getD []).map (·.2)).Perm (rows.filter (primaryOf config ·.pageId < n))
  counts : ∀ bucket, st.2.bucketRows bucket = before.bucketRows bucket
    + if bucket < n then (bucketRowsOf (primaryOf config) rows bucket).length else 0
  dir : st.2.dir = before.dir
  paths : st.2.stagedPaths = before.stagedPaths

theorem StagedBelow.step {rows : List WeeklyRow} {before : Staging} {n : ℕ}
    {st st' : Option (List (ℕ × WeeklyRow)) × Staging} (h : StagedBelow config rows before n st)
    (hstep : stageGroup st (rows.filter (primaryOf config ·.pageId = n), n) = .ok st') :
    StagedBelow config rows before (n + 1) st' := by
  obtain ⟨file, staging⟩ := st
  have hperm := filter_lt_succ_perm (fun row : WeeklyRow => primaryOf config row.pageId) n rows
  have hcount : ∀ bucket, bucket ≠ n → (bucket < n + 1 ↔ bucket < n) := by omega
  unfold stageGroup at hstep
  by_cases hempty : rows.filter (primaryOf config ·.pageId = n) = []
  · simp only [hempty, if_true, Except.ok.injEq] at hstep
    subst hstep
    refine ⟨h.tagged, ?_, fun bucket => ?_, h.dir, h.paths⟩
    · rw [hempty, List.append_nil] at hperm
      exact h.contents.trans hperm.symm
    · rw [h.counts bucket]
      by_cases hb : bucket = n
      · subst hb
        simp [bucketRowsOf, hempty]
      · simp only [hcount bucket hb]
  · simp only [hempty, if_false] at hstep
    obtain ⟨edits, -, hstep⟩ := bind_eq_ok.mp hstep
    obtain rfl := Except.ok.inj hstep
    refine ⟨?_, ?_, fun bucket => ?_, h.dir, h.paths⟩
    · intro x hx
      rcases List.mem_append.mp hx with hx | hx
      · exact h.tagged x hx
      · obtain ⟨row, hrow, rfl⟩ := List.mem_map.mp hx
        exact (of_decide_eq_true (List.mem_filter.mp hrow).2).symm
    · show ((file.getD [] ++ _).map _).Perm _
      rw [List.map_append, List.map_map]
      refine (h.contents.append (List.Perm.of_eq ?_)).trans hperm.symm
      exact List.map_id _
    · have hold := h.counts bucket
      by_cases hb : bucket = n
      · subst hb
        simp only [Nat.lt_irrefl, if_false, Nat.add_zero] at hold
        simp [Function.update_self, hold, bucketRowsOf]
      · simp only [Function.update_of_ne hb, hcount bucket hb]
        exact hold

variable (config) in
/-- Every row staged so far is in a partition file, tagged with its bucket. -/
structure Staged (rows : List WeeklyRow) (staging : Staging) : Prop where
  files : ∃ files : List (List (ℕ × WeeklyRow)), staging.stagedPaths.map staging.dir.partitions =
    files.map some ∧
    (∀ x ∈ files.flatten, x.1 = primaryOf config x.2.pageId) ∧
    (files.flatten.map (·.2)).Perm rows
  counts : ∀ bucket < config.primaryBucketCount,
    staging.bucketRows bucket = (bucketRowsOf (primaryOf config) rows bucket).length

theorem Staged.stage {rows : List WeeklyRow} {partition : WeeklyFrame} {index : ℕ}
    {staging staging' : Staging} (h : Staged config rows staging)
    (hindex : index ∉ staging.stagedPaths)
    (hstage : stageWeeklyPartition index partition config.primaryBucketCount staging
      = .ok staging') :
    Staged config (rows ++ partition.rows) staging' ∧
      staging'.stagedPaths = staging.stagedPaths ++ [index] := by
  obtain ⟨⟨file, mid⟩, hfold, hstage⟩ := bind_eq_ok.mp hstage
  obtain ⟨content, hcontent, hstage⟩ := bind_eq_ok.mp hstage
  obtain rfl := Except.ok.inj hstage
  obtain rfl := context_eq_ok.mp hcontent
  have hmid : StagedBelow config partition.rows staging config.primaryBucketCount
      (some content, mid) := by
    refine foldlM_split_spec (fun n st => StagedBelow config partition.rows staging n st)
      (fun b _ t t' ht hstep => ht.step hstep) ?_ hfold
    refine ⟨?_, ?_, ?_, rfl, rfl⟩
    · intro x hx
      exact absurd hx List.not_mem_nil
    · simp
    · intro bucket
      simp
  have hall : partition.rows.filter (primaryOf config ·.pageId < config.primaryBucketCount)
      = partition.rows :=
    List.filter_eq_self.mpr fun row _ => decide_eq_true (primaryOf_lt config row.pageId)
  have hrows := hmid.contents
  rw [hall] at hrows
  obtain ⟨files, hfiles, htagged, hperm⟩ := h.files
  refine ⟨⟨⟨files ++ [content], ?_, ?_, ?_⟩, fun bucket hbucket => ?_⟩, ?_⟩
  · show (mid.stagedPaths ++ [index]).map _ = _
    rw [hmid.paths, List.map_append, List.map_append, ← hfiles, hmid.dir]
    congr 1
    · refine List.map_congr_left fun path hpath => Function.update_of_ne ?_ _ _
      rintro rfl
      exact hindex hpath
    · simp
  · intro x hx
    rw [List.flatten_append, List.mem_append] at hx
    rcases hx with hx | hx
    · exact htagged x hx
    · exact hmid.tagged x (by simpa using hx)
  · rw [List.flatten_append, List.map_append]
    refine hperm.append ?_
    simpa using hrows
  · show mid.bucketRows bucket = _
    rw [hmid.counts bucket, if_pos hbucket, h.counts bucket hbucket, bucketRowsOf, bucketRowsOf,
      bucketRowsOf, List.filter_append, List.length_append]
  · show mid.stagedPaths ++ [index] = _
    rw [hmid.paths]

/-- **Staging loses no row** and tags each with its bucket. -/
theorem stagePartitions_ok {contributions : List WeeklyFrame} {staging : Staging}
    (h : stagePartitions circumstances config.primaryBucketCount contributions = .ok staging) :
    Staged config (contributions.flatMap (·.rows)) staging := by
  have hgen : ∀ (contributions : List WeeklyFrame) (first : ℕ) (done : List WeeklyRow)
      (before : Staging), Staged config done before → before.stagedPaths = List.range first →
      (contributions.zipIdx first).foldlM (fun staging indexed => do
        let total ← context
          (checkedAddI64 staging.totalEditsBefore (sumEditsColumn indexed.1.rows))
          "page_weekly_edits input edit count overflow"
        let staging ← stageWeeklyPartition indexed.2 indexed.1 config.primaryBucketCount
          { staging with totalEditsBefore := total }
        circumstances.checkpoint "page_weekly_edits_reduce_partition" [indexed.2]
        return staging) before = .ok staging →
      Staged config (done ++ contributions.flatMap (·.rows)) staging := by
    intro contributions
    induction contributions with
    | nil =>
      intro first done before hbefore _ h
      obtain rfl := Except.ok.inj h
      rw [List.flatMap_nil, List.append_nil]
      exact hbefore
    | cons partition contributions ih =>
      intro first done before hbefore hpaths h
      rw [List.zipIdx_cons, List.foldlM_cons] at h
      obtain ⟨next, hnext, h⟩ := bind_eq_ok.mp h
      obtain ⟨total, -, hnext⟩ := bind_eq_ok.mp hnext
      obtain ⟨staged, hstaged, hnext⟩ := bind_eq_ok.mp hnext
      obtain ⟨_, -, hnext⟩ := bind_eq_ok.mp hnext
      obtain rfl := Except.ok.inj hnext
      have hbefore' : Staged config done { before with totalEditsBefore := total } :=
        ⟨hbefore.files, hbefore.counts⟩
      obtain ⟨hstep, hstepPaths⟩ := hbefore'.stage (by
        show first ∉ before.stagedPaths
        rw [hpaths]
        simp) hstaged
      have hrest := ih (first + 1) _ _ hstep (by
        rw [hstepPaths]
        show before.stagedPaths ++ [first] = _
        rw [hpaths, List.range_succ]) h
      rwa [List.append_assoc, ← List.flatMap_cons] at hrest
  have hempty : Staged config [] {} :=
    ⟨⟨[], rfl, fun x hx => absurd hx List.not_mem_nil, List.Perm.refl _⟩, fun _ _ => rfl⟩
  exact hgen contributions 0 [] {} hempty rfl h

/-- What the files of some paths hold. -/
theorem mapM_openFile {α : Type} {file : ℕ → Option α} {paths : List ℕ} {files opened : List α}
    (hfiles : paths.map file = files.map some)
    (h : paths.mapM (fun path => openFile (file path)) = .ok opened) : opened = files := by
  have hopen := forall₂_of_mapM_eq_ok h
  clear h
  induction hopen generalizing files with
  | nil =>
    cases files with
    | nil => rfl
    | cons => exact absurd hfiles (by simp)
  | cons ha _ ih =>
    cases files with
    | nil => exact absurd hfiles (by simp)
    | cons content files =>
      rw [List.map_cons, List.map_cons, List.cons.injEq] at hfiles
      have hcontent := context_eq_ok.mp ha
      rw [hfiles.1] at hcontent
      rw [Option.some.inj hcontent, ih hfiles.2]

/-- Tagged rows filtered by their tag are the rows of the bucket. -/
theorem filter_tag_perm {tagged : List (ℕ × WeeklyRow)} {rows : List WeeklyRow}
    (htagged : ∀ x ∈ tagged, x.1 = primaryOf config x.2.pageId)
    (hperm : (tagged.map (·.2)).Perm rows) (bucket : ℕ) :
    ((tagged.filter (·.1 = bucket)).map (·.2)).Perm
    (bucketRowsOf (primaryOf config) rows bucket) := by
  have hfilter : tagged.filter (·.1 = bucket)
      = tagged.filter ((fun row : WeeklyRow => decide (primaryOf config row.pageId = bucket)) ∘
        (·.2)) :=
    List.filter_congr fun x hx => by rw [Function.comp_apply, htagged x hx]
  rw [hfilter, ← List.filter_map]
  exact hperm.filter _

/-- With one level a bucket is read straight from the staged months. -/
theorem Staged.readStagedWeeklyBucket_ok {rows : List WeeklyRow} {staging : Staging} {dir : RunDir}
    {bucket : ℕ} {staged : List WeeklyRow} (h : Staged config rows staging)
    (hdir : dir.partitions = staging.dir.partitions)
    (hread : readStagedWeeklyBucket dir staging.stagedPaths bucket = .ok staged) :
    staged.Perm (bucketRowsOf (primaryOf config) rows bucket) := by
  obtain ⟨files, hfiles, htagged, hperm⟩ := h.files
  obtain ⟨_, -, hread⟩ := bind_eq_ok.mp hread
  obtain ⟨opened, hopened, hcollect⟩ := bind_eq_ok.mp hread
  rw [hdir] at hopened
  obtain rfl := mapM_openFile hfiles hopened
  obtain ⟨rfl, -⟩ := collect_ok hcollect
  exact filter_tag_perm htagged hperm bucket

/-! ## Open writers -/

/-- The buckets from `start` on, `n` of them, got `content`; nothing else changed. -/
structure RoutedTo (start n : ℕ) (content : ℕ → List WeeklyRow) (before after : Routed) :
    Prop where
  written : ∀ b < n, (after.writers (start + b)).getD []
    = (before.writers (start + b)).getD [] ++ content b
  counted : ∀ b < n, after.rows (start + b) = before.rows (start + b) + (content b).length
  other : ∀ bucket, bucket < start ∨ start + n ≤ bucket →
    after.writers bucket = before.writers bucket ∧ after.rows bucket = before.rows bucket

theorem RoutedTo.refl (start : ℕ) (content : ℕ → List WeeklyRow) (before : Routed) :
    RoutedTo start 0 content before before where
  written b hb := absurd hb (Nat.not_lt_zero b)
  counted b hb := absurd hb (Nat.not_lt_zero b)
  other _ _ := ⟨rfl, rfl⟩

theorem RoutedTo.trans {start n : ℕ} {content content' : ℕ → List WeeklyRow}
    {before mid after : Routed} (h : RoutedTo start n content before mid)
    (h' : RoutedTo start n content' mid after) :
    RoutedTo start n (fun b => content b ++ content' b) before after where
  written b hb := by rw [h'.written b hb, h.written b hb, List.append_assoc]
  counted b hb := by
    rw [h'.counted b hb, h.counted b hb, List.length_append]
    omega
  other bucket hb := ⟨(h'.other bucket hb).1.trans (h.other bucket hb).1,
    (h'.other bucket hb).2.trans (h.other bucket hb).2⟩

/-- One more bucket of a split. -/
theorem RoutedTo.step {label : String} {start n : ℕ} {content : ℕ → List WeeklyRow}
    {before mid after : Routed} (h : RoutedTo start n content before mid)
    (hroute : routeGroup label start mid (content n, n) = .ok after) :
    RoutedTo start (n + 1) content before after := by
  unfold routeGroup at hroute
  by_cases hempty : content n = []
  · simp only [hempty, if_true, Except.ok.injEq] at hroute
    subst hroute
    have hn := h.other (start + n) (by omega)
    refine ⟨fun b hb => ?_, fun b hb => ?_, fun bucket hb => h.other bucket (by omega)⟩
    · rcases Nat.lt_succ_iff_lt_or_eq.mp hb with hb | rfl
      · exact h.written b hb
      · rw [hn.1, hempty, List.append_nil]
    · rcases Nat.lt_succ_iff_lt_or_eq.mp hb with hb | rfl
      · exact h.counted b hb
      · rw [hn.2, hempty, List.length_nil, Nat.add_zero]
  · simp only [hempty, if_false] at hroute
    obtain ⟨_, -, hroute⟩ := bind_eq_ok.mp hroute
    obtain ⟨count, hcount, hroute⟩ := bind_eq_ok.mp hroute
    obtain ⟨_, -, hroute⟩ := bind_eq_ok.mp hroute
    obtain rfl := Except.ok.inj hroute
    have hn := h.other (start + n) (by omega)
    have hcount' := (checkedAdd_eq_some.mp (context_eq_ok.mp hcount)).2
    refine ⟨fun b hb => ?_, fun b hb => ?_, fun bucket hb => ?_⟩
    · dsimp only
      rcases Nat.lt_succ_iff_lt_or_eq.mp hb with hb | rfl
      · rw [Function.update_of_ne (by omega)]
        exact h.written b hb
      · rw [Function.update_self, hn.1]
        rfl
    · dsimp only
      rcases Nat.lt_succ_iff_lt_or_eq.mp hb with hb | rfl
      · rw [Function.update_of_ne (by omega)]
        exact h.counted b hb
      · rw [Function.update_self, hcount', hn.2]
    · dsimp only
      rw [Function.update_of_ne (by omega), Function.update_of_ne (by omega)]
      exact h.other bucket (by omega)

/-- An open writer holds what its bucket got; a bucket without one got nothing. -/
theorem RoutedTo.writer {start n : ℕ} {content : ℕ → List WeeklyRow} {before after : Routed}
    (h : RoutedTo start n content before after) (hfresh : before.writers = fun _ => none) {b : ℕ}
    (hb : b < n) (hne : content b ≠ []) : after.writers (start + b) = some (content b) := by
  have hwritten := h.written b hb
  rw [hfresh] at hwritten
  cases hw : after.writers (start + b) with
  | none =>
    rw [hw] at hwritten
    exact absurd hwritten.symm hne
  | some file =>
    rw [hw] at hwritten
    exact congrArg some hwritten

/-! ## Compaction -/

/-- The rows of a range, taken from one staged file. -/
theorem compactStaged_ok {dir : RunDir} {start stop path : ℕ} {routed routed' : Routed}
    {file : List (ℕ × WeeklyRow)} (hstop : start ≤ stop)
    (hfile : dir.partitions path = some file)
    (h : compactStaged dir start stop routed path = .ok routed') :
    RoutedTo start (stop - start) (fun b => (file.filter (·.1 = start + b)).map (·.2))
      routed routed' := by
  obtain ⟨staged, hstaged, h⟩ := bind_eq_ok.mp h
  obtain ⟨file', hfile', hcollect⟩ := bind_eq_ok.mp hstaged
  obtain rfl : file = file' := Option.some.inj (hfile.symm.trans (context_eq_ok.mp hfile'))
  obtain ⟨rfl, -⟩ := collect_ok hcollect
  -- a row of a bucket in the range is among the rows read
  have hgroup : ∀ b < stop - start,
      (file.filter fun row => start ≤ row.1 ∧ row.1 < stop).filter (fun row => row.1 - start = b)
        = file.filter (·.1 = start + b) := by
    intro b hb
    rw [List.filter_filter]
    refine List.filter_congr fun row _ => ?_
    simp only [← Bool.decide_and, decide_eq_decide]
    omega
  split at h
  next hempty =>
    obtain rfl : routed = routed' := Except.ok.inj h
    have hnone : ∀ b < stop - start, file.filter (·.1 = start + b) = [] := by
      intro b hb
      rw [← hgroup b hb, hempty, List.filter_nil]
    refine ⟨fun b hb => ?_, fun b hb => ?_, fun _ _ => ⟨rfl, rfl⟩⟩
    · simp [hnone b hb]
    · simp [hnone b hb]
  next =>
    obtain ⟨_, -, h⟩ := bind_eq_ok.mp h
    obtain ⟨next, hnext, h⟩ := bind_eq_ok.mp h
    obtain ⟨_, -, h⟩ := bind_eq_ok.mp h
    obtain rfl : next = routed' := Except.ok.inj h
    have hrouted : RoutedTo start (stop - start)
        (fun b => (file.filter (·.1 = start + b)).map (·.2))
          { routed with routedEdits := 0 } next := by
      refine foldlM_split_spec (fun b t => RoutedTo start b
        (fun b => (file.filter (·.1 = start + b)).map (·.2)) { routed with routedEdits := 0 } t)
        (fun b hb t t' ht hstep => ?_) (RoutedTo.refl start _ _) hnext
      rw [hgroup b hb] at hstep
      exact ht.step hstep
    exact ⟨hrouted.written, hrouted.counted, hrouted.other⟩

/-- The rows of a range, taken from all staged files. -/
theorem foldlM_compactStaged_ok {dir : RunDir} {start stop : ℕ} (hstop : start ≤ stop) :
    ∀ {paths : List ℕ} {files : List (List (ℕ × WeeklyRow))} {routed routed' : Routed},
      paths.map dir.partitions = files.map some →
      paths.foldlM (compactStaged dir start stop) routed = .ok routed' →
      RoutedTo start (stop - start) (fun b => (files.flatten.filter (·.1 = start + b)).map (·.2))
        routed routed' := by
  intro paths
  induction paths with
  | nil =>
    intro files routed routed' hfiles h
    obtain rfl : files = [] := by simpa using hfiles.symm
    obtain rfl := Except.ok.inj h
    exact ⟨fun _ _ => by simp, fun _ _ => by simp, fun _ _ => ⟨rfl, rfl⟩⟩
  | cons path paths ih =>
    intro files routed routed' hfiles h
    cases files with
    | nil => exact absurd hfiles (by simp)
    | cons file files =>
      rw [List.map_cons, List.map_cons, List.cons.injEq] at hfiles
      rw [List.foldlM_cons] at h
      obtain ⟨mid, hmid, h⟩ := bind_eq_ok.mp h
      have htrans := (compactStaged_ok hstop hfiles.1 hmid).trans (ih hfiles.2 h)
      simpa only [List.flatten_cons, List.filter_append, List.map_append] using htrans

variable (config) in
/-- The primary buckets below `n` are in their files. Empty ones have none. -/
def Compacted (rows : List WeeklyRow) (dir : RunDir) (n : ℕ) (compaction : Compaction) : Prop :=
  compaction.dir.partitions = dir.partitions ∧
    ∀ bucket < n, bucketRowsOf (primaryOf config) rows bucket ≠ [] →
      compaction.paths bucket = some bucket ∧
      ∃ file, compaction.dir.primaries bucket = some file ∧
        file.Perm (bucketRowsOf (primaryOf config) rows bucket)

/-- **Compaction gives every primary bucket its rows**, whatever the writer limit. -/
theorem compactWeeklyPrimaryBuckets_ok {rows : List WeeklyRow} {staging : Staging}
    {compaction : Compaction} (hstaged : Staged config rows staging)
    (h : compactWeeklyPrimaryBuckets circumstances config.primaryBucketCount staging.stagedPaths
      staging.bucketRows staging.bucketEdits staging.dir = .ok compaction) :
    Compacted config rows staging.dir config.primaryBucketCount compaction := by
  obtain ⟨files, hfiles, htagged, hperm⟩ := hstaged.files
  obtain ⟨_, -, h⟩ := bind_eq_ok.mp h
  obtain ⟨swept, hswept, h⟩ := bind_eq_ok.mp h
  obtain ⟨_, -, h⟩ := bind_eq_ok.mp h
  obtain rfl := Except.ok.inj h
  refine sweep_spec (fun n t => Compacted config rows staging.dir n t) circumstances.writers_pos
    ?_ ?_ hswept
  · rintro start stop before after hlt - ⟨hdir, hbelow⟩ hrange
    obtain ⟨routed, hrouted, hrange⟩ := bind_eq_ok.mp hrange
    obtain ⟨_, -, hrange⟩ := bind_eq_ok.mp hrange
    obtain rfl := Except.ok.inj hrange
    rw [← hdir] at hfiles
    have hto := foldlM_compactStaged_ok (le_of_lt hlt) hfiles hrouted
    refine ⟨hdir, fun bucket hbucket hne => ?_⟩
    by_cases hold : bucket < start
    · obtain ⟨hpath, file, hfile, hfilePerm⟩ := hbelow bucket hold hne
      have hnone : routed.writers bucket = none := (hto.other bucket (Or.inl hold)).1
      refine ⟨?_, file, ?_, hfilePerm⟩
      · simp only [hnone, Option.map_none, Option.none_or]
        exact hpath
      · simp only [hnone, Option.none_or]
        exact hfile
    · obtain ⟨b, rfl⟩ := Nat.exists_eq_add_of_le (not_lt.mp hold)
      have hcontent := filter_tag_perm htagged hperm (start + b)
      have hwriter := hto.writer rfl (by omega : b < stop - start) fun hnil => hne <| by
        rw [hnil] at hcontent
        exact List.nil_perm.mp hcontent
      refine ⟨?_, _, ?_, hcontent⟩
      · simp only [hwriter, Option.map_some, Option.some_or]
      · simp only [hwriter, Option.some_or]
  · exact ⟨rfl, fun bucket hbucket => absurd hbucket (Nat.not_lt_zero _)⟩

/-! ## Secondary routing -/

/-- The rows of a range, taken from one batch. -/
theorem routeBatch_ok {moment : List ℕ} {start stop : ℕ} {batch : List WeeklyRow}
    {st st' : ℕ × Routed}
    (h : routeBatch circumstances config moment start stop st batch = .ok st') :
    RoutedTo start (stop - start) (fun b => bucketRowsOf (secondaryOf config) batch (start + b))
      st.2 st'.2 := by
  obtain ⟨next, hnext, h⟩ := bind_eq_ok.mp h
  obtain ⟨_, -, h⟩ := bind_eq_ok.mp h
  obtain rfl : next = st' := Except.ok.inj h
  have hgroup : ∀ b < stop - start,
      (batch.filter fun row => start ≤ secondaryOf config row.pageId
          ∧ secondaryOf config row.pageId < stop).filter
          (fun row => secondaryOf config row.pageId - start = b)
        = bucketRowsOf (secondaryOf config) batch (start + b) := by
    intro b hb
    rw [List.filter_filter, bucketRowsOf]
    refine List.filter_congr fun row _ => ?_
    simp only [← Bool.decide_and, decide_eq_decide]
    omega
  refine foldlM_split_spec (fun b t => RoutedTo start b
    (fun b => bucketRowsOf (secondaryOf config) batch (start + b)) st.2 t.2)
    (fun b hb t t' ht hstep => ?_) (RoutedTo.refl start _ _) hnext
  obtain ⟨_, -, hstep⟩ := bind_eq_ok.mp hstep
  obtain ⟨routed, hrouted, hstep⟩ := bind_eq_ok.mp hstep
  obtain rfl := Except.ok.inj hstep
  have hgroup' := hgroup b hb
  unfold secondaryOf at hgroup'
  rw [hgroup'] at hrouted
  exact ht.step hrouted

theorem foldlM_routeBatch_ok {moment : List ℕ} {start stop : ℕ} :
    ∀ {batches : List (List WeeklyRow)} {st st' : ℕ × Routed},
      batches.foldlM (routeBatch circumstances config moment start stop) st = .ok st' →
      RoutedTo start (stop - start)
        (fun b => bucketRowsOf (secondaryOf config) batches.flatten (start + b)) st.2 st'.2 := by
  intro batches
  induction batches with
  | nil =>
    intro st st' h
    obtain rfl := Except.ok.inj h
    exact ⟨fun _ _ => by simp [bucketRowsOf], fun _ _ => by simp [bucketRowsOf],
      fun _ _ => ⟨rfl, rfl⟩⟩
  | cons batch batches ih =>
    intro st st' h
    rw [List.foldlM_cons] at h
    obtain ⟨mid, hmid, h⟩ := bind_eq_ok.mp h
    have htrans := (routeBatch_ok hmid).trans (ih h)
    simpa only [bucketRowsOf, List.flatten_cons, List.filter_append] using htrans

variable (config) in
/-- The secondary buckets below `n` of a primary file are in their files. -/
structure SecondaryRouted (file : List WeeklyRow) (n : ℕ) (routing : SecondaryRouting) : Prop where
  files : ∀ bucket < n, bucketRowsOf (secondaryOf config) file bucket ≠ [] →
    routing.files bucket = some (bucketRowsOf (secondaryOf config) file bucket)
  counts : ∀ bucket < n,
    routing.rows bucket = (bucketRowsOf (secondaryOf config) file bucket).length
  above : ∀ bucket, n ≤ bucket → routing.rows bucket = 0

/-- **Secondary routing gives every secondary bucket its rows**, whatever the
writer limit and the batches. -/
theorem routePrimaryToSecondaryBuckets_ok {dir : RunDir} {path primary : ℕ}
    {expected : BucketTotals} {routing : SecondaryRouting} {file : List WeeklyRow}
    (hfile : dir.primaries path = some file)
    (h : routePrimaryToSecondaryBuckets circumstances config dir path primary expected
      = .ok routing) :
    SecondaryRouted config file config.secondaryBucketCount routing := by
  obtain ⟨_, -, h⟩ := bind_eq_ok.mp h
  obtain ⟨swept, hswept, h⟩ := bind_eq_ok.mp h
  obtain ⟨_, -, h⟩ := bind_eq_ok.mp h
  obtain ⟨_, -, h⟩ := bind_eq_ok.mp h
  obtain ⟨_, -, h⟩ := bind_eq_ok.mp h
  obtain rfl := Except.ok.inj h
  refine sweep_spec (fun n t => SecondaryRouted config file n t) circumstances.writers_pos
    ?_ ?_ hswept
  · intro start stop before after hlt _ hbelow hrange
    obtain ⟨rows, hrows, hrange⟩ := bind_eq_ok.mp hrange
    obtain rfl : file = rows := Option.some.inj (hfile.symm.trans (context_eq_ok.mp hrows))
    obtain ⟨_, -, hrange⟩ := bind_eq_ok.mp hrange
    obtain ⟨⟨count, routed⟩, hrouted, hrange⟩ := bind_eq_ok.mp hrange
    obtain rfl := Except.ok.inj hrange
    have hto := foldlM_routeBatch_ok hrouted
    rw [circumstances.flatten_readBatches] at hto
    refine ⟨fun bucket hbucket hne => ?_, fun bucket hbucket => ?_, fun bucket hbucket => ?_⟩
    · by_cases hold : bucket < start
      · have hnone : routed.writers bucket = none := (hto.other bucket (Or.inl hold)).1
        simp only [hnone, Option.none_or]
        exact hbelow.files bucket hold hne
      · obtain ⟨b, rfl⟩ := Nat.exists_eq_add_of_le (not_lt.mp hold)
        have hwriter := hto.writer rfl (by omega : b < stop - start) hne
        dsimp only
        rw [hwriter, Option.some_or]
    · by_cases hold : bucket < start
      · exact ((hto.other bucket (Or.inl hold)).2).trans (hbelow.counts bucket hold)
      · obtain ⟨b, rfl⟩ := Nat.exists_eq_add_of_le (not_lt.mp hold)
        have hcount := hto.counted b (by omega)
        have hzero : before.rows (start + b) = 0 := hbelow.above (start + b) (by omega)
        simp only [hzero, Nat.zero_add] at hcount
        exact hcount
    · exact ((hto.other bucket (by omega)).2).trans (hbelow.above bucket (by omega))
  · exact ⟨fun _ hb => absurd hb (Nat.not_lt_zero _), fun _ hb => absurd hb (Nat.not_lt_zero _),
      fun _ _ => rfl⟩

end WikiEcon.Compute.Weekly
