import WikiEcon.Compute.WeeklyRouting
import WikiEcon.Compute.WeeklyExternal

/-!
# The bucketed reduction is the table

A prepared bucket is `Ready` while what it reads is its rows. Reconciling and
appending a batch of ready buckets publishes their tables in bucket order and
uses up no more than their own files (`reconcileAndAppend_ok`). The limits of a
run only decide how buckets are put into batches, and batches are put end to end.

What is published is therefore `bucketedTable`, a function of the contributions
and the topology, and it is the table of the contributions with its rows sorted
by bucket (`computePageWeeklyEdits_eq`).
-/

namespace WikiEcon.Compute.Weekly

open Routing Workers

variable {circumstances : Circumstances} {calendar : Calendar} {wiki : String}
  {config : WeeklyAggregationConfig}

/-! ## Batches of buckets -/

/-- From `dir` to `dir'` no staged file is used up but these secondary ones. -/
structure Consumes (paths : List (ℕ × ℕ)) (dir dir' : RunDir) : Prop where
  partitions : dir'.partitions = dir.partitions
  primaries : dir'.primaries = dir.primaries
  secondaries : ∀ p s, (p, s) ∉ paths → dir'.secondaries p s = dir.secondaries p s

theorem Consumes.refl (dir : RunDir) : Consumes [] dir dir := ⟨rfl, rfl, fun _ _ _ => rfl⟩

theorem Consumes.mono {paths paths' : List (ℕ × ℕ)} {dir dir' : RunDir}
    (h : Consumes paths dir dir') (hsub : paths ⊆ paths') : Consumes paths' dir dir' where
  partitions := h.partitions
  primaries := h.primaries
  secondaries p s hnot := h.secondaries p s fun hmem => hnot (hsub hmem)

theorem Consumes.trans {paths : List (ℕ × ℕ)} {dir dir' dir'' : RunDir}
    (h : Consumes paths dir dir') (h' : Consumes paths dir' dir'') : Consumes paths dir dir'' where
  partitions := h'.partitions.trans h.partitions
  primaries := h'.primaries.trans h.primaries
  secondaries p s hnot := (h'.secondaries p s hnot).trans (h.secondaries p s hnot)

/-- The staged files of some buckets. -/
def stagedFiles (buckets : List PreparedWeeklyBucket) : List (ℕ × ℕ) :=
  buckets.filterMap (·.stagedPath)

theorem stagedFiles_append (buckets buckets' : List PreparedWeeklyBucket) :
    stagedFiles (buckets ++ buckets') = stagedFiles buckets ++ stagedFiles buckets' :=
  List.filterMap_append

theorem mem_stagedFiles {buckets : List PreparedWeeklyBucket} {bucket : PreparedWeeklyBucket}
    {path : ℕ × ℕ} (hb : bucket ∈ buckets) (hpath : bucket.stagedPath = some path) :
    path ∈ stagedFiles buckets :=
  List.mem_filterMap.mpr ⟨bucket, hb, hpath⟩

/-- A bucket whose file was not used up reads what it read before. -/
theorem Consumes.stagedRowsOf_eq {paths : List (ℕ × ℕ)} {dir dir' : RunDir}
    (h : Consumes paths dir dir') {stagedPaths : List ℕ} {bucket : PreparedWeeklyBucket}
    (hpath : ∀ path, bucket.stagedPath = some path → path ∉ paths) :
    stagedRowsOf dir' stagedPaths bucket = stagedRowsOf dir stagedPaths bucket := by
  unfold stagedRowsOf
  cases hstaged : bucket.stagedPath with
  | none =>
    show readStagedWeeklyBucket dir' _ _ = readStagedWeeklyBucket dir _ _
    rw [readStagedWeeklyBucket, readStagedWeeklyBucket, h.partitions]
  | some path =>
    obtain ⟨p, s⟩ := path
    simp only [h.secondaries p s (hpath (p, s) hstaged)]

theorem reconcileWeeklyBucket_consumes {stagedPaths : List ℕ} {dir dir' : RunDir}
    {bucket : PreparedWeeklyBucket} {result : WeeklyBucketResult}
    (h : reconcileWeeklyBucket circumstances calendar wiki stagedPaths dir bucket
      = .ok (result, dir')) :
    Consumes bucket.stagedPath.toList dir dir' := by
  obtain ⟨_, -, -, -, rows, rfl, -⟩ := reconcileWeeklyBucket_ok h
  unfold reclaimCompletedWeeklyScratch
  cases hstaged : bucket.stagedPath with
  | none => exact ⟨rfl, rfl, fun _ _ _ => rfl⟩
  | some path =>
    obtain ⟨p, s⟩ := path
    refine ⟨rfl, rfl, fun p' s' hnot => ?_⟩
    simp only [Option.toList_some, List.mem_singleton, Prod.mk.injEq, not_and] at hnot
    dsimp only
    by_cases hp : p' = p
    · subst hp
      rw [Function.update_self, Function.update_of_ne (hnot rfl)]
    · rw [Function.update_of_ne hp]

section Batch

variable (stagedPaths : List ℕ) (content : PreparedWeeklyBucket → List WeeklyRow)

/-- What the bucket reads are its rows. -/
def Ready (dir : RunDir) (bucket : PreparedWeeklyBucket) : Prop :=
  ∀ staged, stagedRowsOf dir stagedPaths bucket = .ok staged → staged.Perm (content bucket)

variable (calendar wiki) in
/-- The bucket's table is in its result file. -/
structure Reconciled (bucket : PreparedWeeklyBucket) (result : WeeklyBucketResult) (dir : RunDir) :
    Prop where
  logical : result.logicalBucket = bucket.logicalBucket
  path : result.resultPath = bucket.logicalBucket
  file : dir.results bucket.logicalBucket = some (weeklyTable calendar wiki (content bucket))

/-- Buckets in order, none sharing a file with another. -/
structure InOrder (buckets : List PreparedWeeklyBucket) : Prop where
  logical : buckets.Pairwise (·.logicalBucket < ·.logicalBucket)
  files : (stagedFiles buckets).Nodup

theorem InOrder.nodup {buckets : List PreparedWeeklyBucket} (h : InOrder buckets) :
    buckets.Nodup :=
  h.logical.imp fun hlt heq => by
    subst heq
    exact lt_irrefl _ hlt

theorem InOrder.logical_ne {buckets : List PreparedWeeklyBucket} (h : InOrder buckets)
    {a b : PreparedWeeklyBucket} (ha : a ∈ buckets) (hb : b ∈ buckets) (hne : a ≠ b) :
    a.logicalBucket ≠ b.logicalBucket := fun heq =>
  hne (List.inj_on_of_nodup_map ((List.pairwise_map.mpr h.logical).imp fun h => ne_of_lt h) ha hb
    heq)

theorem InOrder.file_ne {buckets : List PreparedWeeklyBucket} (h : InOrder buckets)
    {a b : PreparedWeeklyBucket} (ha : a ∈ buckets) (hb : b ∈ buckets) (hne : a ≠ b)
    {path : ℕ × ℕ} (hpath : b.stagedPath = some path) : path ∉ a.stagedPath.toList := by
  intro hmem
  have ha' : a.stagedPath = some path := by
    cases hstaged : a.stagedPath with
    | none => rw [hstaged] at hmem; exact absurd hmem (by simp)
    | some path' =>
      rw [hstaged, Option.toList_some, List.mem_singleton] at hmem
      rw [hmem]
  have hfiles := List.pairwise_filterMap.mp h.files
  rcases List.mem_iff_getElem.mp ha with ⟨i, hi, rfl⟩
  rcases List.mem_iff_getElem.mp hb with ⟨j, hj, rfl⟩
  rcases Nat.lt_trichotomy i j with hij | rfl | hij
  · exact List.pairwise_iff_getElem.mp hfiles i j hi hj hij path ha' path hpath rfl
  · exact hne rfl
  · exact List.pairwise_iff_getElem.mp hfiles j i hj hi hij path hpath path ha' rfl

theorem InOrder.sublist {buckets buckets' : List PreparedWeeklyBucket} (h : InOrder buckets)
    (hsub : buckets'.Sublist buckets) : InOrder buckets' :=
  ⟨h.logical.sublist hsub, h.files.sublist (hsub.filterMap _)⟩

variable {stagedPaths content}

/-- Another bucket's worker leaves a result alone. -/
theorem Reconciled.keep {bucket other : PreparedWeeklyBucket} {result : WeeklyBucketResult}
    {dir dir' : RunDir} {otherResult : WeeklyBucketResult}
    (h : Reconciled calendar wiki content bucket result dir)
    (hne : bucket.logicalBucket ≠ other.logicalBucket)
    (hwork : reconcileWeeklyBucket circumstances calendar wiki stagedPaths dir other
      = .ok (otherResult, dir')) :
    Reconciled calendar wiki content bucket result dir' := by
  obtain ⟨_, -, -, -, rows, rfl, -⟩ := reconcileWeeklyBucket_ok hwork
  refine ⟨h.logical, h.path, ?_⟩
  unfold reclaimCompletedWeeklyScratch
  split
  · exact (Function.update_of_ne hne _ _).trans h.file
  · exact (Function.update_of_ne hne _ _).trans h.file

/-- The workers of a batch read and write their own files. -/
theorem reconcile_independent {buckets jobs : List PreparedWeeklyBucket} (hjobs : jobs ⊆ buckets)
    (horder : InOrder buckets) (hedits : ∀ b ∈ buckets, ∀ row ∈ content b, row.edits ≤ u32Max) :
    Independent (reconcileWeeklyBucket circumstances calendar wiki stagedPaths)
      (fun b dir => Ready stagedPaths content dir b)
      (fun b r dir => Reconciled calendar wiki content b r dir) jobs where
  does b hb dir r dir' hpre hwork := by
    obtain ⟨staged, hstaged, hlogical, hpath, rows, rfl, hrows⟩ := reconcileWeeklyBucket_ok hwork
    have hperm := hpre staged hstaged
    have htable : rows = weeklyTable calendar wiki (content b) := by
      rw [hrows fun row hrow => hedits b (hjobs hb) row (hperm.mem_iff.mp hrow)]
      exact weeklyTable_congr calendar wiki hperm
    refine ⟨hlogical, hpath, ?_⟩
    unfold reclaimCompletedWeeklyScratch
    rw [← htable]
    split
    · exact Function.update_self ..
    · exact Function.update_self ..
  keepsPre i hi j hj hne dir r dir' _ hpre hwork := by
    have hconsumes := reconcileWeeklyBucket_consumes hwork
    intro staged hstaged
    rw [hconsumes.stagedRowsOf_eq fun path hpath =>
      horder.file_ne (hjobs hi) (hjobs hj) hne hpath] at hstaged
    exact hpre staged hstaged
  keepsPost i hi j hj hne dir r dir' q _ hpost hwork :=
    hpost.keep (horder.logical_ne (hjobs hj) (hjobs hi) hne.symm) hwork

/-- Results in the order of their buckets stay as they are when they are sorted. -/
theorem insertionSort_results {buckets : List PreparedWeeklyBucket}
    {results : List WeeklyBucketResult} {dir : RunDir} (horder : InOrder buckets)
    (h : List.Forall₂ (fun b r => Reconciled calendar wiki content b r dir) buckets results) :
    results.insertionSort (fun a b => a.logicalBucket ≤ b.logicalBucket) = results := by
  have hlogical : buckets.map (·.logicalBucket) = results.map (·.logicalBucket) :=
    map_eq_map_of_forall₂ (fun _ _ hr => hr.logical.symm) h
  have hpairwise : results.Pairwise fun a b => a.logicalBucket ≤ b.logicalBucket := by
    have hle : (results.map (·.logicalBucket)).Pairwise (· ≤ ·) := by
      rw [← hlogical, List.pairwise_map]
      exact horder.logical.imp fun h => le_of_lt h
    exact List.pairwise_map.mp hle
  exact List.Pairwise.insertionSort_eq hpairwise

/-- **A batch of ready buckets is reconciled**, its results in bucket order. -/
theorem reconcileWeeklyBucketBatch_ok {buckets : List PreparedWeeklyBucket}
    (horder : InOrder buckets) (hedits : ∀ b ∈ buckets, ∀ row ∈ content b, row.edits ≤ u32Max)
    {dir dir' : RunDir} {results : List WeeklyBucketResult}
    (hready : ∀ b ∈ buckets, Ready stagedPaths content dir b)
    (h : reconcileWeeklyBucketBatch circumstances calendar wiki stagedPaths buckets dir
      = .ok (results, dir')) :
    List.Forall₂ (fun b r => Reconciled calendar wiki content b r dir') buckets results ∧
      Consumes (stagedFiles buckets) dir dir' := by
  unfold reconcileWeeklyBucketBatch at h
  split at h
  next hempty =>
    obtain rfl : buckets = [] := List.isEmpty_iff.mp hempty
    obtain ⟨rfl, rfl⟩ := Prod.mk.inj (Except.ok.inj h)
    exact ⟨.nil, Consumes.refl dir⟩
  next =>
    obtain ⟨_, -, h⟩ := bind_eq_ok.mp h
    obtain ⟨⟨collected, final⟩, hwaves, h⟩ := bind_eq_ok.mp h
    obtain ⟨rfl, rfl⟩ := Prod.mk.inj (Except.ok.inj h)
    have hall : List.Forall₂ (fun b r => Reconciled calendar wiki content b r final) buckets
        collected ∧ Consumes (stagedFiles buckets) dir final := by
      -- The invariant over the waves: what is done is reconciled, and only its own files are used
      -- up.
      refine inWaves_spec (fun done (t : List WeeklyBucketResult × RunDir) =>
          List.Forall₂ (fun b r => Reconciled calendar wiki content b r t.2) done t.1 ∧
            Consumes (stagedFiles done) dir t.2) circumstances.workers_pos
        (s := ([], dir)) ?_ (List.nil_append buckets).symm (le_refl _)
        ⟨.nil, Consumes.refl dir⟩ hwaves
      rintro done jobs rest ⟨doneResults, before⟩ t hsplit ⟨hdone, hconsumed⟩ hrun
      obtain ⟨⟨joined, after⟩, hwave, hrun⟩ := bind_eq_ok.mp hrun
      obtain rfl := Except.ok.inj hrun
      have hjobs : jobs ⊆ buckets := fun b hb => by simp [hsplit, hb]
      have hdoneSub : done ⊆ buckets := fun b hb => by simp [hsplit, hb]
      have hnodup := horder.nodup
      rw [hsplit, List.append_assoc] at hnodup
      have hdisjoint : ∀ a ∈ done, ∀ b ∈ jobs, a ≠ b := fun a ha b hb =>
        (List.nodup_append.mp hnodup).2.2 a ha b (List.mem_append_left _ hb)
      have hjobsNodup : jobs.Nodup :=
        (List.nodup_append.mp (List.nodup_append.mp hnodup).2.1).1
      -- The buckets of the wave still have their files, since no bucket before shares one.
      have hpre : ∀ b ∈ jobs, Ready stagedPaths content before b := by
        intro b hb staged hstaged
        rw [hconsumed.stagedRowsOf_eq] at hstaged
        · exact hready b (hjobs hb) staged hstaged
        · intro path hpath hmem
          obtain ⟨a, ha, hapath⟩ := List.mem_filterMap.mp hmem
          refine horder.file_ne (hdoneSub ha) (hjobs hb) (hdisjoint a ha b hb) hpath ?_
          simp [hapath]
      have hfinishing := (circumstances.finishing (1 :: jobs.map (·.logicalBucket))).perm
        jobs.zipIdx
      have hjoined := wave_spec hfinishing hjobsNodup
        (reconcile_independent hjobs horder hedits) hpre hwave
      -- The earlier buckets keep their rows, whatever the order of the workers.
      have hkept : List.Forall₂ (fun b r => Reconciled calendar wiki content b r after) done
          doneResults := by
        refine wave_preserves (fun t =>
          List.Forall₂ (fun b r => Reconciled calendar wiki content b r t) done doneResults)
          hfinishing (fun i hi u r u' hu hwork => ?_) hdone hwave
        refine List.forall₂_iff_get.mpr ⟨hu.length_eq, fun k hk hk' => ?_⟩
        refine (hu.get hk hk').keep ?_ hwork
        exact horder.logical_ne (hdoneSub (List.get_mem _ _)) (hjobs hi)
          (hdisjoint _ (List.get_mem _ _) i hi)
      have hused : Consumes (stagedFiles jobs) before after := by
        refine wave_preserves (fun t => Consumes (stagedFiles jobs) before t)
          hfinishing (fun i hi u r u' hu hwork => ?_) ((Consumes.refl before).mono (by simp)) hwave
        refine hu.trans ((reconcileWeeklyBucket_consumes hwork).mono fun path hpath => ?_)
        exact mem_stagedFiles hi (Option.mem_toList.mp hpath)
      refine ⟨List.rel_append hkept hjoined, ?_⟩
      rw [stagedFiles_append]
      exact (hconsumed.mono (List.subset_append_left _ _)).trans
        (hused.mono (List.subset_append_right _ _))
    rw [insertionSort_results horder hall.1]
    exact hall

/-- Appending results in order appends their tables. -/
theorem appendWeeklyBucketResults_ok :
    ∀ {buckets : List PreparedWeeklyBucket} {results : List WeeklyBucketResult}
      {published published' : Published}, InOrder buckets →
      List.Forall₂ (fun b r => Reconciled calendar wiki content b r published.dir) buckets
        results →
      appendWeeklyBucketResults results published = .ok published' →
      published'.output.getD [] = published.output.getD []
          ++ buckets.flatMap (fun b => weeklyTable calendar wiki (content b)) ∧
        Consumes [] published.dir published'.dir := by
  intro buckets
  induction buckets with
  | nil =>
    intro results published published' _ hresults h
    cases hresults
    obtain rfl := Except.ok.inj h
    exact ⟨(List.append_nil _).symm, Consumes.refl _⟩
  | cons bucket buckets ih =>
    intro results published published' horder hresults h
    obtain ⟨result, rest, hresult, hrest, rfl⟩ := List.forall₂_cons_left_iff.mp hresults
    rw [appendWeeklyBucketResults, List.foldlM_cons] at h
    obtain ⟨next, hnext, h⟩ := bind_eq_ok.mp h
    obtain ⟨frame, hframe, hnext⟩ := bind_eq_ok.mp hnext
    obtain ⟨_, -, hnext⟩ := bind_eq_ok.mp hnext
    obtain ⟨_, -, hnext⟩ := bind_eq_ok.mp hnext
    obtain ⟨_, -, hnext⟩ := bind_eq_ok.mp hnext
    obtain rfl := Except.ok.inj hnext
    have htable : frame = weeklyTable calendar wiki (content bucket) := by
      have hfile := context_eq_ok.mp hframe
      rw [hresult.path, hresult.file] at hfile
      exact (Option.some.inj hfile).symm
    obtain ⟨hbucket, hlogical⟩ := List.pairwise_cons.mp horder.logical
    have horder' := horder.sublist (List.sublist_cons_self bucket buckets)
    -- the results still to come have other numbers
    obtain ⟨houtput, hconsumes⟩ := ih horder' (List.forall₂_iff_get.mpr
      ⟨hrest.length_eq, fun k hk hk' => by
        have hk'' := hrest.get hk hk'
        refine ⟨hk''.logical, hk''.path, ?_⟩
        have hlt := hbucket _ (List.get_mem buckets ⟨k, hk⟩)
        dsimp only
        rw [hresult.path, Function.update_of_ne (by omega)]
        exact hk''.file⟩) h
    have hremoved : Consumes [] published.dir { published.dir with
        results := Function.update published.dir.results result.resultPath none } :=
      ⟨rfl, rfl, fun _ _ _ => rfl⟩
    refine ⟨?_, hremoved.trans hconsumes⟩
    rw [houtput, List.flatMap_cons, htable, ← List.append_assoc]
    rfl

/-- **A batch of ready buckets is published**, its tables in bucket order. -/
theorem reconcileAndAppend_ok {buckets : List PreparedWeeklyBucket} (horder : InOrder buckets)
    (hedits : ∀ b ∈ buckets, ∀ row ∈ content b, row.edits ≤ u32Max)
    {published published' : Published}
    (hready : ∀ b ∈ buckets, Ready stagedPaths content published.dir b)
    (h : reconcileAndAppend circumstances calendar wiki stagedPaths buckets published
      = .ok published') :
    published'.output.getD [] = published.output.getD []
        ++ buckets.flatMap (fun b => weeklyTable calendar wiki (content b)) ∧
      Consumes (stagedFiles buckets) published.dir published'.dir := by
  obtain ⟨⟨results, dir⟩, hbatch, happend⟩ := bind_eq_ok.mp h
  obtain ⟨hresults, hconsumes⟩ := reconcileWeeklyBucketBatch_ok horder hedits hready hbatch
  obtain ⟨houtput, hconsumes'⟩ :=
    appendWeeklyBucketResults_ok horder hresults happend
  exact ⟨houtput, hconsumes.trans (hconsumes'.mono (List.nil_subset _))⟩

end Batch

/-! ## What is published -/

section Table

variable (calendar wiki config) (rows : List WeeklyRow)

def primaryRows (primary : ℕ) : List WeeklyRow :=
  bucketRowsOf (primaryOf config) rows primary

def secondaryRows (primary secondary : ℕ) : List WeeklyRow :=
  bucketRowsOf (secondaryOf config) (primaryRows config rows primary) secondary

/-- The tables of a primary bucket's logical buckets. -/
def primaryTable (primary : ℕ) : List WeeklyOutputRow :=
  (List.range config.secondaryBucketCount).flatMap fun secondary =>
    weeklyTable calendar wiki (secondaryRows config rows primary secondary)

/-- **What a run publishes**: the table of each logical bucket, in bucket order. -/
def bucketedTable : List WeeklyOutputRow :=
  (List.range config.primaryBucketCount).flatMap (primaryTable calendar wiki config rows)

variable {rows}

theorem bucketedTable_perm :
    (bucketedTable calendar wiki config rows).Perm (weeklyTable calendar wiki rows) := by
  refine List.Perm.trans ?_ (weeklyTable_perm calendar wiki (primaryOf_lt config) rows)
  refine List.Perm.flatMap_left _ fun primary _ => ?_
  exact weeklyTable_perm calendar wiki (secondaryOf_lt config) (primaryRows config rows primary)

theorem weeklyTable_nil : weeklyTable calendar wiki [] = [] := rfl

/-- Empty buckets may be left out. -/
theorem flatMap_filter_table {α : Type} {content : α → List WeeklyRow} {keep : α → Bool} :
    ∀ {l : List α}, (∀ a ∈ l, keep a = false → content a = []) →
      (l.filter keep).flatMap (fun a => weeklyTable calendar wiki (content a))
        = l.flatMap fun a => weeklyTable calendar wiki (content a) := by
  intro l
  induction l with
  | nil => intro _; rfl
  | cons a l ih =>
    intro hkeep
    have ih' := ih fun b hb => hkeep b (List.mem_cons_of_mem _ hb)
    cases ha : keep a with
    | true => rw [List.filter_cons_of_pos ha, List.flatMap_cons, List.flatMap_cons, ih']
    | false =>
      have hnot : ¬ keep a = true := by rw [ha]; exact Bool.false_ne_true
      rw [List.filter_cons_of_neg hnot, List.flatMap_cons, hkeep a (List.mem_cons_self ..) ha,
        weeklyTable_nil, ih', List.nil_append]

end Table

/-! ## One level -/

section OneLevel

variable {rows : List WeeklyRow}

/-- A primary bucket prepared straight from the staged months. -/
def preparedPrimary (bucketRows : ℕ → ℕ) (primary : ℕ) : PreparedWeeklyBucket where
  logicalBucket := primary
  primaryBucket := primary
  secondaryBucket := 0
  stagedRows := bucketRows primary
  stagedPath := none

theorem inOrder_preparedPrimary (bucketRows : ℕ → ℕ) (start count : ℕ) :
    InOrder (((List.range' start count).filter fun primary => 0 < bucketRows primary).map
      (preparedPrimary bucketRows)) := by
  constructor
  · exact List.pairwise_map.mpr (List.Pairwise.filter _ List.pairwise_lt_range')
  · have hnone : ∀ l : List ℕ, stagedFiles (l.map (preparedPrimary bucketRows)) = [] := fun l => by
      rw [stagedFiles, List.filterMap_map]
      exact List.filterMap_eq_nil_iff.mpr fun _ _ => rfl
    rw [hnone]
    exact List.nodup_nil

/-- **With one level the primary tables are published in order**, whatever the
worker limit. -/
theorem sweep_reconcilePrimaryRange_ok {staging : Staging} (hstaged : Staged config rows staging)
    (hedits : ∀ row ∈ rows, row.edits ≤ u32Max) {published published' : Published}
    (hdir : published.dir.partitions = staging.dir.partitions) (hempty : published.output = none)
    (h : sweep config.primaryBucketCount circumstances.budget.weeklyWorkerLimit
      (reconcilePrimaryRange circumstances calendar wiki staging.stagedPaths staging.bucketRows)
      published = .ok published') :
    published'.output.getD [] = (List.range config.primaryBucketCount).flatMap fun primary =>
      weeklyTable calendar wiki (primaryRows config rows primary) := by
  refine (sweep_spec (fun n (t : Published) =>
      t.output.getD [] = ((List.range n).flatMap fun primary =>
        weeklyTable calendar wiki (primaryRows config rows primary)) ∧
      t.dir.partitions = staging.dir.partitions) circumstances.workers_pos
    ?_ ⟨by rw [hempty]; rfl, hdir⟩ h).1
  rintro start stop before after hlt hstop ⟨houtput, hpartitions⟩ hrange
  have hready : ∀ b ∈ ((List.range' start (stop - start)).filter
      fun primary => 0 < staging.bucketRows primary).map (preparedPrimary staging.bucketRows),
      Ready staging.stagedPaths (fun b => primaryRows config rows b.primaryBucket)
        before.dir b := by
    intro b hb staged hread
    obtain ⟨primary, -, rfl⟩ := List.mem_map.mp hb
    exact hstaged.readStagedWeeklyBucket_ok hpartitions hread
  obtain ⟨hout, hconsumes⟩ := reconcileAndAppend_ok
    (inOrder_preparedPrimary staging.bucketRows start (stop - start))
    (fun b _ row hrow => hedits row (List.mem_filter.mp hrow).1) hready hrange
  refine ⟨?_, hconsumes.partitions.trans hpartitions⟩
  have hsplit : List.range stop = List.range start ++ List.range' start (stop - start) := by
    have happend := @List.range'_append 0 start (stop - start) 1
    rw [Nat.one_mul, Nat.zero_add, Nat.add_sub_cancel' (le_of_lt hlt)] at happend
    rw [List.range_eq_range', List.range_eq_range', happend]
  rw [hout, houtput, hsplit, List.flatMap_append, List.flatMap_map]
  congr 1
  -- a bucket that staged no row has none
  refine flatMap_filter_table calendar wiki fun primary hprimary hzero => ?_
  rw [List.mem_range'_1] at hprimary
  have hcount := hstaged.counts primary (by omega)
  have hzero' := of_decide_eq_false hzero
  have hlength : (bucketRowsOf (primaryOf config) rows primary).length = 0 := by omega
  exact List.length_eq_zero_iff.mp hlength

end OneLevel

/-! ## Two levels -/

section TwoLevels

variable (config) (rows : List WeeklyRow)

/-- The nonempty secondary buckets of a primary. -/
def preparedSecondaries (primary : ℕ) : List PreparedWeeklyBucket :=
  ((List.range config.secondaryBucketCount).filter fun secondary =>
      0 < (secondaryRows config rows primary secondary).length).map fun secondary => {
    logicalBucket := primary * config.secondaryBucketCount + secondary
    primaryBucket := primary
    secondaryBucket := secondary
    stagedRows := (secondaryRows config rows primary secondary).length
    stagedPath := some (primary, secondary) }

/-- The secondary files of a routed primary hold their buckets' rows. -/
structure RoutedFiles (job : WeeklyPrimaryRouteJob) (routed : RoutedPrimary) (dir : RunDir) :
    Prop where
  primaryBucket : routed.primaryBucket = job.primaryBucket
  primaryPath : routed.primaryPath = job.primaryPath
  counts : ∀ secondary < config.secondaryBucketCount, routed.rows secondary
    = (secondaryRows config rows job.primaryBucket secondary).length
  files : ∀ secondary < config.secondaryBucketCount,
    secondaryRows config rows job.primaryBucket secondary ≠ [] →
      routed.paths secondary = some (job.primaryBucket, secondary) ∧
      ∃ file, dir.secondaries job.primaryBucket secondary = some file ∧
        file.Perm (secondaryRows config rows job.primaryBucket secondary)

/-- A primary file holds its bucket's rows. -/
def PrimaryReady (job : WeeklyPrimaryRouteJob) (dir : RunDir) : Prop :=
  ∃ file, dir.primaries job.primaryPath = some file ∧
    file.Perm (primaryRows config rows job.primaryBucket)

variable {config rows}

/-- A routing worker writes the secondary files of its primary. -/
theorem routeWorker_ok {dir dir' : RunDir} {job : WeeklyPrimaryRouteJob} {routed : RoutedPrimary}
    (hready : PrimaryReady config rows job dir)
    (h : routeWorker circumstances config dir job = .ok (routed, dir')) :
    RoutedFiles config rows job routed dir' := by
  obtain ⟨file, hfile, hperm⟩ := hready
  obtain ⟨routing, hrouting, h⟩ := bind_eq_ok.mp h
  obtain ⟨_, -, h⟩ := bind_eq_ok.mp h
  obtain ⟨rfl, rfl⟩ := Prod.mk.inj (Except.ok.inj h)
  have hrouted := routePrimaryToSecondaryBuckets_ok hfile hrouting
  have hbucket : ∀ secondary, (bucketRowsOf (secondaryOf config) file secondary).Perm
      (secondaryRows config rows job.primaryBucket secondary) := fun secondary => hperm.filter _
  refine ⟨rfl, rfl, fun secondary hsecondary => ?_, fun secondary hsecondary hne => ?_⟩
  · exact (hrouted.counts secondary hsecondary).trans (hbucket secondary).length_eq
  · have hfiles := hrouted.files secondary hsecondary fun hnil => hne <| by
      have hperm' := hbucket secondary
      rw [hnil] at hperm'
      exact List.nil_perm.mp hperm'
    refine ⟨?_, _, ?_, hbucket secondary⟩
    · dsimp only
      rw [hfiles, Option.map_some]
    · dsimp only
      rw [Function.update_self, hfiles, Option.some_or]

theorem routeWorker_frame {dir dir' : RunDir} {job : WeeklyPrimaryRouteJob}
    {routed : RoutedPrimary} (h : routeWorker circumstances config dir job = .ok (routed, dir')) :
    dir'.primaries = dir.primaries ∧
      ∀ primary, primary ≠ job.primaryBucket →
        dir'.secondaries primary = dir.secondaries primary := by
  obtain ⟨routing, -, h⟩ := bind_eq_ok.mp h
  obtain ⟨_, -, h⟩ := bind_eq_ok.mp h
  obtain ⟨rfl, rfl⟩ := Prod.mk.inj (Except.ok.inj h)
  exact ⟨rfl, fun primary hne => Function.update_of_ne hne _ _⟩

/-- Routing workers of different primaries keep out of each other's way. -/
theorem route_independent {jobs : List WeeklyPrimaryRouteJob}
    (hjobs : (jobs.map (·.primaryBucket)).Nodup) :
    Independent (routeWorker circumstances config)
      (fun job dir => PrimaryReady config rows job dir)
      (fun job routed dir => RoutedFiles config rows job routed dir) jobs where
  does job _ dir routed dir' hready hwork := routeWorker_ok hready hwork
  keepsPre i _ j _ _ dir routed dir' _ hready hwork := by
    obtain ⟨file, hfile, hperm⟩ := hready
    exact ⟨file, by rw [(routeWorker_frame hwork).1]; exact hfile, hperm⟩
  keepsPost i hi j hj hne dir routed dir' q _ hpost hwork := by
    have hne' : j.primaryBucket ≠ i.primaryBucket := fun heq =>
      hne (List.inj_on_of_nodup_map hjobs hi hj heq.symm)
    refine ⟨hpost.primaryBucket, hpost.primaryPath, hpost.counts, fun secondary hs hrows => ?_⟩
    obtain ⟨hpath, file, hfile, hperm⟩ := hpost.files secondary hs hrows
    exact ⟨hpath, file, by rw [(routeWorker_frame hwork).2 _ hne']; exact hfile, hperm⟩

/-- A loop whose steps return known values returns these. -/
theorem eq_map_of_mapM_eq_ok {α β : Type} {f : α → Except String β} {g : α → β} :
    ∀ {l : List α} {r : List β}, (∀ a ∈ l, ∀ b, f a = .ok b → b = g a) → l.mapM f = .ok r →
      r = l.map g := by
  intro l r hf h
  have hall := forall₂_of_mapM_eq_ok h
  refine List.ext_getElem (by rw [List.length_map, hall.length_eq]) fun i hi hi' => ?_
  rw [List.length_map] at hi'
  rw [List.getElem_map]
  exact hf _ (List.getElem_mem hi') _ (hall.get hi' hi)

theorem prepareBuckets_ok {job : WeeklyPrimaryRouteJob} {routed : RoutedPrimary} {dir : RunDir}
    {buckets : List PreparedWeeklyBucket} (hrouted : RoutedFiles config rows job routed dir)
    (h : prepareBuckets config routed = .ok buckets) :
    buckets = preparedSecondaries config rows job.primaryBucket := by
  obtain ⟨found, hfound, h⟩ := bind_eq_ok.mp h
  obtain rfl := Except.ok.inj h
  have hmap := eq_map_of_mapM_eq_ok (g := fun secondary =>
    if 0 < (secondaryRows config rows job.primaryBucket secondary).length then some {
      logicalBucket := job.primaryBucket * config.secondaryBucketCount + secondary
      primaryBucket := job.primaryBucket
      secondaryBucket := secondary
      stagedRows := (secondaryRows config rows job.primaryBucket secondary).length
      stagedPath := some (job.primaryBucket, secondary) } else none)
    (fun secondary hsecondary bucket hbucket => by
      rw [List.mem_range] at hsecondary
      obtain ⟨path, hpath, hbucket⟩ := bind_eq_ok.mp hbucket
      obtain rfl := Except.ok.inj hbucket
      have hcount := hrouted.counts secondary hsecondary
      unfold requiredSecondaryBucketPath at hpath
      rw [hcount] at hpath ⊢
      by_cases hzero : (secondaryRows config rows job.primaryBucket secondary).length = 0
      · rw [if_pos hzero] at hpath
        obtain rfl := Except.ok.inj hpath
        rw [if_neg (by omega)]
        rfl
      · rw [if_neg hzero] at hpath
        have hne : secondaryRows config rows job.primaryBucket secondary ≠ [] := fun hnil =>
          hzero (by rw [hnil]; rfl)
        rw [(hrouted.files secondary hsecondary hne).1] at hpath
        obtain rfl := Except.ok.inj hpath
        rw [if_pos (by omega), hrouted.primaryBucket]
        rfl) hfound
  rw [hmap, preparedSecondaries, List.filterMap_map]
  induction List.range config.secondaryBucketCount with
  | nil => rfl
  | cons secondary l ih =>
    by_cases hpos : 0 < (secondaryRows config rows job.primaryBucket secondary).length
    · rw [List.filterMap_cons_some (b := _)
        (by simp only [Function.comp_def, id, if_pos hpos]; rfl),
        ih, List.filter_cons_of_pos (by simpa using hpos), List.map_cons]
    · rw [List.filterMap_cons_none (by simp only [Function.comp_def, id, if_neg hpos]),
        ih, List.filter_cons_of_neg (by simpa using hpos)]

/-- What a prepared secondary bucket says of itself. -/
theorem of_mem_preparedSecondaries {primary : ℕ} {bucket : PreparedWeeklyBucket}
    (h : bucket ∈ preparedSecondaries config rows primary) :
    bucket.primaryBucket = primary ∧ bucket.secondaryBucket < config.secondaryBucketCount ∧
      bucket.stagedPath = some (primary, bucket.secondaryBucket) ∧
      bucket.logicalBucket = primary * config.secondaryBucketCount + bucket.secondaryBucket ∧
      secondaryRows config rows primary bucket.secondaryBucket ≠ [] := by
  obtain ⟨secondary, hsecondary, rfl⟩ := List.mem_map.mp h
  obtain ⟨hlt, hpos⟩ := List.mem_filter.mp hsecondary
  exact ⟨rfl, List.mem_range.mp hlt, rfl, rfl, List.length_pos_iff.mp (of_decide_eq_true hpos)⟩

/-- The buckets of ascending primaries are in order. -/
theorem inOrder_preparedSecondaries {primaries : List ℕ} (h : primaries.Pairwise (· < ·)) :
    InOrder (primaries.flatMap (preparedSecondaries config rows)) := by
  have hlogical : (primaries.flatMap (preparedSecondaries config rows)).Pairwise
      (·.logicalBucket < ·.logicalBucket) := by
    refine List.pairwise_flatMap.mpr ⟨fun primary _ => ?_, h.imp fun hlt a ha b hb => ?_⟩
    · refine List.pairwise_map.mpr (List.Pairwise.filter _ (List.pairwise_lt_range.imp ?_))
      intro s s' hlt
      exact Nat.add_lt_add_left hlt _
    · obtain ⟨-, hsecondary, -, halogical, -⟩ := of_mem_preparedSecondaries ha
      obtain ⟨-, -, -, hblogical, -⟩ := of_mem_preparedSecondaries hb
      have hmul := Nat.mul_le_mul_right config.secondaryBucketCount (Nat.succ_le_of_lt hlt)
      rw [Nat.succ_mul] at hmul
      omega
  refine ⟨hlogical, List.pairwise_filterMap.mpr ?_⟩
  -- the number is made of the two in the path
  refine hlogical.imp_of_mem fun {a b} ha hb hlt path hapath path' hbpath heq => ?_
  obtain ⟨p, -, hap⟩ := List.mem_flatMap.mp ha
  obtain ⟨p', -, hbp⟩ := List.mem_flatMap.mp hb
  obtain ⟨-, -, hastaged, halogical, -⟩ := of_mem_preparedSecondaries hap
  obtain ⟨-, -, hbstaged, hblogical, -⟩ := of_mem_preparedSecondaries hbp
  have hpaths : (p, a.secondaryBucket) = (p', b.secondaryBucket) := by
    rw [← Option.some.inj (hastaged.symm.trans hapath),
      ← Option.some.inj (hbstaged.symm.trans hbpath)] at heq
    exact heq
  obtain ⟨rfl, hsecondary⟩ := Prod.mk.inj hpaths
  rw [halogical, hblogical, hsecondary] at hlt
  exact lt_irrefl _ hlt

/-- A primary's prepared buckets give its table. -/
theorem flatMap_preparedSecondaries (primary : ℕ) :
    (preparedSecondaries config rows primary).flatMap (fun bucket =>
        weeklyTable calendar wiki
          (secondaryRows config rows bucket.primaryBucket bucket.secondaryBucket))
      = primaryTable calendar wiki config rows primary := by
  rw [preparedSecondaries, List.flatMap_map]
  refine flatMap_filter_table calendar wiki fun secondary _ hzero => ?_
  have hzero' := of_decide_eq_false hzero
  have hlength : (secondaryRows config rows primary secondary).length = 0 := by omega
  exact List.length_eq_zero_iff.mp hlength

theorem insertionSort_routed {jobs : List WeeklyPrimaryRouteJob} {routed : List RoutedPrimary}
    {dir : RunDir} (horder : (jobs.map (·.primaryBucket)).Pairwise (· < ·))
    (h : List.Forall₂ (fun job r => RoutedFiles config rows job r dir) jobs routed) :
    routed.insertionSort (fun a b => a.primaryBucket ≤ b.primaryBucket) = routed := by
  have hprimaries : jobs.map (·.primaryBucket) = routed.map (·.primaryBucket) :=
    map_eq_map_of_forall₂ (fun _ _ hr => hr.primaryBucket.symm) h
  rw [hprimaries] at horder
  exact List.Pairwise.insertionSort_eq ((List.pairwise_map.mp horder).imp fun h => le_of_lt h)

/-- What is prepared of the routed primaries. -/
theorem prepared_eq {jobs : List WeeklyPrimaryRouteJob} {routed : List RoutedPrimary}
    {dir : RunDir} {prepared : List (List PreparedWeeklyBucket)}
    (h : List.Forall₂ (fun job r => RoutedFiles config rows job r dir) jobs routed)
    (hprepared : routed.mapM (prepareBuckets config) = .ok prepared) :
    prepared = (jobs.map (·.primaryBucket)).map (preparedSecondaries config rows) := by
  have hall := forall₂_of_mapM_eq_ok hprepared
  clear hprepared
  induction h generalizing prepared with
  | nil =>
    cases hall
    rfl
  | cons hr _ ih =>
    obtain ⟨buckets, rest, hbuckets, hrest, rfl⟩ := List.forall₂_cons_left_iff.mp hall
    rw [List.map_cons, List.map_cons, prepareBuckets_ok hr hbuckets, ih hrest]

theorem ready_secondary {job : WeeklyPrimaryRouteJob} {routed : RoutedPrimary} {dir : RunDir}
    {bucket : PreparedWeeklyBucket} (hrouted : RoutedFiles config rows job routed dir)
    (hb : bucket ∈ preparedSecondaries config rows job.primaryBucket) :
    Ready [] (fun b => secondaryRows config rows b.primaryBucket b.secondaryBucket) dir bucket := by
  intro staged hstaged
  obtain ⟨hprimary, hlt, hpath, -, hne⟩ := of_mem_preparedSecondaries hb
  obtain ⟨-, file, hfile, hperm⟩ := hrouted.files _ hlt hne
  rw [stagedRowsOf, hpath] at hstaged
  obtain ⟨opened, hopened, hcollect⟩ := bind_eq_ok.mp hstaged
  obtain ⟨_, -, hcollect⟩ := bind_eq_ok.mp hcollect
  obtain rfl := Except.ok.inj hcollect
  have hopen := context_eq_ok.mp hopened
  rw [hfile] at hopen
  rw [← Option.some.inj hopen]
  show file.Perm (secondaryRows config rows bucket.primaryBucket bucket.secondaryBucket)
  rw [hprimary]
  exact hperm

/-- Prepared buckets are published in order, whatever the size of a batch. -/
theorem sweep_reconcile_ok {all : List PreparedWeeklyBucket}
    {content : PreparedWeeklyBucket → List WeeklyRow} (horder : InOrder all)
    (hedits : ∀ b ∈ all, ∀ row ∈ content b, row.edits ≤ u32Max) {published published' : Published}
    (hready : ∀ b ∈ all, Ready [] content published.dir b)
    (h : sweep all.length circumstances.budget.weeklyWorkerLimit
      (fun start stop => reconcileAndAppend circumstances calendar wiki []
        ((all.take stop).drop start)) published = .ok published') :
    published'.output.getD [] = published.output.getD []
        ++ all.flatMap (fun b => weeklyTable calendar wiki (content b)) ∧
      Consumes (stagedFiles all) published.dir published'.dir := by
  have hspec := sweep_spec (fun n (t : Published) =>
      t.output.getD [] = published.output.getD []
          ++ (all.take n).flatMap (fun b => weeklyTable calendar wiki (content b)) ∧
        Consumes (stagedFiles (all.take n)) published.dir t.dir) circumstances.workers_pos
    (fun start stop before after hlt _ ⟨houtput, hconsumed⟩ hrange => ?_)
    ⟨(List.append_nil _).symm, Consumes.refl _⟩ h
  · rwa [List.take_length] at hspec
  · have hsplit : all.take stop = all.take start ++ (all.take stop).drop start := by
      have htake : (all.take stop).take start = all.take start := by
        rw [List.take_take, min_eq_left (le_of_lt hlt)]
      rw [← htake, List.take_append_drop]
    have hsub : ((all.take stop).drop start).Sublist all :=
      (List.drop_sublist _ _).trans (List.take_sublist _ _)
    have horder' := horder.sublist (List.take_sublist stop all)
    have hnodup := horder'.nodup
    rw [hsplit] at hnodup
    have hready' : ∀ b ∈ (all.take stop).drop start, Ready [] content before.dir b := by
      intro b hb staged hstaged
      rw [hconsumed.stagedRowsOf_eq] at hstaged
      · exact hready b (hsub.subset hb) staged hstaged
      · intro path hpath hmem
        obtain ⟨a, ha, hapath⟩ := List.mem_filterMap.mp hmem
        have hne : a ≠ b := (List.nodup_append.mp hnodup).2.2 a ha b hb
        refine horder.file_ne (List.mem_of_mem_take ha) (hsub.subset hb) hne hpath ?_
        simp [hapath]
    obtain ⟨hout, hconsumes⟩ := reconcileAndAppend_ok (horder.sublist hsub)
      (fun b hb => hedits b (hsub.subset hb)) hready' hrange
    refine ⟨?_, ?_⟩
    · rw [hout, houtput, List.append_assoc, ← List.flatMap_append, ← hsplit]
    · rw [hsplit, stagedFiles_append]
      exact (hconsumed.mono (List.subset_append_left _ _)).trans
        (hconsumes.mono (List.subset_append_right _ _))

/-- **A wave of ready primaries is published**, and no other primary's file is
removed. -/
theorem routeAndReconcileWave_ok {jobs : List WeeklyPrimaryRouteJob}
    (horder : (jobs.map (·.primaryBucket)).Pairwise (· < ·))
    (hedits : ∀ row ∈ rows, row.edits ≤ u32Max) {published published' : Published}
    (hready : ∀ job ∈ jobs, PrimaryReady config rows job published.dir)
    (h : routeAndReconcileWave circumstances calendar wiki config jobs published
      = .ok published') :
    published'.output.getD [] = published.output.getD []
        ++ jobs.flatMap (fun job => primaryTable calendar wiki config rows job.primaryBucket) ∧
      ∀ path, path ∉ jobs.map (·.primaryPath) →
        published'.dir.primaries path = published.dir.primaries path := by
  obtain ⟨⟨routed, dir⟩, hwave, h⟩ := bind_eq_ok.mp h
  obtain ⟨prepared, hprepared, h⟩ := bind_eq_ok.mp h
  have hbuckets : (jobs.map (·.primaryBucket)).Nodup := horder.imp fun h => ne_of_lt h
  have hfinishing := (circumstances.finishing (0 :: jobs.map (·.primaryBucket))).perm jobs.zipIdx
  have hrouted := wave_spec hfinishing (List.Nodup.of_map _ hbuckets)
    (route_independent hbuckets) hready hwave
  have hprimaries : dir.primaries = published.dir.primaries :=
    wave_preserves (fun t => t.primaries = published.dir.primaries) hfinishing
      (fun job _ t r t' ht hwork => (routeWorker_frame hwork).1.trans ht) rfl hwave
  have hpaths : jobs.map (·.primaryPath) = routed.map (·.primaryPath) :=
    map_eq_map_of_forall₂ (fun _ _ hr => hr.primaryPath.symm) hrouted
  rw [insertionSort_routed horder hrouted] at h hprepared
  obtain rfl := prepared_eq hrouted hprepared
  have hinOrder : InOrder
      ((jobs.map (·.primaryBucket)).map (preparedSecondaries config rows)).flatten :=
    inOrder_preparedSecondaries horder
  have hsorted : (((jobs.map (·.primaryBucket)).map (preparedSecondaries config rows)).flatten
      ).insertionSort (fun a b => a.logicalBucket ≤ b.logicalBucket)
        = ((jobs.map (·.primaryBucket)).map (preparedSecondaries config rows)).flatten :=
    List.Pairwise.insertionSort_eq (hinOrder.logical.imp fun h => le_of_lt h)
  simp only [hsorted] at h
  have hsecondary : ∀ b ∈ ((jobs.map (·.primaryBucket)).map
      (preparedSecondaries config rows)).flatten, Ready []
        (fun b => secondaryRows config rows b.primaryBucket b.secondaryBucket) dir b := by
    rw [← List.flatMap]
    intro b hb
    obtain ⟨primary, hprimary, hb⟩ := List.mem_flatMap.mp hb
    obtain ⟨job, hjob, rfl⟩ := List.mem_map.mp hprimary
    obtain ⟨i, hi, rfl⟩ := List.mem_iff_getElem.mp hjob
    exact ready_secondary (hrouted.get hi (hrouted.length_eq ▸ hi)) hb
  have hedits' : ∀ b ∈ ((jobs.map (·.primaryBucket)).map (preparedSecondaries config rows)).flatten,
      ∀ row ∈ secondaryRows config rows b.primaryBucket b.secondaryBucket, row.edits ≤ u32Max :=
    fun b _ row hrow => hedits row (List.mem_filter.mp (List.mem_filter.mp hrow).1).1
  -- removing the primary files leaves the secondary ones
  obtain ⟨hout, hconsumes⟩ := sweep_reconcile_ok hinOrder hedits'
    (fun b hb staged hstaged => hsecondary b hb staged hstaged) h
  refine ⟨?_, fun path hpath => ?_⟩
  · rw [hout]
    show published.output.getD [] ++ _ = published.output.getD [] ++ _
    congr 1
    rw [← List.flatMap, List.flatMap_assoc, List.flatMap_map]
    exact congrArg (fun f => jobs.flatMap f)
      (funext fun job => flatMap_preparedSecondaries job.primaryBucket)
  · rw [hconsumes.primaries]
    show (if path ∈ routed.map (·.primaryPath) then none else dir.primaries path) = _
    rw [← hpaths, if_neg hpath, hprimaries]

/-- The job that routes a primary bucket. -/
def routeJob (bucketRows : ℕ → ℕ) (bucketEdits : ℕ → ℤ) (primary : ℕ) : WeeklyPrimaryRouteJob where
  primaryBucket := primary
  primaryPath := primary
  expected := ⟨bucketRows primary, bucketEdits primary⟩

/-- A bucket that staged no row has no table. -/
theorem primaryTable_nil {primary : ℕ} (h : primaryRows config rows primary = []) :
    primaryTable calendar wiki config rows primary = [] := by
  refine List.flatMap_eq_nil_iff.mpr fun secondary _ => ?_
  rw [secondaryRows, h]
  rfl

theorem flatMap_filter_primaryTable {keep : ℕ → Bool} :
    ∀ {l : List ℕ}, (∀ primary ∈ l, keep primary = false → primaryRows config rows primary = []) →
      (l.filter keep).flatMap (primaryTable calendar wiki config rows)
        = l.flatMap (primaryTable calendar wiki config rows) := by
  intro l
  induction l with
  | nil => intro _; rfl
  | cons primary l ih =>
    intro hkeep
    have ih' := ih fun p hp => hkeep p (List.mem_cons_of_mem _ hp)
    cases hp : keep primary with
    | true => rw [List.filter_cons_of_pos hp, List.flatMap_cons, List.flatMap_cons, ih']
    | false =>
      have hnot : ¬ keep primary = true := by rw [hp]; exact Bool.false_ne_true
      rw [List.filter_cons_of_neg hnot, List.flatMap_cons,
        primaryTable_nil (hkeep primary (List.mem_cons_self ..) hp), ih', List.nil_append]

/-- The worker limit of routing is never zero. -/
theorem weeklyRouteWorkerLimitFromSample_pos {writerLimit : ℕ} {inUse : Option ℕ} {limit : ℕ}
    (h : weeklyRouteWorkerLimitFromSample circumstances.budget writerLimit inUse = .ok limit) :
    0 < limit := by
  obtain ⟨perWorker, -, h⟩ := bind_eq_ok.mp h
  obtain ⟨_, hpos, h⟩ := bind_eq_ok.mp h
  obtain rfl := Except.ok.inj h
  exact lt_min circumstances.workers_pos (ensure_eq_ok.mp hpos)

/-- **With two levels the primary tables are published in order**, whatever the
limits and the order the workers finish in. -/
theorem routeAndReconcileWeeklyBuckets_ok {bucketRows : ℕ → ℕ} {bucketEdits : ℕ → ℤ}
    {paths : ℕ → Option ℕ} (hedits : ∀ row ∈ rows, row.edits ≤ u32Max)
    (hcounts : ∀ primary < config.primaryBucketCount,
      bucketRows primary = (primaryRows config rows primary).length)
    {published published' : Published}
    (hfiles : ∀ primary < config.primaryBucketCount, primaryRows config rows primary ≠ [] →
      paths primary = some primary ∧ ∃ file, published.dir.primaries primary = some file ∧
        file.Perm (primaryRows config rows primary))
    (hempty : published.output = none)
    (h : routeAndReconcileWeeklyBuckets circumstances calendar wiki config paths bucketRows
      bucketEdits published = .ok published') :
    published'.output.getD [] = bucketedTable calendar wiki config rows := by
  obtain ⟨_, -, h⟩ := bind_eq_ok.mp h
  obtain ⟨inUse, -, h⟩ := bind_eq_ok.mp h
  obtain ⟨limit, hlimit, h⟩ := bind_eq_ok.mp h
  obtain ⟨memory, -, h⟩ := bind_eq_ok.mp h
  obtain ⟨candidates, hcandidates, h⟩ := bind_eq_ok.mp h
  have hnonempty : ∀ primary ∈ (List.range config.primaryBucketCount).filter
      (fun primary => 0 < bucketRows primary),
      primary < config.primaryBucketCount ∧ primaryRows config rows primary ≠ [] := by
    intro primary hprimary
    obtain ⟨hlt, hpos⟩ := List.mem_filter.mp hprimary
    rw [List.mem_range] at hlt
    have hpos' := of_decide_eq_true hpos
    exact ⟨hlt, List.length_pos_iff.mp (by have := hcounts primary hlt; omega)⟩
  have hjobs : candidates = ((List.range config.primaryBucketCount).filter
      fun primary => 0 < bucketRows primary).map (routeJob bucketRows bucketEdits) := by
    refine eq_map_of_mapM_eq_ok (fun primary hprimary job hjob => ?_) hcandidates
    obtain ⟨path, hpath, hjob⟩ := bind_eq_ok.mp hjob
    obtain rfl := Except.ok.inj hjob
    obtain ⟨hlt, hne⟩ := hnonempty primary hprimary
    have hsome := context_eq_ok.mp hpath
    rw [(hfiles primary hlt hne).1] at hsome
    rw [← Option.some.inj hsome]
    rfl
  have hascending : (candidates.map (·.primaryBucket)).Pairwise (· < ·) := by
    rw [hjobs, List.map_map]
    exact List.pairwise_map.mpr (List.Pairwise.filter _ List.pairwise_lt_range)
  have hpath : ∀ job ∈ candidates, job.primaryPath = job.primaryBucket := by
    intro job hjob
    rw [hjobs] at hjob
    obtain ⟨primary, -, rfl⟩ := List.mem_map.mp hjob
    rfl
  have hready : ∀ job ∈ candidates, PrimaryReady config rows job published.dir := by
    intro job hjob
    rw [hjobs] at hjob
    obtain ⟨primary, hprimary, rfl⟩ := List.mem_map.mp hjob
    obtain ⟨hlt, hne⟩ := hnonempty primary hprimary
    exact (hfiles primary hlt hne).2
  have hall := inWaves_spec (fun done (t : Published) =>
      t.output.getD []
        = done.flatMap (fun job => primaryTable calendar wiki config rows job.primaryBucket) ∧
      ∀ path, path ∉ done.map (·.primaryPath) →
        t.dir.primaries path = published.dir.primaries path)
    (weeklyRouteWorkerLimitFromSample_pos hlimit)
    (fun done jobs rest before after hsplit hinv hwave => ?_)
    (List.nil_append candidates).symm (le_refl _)
    ⟨by rw [hempty]; rfl, fun _ _ => rfl⟩ h
  · rw [hall.1, hjobs, List.flatMap_map, bucketedTable]
    refine flatMap_filter_primaryTable fun primary hprimary hzero => ?_
    have hcount := hcounts primary (List.mem_range.mp hprimary)
    have hzero' := of_decide_eq_false hzero
    exact List.length_eq_zero_iff.mp (by omega)
  · obtain ⟨houtput, hkept⟩ := hinv
    have hmem : ∀ job ∈ jobs, job ∈ candidates := fun job hjob => by simp [hsplit, hjob]
    rw [hsplit, List.map_append, List.map_append] at hascending
    have hdone := (List.pairwise_append.mp hascending).1
    -- a job still to be done has a file of its own
    have hready' : ∀ job ∈ jobs, PrimaryReady config rows job before.dir := by
      intro job hjob
      obtain ⟨file, hfile, hperm⟩ := hready job (hmem job hjob)
      refine ⟨file, (hkept _ fun hin => ?_).trans hfile, hperm⟩
      obtain ⟨other, hother, heq⟩ := List.mem_map.mp hin
      have hlt := (List.pairwise_append.mp hdone).2.2 _ (List.mem_map_of_mem hother) _
        (List.mem_map_of_mem hjob)
      have hotherPath := hpath other (by simp [hsplit, hother])
      have hjobPath := hpath job (hmem job hjob)
      omega
    obtain ⟨hout, hremoved⟩ := routeAndReconcileWave_ok
      (List.pairwise_append.mp hdone).2.1 hedits hready' hwave
    refine ⟨by rw [hout, houtput, List.flatMap_append], fun path hnot => ?_⟩
    rw [List.map_append, List.mem_append, not_or] at hnot
    exact (hremoved path hnot.2).trans (hkept path hnot.1)

end TwoLevels

/-! ## The whole reduction -/

/-- The rows a run publishes. Without a month nothing is published. -/
def publishedRows (published : Option Published) : List WeeklyOutputRow :=
  published.elim [] fun published => published.output.getD []

/-- With one secondary bucket the primary tables are those of the primary rows. -/
theorem primaryTable_one (hone : config.secondaryBucketCount = 1) (rows : List WeeklyRow)
    (primary : ℕ) : primaryTable calendar wiki config rows primary
      = weeklyTable calendar wiki (primaryRows config rows primary) := by
  have hzero : ∀ pageId, secondaryOf config pageId = 0 := fun pageId => by
    have hlt := secondaryOf_lt config pageId
    omega
  rw [primaryTable, hone]
  show weeklyTable calendar wiki (secondaryRows config rows primary 0) ++ [] = _
  rw [List.append_nil, secondaryRows, bucketRowsOf, List.filter_eq_self.mpr fun row _ => ?_]
  exact decide_eq_true (hzero row.pageId)

/-- **The bucketed reduction is the table.** A run that does not fail publishes
the table of all contributions, its rows sorted by bucket: neither the rows nor
their order depend on the limits, the batches or the order workers finish in. -/
theorem computePageWeeklyEdits_eq {contributions : List WeeklyFrame} {result : Option Published}
    (h : computePageWeeklyEdits circumstances calendar wiki config contributions = .ok result) :
    publishedRows result = bucketedTable calendar wiki config (contributions.flatMap (·.rows)) ∧
      (publishedRows result).Perm (weeklyTable calendar wiki (contributions.flatMap (·.rows))) := by
  have hedits : ∀ row ∈ contributions.flatMap (·.rows), row.edits ≤ u32Max := by
    intro row hrow
    obtain ⟨frame, -, hrow⟩ := List.mem_flatMap.mp hrow
    exact frame.edits_le row hrow
  suffices hrows : publishedRows result
      = bucketedTable calendar wiki config (contributions.flatMap (·.rows)) by
    refine ⟨hrows, ?_⟩
    rw [hrows]
    exact bucketedTable_perm calendar wiki config
  unfold computePageWeeklyEdits at h
  split at h
  next hempty =>
    obtain rfl : contributions = [] := List.isEmpty_iff.mp hempty
    obtain rfl := Except.ok.inj h
    exact (List.flatMap_eq_nil_iff.mpr fun primary _ => primaryTable_nil rfl).symm
  next =>
    obtain ⟨_, -, h⟩ := bind_eq_ok.mp h
    obtain ⟨staging, hstaging, h⟩ := bind_eq_ok.mp h
    obtain ⟨routedEdits, -, h⟩ := bind_eq_ok.mp h
    obtain ⟨_, -, h⟩ := bind_eq_ok.mp h
    have hstaged := stagePartitions_ok hstaging
    -- the last checks let the output through as it is
    have hlast : ∀ {published : Published} {label label' : String},
        (do
          ensure (staging.totalEditsBefore = published.totalEditsAfter) label
          let _ ← context published.output label'
          circumstances.checkpoint "page_weekly_edits_complete" []
          return some published) = Except.ok result → result = some published := by
      intro published label label' h
      obtain ⟨_, -, h⟩ := bind_eq_ok.mp h
      obtain ⟨_, -, h⟩ := bind_eq_ok.mp h
      obtain ⟨_, -, h⟩ := bind_eq_ok.mp h
      exact (Except.ok.inj h).symm
    dsimp only at h
    split at h
    next htwo =>
      obtain ⟨compaction, hcompaction, h⟩ := bind_eq_ok.mp h
      obtain ⟨published, hpublished, h⟩ := bind_eq_ok.mp h
      obtain rfl := hlast h
      have hcompacted := compactWeeklyPrimaryBuckets_ok hstaged hcompaction
      refine routeAndReconcileWeeklyBuckets_ok hedits hstaged.counts (fun primary hlt hne => ?_)
        rfl hpublished
      exact hcompacted.2 primary hlt hne
    next hone =>
      obtain ⟨published, hpublished, h⟩ := bind_eq_ok.mp h
      obtain rfl := hlast h
      have hpos := secondaryBucketCount_pos config
      refine (sweep_reconcilePrimaryRange_ok hstaged hedits rfl rfl hpublished).trans ?_
      exact congrArg (List.flatMap · _) (funext fun primary =>
        (primaryTable_one (by omega) _ primary).symm)

/-! ## A week that spans two months -/

/-- One worker and one writer at a time, and room for both. -/
def narrow : Circumstances where
  budget := {
    memoryCeilingBytes := 1, memoryReserveBytes := 0, persistentStorageReserveBytes := 0
    boundedScratchReserveBytes := 0, rollbackGenerationReserveBytes := 0, scratchLimitBytes := 1
    maxOpenFiles := 1024, sourceWorkerLimit := 1, threadLimit := 1
    maxLogicalPartitionBytes := 1, maxActiveParquetWriters := 4, weeklyWorkerLimit := 4 }
  writers_pos := by decide
  workers_pos := by decide
  openFileDescriptors := .ok none
  fileBytes _ _ := .ok 0
  admitBucket _ _ _ := .ok ()
  checkpoint _ _ := .ok ()
  finishing _ := .asComputed
  grouping _ := .asComputed
  readBatches _ rows := [rows]
  flatten_readBatches _ _ := List.append_nil _

/-- 32 primary buckets of 8 secondary ones. -/
def smallTopology : WeeklyAggregationConfig := ⟨32, 8, by decide, by decide⟩

/-- The same page in January and in February. -/
def januaryFebruaryFrames : List WeeklyFrame :=
  [⟨[⟨⟨some 1, some 0, some "Paris", some (.ofDay 19744)⟩, 3⟩,
      ⟨⟨some 1, some 0, some "Paris", some (.ofDay 19751)⟩, 2⟩], by decide, by decide⟩,
    ⟨[⟨⟨some 1, some 0, some "Paris", some (.ofDay 19751)⟩, 5⟩], by decide, by decide⟩]

theorem computePageWeeklyEdits_eq_january_february :
    ∃ published, computePageWeeklyEdits narrow january2024 "frwiki" smallTopology
        januaryFebruaryFrames = .ok published ∧
      (publishedRows published).map (fun row => (row.edits, row.previousWeekEdits, row.wowChange))
        = [(3, 0, 3), (7, 3, 4)] := by
  have hok : (computePageWeeklyEdits narrow january2024 "frwiki" smallTopology
      januaryFebruaryFrames).toOption.isSome = true := by decide +kernel
  cases hrun : computePageWeeklyEdits narrow january2024 "frwiki" smallTopology
      januaryFebruaryFrames with
  | error e =>
    rw [hrun] at hok
    exact absurd hok Bool.false_ne_true
  | ok published =>
    refine ⟨published, rfl, ?_⟩
    rw [(computePageWeeklyEdits_eq hrun).1]
    decide +kernel

end WikiEcon.Compute.Weekly
