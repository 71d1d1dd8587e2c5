import WikiEcon.Compute.Weekly
import WikiEcon.Lib.Routing
import WikiEcon.Lib.Workers
import WikiEcon.ResourceGovernor

/-!
# Page weeks by buckets

The default reduction never groups the whole table. Contribution rows are routed
to primary buckets by a hash of the page id and, for large topologies, on to
secondary buckets by further bits of it; every logical bucket is then grouped on
its own and the results are appended in bucket order.

Three limits shape a run and must not shape its result: how many files can be
written at once (ranges of buckets, each rereading its input), how many workers
run side by side (waves), and how a file is cut into batches. They are fields of
`Circumstances`, with everything else a run meets but does not choose.

Scratch files live in a `RunDir`. Removing a file to free space is modelled where
a later step could have read it.
-/

namespace WikiEcon.Compute.Weekly

open Routing Workers

/-! ## Topology -/

def supportedPrimaryBucketCounts : List ℕ := [32, 64, 128, 256, 512, 1024]
def supportedSecondaryBucketCounts : List ℕ := [1, 8, 16, 32]

/-- A bucket topology that passed `new_two_level`. -/
structure WeeklyAggregationConfig where
  primaryBucketCount : ℕ
  secondaryBucketCount : ℕ
  primary_supported : primaryBucketCount ∈ supportedPrimaryBucketCounts
  secondary_supported : secondaryBucketCount ∈ supportedSecondaryBucketCounts

def WeeklyAggregationConfig.newTwoLevel (primaryBucketCount secondaryBucketCount : ℕ) :
    Except String WeeklyAggregationConfig :=
  if hprimary : primaryBucketCount ∈ supportedPrimaryBucketCounts then
    if hsecondary : secondaryBucketCount ∈ supportedSecondaryBucketCounts then
      .ok ⟨primaryBucketCount, secondaryBucketCount, hprimary, hsecondary⟩
    else .error "weekly secondary bucket count must be one of 1, 8, 16, or 32"
  else .error "weekly primary bucket count must be one of 32, 64, 128, 256, 512, or 1024"

def WeeklyAggregationConfig.logicalBucketCount (config : WeeklyAggregationConfig) : ℕ :=
  config.primaryBucketCount * config.secondaryBucketCount

def partitionHashSeed : UInt64 := 0

/-- The splitmix64 finalizer. A missing page id hashes like the largest `u64`. -/
def stablePageHash (pageId : Option ℤ) : UInt64 :=
  let value := pageId.elim (UInt64.ofNat u64Max) UInt64.ofInt ^^^ partitionHashSeed
  let value := (value ^^^ (value >>> 30)) * 0xbf58476d1ce4e5b9
  let value := (value ^^^ (value >>> 27)) * 0x94d049bb133111eb
  value ^^^ (value >>> 31)

def stableWeeklyBucket (pageId : Option ℤ) (bucketCount : ℕ) : ℕ :=
  (stablePageHash pageId).toNat &&& (bucketCount - 1)

/-- `usize::trailing_zeros`. -/
def trailingZeros (n : ℕ) : ℕ := ((List.range 64).find? n.testBit).getD 64

def stableWeeklySecondaryBucket (pageId : Option ℤ)
    (primaryBucketCount secondaryBucketCount : ℕ) : ℕ :=
  ((stablePageHash pageId).toNat >>> trailingZeros primaryBucketCount)
    &&& (secondaryBucketCount - 1)

/-! ## Scratch files -/

/-- The files of a run directory, each under the number in its name. A partition's
rows carry their `_primary_bucket`. -/
structure RunDir where
  partitions : ℕ → Option (List (ℕ × WeeklyRow)) := fun _ => none
  primaries : ℕ → Option (List WeeklyRow) := fun _ => none
  secondaries : ℕ → ℕ → Option (List WeeklyRow) := fun _ _ => none
  results : ℕ → Option (List WeeklyOutputRow) := fun _ => none

/-- `File::open`. -/
def openFile {α : Type} (file : Option α) : Except String α :=
  context file "No such file or directory (os error 2)"

/-- Materialize a frame. Polars refuses one with more rows than it can index. -/
def collect {α : Type} (rows : List α) : Except String (List α) := do
  ensure (rows.length ≤ idxSizeMax) "Polars' maximum length reached"
  return rows

/-- What a run meets and does not choose. Moments are told apart by the loop
positions they are reached at. -/
structure Circumstances where
  budget : ResourceGovernor.ResourceBudget
  writers_pos : 0 < budget.maxActiveParquetWriters
  workers_pos : 0 < budget.weeklyWorkerLimit
  openFileDescriptors : Except String (Option ℕ)
  /-- What the metadata of a primary bucket's file say of its size, if they can be read. -/
  fileBytes : List ℕ → ℕ → Except String ℕ
  /-- The governor's answer to a request for memory and scratch space. -/
  admitBucket : List ℕ → ℕ → ℕ → Except String Unit
  checkpoint : String → List ℕ → Except String Unit
  /-- The order the workers of a wave finish in. -/
  finishing : List ℕ → RowOrder
  /-- The row order a grouping leaves. -/
  grouping : List ℕ → RowOrder
  /-- The row batches a file is read in. -/
  readBatches : List ℕ → List WeeklyRow → List (List WeeklyRow)
  flatten_readBatches : ∀ moment rows, (readBatches moment rows).flatten = rows

/-! ## Staging -/

/-- The loop's variables while months are staged. Counts are indexed by bucket. -/
structure Staging where
  dir : RunDir := {}
  stagedPaths : List ℕ := []
  bucketRows : ℕ → ℕ := fun _ => 0
  bucketEdits : ℕ → ℤ := fun _ => 0
  totalEditsBefore : ℤ := 0

/-- One bucket's rows of a month, appended to the partition file. -/
def stageGroup (st : Option (List (ℕ × WeeklyRow)) × Staging) (group : List WeeklyRow × ℕ) :
    Except String (Option (List (ℕ × WeeklyRow)) × Staging) :=
  let (file, staging) := st
  let (rows, bucket) := group
  if rows = [] then .ok (file, staging)
  else do
    let edits ← context (checkedAddI64 (staging.bucketEdits bucket) (sumEditsColumn rows))
      "primary bucket edit count overflow"
    return (some (file.getD [] ++ rows.map fun row => (bucket, row)), { staging with
      bucketRows := Function.update staging.bucketRows bucket
        (staging.bucketRows bucket + rows.length)
      bucketEdits := Function.update staging.bucketEdits bucket edits })

def stageWeeklyPartition (partitionIndex : ℕ) (partition : WeeklyFrame) (bucketCount : ℕ)
    (staging : Staging) : Except String Staging := do
  let groups := split bucketCount (fun row => stableWeeklyBucket row.pageId bucketCount)
    partition.rows
  let (file, staging) ← groups.zipIdx.foldlM stageGroup (none, staging)
  let file ← context file "weekly partition produced no stable buckets"
  return { staging with
    dir := { staging.dir with
      partitions := Function.update staging.dir.partitions partitionIndex (some file) }
    stagedPaths := staging.stagedPaths ++ [partitionIndex] }

/-- Stage every month, counting the edits that go in. -/
def stagePartitions (circumstances : Circumstances) (bucketCount : ℕ)
    (contributions : List WeeklyFrame) : Except String Staging :=
  contributions.zipIdx.foldlM (fun staging (partition, index) => do
    let total ← context
      (checkedAddI64 staging.totalEditsBefore (sumEditsColumn partition.rows))
      "page_weekly_edits input edit count overflow"
    let staging ← stageWeeklyPartition index partition bucketCount
      { staging with totalEditsBefore := total }
    circumstances.checkpoint "page_weekly_edits_reduce_partition" [index]
    return staging) {}

/-- Polars refuses to scan no file at all. -/
def readStagedWeeklyBucket (dir : RunDir) (paths : List ℕ) (bucket : ℕ) :
    Except String (List WeeklyRow) := do
  ensure (paths ≠ []) "expanded paths were empty"
  let files ← paths.mapM fun path => openFile (dir.partitions path)
  collect ((files.flatten.filter fun row => row.1 = bucket).map (·.2))

def readStagedPrimaryRange (dir : RunDir) (path start stop : ℕ) :
    Except String (List (ℕ × WeeklyRow)) := do
  let file ← openFile (dir.partitions path)
  collect (file.filter fun row => start ≤ row.1 ∧ row.1 < stop)

/-! ## Routing -/

/-- Open writers and counts by bucket. Compaction and secondary routing both keep
them. -/
structure Routed where
  writers : ℕ → Option (List WeeklyRow) := fun _ => none
  rows : ℕ → ℕ := fun _ => 0
  edits : ℕ → ℤ := fun _ => 0
  routedEdits : ℤ := 0

/-- Append the rows at one offset of a range to their bucket's writer, opening it
if need be. -/
def routeGroup (label : String) (start : ℕ) (routed : Routed) (group : List WeeklyRow × ℕ) :
    Except String Routed :=
  let (rows, offset) := group
  if rows = [] then .ok routed
  else do
    let bucket := start + offset
    let groupEdits := sumEditsColumn rows
    let routedEdits ← context (checkedAddI64 routed.routedEdits groupEdits)
      (label ++ " edit count overflow")
    let bucketRows ← context (checkedAdd u64Max (routed.rows bucket) rows.length)
      (label ++ " row count overflow")
    let bucketEdits ← context (checkedAddI64 (routed.edits bucket) groupEdits)
      (label ++ " edit count overflow")
    return {
      writers := Function.update routed.writers bucket
        (some ((routed.writers bucket).getD [] ++ rows))
      rows := Function.update routed.rows bucket bucketRows
      edits := Function.update routed.edits bucket bucketEdits
      routedEdits := routedEdits }

/-! ## Compaction -/

/-- The files and totals of compaction. A bucket's path is its number. -/
structure Compaction where
  dir : RunDir
  paths : ℕ → Option ℕ := fun _ => none
  actualRows : ℕ → ℕ := fun _ => 0
  actualEdits : ℕ → ℤ := fun _ => 0

/-- Route the rows of one staged file that fall into the range. -/
def compactStaged (dir : RunDir) (start stop : ℕ) (routed : Routed) (stagedPath : ℕ) :
    Except String Routed := do
  let staged ← readStagedPrimaryRange dir stagedPath start stop
  if staged = [] then
    return routed
  let inputEdits := sumEditsColumn (staged.map (·.2))
  ensure (∀ row ∈ staged, start ≤ row.1 ∧ row.1 < stop)
    "primary staging row escaped its compaction range"
  let routed ← (split (stop - start) (fun row => row.1 - start) staged).zipIdx.foldlM
    (fun routed group =>
      routeGroup "primary compaction" start routed (group.1.map (·.2), group.2))
    { routed with routedEdits := 0 }
  ensure (inputEdits = routed.routedEdits)
    ("primary compaction range " ++ toString start ++ ".." ++ toString stop
      ++ " lost or duplicated edits")
  return routed

/-- One range of primary buckets: write its files, close them. -/
def compactRange (circumstances : Circumstances) (stagedPaths : List ℕ) (start stop : ℕ)
    (compaction : Compaction) : Except String Compaction := do
  let routed ← stagedPaths.foldlM (compactStaged compaction.dir start stop)
    { rows := compaction.actualRows, edits := compaction.actualEdits }
  circumstances.checkpoint "page_weekly_edits_compact_primary" [start]
  return {
    dir := { compaction.dir with
      primaries := fun bucket => (routed.writers bucket).or (compaction.dir.primaries bucket) }
    paths := fun bucket => ((routed.writers bucket).map fun _ => bucket).or
      (compaction.paths bucket)
    actualRows := routed.rows
    actualEdits := routed.edits }

def compactWeeklyPrimaryBuckets (circumstances : Circumstances) (primaryBucketCount : ℕ)
    (stagedPaths : List ℕ) (expectedRows : ℕ → ℕ) (expectedEdits : ℕ → ℤ) (dir : RunDir) :
    Except String Compaction := do
  let writerLimit := circumstances.budget.maxActiveParquetWriters
  ensure (0 < writerLimit) "primary compaction writer limit must be positive"
  let compaction ← sweep primaryBucketCount writerLimit (compactRange circumstances stagedPaths)
    { dir := dir }
  (List.range primaryBucketCount).forM fun bucket => do
    ensure (compaction.actualRows bucket = expectedRows bucket)
      ("primary bucket " ++ toString bucket ++ " row count changed during compaction")
    ensure (compaction.actualEdits bucket = expectedEdits bucket)
      ("primary bucket " ++ toString bucket ++ " edit count changed during compaction")
  return compaction

/-! ## Secondary routing -/

structure BucketTotals where
  rows : ℕ
  edits : ℤ

/-- The files and totals of one primary bucket's routing. -/
structure SecondaryRouting where
  files : ℕ → Option (List WeeklyRow) := fun _ => none
  rows : ℕ → ℕ := fun _ => 0
  edits : ℕ → ℤ := fun _ => 0
  peakActiveWriters : ℕ := 0
  routedRows : ℕ := 0
  routedEdits : ℤ := 0

/-- The same with the count of all routed rows. -/
def routeSecondaryGroup (start : ℕ) (st : ℕ × Routed) (group : List WeeklyRow × ℕ) :
    Except String (ℕ × Routed) := do
  let routedRows ← context (checkedAdd u64Max st.1 group.1.length)
    "secondary routing row count overflow"
  let routed ← routeGroup "secondary routing" start st.2 group
  return (routedRows, routed)

/-- Route the rows of one batch that fall into the range. -/
def routeBatch (circumstances : Circumstances) (config : WeeklyAggregationConfig)
    (moment : List ℕ) (start stop : ℕ) (st : ℕ × Routed) (batch : List WeeklyRow) :
    Except String (ℕ × Routed) := do
  let secondary := fun row : WeeklyRow =>
    stableWeeklySecondaryBucket row.pageId config.primaryBucketCount config.secondaryBucketCount
  let groups := split (stop - start) (fun row => secondary row - start)
    (batch.filter fun row => start ≤ secondary row ∧ secondary row < stop)
  let st ← groups.zipIdx.foldlM (routeSecondaryGroup start) st
  circumstances.checkpoint "page_weekly_edits_route_secondary" moment
  return st

/-- One range of secondary buckets, for which the primary file is read once more. -/
def routeRange (circumstances : Circumstances) (config : WeeklyAggregationConfig) (dir : RunDir)
    (primaryPath primaryBucket expectedRows : ℕ) (start stop : ℕ) (routing : SecondaryRouting) :
    Except String SecondaryRouting := do
  let rows ← openFile (dir.primaries primaryPath)
  ensure (rows.length = expectedRows)
    ("primary bucket " ++ toString primaryBucket
      ++ " footer row count changed before secondary routing")
  let (routedRows, routed) ← (circumstances.readBatches [primaryBucket, start] rows).foldlM
    (routeBatch circumstances config [primaryBucket, start] start stop)
    (routing.routedRows, {
      rows := routing.rows, edits := routing.edits, routedEdits := routing.routedEdits })
  return {
    files := fun bucket => (routed.writers bucket).or (routing.files bucket)
    rows := routed.rows
    edits := routed.edits
    peakActiveWriters := max routing.peakActiveWriters
      ((List.range config.secondaryBucketCount).countP fun bucket => (routed.writers bucket).isSome)
    routedRows := routedRows
    routedEdits := routed.routedEdits }

def routePrimaryToSecondaryBuckets (circumstances : Circumstances)
    (config : WeeklyAggregationConfig) (dir : RunDir) (primaryPath primaryBucket : ℕ)
    (expected : BucketTotals) : Except String SecondaryRouting := do
  let writerLimit := circumstances.budget.maxActiveParquetWriters
  ensure (0 < writerLimit)
    "secondary routing requires a positive governed Parquet writer limit"
  let routing ← sweep config.secondaryBucketCount writerLimit
    (routeRange circumstances config dir primaryPath primaryBucket expected.rows) {}
  let total ← checkedSumUsize ((List.range config.secondaryBucketCount).map routing.rows)
    "secondary routing row count"
  ensure (total = expected.rows ∧ routing.routedRows = expected.rows)
    ("primary bucket " ++ toString primaryBucket ++ " row count changed during secondary routing")
  ensure (routing.routedEdits = expected.edits)
    ("primary bucket " ++ toString primaryBucket ++ " edit count changed during secondary routing")
  return routing

/-! ## Week-over-week columns -/

/-- `is_continuation`: the same page seven days later. -/
def isContinuation (current prior : WeeklyRow) : Bool :=
  current.samePage prior.toWeeklyKey && match current.weekStart, prior.weekStart with
    | some current, some prior => checkedSubDays current.day prior.day = some 7
    | _, _ => false

/-- `previous_week_edits`, from the row before `rows` on; `row` is the index. -/
def previousWeekEditsFrom : ℕ → Option WeeklyRow → List WeeklyRow → Except String (List ℕ)
  | _, _, [] => .ok []
  | row, none, current :: rest => do
    let previous ← previousWeekEditsFrom (row + 1) (some current) rest
    return 0 :: previous
  | row, some prior, current :: rest => do
    let samePage := current.samePage prior.toWeeklyKey
    ensure (¬ (samePage ∧ current.weekStart.map Monday.day = prior.weekStart.map Monday.day))
      ("page_weekly_edits contains a duplicate weekly key at row " ++ toString row)
    let previous ← previousWeekEditsFrom (row + 1) (some current) rest
    return (if isContinuation current prior then prior.edits else 0) :: previous

def previousWeekEdits (weekly : List WeeklyRow) : Except String (List ℕ) :=
  previousWeekEditsFrom 0 none weekly

def addWeeklyChangeColumns (calendar : Calendar) (wiki : String) (weekly : List WeeklyRow) :
    Except String (List WeeklyOutputRow) := do
  let previous ← previousWeekEdits weekly
  return List.zipWith (fun row previous =>
    outputRow calendar wiki row.toWeeklyKey row.edits previous) weekly previous

/-! ## Reconciliation -/

structure PreparedWeeklyBucket where
  logicalBucket : ℕ
  primaryBucket : ℕ
  secondaryBucket : ℕ
  stagedRows : ℕ
  /-- The secondary file, by its two numbers. -/
  stagedPath : Option (ℕ × ℕ)

structure WeeklyBucketResult where
  logicalBucket : ℕ
  outputRows : ℕ
  edits : ℤ
  minimumWeekStart : Option ℤ
  maximumWeekStart : Option ℤ
  resultPath : ℕ

def bucketName (bucket : PreparedWeeklyBucket) : String :=
  "page_weekly_edits bucket " ++ toString bucket.primaryBucket ++ "/"
    ++ toString bucket.secondaryBucket

/-- Group a bucket's rows and add up their `u32` edits. -/
def mergeBucket (order : RowOrder) (staged : List WeeklyRow) : List WeeklyRow :=
  sortByKey (groupBy order WeeklyRow.toWeeklyKey (fun key rows => {
    toWeeklyKey := key
    edits := (rows.map (·.edits)).sum % (u32Max + 1) }) staged)

/-- The rows a prepared bucket is reconciled from. -/
def stagedRowsOf (dir : RunDir) (stagedPaths : List ℕ) (bucket : PreparedWeeklyBucket) :
    Except String (List WeeklyRow) :=
  match bucket.stagedPath with
  | some (primary, secondary) => do
    let file ← openFile (dir.secondaries primary secondary)
    collect file
  | none => readStagedWeeklyBucket dir stagedPaths bucket.primaryBucket

/-- Remove the staged file, if there is one. -/
def reclaimCompletedWeeklyScratch (dir : RunDir) (path : Option (ℕ × ℕ)) : RunDir :=
  match path with
  | none => dir
  | some (primary, secondary) => { dir with
    secondaries := Function.update dir.secondaries primary
      (Function.update (dir.secondaries primary) secondary none) }

def reconcileWeeklyBucket (circumstances : Circumstances) (calendar : Calendar) (wiki : String)
    (stagedPaths : List ℕ) (dir : RunDir) (bucket : PreparedWeeklyBucket) :
    Except String (WeeklyBucketResult × RunDir) := do
  let staged ← stagedRowsOf dir stagedPaths bucket
  ensure (staged.length = bucket.stagedRows)
    (bucketName bucket ++ " row count changed: expected " ++ toString bucket.stagedRows)
  let editsBefore := sumEditsColumn staged
  let merged := mergeBucket (circumstances.grouping [bucket.logicalBucket]) staged
  let weeks := merged.filterMap fun row => row.weekStart.map Monday.day
  let editsAfter := sumEditsColumn merged
  ensure (editsBefore = editsAfter)
    (bucketName bucket ++ " lost or duplicated edits: " ++ toString editsBefore ++ " before, "
      ++ toString editsAfter ++ " after")
  let result ← addWeeklyChangeColumns calendar wiki merged
  circumstances.checkpoint "page_weekly_edits_reconcile_bucket" [bucket.logicalBucket]
  return ({
    logicalBucket := bucket.logicalBucket
    outputRows := result.length
    edits := editsAfter
    minimumWeekStart := weeks.min?
    maximumWeekStart := weeks.max?
    resultPath := bucket.logicalBucket },
    reclaimCompletedWeeklyScratch { dir with
      results := Function.update dir.results bucket.logicalBucket (some result) }
      bucket.stagedPath)

def weeklyBucketMinMemoryBytes : ℕ := 64 * 1024 * 1024
def weeklyBucketEstimatedBytesPerRow : ℕ := 256
def weeklyResultEstimatedBytesPerRow : ℕ := 128
def weeklyRoutingBatchRows : ℕ := 250000

/-- `checked_mul` on a type whose largest value is `max`. -/
def checkedMul (max a b : ℕ) : Option ℕ := if a * b ≤ max then some (a * b) else none

def weeklyBucketResourceEstimates (bucket : PreparedWeeklyBucket) : Except String (ℕ × ℕ) := do
  let memory ← context (checkedMul u64Max bucket.stagedRows weeklyBucketEstimatedBytesPerRow)
    "weekly bucket memory estimate overflow"
  let scratch ← context (checkedMul u64Max bucket.stagedRows weeklyResultEstimatedBytesPerRow)
    "weekly bucket scratch estimate overflow"
  return (max memory weeklyBucketMinMemoryBytes, scratch)

/-- A refusal is told apart from an estimate that cannot be made. -/
def refusal (answer : Except String Unit) : Option String :=
  match answer with
  | .ok _ => none
  | .error e => some e

def reconcileWeeklyBucketBatch (circumstances : Circumstances) (calendar : Calendar)
    (wiki : String) (stagedPaths : List ℕ) (prepared : List PreparedWeeklyBucket) (dir : RunDir) :
    Except String (List WeeklyBucketResult × RunDir) := do
  if prepared.isEmpty then
    return ([], dir)
  let limit := circumstances.budget.weeklyWorkerLimit
  ensure (prepared.length ≤ limit) "weekly bucket batch exceeds the governed worker limit"
  let (results, dir) ← inWaves
    (fun offset width bucket => do
      let (memory, scratch) ← weeklyBucketResourceEstimates bucket
      return refusal
        (circumstances.admitBucket [1, offset, width, bucket.logicalBucket] memory scratch))
    (fun e => "resource governor could not admit one weekly bucket: " ++ e) limit
    (fun jobs (results, dir) => do
      let (joined, dir) ← wave
        (circumstances.finishing (1 :: jobs.map (·.logicalBucket))).arrange
        (reconcileWeeklyBucket circumstances calendar wiki stagedPaths) jobs dir
      return (results ++ joined, dir))
    prepared.length 0 prepared ([], dir)
  return (results.insertionSort fun a b => a.logicalBucket ≤ b.logicalBucket, dir)

/-! ## Appending -/

/-- The output written so far and its totals. -/
structure Published where
  dir : RunDir
  output : Option (List WeeklyOutputRow) := none
  totalEditsAfter : ℤ := 0
  outputRows : ℕ := 0
  minWeekStart : Option ℤ := none
  maxWeekStart : Option ℤ := none

def appendWeeklyBucketResult (published : Published) (result : WeeklyBucketResult) :
    Except String Published := do
  let frame ← openFile (published.dir.results result.resultPath)
  ensure (frame.length = result.outputRows)
    "weekly bucket result row count changed before final merge"
  let outputRows ← context (checkedAdd u64Max published.outputRows result.outputRows)
    "page_weekly_edits output row count overflow"
  let total ← context (checkedAddI64 published.totalEditsAfter result.edits)
    "page_weekly_edits output edit count overflow"
  return {
    dir := { published.dir with
      results := Function.update published.dir.results result.resultPath none }
    output := some (published.output.getD [] ++ frame)
    totalEditsAfter := total
    outputRows := outputRows
    minWeekStart := (published.minWeekStart.toList ++ result.minimumWeekStart.toList).min?
    maxWeekStart := (published.maxWeekStart.toList ++ result.maximumWeekStart.toList).max? }

def appendWeeklyBucketResults (results : List WeeklyBucketResult) (published : Published) :
    Except String Published :=
  results.foldlM appendWeeklyBucketResult published

/-- Reconcile a batch of prepared buckets and append what it gives. -/
def reconcileAndAppend (circumstances : Circumstances) (calendar : Calendar) (wiki : String)
    (stagedPaths : List ℕ) (prepared : List PreparedWeeklyBucket) (published : Published) :
    Except String Published := do
  let (results, dir) ← reconcileWeeklyBucketBatch circumstances calendar wiki stagedPaths prepared
    published.dir
  appendWeeklyBucketResults results { published with dir := dir }

/-! ## Two levels -/

def weeklyRouteMemoryEstimate (writerLimit : ℕ) : Except String ℕ := do
  let batchBytes ← context
    (checkedMul u64Max weeklyRoutingBatchRows weeklyBucketEstimatedBytesPerRow)
    "weekly route batch memory estimate overflow"
  let writerBytes ← context (checkedMul u64Max writerLimit (1024 * 1024))
    "weekly route writer memory estimate overflow"
  context (checkedAdd u64Max batchBytes writerBytes) "weekly route memory estimate overflow"

def weeklyRouteWorkerLimitFromSample (budget : ResourceGovernor.ResourceBudget) (writerLimit : ℕ)
    (openFileDescriptors : Option ℕ) : Except String ℕ := do
  let descriptorsPerWorker ← context (checkedAdd u64Max writerLimit 6)
    "weekly routing descriptor estimate overflow"
  let descriptorWorkers := match openFileDescriptors with
    | some inUse => (budget.maxOpenFiles - inUse) / descriptorsPerWorker
    | none => budget.weeklyWorkerLimit
  ensure (0 < descriptorWorkers)
    ("weekly routing cannot admit one worker within the " ++ toString budget.maxOpenFiles
      ++ "-descriptor limit")
  return min budget.weeklyWorkerLimit descriptorWorkers

def requiredSecondaryBucketPath (rows : ℕ) (path : Option (ℕ × ℕ)) (primary secondary : ℕ) :
    Except String (Option (ℕ × ℕ)) :=
  if rows = 0 then .ok none
  else (context path ("missing non-empty secondary bucket " ++ toString primary ++ "/"
    ++ toString secondary)).map some

/-- A primary bucket to be routed. -/
structure WeeklyPrimaryRouteJob where
  primaryBucket : ℕ
  primaryPath : ℕ
  expected : BucketTotals

/-- What a routing worker hands back: the paths and row counts of the secondary
buckets. -/
structure RoutedPrimary where
  primaryBucket : ℕ
  primaryPath : ℕ
  paths : ℕ → Option (ℕ × ℕ)
  rows : ℕ → ℕ

/-- One routing worker. -/
def routeWorker (circumstances : Circumstances) (config : WeeklyAggregationConfig) (dir : RunDir)
    (job : WeeklyPrimaryRouteJob) : Except String (RoutedPrimary × RunDir) := do
  let routing ← routePrimaryToSecondaryBuckets circumstances config dir job.primaryPath
    job.primaryBucket job.expected
  ensure (routing.peakActiveWriters ≤ circumstances.budget.maxActiveParquetWriters)
    "secondary routing reported a writer peak above its governed limit"
  return ({
    primaryBucket := job.primaryBucket
    primaryPath := job.primaryPath
    paths := fun bucket => (routing.files bucket).map fun _ => (job.primaryBucket, bucket)
    rows := routing.rows }, { dir with
    secondaries := Function.update dir.secondaries job.primaryBucket fun bucket =>
      (routing.files bucket).or (dir.secondaries job.primaryBucket bucket) })

/-- The nonempty secondary buckets of a routed primary. -/
def prepareBuckets (config : WeeklyAggregationConfig) (routed : RoutedPrimary) :
    Except String (List PreparedWeeklyBucket) := do
  let buckets ← (List.range config.secondaryBucketCount).mapM fun secondary => do
    let path ← requiredSecondaryBucketPath (routed.rows secondary) (routed.paths secondary)
      routed.primaryBucket secondary
    return path.map fun path => {
      logicalBucket := routed.primaryBucket * config.secondaryBucketCount + secondary
      primaryBucket := routed.primaryBucket
      secondaryBucket := secondary
      stagedRows := routed.rows secondary
      stagedPath := some path : PreparedWeeklyBucket }
  return buckets.filterMap id

/-- One admitted wave of primaries: route them side by side, then reconcile what
they gave in bounded batches. -/
def routeAndReconcileWave (circumstances : Circumstances) (calendar : Calendar) (wiki : String)
    (config : WeeklyAggregationConfig) (jobs : List WeeklyPrimaryRouteJob) (published : Published) :
    Except String Published := do
  let (routed, dir) ← wave (circumstances.finishing (0 :: jobs.map (·.primaryBucket))).arrange
    (routeWorker circumstances config) jobs published.dir
  let routed := routed.insertionSort fun a b => a.primaryBucket ≤ b.primaryBucket
  let prepared ← routed.mapM (prepareBuckets config)
  let dir := { dir with
    primaries := fun path => if path ∈ routed.map (·.primaryPath) then none
      else dir.primaries path }
  let prepared := prepared.flatten.insertionSort fun a b => a.logicalBucket ≤ b.logicalBucket
  sweep prepared.length circumstances.budget.weeklyWorkerLimit
    (fun start stop => reconcileAndAppend circumstances calendar wiki []
      ((prepared.take stop).drop start)) { published with dir := dir }

def routeAndReconcileWeeklyBuckets (circumstances : Circumstances) (calendar : Calendar)
    (wiki : String) (config : WeeklyAggregationConfig) (primaryPaths : ℕ → Option ℕ)
    (primaryBucketRows : ℕ → ℕ) (primaryBucketEdits : ℕ → ℤ) (published : Published) :
    Except String Published := do
  let writerLimit := circumstances.budget.maxActiveParquetWriters
  ensure (0 < writerLimit) "weekly routing writer limit must be positive"
  let openFileDescriptors ← circumstances.openFileDescriptors
  let workerLimit ← weeklyRouteWorkerLimitFromSample circumstances.budget writerLimit
    openFileDescriptors
  let estimatedMemoryBytes ← weeklyRouteMemoryEstimate writerLimit
  let candidates ← ((List.range config.primaryBucketCount).filter
    fun primary => 0 < primaryBucketRows primary).mapM fun primary => do
      let path ← context (primaryPaths primary)
        ("missing non-empty primary bucket " ++ toString primary)
      return {
        primaryBucket := primary
        primaryPath := path
        expected := ⟨primaryBucketRows primary, primaryBucketEdits primary⟩ :
          WeeklyPrimaryRouteJob }
  inWaves
    (fun offset width job => do
      let estimatedScratchBytes ← circumstances.fileBytes [offset, width] job.primaryPath
      return refusal (circumstances.admitBucket [0, offset, width, job.primaryBucket]
        estimatedMemoryBytes estimatedScratchBytes))
    (fun e => "resource governor could not admit one weekly route worker: " ++ e) workerLimit
    (routeAndReconcileWave circumstances calendar wiki config)
    candidates.length 0 candidates published

/-! ## The whole reduction -/

/-- One level: the primary buckets are the logical ones and are read straight from
the staged months. -/
def reconcilePrimaryRange (circumstances : Circumstances) (calendar : Calendar) (wiki : String)
    (stagedPaths : List ℕ) (primaryBucketRows : ℕ → ℕ) (start stop : ℕ) (published : Published) :
    Except String Published :=
  let prepared := (List.range' start (stop - start)).filter
    (fun primary => 0 < primaryBucketRows primary)
    |>.map fun primary => {
      logicalBucket := primary
      primaryBucket := primary
      secondaryBucket := 0
      stagedRows := primaryBucketRows primary
      stagedPath := none : PreparedWeeklyBucket }
  reconcileAndAppend circumstances calendar wiki stagedPaths prepared published

/-- `compute_page_weekly_edits_for_snapshot_with_governor`, from the contributions
of the months on. Nothing is published where there is no month. -/
def computePageWeeklyEdits (circumstances : Circumstances) (calendar : Calendar) (wiki : String)
    (config : WeeklyAggregationConfig) (contributions : List WeeklyFrame) :
    Except String (Option Published) := do
  if contributions.isEmpty then
    return none
  circumstances.checkpoint "page_weekly_edits_preflight" []
  let staging ← stagePartitions circumstances config.primaryBucketCount contributions
  let routedEdits ← checkedSumI64
    ((List.range config.primaryBucketCount).map staging.bucketEdits) "primary routing edit count"
  ensure (routedEdits = staging.totalEditsBefore)
    "page_weekly_edits primary routing lost or duplicated edits"
  let published ←
    if config.secondaryBucketCount > 1 then do
      let compaction ← compactWeeklyPrimaryBuckets circumstances config.primaryBucketCount
        staging.stagedPaths staging.bucketRows staging.bucketEdits staging.dir
      let dir := { compaction.dir with partitions := fun path =>
        if path ∈ staging.stagedPaths then none else compaction.dir.partitions path }
      routeAndReconcileWeeklyBuckets circumstances calendar wiki config compaction.paths
        staging.bucketRows staging.bucketEdits { dir := dir }
    else
      sweep config.primaryBucketCount circumstances.budget.weeklyWorkerLimit
        (reconcilePrimaryRange circumstances calendar wiki staging.stagedPaths staging.bucketRows)
        { dir := staging.dir }
  ensure (staging.totalEditsBefore = published.totalEditsAfter)
    ("page_weekly_edits lost or duplicated data for " ++ wiki ++ ": "
      ++ toString staging.totalEditsBefore ++ " edits before merge, "
      ++ toString published.totalEditsAfter ++ " after")
  let _ ← context published.output "page_weekly_edits produced no rows from non-empty partitions"
  circumstances.checkpoint "page_weekly_edits_complete" []
  return some published

end WikiEcon.Compute.Weekly
