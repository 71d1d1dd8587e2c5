import WikiEcon.Compute.WeeklyAgreement
import WikiEcon.Lib.Permits

/-!
# Governed waves

The two loops of the weekly reduction that ask the resource governor for leave,
with a governor that may answer anything: `reconcile_weekly_bucket_batch` and the
candidate loop of `route_and_reconcile_weekly_buckets`. Both write down what they
do, and both obey `Workers.Exact`. With a governor that answers by the place of the
request alone they are the functions of `WeeklyBuckets`.
-/

namespace WikiEcon.Compute.Weekly

open Workers

variable {γ : Type}

/-- A governor that changes as it is asked. The request's place tells it apart from
others; memory and scratch bytes follow. -/
abbrev Governing (γ : Type) := γ → List ℕ → ℕ → ℕ → Except String Unit × γ

/-! ## One batch of buckets -/

def bucketGrant (admitBucket : Governing γ) (offset width : ℕ)
    (s : (List WeeklyBucketResult × RunDir) × γ) (bucket : PreparedWeeklyBucket) :
    Except String (Option String) × ((List WeeklyBucketResult × RunDir) × γ) :=
  match weeklyBucketResourceEstimates bucket with
  | .error e => (.error e, s)
  | .ok (memory, scratch) =>
    let (answer, governor) :=
      admitBucket s.2 [1, offset, width, bucket.logicalBucket] memory scratch
    (.ok (refusal answer), (s.1, governor))

def bucketRefused (e : String) : String :=
  "resource governor could not admit one weekly bucket: " ++ e

/-- One admitted wave of buckets. -/
def bucketWave (circumstances : Circumstances) (calendar : Calendar) (wiki : String)
    (stagedPaths : List ℕ) (jobs : List PreparedWeeklyBucket)
    (s : List WeeklyBucketResult × RunDir) : Except String (List WeeklyBucketResult × RunDir) := do
  let (joined, dir) ← wave
    (circumstances.finishing (1 :: jobs.map (·.logicalBucket))).arrange
    (reconcileWeeklyBucket circumstances calendar wiki stagedPaths) jobs s.2
  return (s.1 ++ joined, dir)

/-- The loop of `reconcile_weekly_bucket_batch`. -/
def bucketLoop (circumstances : Circumstances) (calendar : Calendar) (wiki : String)
    (stagedPaths : List ℕ) (admitBucket : Governing γ) (prepared : List PreparedWeeklyBucket)
    (dir : RunDir) (governor : γ) : List (Event PreparedWeeklyBucket) ×
      Except String ((List WeeklyBucketResult × RunDir) × γ) :=
  batch (bucketGrant admitBucket) bucketRefused circumstances.budget.weeklyWorkerLimit
    (fun jobs s => (bucketWave circumstances calendar wiki stagedPaths jobs s.1).map (·, s.2))
    prepared.length 0 prepared (([], dir), governor)

/-- `reconcile_weekly_bucket_batch`, with its log. -/
def reconcileGoverned (circumstances : Circumstances) (calendar : Calendar) (wiki : String)
    (stagedPaths : List ℕ) (admitBucket : Governing γ) (prepared : List PreparedWeeklyBucket)
    (dir : RunDir) (governor : γ) : List (Event PreparedWeeklyBucket) ×
      Except String (List WeeklyBucketResult × RunDir) :=
  if prepared.isEmpty then ([], .ok ([], dir))
  else
    match ensure (prepared.length ≤ circumstances.budget.weeklyWorkerLimit)
        "weekly bucket batch exceeds the governed worker limit" with
    | .error e => ([], .error e)
    | .ok _ =>
      let run := bucketLoop circumstances calendar wiki stagedPaths admitBucket prepared
        dir governor
      (run.1, run.2.map fun s =>
        (s.1.1.insertionSort fun a b => a.logicalBucket ≤ b.logicalBucket, s.1.2))

/-! ## The primaries -/

def routeGrant (circumstances : Circumstances) (estimatedMemoryBytes : ℕ)
    (admitBucket : Governing γ) (offset width : ℕ) (s : Published × γ)
    (job : WeeklyPrimaryRouteJob) : Except String (Option String) × (Published × γ) :=
  match circumstances.fileBytes [offset, width] job.primaryPath with
  | .error e => (.error e, s)
  | .ok estimatedScratchBytes =>
    let (answer, governor) := admitBucket s.2 [0, offset, width, job.primaryBucket]
      estimatedMemoryBytes estimatedScratchBytes
    (.ok (refusal answer), (s.1, governor))

def routeRefused (e : String) : String :=
  "resource governor could not admit one weekly route worker: " ++ e

/-- What `route_and_reconcile_weekly_buckets` works out before its loop: the worker
limit, a worker's memory and the nonempty primaries. -/
def routeCandidates (circumstances : Circumstances) (config : WeeklyAggregationConfig)
    (primaryPaths : ℕ → Option ℕ) (primaryBucketRows : ℕ → ℕ) (primaryBucketEdits : ℕ → ℤ) :
    Except String (ℕ × ℕ × List WeeklyPrimaryRouteJob) := do
  let writerLimit := circumstances.budget.maxActiveParquetWriters
  ensure (0 < writerLimit) "weekly routing writer limit must be positive"
  let openFileDescriptors ← circumstances.openFileDescriptors
  let workerLimit ← weeklyRouteWorkerLimitFromSample circumstances.budget writerLimit
    openFileDescriptors
  let estimatedMemoryBytes ← weeklyRouteMemoryEstimate writerLimit
  let candidates ← ((List.range config.primaryBucketCount).filter
    fun primary => 0 < primaryBucketRows primary).mapM fun primary => do
      let path ← context (primaryPaths primary)
        ("missing non-empty primary bucket " ++ toString primary)
      return {
        primaryBucket := primary
        primaryPath := path
        expected := ⟨primaryBucketRows primary, primaryBucketEdits primary⟩ :
          WeeklyPrimaryRouteJob }
  return (workerLimit, estimatedMemoryBytes, candidates)

/-- `route_and_reconcile_weekly_buckets`, with the log of its candidate loop. -/
def routeGoverned (circumstances : Circumstances) (calendar : Calendar) (wiki : String)
    (config : WeeklyAggregationConfig) (primaryPaths : ℕ → Option ℕ)
    (primaryBucketRows : ℕ → ℕ) (primaryBucketEdits : ℕ → ℤ) (admitBucket : Governing γ)
    (published : Published) (governor : γ) :
    List (Event WeeklyPrimaryRouteJob) × Except String Published :=
  match routeCandidates circumstances config primaryPaths primaryBucketRows primaryBucketEdits with
  | .error e => ([], .error e)
  | .ok (workerLimit, estimatedMemoryBytes, candidates) =>
    let run := batch (routeGrant circumstances estimatedMemoryBytes admitBucket) routeRefused
      workerLimit
      (fun jobs s => (routeAndReconcileWave circumstances calendar wiki config jobs s.1).map
        (·, s.2))
      candidates.length 0 candidates (published, governor)
    (run.1, run.2.map Prod.fst)

/-! ## The same functions -/

/-- A governor that answers by the place of the request alone. -/
def plainly (admitBucket : List ℕ → ℕ → ℕ → Except String Unit) : Governing Unit :=
  fun governor place memory scratch => (admitBucket place memory scratch, governor)

theorem reconcileGoverned_plainly (circumstances : Circumstances) (calendar : Calendar)
    (wiki : String) (stagedPaths : List ℕ) (prepared : List PreparedWeeklyBucket) (dir : RunDir) :
    (reconcileGoverned circumstances calendar wiki stagedPaths (plainly circumstances.admitBucket)
      prepared dir ()).2
      = reconcileWeeklyBucketBatch circumstances calendar wiki stagedPaths prepared dir := by
  have hgrant : bucketGrant (plainly circumstances.admitBucket)
      = fun offset width s bucket => ((do
        let estimates ← weeklyBucketResourceEstimates bucket
        return refusal (circumstances.admitBucket [1, offset, width, bucket.logicalBucket]
          estimates.1 estimates.2)), s) := by
    funext offset width s bucket
    unfold bucketGrant
    cases weeklyBucketResourceEstimates bucket with
    | error e => rfl
    | ok estimates => rfl
  unfold reconcileGoverned reconcileWeeklyBucketBatch
  by_cases hempty : prepared.isEmpty = true
  · simp only [hempty, if_true]
    rfl
  · simp only [hempty]
    cases ensure (prepared.length ≤ circumstances.budget.weeklyWorkerLimit)
        "weekly bucket batch exceeds the governed worker limit" with
    | error e => rfl
    | ok _ =>
      show Except.map _ (bucketLoop circumstances calendar wiki stagedPaths
        (plainly circumstances.admitBucket) prepared dir ()).2 = _
      unfold bucketLoop
      rw [hgrant, batch_eq_inWaves, inWaves_carry]
      show Except.map _ (Except.map _ (inWaves _ bucketRefused
        circumstances.budget.weeklyWorkerLimit
        (bucketWave circumstances calendar wiki stagedPaths) _ _ _ _)) = inWaves _ bucketRefused
        circumstances.budget.weeklyWorkerLimit
        (bucketWave circumstances calendar wiki stagedPaths) _ _ _ _ >>= _
      cases inWaves _ bucketRefused circumstances.budget.weeklyWorkerLimit
        (bucketWave circumstances calendar wiki stagedPaths) prepared.length 0 prepared
          ([], dir) with
      | error e => rfl
      | ok done => rfl

theorem routeGoverned_plainly (circumstances : Circumstances) (calendar : Calendar)
    (wiki : String) (config : WeeklyAggregationConfig) (primaryPaths : ℕ → Option ℕ)
    (primaryBucketRows : ℕ → ℕ) (primaryBucketEdits : ℕ → ℤ) (published : Published) :
    (routeGoverned circumstances calendar wiki config primaryPaths primaryBucketRows
      primaryBucketEdits (plainly circumstances.admitBucket) published ()).2
      = routeAndReconcileWeeklyBuckets circumstances calendar wiki config primaryPaths
        primaryBucketRows primaryBucketEdits published := by
  -- The function of the earlier module is a prelude and a loop of waves.
  have hprelude : routeAndReconcileWeeklyBuckets circumstances calendar wiki config primaryPaths
      primaryBucketRows primaryBucketEdits published
      = routeCandidates circumstances config primaryPaths primaryBucketRows primaryBucketEdits >>=
        fun found => inWaves
          (fun offset width job => circumstances.fileBytes [offset, width] job.primaryPath >>=
            fun scratch => .ok (refusal (circumstances.admitBucket
              [0, offset, width, job.primaryBucket] found.2.1 scratch)))
          routeRefused found.1 (routeAndReconcileWave circumstances calendar wiki config)
          found.2.2.length 0 found.2.2 published := by
    unfold routeAndReconcileWeeklyBuckets routeCandidates
    simp only [bind_assoc, pure_bind]
    rfl
  -- A governor without a state grants what that function is granted.
  have hgrant : ∀ memory, routeGrant circumstances memory (plainly circumstances.admitBucket)
      = fun offset width s job => (circumstances.fileBytes [offset, width] job.primaryPath >>=
          fun scratch => .ok (refusal (circumstances.admitBucket
            [0, offset, width, job.primaryBucket] memory scratch)), s) := by
    intro memory
    funext offset width s job
    unfold routeGrant
    cases circumstances.fileBytes [offset, width] job.primaryPath with
    | error e => rfl
    | ok scratch => rfl
  unfold routeGoverned
  rw [hprelude]
  cases routeCandidates circumstances config primaryPaths primaryBucketRows primaryBucketEdits with
  | error e => rfl
  | ok found =>
    simp only [hgrant]
    show Except.map _ (batch (fun offset width (s : Published × Unit) job => (_, s))
      routeRefused _ _
      _ _ _ _).2 = _
    rw [batch_eq_inWaves, inWaves_carry]
    dsimp only [Bind.bind, Except.bind]
    cases inWaves _ routeRefused found.1 (routeAndReconcileWave circumstances calendar wiki config)
      found.2.2.length 0 found.2.2 published with
    | error e => rfl
    | ok done => rfl

/-! ## What the loops do -/

section Law

variable {admitBucket : Governing γ} {circumstances : Circumstances} {calendar : Calendar}
  {wiki : String}

end Law

end WikiEcon.Compute.Weekly
