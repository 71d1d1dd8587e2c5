import Mathlib.Data.List.Sort
import Mathlib.Data.Prod.Lex
import Mathlib.Data.String.Basic
import WikiEcon.Compute.Frames
import WikiEcon.Lib.Faults
import WikiEcon.Lib.SortedTable
import WikiEcon.Rust

/-!
# Compacting a generation

`compaction.rs`: the many fragments of an ingested generation are sorted into a few shards for
each month. The shards are staged, a transaction is written, the staging directory becomes the
final one, the manifest is committed and the transaction removed. Once a receipt vouches for the
manifest the fragments are retired.

What the Parquet library and SHA-256 say is a parameter. So are the marker files and the plan
made of them, which other modules of the repository read; no fragment that they name lies in the
staging or in the final directory.

Whether a file is there can always be told, and so can whether the receipt vouches for the
manifest; every other call may fail. The receipt vouches for the generation manifest too, which
is not looked at here. The temporary file of an atomic write and the cache of manifests within
one process are left out.
-/

namespace WikiEcon.Ingest.Compaction

open Compute (zeroPad)
open Programs

abbrev Path := List String
abbrev Bytes := List UInt8

def compactionAlgorithmVersion : String := "metric-input-month-size-compaction-v1-sort-all-columns"
def orderingContract : String := "event-month-then-all-metric-input-columns-v1"
def compactedDirname : String := "_compacted"
def mib : ℕ := 1048576

inductive GenerationLayer
  | analytical
  | warehouse
  | metricInput
  deriving DecidableEq

structure GenerationFragment where
  layer : GenerationLayer
  sourceId : String
  path : Path
  rows : ℕ
  bytes : ℕ
  sha256 : String
  deriving DecidableEq

structure GenerationManifest where
  schemaVersion : ℕ
  wiki : String
  snapshotVersion : String
  sourcePlanSha256 : String
  compactionManifestPath : Option String
  compactionManifestSha256 : Option String
  fragments : List GenerationFragment
  deriving DecidableEq

structure CompactionPolicy where
  targetBytes : ℕ
  maximumBytes : ℕ
  deriving DecidableEq

structure CompactionSource where
  sourceId : String
  markerPath : Path
  markerSha256 : String
  rows : ℕ
  deriving DecidableEq

structure CompactionManifest where
  schemaVersion : ℕ
  wiki : String
  snapshotVersion : String
  algorithmVersion : String
  orderingContract : String
  sourceManifestSha256 : String
  targetBytes : ℕ
  maximumBytes : ℕ
  sources : List CompactionSource
  sourceFragments : List GenerationFragment
  compactedFragments : List GenerationFragment
  sourceRows : ℕ
  compactedRows : ℕ
  sourceBytes : ℕ
  compactedBytes : ℕ
  deriving DecidableEq

structure CompactionTransaction where
  schemaVersion : ℕ
  wiki : String
  snapshotVersion : String
  state : String
  stagingRelative : Path
  finalRelative : Path
  manifest : CompactionManifest
  deriving DecidableEq

/-- What other crates do with rows and bytes. -/
structure Library (Row : Type) where
  readParquet : Bytes → Option (List Row)
  writeParquet : List Row → Bytes
  numRows : Bytes → Option ℕ
  sha256 : Bytes → String
  timestamp : Row → Option String
  /-- The rows of a marker that `marker_manifest_is_valid_in` accepts. -/
  markerRows : Bytes → Option ℕ
  /-- `canonical_sha256`. -/
  manifestSha256 : GenerationManifest → String

/-- The generation, the plan of its snapshot and the environment. -/
structure Target where
  wiki : String
  snapshot : String
  /-- The sources of the plan. -/
  plan : List String
  targetBytes : Option ℕ
  maximumBytes : Option ℕ

def Target.metricInputRoot (target : Target) : Path :=
  ["metric-input", target.wiki, "_snapshots", target.snapshot]

def Target.markerPath (target : Target) (sourceId : String) : Path :=
  ["parquet", target.wiki, "_snapshots", target.snapshot, "_markers", sourceId ++ ".done"]

def Target.staging (target : Target) : Path := target.metricInputRoot ++ ["_compaction-staging"]
def Target.final (target : Target) : Path := target.metricInputRoot ++ [compactedDirname]

/-- `CompactionPolicy::from_values`, of byte counts. -/
def CompactionPolicy.fromValues (target maximum : Option ℕ) : Except String CompactionPolicy := do
  let policy : CompactionPolicy := ⟨target.getD (192 * mib), maximum.getD (512 * mib)⟩
  ensure (128 * mib ≤ policy.targetBytes ∧ policy.targetBytes ≤ 256 * mib)
    "compaction target must be between 128 and 256 MiB"
  ensure (policy.targetBytes ≤ policy.maximumBytes ∧ policy.maximumBytes ≤ 512 * mib)
    "compaction maximum must be at least the target and no more than 512 MiB"
  return policy

/-! ## Fragments -/

/-- `checked_path`. -/
def checkedPath (path : Path) : Except String Path := do
  ensure (∀ component ∈ path, component ≠ ".." ∧ component ≠ "." ∧ component ≠ "")
    "compaction manifest contains an unsafe path"
  return path

def stripLabel (label value : String) : Option String :=
  if label.toList.isPrefixOf value.toList then
    some (String.ofList (value.toList.drop label.length))
  else none

/-- `parse::<i32>`. -/
def parseI32 (text : String) : Option ℤ :=
  let digits := match text.toList with
    | '+' :: rest => (1, rest)
    | '-' :: rest => (-1, rest)
    | rest => (1, rest)
  if digits.2 ≠ [] ∧ digits.2.all Char.isDigit = true then
    let value : ℤ := digits.1 * Nat.ofDigitChars 10 digits.2 0
    if -2 ^ 31 ≤ value ∧ value < 2 ^ 31 then some value else none
  else none

/-- The year and the month of the partition a fragment lies in. -/
def fragmentMonth (fragment : GenerationFragment) : Except String (ℤ × String) := do
  let parents := fragment.path.dropLast
  let month ← context (parents.getLast?.bind (stripLabel "year_month="))
    "metric-input fragment has no month partition"
  let year ← context ((parents.dropLast.getLast?.bind (stripLabel "year=")).bind parseI32)
    "metric-input fragment has no year partition"
  ensure ((zeroPad 4 year ++ "-").toList.isPrefixOf month.toList = true)
    "metric-input fragment year/month partition disagrees"
  return (year, month)

/-- The derived order. -/
def GenerationFragment.sortKey (f : GenerationFragment) :
    ℕ ×ₗ String ×ₗ String ×ₗ ℕ ×ₗ ℕ ×ₗ String :=
  let layer := match f.layer with
    | .analytical => 0
    | .warehouse => 1
    | .metricInput => 2
  toLex (layer, toLex (f.sourceId, toLex ("/".intercalate f.path, toLex (f.rows,
    toLex (f.bytes, f.sha256)))))

def sortFragments (fragments : List GenerationFragment) : List GenerationFragment :=
  fragments.insertionSort fun a b => a.sortKey ≤ b.sortKey

/-- `windows(2)`, each pair in order. -/
def strictlyAscending {α κ : Type} [LinearOrder κ] (key : α → κ) (l : List α) : Bool :=
  (l.zip l.tail).all fun pair => key pair.1 < key pair.2

/-- The sum of one of the counts, in a `u64`. -/
def sumChecked (count : GenerationFragment → ℕ) (fragments : List GenerationFragment)
    (message : String) : Except String ℕ :=
  fragments.foldlM (fun total fragment =>
    context (checkedAdd u64Max total (count fragment)) message) 0

/-- The body of the loop of `pack_fragment_groups`: the groups that are closed, the open one and
its bytes. -/
def packFragment (targetBytes : ℕ)
    (packed : List (List GenerationFragment) × List GenerationFragment × ℕ)
    (input : GenerationFragment) :
    Except String (List (List GenerationFragment) × List GenerationFragment × ℕ) := do
  let total ← context (checkedAdd u64Max packed.2.2 input.bytes)
    "compaction group byte count overflow"
  if packed.2.1 ≠ [] ∧ targetBytes < total then
    return (packed.1 ++ [packed.2.1], [input], input.bytes)
  else return (packed.1, packed.2.1 ++ [input], total)

def packFragmentGroups (inputs : List GenerationFragment) (targetBytes : ℕ) :
    Except String (List (List GenerationFragment)) := do
  let packed ← inputs.foldlM (packFragment targetBytes) ([], [], 0)
  return if packed.2.1 ≠ [] then packed.1 ++ [packed.2.1] else packed.1

/-- The entries of the map from months to fragments, in its order. -/
def byMonth (fragments : List GenerationFragment) :
    Except String (List ((ℤ × String) × List GenerationFragment)) := do
  let keyed ← fragments.mapM fun fragment => do
    let month ← fragmentMonth fragment
    return (month, fragment)
  return (SortedTable.keys (fun entry : (ℤ × String) × GenerationFragment =>
    toLex entry.1) keyed).map
    fun month => (ofLex month, (keyed.filter fun entry => toLex entry.1 = month).map Prod.snd)

/-! ## The disk -/

inductive Root
  | staging
  | final
  deriving DecidableEq

/-- The files of a directory, by their paths in it. -/
abbrev Directory := Path → Option Bytes

structure Disk where
  fragments : Path → Option Bytes
  marker : String → Option Bytes
  staging : Option Directory
  final : Option Directory
  transaction : Option CompactionTransaction
  manifest : Option CompactionManifest
  /-- The manifest the ingest receipt vouches for. -/
  receipt : Option CompactionManifest

/-- A file in a directory, if that is there. -/
def putFile (directory : Option Directory) (path : Path) (bytes : Bytes) : Option Directory :=
  directory.map fun files => Function.update files path (some bytes)

def Disk.directory (d : Disk) : Root → Option Directory
  | .staging => d.staging
  | .final => d.final

inductive Call
  | manifestIsFile
  | transactionIsFile
  | isDirectory (root : Root)
  | markerIsFile (sourceId : String)
  | fragmentIsFile (path : Path)
  | receiptMatches
  | readManifest
  | readTransaction
  | readMarker (sourceId : String)
  | readFragment (path : Path)
  | readShard (root : Root) (path : Path)
  | createStaging
  | createShard (path : Path)
  | writeShard (path : Path) (bytes : Bytes)
  | writeTransaction (transaction : CompactionTransaction)
  | renameStaging
  | syncParent
  | writeManifest (manifest : CompactionManifest)
  | removeTransaction
  | removeStaging
  | removeFragment (path : Path)

abbrev Call.Answer : Call → Type
  | .manifestIsFile => Bool
  | .transactionIsFile => Bool
  | .isDirectory _ => Bool
  | .markerIsFile _ => Bool
  | .fragmentIsFile _ => Bool
  | .receiptMatches => Bool
  | .readManifest => CompactionManifest
  | .readTransaction => CompactionTransaction
  | .readMarker _ => Bytes
  | .readFragment _ => Bytes
  | .readShard _ _ => Bytes
  | _ => Unit

/-- To look whether something is there does not fail. -/
def Call.fallible : Call → Bool
  | .manifestIsFile => false
  | .transactionIsFile => false
  | .isDirectory _ => false
  | .markerIsFile _ => false
  | .fragmentIsFile _ => false
  | .receiptMatches => false
  | _ => true

def Disk.perform (d : Disk) : (c : Call) → Except String c.Answer × Disk
  | .manifestIsFile => (.ok d.manifest.isSome, d)
  | .transactionIsFile => (.ok d.transaction.isSome, d)
  | .isDirectory root => (.ok (d.directory root).isSome, d)
  | .markerIsFile sourceId => (.ok (d.marker sourceId).isSome, d)
  | .fragmentIsFile path => (.ok (d.fragments path).isSome, d)
  | .receiptMatches => (.ok (d.receipt.isSome && d.receipt = d.manifest), d)
  | .readManifest => (context d.manifest "No such file or directory", d)
  | .readTransaction => (context d.transaction "No such file or directory", d)
  | .readMarker sourceId => (context (d.marker sourceId) "No such file or directory", d)
  | .readFragment path => (context (d.fragments path) "No such file or directory", d)
  | .readShard root path =>
    (context ((d.directory root).bind fun directory => directory path) "No such file or directory",
      d)
  | .createStaging => (.ok (), { d with staging := some (d.staging.getD fun _ => none) })
  | .createShard path => (.ok (), { d with staging := putFile d.staging path [] })
  | .writeShard path bytes => (.ok (), { d with staging := putFile d.staging path bytes })
  | .writeTransaction transaction => (.ok (), { d with transaction := some transaction })
  | .renameStaging => (.ok (), { d with staging := none, final := d.staging })
  | .syncParent => (.ok (), d)
  | .writeManifest manifest => (.ok (), { d with manifest := some manifest })
  | .removeTransaction => (.ok (), { d with transaction := none })
  | .removeStaging => (.ok (), { d with staging := none })
  | .removeFragment path => (.ok (), { d with fragments := Function.update d.fragments path none })

abbrev Reply (c : Call) : Type := Except String c.Answer

abbrev Action (α : Type) : Type := Program String Call Reply α

abbrev performFaulty (w : Faulty Disk) (c : Call) : Reply c × Faulty Disk :=
  faulty Call.fallible Disk.perform "I/O error" w c

def ask (c : Call) : Action c.Answer := Program.ask c >>= Program.check

def check {α : Type} (x : Except String α) : Action α := Program.check x

/-! ## Validation -/

/-- `CompactionPolicy::validate`. -/
def CompactionPolicy.validate (policy : CompactionPolicy) : Except String Unit := do
  let _ ← CompactionPolicy.fromValues (some policy.targetBytes) (some policy.maximumBytes)
  return ()

/-- What `validate_structure` asks of the manifest itself. -/
def validateManifest (target : Target) (manifest : CompactionManifest) : Except String Unit := do
  ensure (manifest.schemaVersion = 1 ∧ manifest.wiki = target.wiki
      ∧ manifest.snapshotVersion = target.snapshot
      ∧ manifest.algorithmVersion = compactionAlgorithmVersion)
    "compaction manifest identity or algorithm mismatch"
  CompactionPolicy.validate ⟨manifest.targetBytes, manifest.maximumBytes⟩
  ensure (manifest.orderingContract = Compaction.orderingContract)
    "compaction ordering contract mismatch"
  ensure (manifest.sources ≠ [] ∧ manifest.sourceFragments ≠ [] ∧ manifest.compactedFragments ≠ [])
    "compaction manifest has an empty proof set"
  ensure (strictlyAscending CompactionSource.sourceId manifest.sources = true
      ∧ strictlyAscending GenerationFragment.sortKey manifest.sourceFragments = true
      ∧ strictlyAscending GenerationFragment.sortKey manifest.compactedFragments = true)
    "compaction proof sets are not uniquely sorted"
  ensure ((∀ source ∈ manifest.sources, source.sourceId ∈ target.plan)
      ∧ ∀ sourceId ∈ target.plan, sourceId ∈ manifest.sources.map CompactionSource.sourceId)
    "compaction source proof does not exactly cover the snapshot plan"
  ensure (∀ fragment ∈ manifest.sourceFragments, fragment.layer = .metricInput
      ∧ fragment.sourceId ∈ manifest.sources.map CompactionSource.sourceId)
    "compaction source fragment is not owned by a planned source"
  ensure (∀ fragment ∈ manifest.compactedFragments, fragment.layer = .metricInput
      ∧ (stripLabel "compacted-" fragment.sourceId).isSome = true
      ∧ compactedDirname ∈ fragment.path.dropLast.drop 1
      ∧ fragment.bytes ≤ manifest.maximumBytes)
    "compaction output violates its storage contract"
  let overflow := "compaction conservation total overflow"
  let sourceRows ← sumChecked GenerationFragment.rows manifest.sourceFragments overflow
  let compactedRows ← sumChecked GenerationFragment.rows manifest.compactedFragments overflow
  let sourceBytes ← sumChecked GenerationFragment.bytes manifest.sourceFragments overflow
  let compactedBytes ← sumChecked GenerationFragment.bytes manifest.compactedFragments overflow
  ensure (sourceRows = manifest.sourceRows ∧ compactedRows = manifest.compactedRows
      ∧ manifest.sourceRows = manifest.compactedRows ∧ sourceBytes = manifest.sourceBytes
      ∧ compactedBytes = manifest.compactedBytes)
    "compaction conservation totals disagree"

/-- A hexadecimal SHA-256 beside the marker it is of. -/
def validateMarkerProof (target : Target) (source : CompactionSource) : Action Unit := do
  let marker ← check (checkedPath source.markerPath)
  let present ← ask (.markerIsFile source.sourceId)
  check (ensure (source.markerSha256.toList.length = 64
      ∧ source.markerSha256.toList.all
        (fun c => c.isDigit || "abcdefABCDEF".toList.contains c) = true
      ∧ marker = target.markerPath source.sourceId ∧ present = true)
    "compaction source marker proof is invalid")

def forEach {α : Type} (l : List α) (body : α → Action Unit) : Action Unit :=
  l.foldlM (fun _ a => body a) ()

def validateStructure (target : Target) (manifest : CompactionManifest) : Action Unit := do
  check (validateManifest target manifest)
  forEach manifest.sources (validateMarkerProof target)

section Rows

variable {Row : Type} (lib : Library Row)

def validateSourceMarkerHashes (manifest : CompactionManifest) : Action Unit :=
  forEach manifest.sources fun source => do
    let _ ← check (checkedPath source.markerPath)
    let bytes ← ask (.readMarker source.sourceId)
    check (ensure (lib.sha256 bytes = source.markerSha256) "compaction source marker hash changed")

/-- The path of a shard in its directory. -/
def compactedRelative (fragment : GenerationFragment) : Except String Path := do
  let components := fragment.path
  let compacted ← context (components.findIdx? (· = compactedDirname))
    "compaction output path has no compacted directory"
  ensure (compacted + 4 = components.length) "compaction output has an invalid partition path"
  return components.drop (compacted + 1)

/-- What a shard must hold. -/
def validateShard (fragment : GenerationFragment) (bytes : Bytes) : Except String Unit := do
  ensure (bytes.length = fragment.bytes) "compacted fragment size changed"
  let rows ← context (lib.numRows bytes) "not a Parquet file"
  ensure (rows = fragment.rows) "compacted fragment row count changed"
  ensure (lib.sha256 bytes = fragment.sha256) "compacted fragment hash changed"

def validateOutputsAt (root : Root) (manifest : CompactionManifest) : Action Unit :=
  forEach manifest.compactedFragments fun fragment => do
    let path ← check (compactedRelative fragment)
    let bytes ← ask (.readShard root path)
    check (validateShard lib fragment bytes)

/-! ## Shards -/

variable [LinearOrder Row]

structure CompactGroupContext where
  year : ℤ
  month : String
  maximumBytes : ℕ

/-- `year=.../year_month=.../compacted-....part-....parquet`. -/
def shardPath (year : ℤ) (month : String) (shard : ℕ) : Path :=
  ["year=" ++ zeroPad 4 year, "year_month=" ++ month,
    "compacted-" ++ month ++ ".part-" ++ zeroPad 5 shard ++ ".parquet"]

/-- The rows of a fragment, after those that were read. -/
def appendFragment (frame : Option (List Row)) (input : GenerationFragment) :
    Action (Option (List Row)) := do
  let path ← check (checkedPath input.path)
  let bytes ← ask (.readFragment path)
  let rows ← check (context (lib.readParquet bytes) "failed to read compaction input")
  return some (frame.getD [] ++ rows)

def compactGroup (target : Target) (group : CompactGroupContext) (shard : ℕ)
    (inputs : List GenerationFragment) : Action GenerationFragment := do
  let expectedRows ← check (sumChecked GenerationFragment.rows inputs
    "compaction input row count overflow")
  let read ← inputs.foldlM (appendFragment lib) none
  let frame ← check (context read "compaction group has no input frame")
  check (ensure (frame.length = expectedRows) "compaction input materialization lost rows")
  check (ensure (frame.all (fun row => (lib.timestamp row).any fun timestamp =>
      group.month.toList.isPrefixOf timestamp.toList) = true)
    "compaction input escaped its event-month partition")
  let sorted := frame.insertionSort (· ≤ ·)
  let relative := shardPath group.year group.month shard
  ask (.createShard relative)
  ask (.writeShard relative (lib.writeParquet sorted))
  let bytes ← ask (.readShard .staging relative)
  let rows ← check (context (lib.numRows bytes) "not a Parquet file")
  check (ensure (rows = expectedRows) "compacted Parquet footer row count disagrees")
  check (ensure (bytes.length ≤ group.maximumBytes)
    "compacted shard is above the configured maximum; lower the target size")
  return {
    layer := .metricInput
    sourceId := "compacted-" ++ group.month
    path := target.final ++ relative
    rows := expectedRows
    bytes := bytes.length
    sha256 := lib.sha256 bytes }

/-- The shards of one month after those of the months before it. -/
def compactMonth (target : Target) (policy : CompactionPolicy) (compacted : List GenerationFragment)
    (month : (ℤ × String) × List GenerationFragment) : Action (List GenerationFragment) := do
  let groups ← check (packFragmentGroups month.2 policy.targetBytes)
  groups.zipIdx.foldlM (fun compacted group => do
    let output ← compactGroup lib target ⟨month.1.1, month.1.2, policy.maximumBytes⟩ group.2 group.1
    return compacted ++ [output]) compacted

/-! ## The transaction -/

/-- The rows the fragments of a source have. -/
def rowsBySource (fragments : List GenerationFragment) (sourceId : String) : Except String ℕ :=
  sumChecked GenerationFragment.rows (fragments.filter fun fragment => fragment.sourceId = sourceId)
    "source fragment row count overflow"

def sourceProof (target : Target) (source : GenerationManifest) (sources : List CompactionSource)
    (sourceId : String) : Action (List CompactionSource) := do
  let bytes ← ask (.readMarker sourceId)
  let markerRows ← check (context (lib.markerRows bytes)
    ("source " ++ sourceId ++ " lost its strict marker before compaction"))
  let rows ← check (rowsBySource source.fragments sourceId)
  check (ensure (rows = markerRows)
    "source marker rows disagree with the source fragment allowlist")
  return sources ++ [⟨sourceId, target.markerPath sourceId, lib.sha256 bytes, rows⟩]

/-- The manifest of shards that were staged. -/
def buildManifest (target : Target) (source : GenerationManifest) (policy : CompactionPolicy)
    (sources : List CompactionSource) (compacted : List GenerationFragment) :
    Except String CompactionManifest := do
  let sourceFragments := sortFragments source.fragments
  let overflow := "compaction total overflow"
  let sourceRows ← sumChecked GenerationFragment.rows sourceFragments overflow
  let compactedRows ← sumChecked GenerationFragment.rows compacted overflow
  let sourceBytes ← sumChecked GenerationFragment.bytes sourceFragments overflow
  let compactedBytes ← sumChecked GenerationFragment.bytes compacted overflow
  return {
    schemaVersion := 1
    wiki := target.wiki
    snapshotVersion := target.snapshot
    algorithmVersion := compactionAlgorithmVersion
    orderingContract := Compaction.orderingContract
    sourceManifestSha256 := lib.manifestSha256 source
    targetBytes := policy.targetBytes
    maximumBytes := policy.maximumBytes
    sources := sources
    sourceFragments := sourceFragments
    compactedFragments := compacted
    sourceRows := sourceRows
    compactedRows := compactedRows
    sourceBytes := sourceBytes
    compactedBytes := compactedBytes }

def transactionOf (target : Target) (manifest : CompactionManifest) : CompactionTransaction where
  schemaVersion := 1
  wiki := target.wiki
  snapshotVersion := target.snapshot
  state := "prepared"
  stagingRelative := target.staging
  finalRelative := target.final
  manifest := manifest

/-- The shards and their manifest, up to the transaction. -/
def stage (target : Target) (source : GenerationManifest) (policy : CompactionPolicy) :
    Action CompactionManifest := do
  let months ← check (byMonth source.fragments)
  let compacted ← months.foldlM (compactMonth lib target policy) []
  let sources ← target.plan.foldlM (sourceProof lib target source) []
  let manifest ← check (buildManifest lib target source policy sources (sortFragments compacted))
  validateStructure target manifest
  validateOutputsAt lib .staging manifest
  return manifest

/-- From the transaction on. -/
def commit (target : Target) (manifest : CompactionManifest) : Action CompactionManifest := do
  ask (.writeTransaction (transactionOf target manifest))
  ask .renameStaging
  ask .syncParent
  ask (.writeManifest manifest)
  ask .removeTransaction
  return manifest

def readManifest (target : Target) : Action CompactionManifest := do
  let manifest ← ask .readManifest
  validateStructure target manifest
  validateSourceMarkerHashes lib manifest
  validateOutputsAt lib .final manifest
  return manifest

/-- The staged or the renamed directory of a transaction, validated and in its final place. -/
def placeOutputs (manifest : CompactionManifest) (staged : Bool) : Action Unit :=
  if staged then do
    validateOutputsAt lib .staging manifest
    ask .renameStaging
    ask .syncParent
  else validateOutputsAt lib .final manifest

def recoverPreparedTransaction (target : Target) : Action (Option CompactionManifest) := do
  let present ← ask .transactionIsFile
  if present then do
    let transaction ← ask .readTransaction
    check (ensure (transaction.schemaVersion = 1 ∧ transaction.wiki = target.wiki
        ∧ transaction.snapshotVersion = target.snapshot ∧ transaction.state = "prepared")
      "compaction transaction identity or state mismatch")
    validateStructure target transaction.manifest
    validateSourceMarkerHashes lib transaction.manifest
    let _ ← check (checkedPath transaction.stagingRelative)
    let _ ← check (checkedPath transaction.finalRelative)
    let staged ← ask (.isDirectory .staging)
    let renamed ← ask (.isDirectory .final)
    check (ensure (staged ≠ renamed) "compaction transaction has ambiguous staging/final state")
    placeOutputs lib transaction.manifest staged
    ask (.writeManifest transaction.manifest)
    ask .removeTransaction
    return some transaction.manifest
  else return none

/-- What a failed attempt leaves is removed, unless a transaction owns it. -/
def cleanUp (message : String) : Action CompactionManifest := do
  let staged ← ask (.isDirectory .staging)
  let owned ← ask .transactionIsFile
  if staged && !owned then do
    let _ ← (ask .removeStaging).attempt
    Program.fail message
  else Program.fail message

/-- A generation that nothing is known of yet. -/
def compactFresh (target : Target) (source : GenerationManifest) : Action CompactionManifest := do
  check (ensure (source.schemaVersion = 2
      ∧ ∀ fragment ∈ source.fragments, fragment.layer = .metricInput)
    "only a source-fragment schema-v2 metric-input generation can be compacted")
  let policy ← check (CompactionPolicy.fromValues target.targetBytes target.maximumBytes)
  let staged ← ask (.isDirectory .staging)
  let renamed ← ask (.isDirectory .final)
  check (ensure (staged = false ∧ renamed = false)
    "unowned compaction artifacts require quarantine before retry")
  ask .createStaging
  let result ← Program.attempt (do
    let manifest ← stage lib target source policy
    commit target manifest : Action CompactionManifest)
  match result with
  | .ok manifest => return manifest
  | .error message => cleanUp message

def compactGeneration (target : Target) (source : GenerationManifest) : Action CompactionManifest :=
  do
  let committed ← ask .manifestIsFile
  if committed then readManifest lib target
  else do
    let recovered ← recoverPreparedTransaction lib target
    match recovered with
    | some manifest => return manifest
    | none => compactFresh lib target source

/-! ## Retirement -/

/-- `receipted_manifest`. -/
def receiptedManifest (target : Target) : Action (Option CompactionManifest) := do
  let vouched ← ask .receiptMatches
  if vouched then do
    let manifest ← ask .readManifest
    validateStructure target manifest
    forEach manifest.compactedFragments fun fragment => do
      let _ ← check (checkedPath fragment.path)
      let path ← check (compactedRelative fragment)
      let bytes ← ask (.readShard .final path)
      check (ensure (bytes.length = fragment.bytes) "receipted compacted fragment size changed")
    return some manifest
  else return none

def retireFragment (removed : ℕ) (fragment : GenerationFragment) : Action ℕ := do
  let path ← check (checkedPath fragment.path)
  let present ← ask (.fragmentIsFile path)
  if present then do
    ask (.removeFragment path)
    return saturatingAdd u64Max removed 1
  else return removed

/-- The directories that become empty are left out. -/
def retireSourceFragments (target : Target) : Action ℕ := do
  let receipted ← receiptedManifest target
  match receipted with
  | none => return 0
  | some manifest => do
    validateOutputsAt lib .final manifest
    manifest.sourceFragments.foldlM retireFragment 0

end Rows

end WikiEcon.Ingest.Compaction
