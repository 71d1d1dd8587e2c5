import Mathlib.Algebra.Order.Ring.Int
import Mathlib.Algebra.Order.Ring.Nat
import Mathlib.Data.List.Forall2
import Mathlib.Data.List.Lex
import Mathlib.Data.List.Sort
import WikiEcon.Lib.Workers
import WikiEcon.Stages.ArtifactReceipt

/-!
# Stage receipts

`fingerprint.rs`: a stage records what it read and wrote, and a later run reuses its outputs if
nothing of that has changed. Sizes and times of modification spare most of the hashing.

`record` gives every Parquet output a sidecar, in the directory the outputs were collected
from; `record_plain_outputs` and `record_from_verified_receipt` write nothing but the receipt.
This module has the recorders and the comparison, and that a record is true of the file it was
made of.
-/

namespace WikiEcon.Stages

def stageReceiptSchemaVersion : ℕ := 1

structure TrackedPath where
  identity : String
  path : Path
  deriving DecidableEq

structure ArtifactIdentity where
  identity : String
  bytes : ℕ
  sha256 : String
  outputSchema : List String
  rows : Option ℕ
  minimumDate : Option String
  maximumDate : Option String
  observedModifiedUnixNanos : ℕ
  artifactReceiptSha256 : Option String
  conservationTotals : List (String × ℤ)
  minimumWiki : String
  maximumWiki : String
  deriving DecidableEq

/-- `DeterministicArtifact`: everything but when the file was observed. -/
def ArtifactIdentity.deterministic (a : ArtifactIdentity) : ArtifactIdentity :=
  { a with observedModifiedUnixNanos := 0 }

structure StageSpec where
  stage : String
  scope : String
  selectedSnapshot : Option String
  algorithmVersion : String
  deriving DecidableEq

structure StageReceipt where
  schemaVersion : ℕ
  spec : StageSpec
  computationVersion : String
  binaryCommit : Option String
  inputs : List ArtifactIdentity
  outputs : List ArtifactIdentity
  fingerprint : String
  deriving DecidableEq

/-- `FingerprintSeed`. -/
structure FingerprintSeed where
  schemaVersion : ℕ
  spec : StageSpec
  computationVersion : String
  inputs : List ArtifactIdentity
  outputs : List ArtifactIdentity

def StageReceipt.seed (receipt : StageReceipt) : FingerprintSeed where
  schemaVersion := receipt.schemaVersion
  spec := receipt.spec
  computationVersion := receipt.computationVersion
  inputs := receipt.inputs.map ArtifactIdentity.deterministic
  outputs := receipt.outputs.map ArtifactIdentity.deterministic

structure StageLibrary extends Library where
  readStage : List UInt8 → Option StageReceipt
  writeStage : StageReceipt → List UInt8
  /-- The hash of the inputs as JSON. -/
  inputsSha256 : List ArtifactIdentity → String
  seedSha256 : FingerprintSeed → String
  /-- `CARGO_PKG_VERSION`. -/
  packageVersion : String
  /-- `WIKI_ECON_BUILD_COMMIT`. -/
  buildCommit : Option String

/-- SHA-256 is free of collisions. -/
structure StageLibrary.CollisionFree (lib : StageLibrary) : Prop where
  sha256 : ∀ bytes bytes', lib.sha256 bytes = lib.sha256 bytes' → bytes = bytes'
  receiptSha256 : ∀ receipt receipt', lib.receiptSha256 receipt = lib.receiptSha256 receipt' →
    receipt.artifactSha256 = receipt'.artifactSha256

/-! ## Inventories -/

def sortTracked (paths : List TrackedPath) : List TrackedPath :=
  paths.insertionSort fun a b => a.identity ≤ b.identity

/-- A directory and what the identities of its files begin with. -/
structure Collected where
  root : Path
  label : String

def Collected.holds (dir : Collected) (path : Path) : Bool :=
  dir.root.isPrefixOf path && path != dir.root

def Collected.tracked (dir : Collected) (path : Path) : TrackedPath where
  identity := dir.label ++ "/" ++ "/".intercalate (path.drop dir.root.length)
  path := path

def collectTrackedFiles (fs : FileSystem) (dir : Collected) : List TrackedPath :=
  sortTracked ((fs.paths.filter dir.holds).map dir.tracked)

def inventory (fs : FileSystem) (dirs : List Collected) : List TrackedPath :=
  (dirs.map (collectTrackedFiles fs)).flatten

section Stage

variable (lib : StageLibrary)

/-! ## Inspection -/

/-- The identity of a file with a receipt. -/
def receiptedIdentity (identity : String) (file : File) (document : ArtifactReceiptDocument) :
    ArtifactIdentity where
  identity := identity
  bytes := document.receipt.bytes
  sha256 := document.receipt.artifactSha256
  outputSchema := document.receipt.summary.parquetSchema.map fun field =>
    field.name ++ ":" ++ field.dataType
  rows := some document.receipt.summary.rows
  minimumDate := document.receipt.summary.minimumDate
  maximumDate := document.receipt.summary.maximumDate
  observedModifiedUnixNanos := file.modified
  artifactReceiptSha256 := some document.receiptSha256
  conservationTotals := document.receipt.summary.conservationTotals
  minimumWiki := document.receipt.summary.minimumWiki
  maximumWiki := document.receipt.summary.maximumWiki

/-- What the reader says of a Parquet file, and nothing of others. -/
def plainSummary (p : TrackedPath) (file : File) :
    Except String (List String × Option ℕ × Option String × Option String) :=
  if isParquet p.path then do
    let summary ← lib.parquetSummary file.bytes p.identity
    return (summary.1, some summary.2.1, summary.2.2.1, summary.2.2.2)
  else .ok ([], none, none, none)

def inspect (fs : FileSystem) (p : TrackedPath) : Except String ArtifactIdentity := do
  let file ← context (fs.get p.path) "failed to inspect stage artifact"
  if isParquet p.path ∧ (fs.get (sidecarPath p.path)).isSome then do
    let found ← readReceipt lib.toLibrary fs p.path
    let document ← verify lib.toLibrary fs p.path found.receipt.identity
      (some found.receiptSha256) .fast
    return receiptedIdentity p.identity file document
  else do
    let summary ← plainSummary lib p file
    return {
      identity := p.identity
      bytes := file.bytes.length
      sha256 := lib.sha256 file.bytes
      outputSchema := summary.1
      rows := summary.2.1
      minimumDate := summary.2.2.1
      maximumDate := summary.2.2.2
      observedModifiedUnixNanos := file.modified
      artifactReceiptSha256 := none
      conservationTotals := []
      minimumWiki := ""
      maximumWiki := "" }

/-- The sidecar of this algorithm and these inputs, if need be a new one. -/
def existingOrScanned (fs : FileSystem) (p : TrackedPath)
    (algorithmVersion inputFingerprint : String) :
    Except String (FileSystem × ArtifactReceiptDocument) :=
  if (fs.get (sidecarPath p.path)).isSome then do
    let found ← readReceipt lib.toLibrary fs p.path
    let existing ← verify lib.toLibrary fs p.path found.receipt.identity none .fast
    if existing.receipt.algorithmVersion = algorithmVersion ∧
        existing.receipt.inputFingerprint = inputFingerprint
    then return (fs, existing)
    else scanAndWrite lib.toLibrary fs p.path p.identity algorithmVersion inputFingerprint
  else scanAndWrite lib.toLibrary fs p.path p.identity algorithmVersion inputFingerprint

def receiptedDocument (fs : FileSystem) (p : TrackedPath)
    (algorithmVersion inputFingerprint : String) :
    Except String (FileSystem × ArtifactReceiptDocument) := do
  let drafted ← finalizeSemanticDraft lib.toLibrary fs p.path p.identity algorithmVersion
    inputFingerprint
  match drafted.2 with
  | some document => return (drafted.1, document)
  | none => existingOrScanned lib drafted.1 p algorithmVersion inputFingerprint

def inspectReceiptedOutput (algorithmVersion inputFingerprint : String) (fs : FileSystem)
    (p : TrackedPath) : Except String (FileSystem × ArtifactIdentity) :=
  if isParquet p.path then do
    let receipted ← receiptedDocument lib fs p algorithmVersion inputFingerprint
    let file ← context (receipted.1.get p.path) "failed to inspect stage artifact"
    return (receipted.1, receiptedIdentity p.identity file receipted.2)
  else do
    let a ← inspect lib fs p
    return (fs, a)

def inspectAll (fs : FileSystem) (paths : List TrackedPath) :
    Except String (List ArtifactIdentity) :=
  (sortTracked paths).mapM (inspect lib fs)

/-- The loop of `inspect_receipted_outputs`, over sorted paths. -/
def inspectReceiptedOutputs (algorithmVersion inputFingerprint : String) :
    FileSystem → List TrackedPath → Except String (FileSystem × List ArtifactIdentity)
  | fs, [] => .ok (fs, [])
  | fs, p :: rest => do
    let inspected ← inspectReceiptedOutput lib algorithmVersion inputFingerprint fs p
    let others ← inspectReceiptedOutputs algorithmVersion inputFingerprint inspected.1 rest
    return (others.1, inspected.2 :: others.2)

/-! ## Reuse -/

/-- Whether the receipt of a record, if it has one, is there and verified; nothing if it is not. -/
def receiptVerified (fs : FileSystem) (record : ArtifactIdentity) (path : Path) : Option Bool :=
  match record.artifactReceiptSha256 with
  | none => some false
  | some receiptSha256 =>
    match readReceipt lib.toLibrary fs path with
    | .error _ => none
    | .ok document =>
      match verify lib.toLibrary fs path document.receipt.identity (some receiptSha256) .fast with
      | .error _ => none
      | .ok _ => some true

def artifactMatches (fs : FileSystem) (record : ArtifactIdentity) (p : TrackedPath) : Bool :=
  match fs.get p.path with
  | none => false
  | some file =>
    record.identity = p.identity &&
      match receiptVerified lib fs record p.path with
      | none => false
      | some verified =>
        file.bytes.length = record.bytes &&
          (file.modified = record.observedModifiedUnixNanos || verified
            || lib.sha256 file.bytes = record.sha256)

def pathsMatch (fs : FileSystem) (records : List ArtifactIdentity) (paths : List TrackedPath) :
    Bool :=
  records.length = paths.length &&
    (records.zip (sortTracked paths)).all fun pair => artifactMatches lib fs pair.1 pair.2

def receiptMatchesSpec (receipt : StageReceipt) (spec : StageSpec) : Bool :=
  receipt.schemaVersion = stageReceiptSchemaVersion && receipt.spec = spec
    && receipt.computationVersion = lib.packageVersion
    && lib.seedSha256 receipt.seed = receipt.fingerprint

/-- The receipt at a path, if there is one. -/
def storedReceipt (fs : FileSystem) (receiptPath : Path) : Option StageReceipt :=
  (fs.get receiptPath).bind fun file => lib.readStage file.bytes

def reusable (fs : FileSystem) (receiptPath : Path) (spec : StageSpec)
    (inputs outputs : List TrackedPath) : Bool :=
  match storedReceipt lib fs receiptPath with
  | none => false
  | some receipt => receiptMatchesSpec lib receipt spec && pathsMatch lib fs receipt.inputs inputs
      && pathsMatch lib fs receipt.outputs outputs

/-! ## Recording -/

def persistReceipt (fs : FileSystem) (receiptPath : Path) (spec : StageSpec)
    (inputs outputs : List ArtifactIdentity) : FileSystem × StageReceipt :=
  let unsealed : StageReceipt :=
    ⟨stageReceiptSchemaVersion, spec, lib.packageVersion, lib.buildCommit, inputs, outputs, ""⟩
  let receipt := { unsealed with fingerprint := lib.seedSha256 unsealed.seed }
  (fs.write receiptPath (lib.writeStage receipt), receipt)

/-- The fingerprint of some inputs, which their outputs are receipted under. -/
def inputFingerprint (inputs : List ArtifactIdentity) : String :=
  lib.inputsSha256 (inputs.map ArtifactIdentity.deterministic)

def record (fs : FileSystem) (receiptPath : Path) (spec : StageSpec)
    (inputs outputs : List TrackedPath) :
    Except String (FileSystem × StageReceipt) := do
  ensure (outputs ≠ []) ("stage " ++ spec.stage ++ " produced no outputs")
  let inspectedInputs ← inspectAll lib fs inputs
  let inspectedOutputs ← inspectReceiptedOutputs lib spec.algorithmVersion
    (inputFingerprint lib inspectedInputs) fs (sortTracked outputs)
  return persistReceipt lib inspectedOutputs.1 receiptPath spec inspectedInputs inspectedOutputs.2

def recordPlainOutputs (fs : FileSystem) (receiptPath : Path) (spec : StageSpec)
    (inputs outputs : List TrackedPath) : Except String (FileSystem × StageReceipt) := do
  ensure (outputs ≠ []) ("stage " ++ spec.stage ++ " produced no outputs")
  let inspectedInputs ← inspectAll lib fs inputs
  let inspectedOutputs ← inspectAll lib fs outputs
  return persistReceipt lib fs receiptPath spec inspectedInputs inspectedOutputs

/-- The identity the source receipt has of an output, if the output still is what it says. -/
def verifiedOutput (fs : FileSystem) (source : StageReceipt) (output : TrackedPath) :
    Except String ArtifactIdentity := do
  let identity ← context (source.outputs.find? fun a => a.identity = output.identity)
    ("verified source receipt does not contain " ++ output.identity)
  ensure (artifactMatches lib fs identity output = true)
    ("verified source output " ++ output.identity ++ " changed during receipt split")
  return identity

def recordFromVerifiedReceipt (fs : FileSystem) (receiptPath : Path) (spec : StageSpec)
    (inputs outputs : List TrackedPath) (source : StageReceipt) :
    Except String (FileSystem × StageReceipt) := do
  ensure (outputs ≠ []) ("stage " ++ spec.stage ++ " produced no outputs")
  let inspectedInputs ← inspectAll lib fs inputs
  let inspectedOutputs ← outputs.mapM (verifiedOutput lib fs source)
  return persistReceipt lib fs receiptPath spec inspectedInputs
    (inspectedOutputs.insertionSort fun a b => a.identity ≤ b.identity)

/-- The three ways to a receipt. -/
inductive Recorder
  | receipted
  | plain
  | verified (source : StageReceipt)

def recordWith (recorder : Recorder) (fs : FileSystem) (receiptPath : Path) (spec : StageSpec)
    (inputs outputs : List TrackedPath) : Except String (FileSystem × StageReceipt) :=
  match recorder with
  | .receipted => record lib fs receiptPath spec inputs outputs
  | .plain => recordPlainOutputs lib fs receiptPath spec inputs outputs
  | .verified source => recordFromVerifiedReceipt lib fs receiptPath spec inputs outputs source

/-! ## What a record may rely on -/

/-- A file of this size, modified at this time, has one content. -/
def Consistent (known : Path → ℕ → ℕ → List UInt8) (fs : FileSystem) : Prop :=
  ∀ path file, fs.get path = some file → file.bytes = known path file.bytes.length file.modified

/-- What a sidecar says of the file as it was observed is so. -/
def Truthful (known : Path → ℕ → ℕ → List UInt8) : Prop :=
  ∀ artifact size modified document,
    lib.readDocument (known (sidecarPath artifact) size modified) = some document →
    lib.sha256 (known artifact document.receipt.bytes document.observedModifiedUnixNanos)
      = document.receipt.artifactSha256

/-- What a record says of a file is so. -/
structure TrueRecord (known : Path → ℕ → ℕ → List UInt8) (path : Path) (a : ArtifactIdentity) :
    Prop where
  plain : a.artifactReceiptSha256 = none →
    lib.sha256 (known path a.bytes a.observedModifiedUnixNanos) = a.sha256
  receipted : ∀ hash, a.artifactReceiptSha256 = some hash →
    ∃ receipt, lib.receiptSha256 receipt = hash ∧ receipt.artifactSha256 = a.sha256

/-- A record of a file as it is in some state. -/
structure Records (known : Path → ℕ → ℕ → List UInt8) (fs : FileSystem) (p : TrackedPath)
    (a : ArtifactIdentity) : Prop where
  identity : a.identity = p.identity
  content : ∃ file, fs.get p.path = some file ∧ lib.sha256 file.bytes = a.sha256
  isTrue : TrueRecord lib known p.path a

/-! ## Records are true -/

variable {lib} {known : Path → ℕ → ℕ → List UInt8} {fs : FileSystem} {p : TrackedPath}
  {a : ArtifactIdentity}

/-- A receipt that was verified, quickly or not, is that of the file. -/
theorem sha256_of_verified {artifact : Path} {document : ArtifactReceiptDocument} {file : File}
    (hconsistent : Consistent known fs) (htruthful : Truthful lib known)
    (hread : readReceipt lib.toLibrary fs artifact = .ok document)
    (hfile : fs.get artifact = some file)
    (hlength : file.bytes.length = document.receipt.bytes)
    (hmatch : file.modified = document.observedModifiedUnixNanos ∨
      lib.sha256 file.bytes = document.receipt.artifactSha256) :
    lib.sha256 file.bytes = document.receipt.artifactSha256 := by
  rcases hmatch with hmodified | hhash
  · -- the sidecar saw the file with this size and time
    obtain ⟨sidecar, hsidecar, hdocument, -⟩ := readReceipt_hash hread
    rw [hconsistent _ _ hsidecar] at hdocument
    rw [hconsistent _ _ hfile, hlength, hmodified]
    exact htruthful _ _ _ _ hdocument
  · exact hhash

theorem records_of_receipt {document : ArtifactReceiptDocument} {file : File}
    (hfile : fs.get p.path = some file)
    (hsha : lib.sha256 file.bytes = document.receipt.artifactSha256)
    (hhash : lib.receiptSha256 document.receipt = document.receiptSha256) :
    Records lib known fs p (receiptedIdentity p.identity file document) := by
  refine ⟨rfl, ⟨file, hfile, hsha⟩, ⟨fun hnone => (by cases hnone), fun hash hsome => ?_⟩⟩
  cases hsome
  exact ⟨document.receipt, hhash, rfl⟩

theorem inspect_records (hconsistent : Consistent known fs) (htruthful : Truthful lib known)
    (h : inspect lib fs p = .ok a) : Records lib known fs p a := by
  obtain ⟨file, hfile, h⟩ := bind_eq_ok.mp h
  have hfile := context_eq_ok.mp hfile
  split at h
  · obtain ⟨found, hfound, h⟩ := bind_eq_ok.mp h
    obtain ⟨document, hverify, h⟩ := bind_eq_ok.mp h
    cases h
    obtain ⟨hread, -, -, file', hfile', hlength, hmatch⟩ := verify_spec hverify
    obtain rfl := Option.some.inj (hfile.symm.trans hfile')
    obtain ⟨-, -, -, hhash⟩ := readReceipt_hash hread
    exact records_of_receipt hfile
      (sha256_of_verified hconsistent htruthful hread hfile hlength hmatch) hhash
  · obtain ⟨summary, -, h⟩ := bind_eq_ok.mp h
    cases h
    refine ⟨rfl, ⟨file, hfile, rfl⟩, ⟨fun _ => ?_, fun hash hsome => (by cases hsome)⟩⟩
    exact congrArg lib.sha256 (hconsistent _ _ hfile).symm

/-- A receipt that is written is that of the file. -/
theorem writeReceipt_spec {artifact : Path} {file : File} {summary : SemanticSummary}
    {identity algorithmVersion inputFingerprint : String}
    {written : FileSystem × ArtifactReceiptDocument} (hfile : fs.get artifact = some file)
    (h : writeReceipt lib.toLibrary fs artifact
      (receiptOf lib.toLibrary file summary identity algorithmVersion inputFingerprint) =
      .ok written) :
    written.1.get artifact = some file ∧
      lib.sha256 file.bytes = written.2.receipt.artifactSha256 ∧
      lib.receiptSha256 written.2.receipt = written.2.receiptSha256 := by
  obtain ⟨_, -, h⟩ := bind_eq_ok.mp h
  obtain ⟨file', hfile', h⟩ := bind_eq_ok.mp h
  obtain ⟨_, -, h⟩ := bind_eq_ok.mp h
  cases h
  refine ⟨?_, rfl, rfl⟩
  show (fs.write _ _).get artifact = _
  rw [FileSystem.get_write_ne _ (sidecarPath_ne artifact).symm, hfile]

theorem scanAndWrite_spec {artifact : Path} {identity algorithmVersion inputFingerprint : String}
    {written : FileSystem × ArtifactReceiptDocument}
    (h : scanAndWrite lib.toLibrary fs artifact identity algorithmVersion inputFingerprint =
      .ok written) :
    ∃ file, written.1.get artifact = some file ∧
      lib.sha256 file.bytes = written.2.receipt.artifactSha256 ∧
      lib.receiptSha256 written.2.receipt = written.2.receiptSha256 := by
  obtain ⟨file, hfile, h⟩ := bind_eq_ok.mp h
  obtain ⟨summary, -, h⟩ := bind_eq_ok.mp h
  exact ⟨file, writeReceipt_spec (context_eq_ok.mp hfile) h⟩

/-- Whatever the receipt of an output comes from, it is that of the file. -/
theorem receiptedDocument_spec (htruthful : Truthful lib known)
    {algorithmVersion inputFingerprint : String} {receipted : FileSystem × ArtifactReceiptDocument}
    (hconsistent : Consistent known receipted.1)
    (h : receiptedDocument lib fs p algorithmVersion inputFingerprint = .ok receipted) :
    ∃ file, receipted.1.get p.path = some file ∧
      lib.sha256 file.bytes = receipted.2.receipt.artifactSha256 ∧
      lib.receiptSha256 receipted.2.receipt = receipted.2.receiptSha256 := by
  obtain ⟨drafted, hdrafted, h⟩ := bind_eq_ok.mp h
  cases hdocument : drafted.2 with
  | some document =>
    simp only [hdocument] at h
    cases h
    unfold finalizeSemanticDraft at hdrafted
    split at hdrafted
    · cases hdrafted
      cases hdocument
    · obtain ⟨file, hfile, hdrafted⟩ := bind_eq_ok.mp hdrafted
      split at hdrafted
      · cases hdrafted
        cases hdocument
      · obtain ⟨written, hwritten, hdrafted⟩ := bind_eq_ok.mp hdrafted
        cases hdrafted
        cases hdocument
        obtain ⟨hkept, hsha, hhash⟩ := writeReceipt_spec (context_eq_ok.mp hfile) hwritten
        refine ⟨file, ?_, hsha, hhash⟩
        show (written.1.remove _).get p.path = _
        rw [FileSystem.get_remove_ne (draftPath_ne p.path).symm, hkept]
  | none =>
    simp only [hdocument] at h
    unfold existingOrScanned at h
    split at h
    · obtain ⟨found, -, h⟩ := bind_eq_ok.mp h
      obtain ⟨existing, hverify, h⟩ := bind_eq_ok.mp h
      split at h
      · cases h
        obtain ⟨hread, -, -, file, hfile, hlength, hmatch⟩ := verify_spec hverify
        obtain ⟨-, -, -, hhash⟩ := readReceipt_hash hread
        exact ⟨file, hfile,
          sha256_of_verified hconsistent htruthful hread hfile hlength hmatch, hhash⟩
      · exact scanAndWrite_spec h
    · exact scanAndWrite_spec h

theorem inspectReceiptedOutput_records (htruthful : Truthful lib known)
    {algorithmVersion inputFingerprint : String} {inspected : FileSystem × ArtifactIdentity}
    (hconsistent : Consistent known inspected.1)
    (h : inspectReceiptedOutput lib algorithmVersion inputFingerprint fs p = .ok inspected) :
    Records lib known inspected.1 p inspected.2 := by
  unfold inspectReceiptedOutput at h
  split at h
  · obtain ⟨receipted, hreceipted, h⟩ := bind_eq_ok.mp h
    obtain ⟨file, hfile, h⟩ := bind_eq_ok.mp h
    cases h
    obtain ⟨file', hfile', hsha, hhash⟩ := receiptedDocument_spec htruthful hconsistent hreceipted
    obtain rfl := Option.some.inj ((context_eq_ok.mp hfile).symm.trans hfile')
    exact records_of_receipt hfile' hsha hhash
  · obtain ⟨a, ha, h⟩ := bind_eq_ok.mp h
    cases h
    exact inspect_records hconsistent htruthful ha

/-! ## What matches is the same -/

theorem artifactMatches_identity (h : artifactMatches lib fs a p = true) :
    a.identity = p.identity := by
  unfold artifactMatches at h
  cases hfile : fs.get p.path with
  | none => simp only [hfile, Bool.false_eq_true] at h
  | some file =>
    simp only [hfile, Bool.and_eq_true, decide_eq_true_eq] at h
    exact h.1

/-- A record that matches is that of the file. -/
theorem artifactMatches_content (hlib : lib.CollisionFree) (hconsistent : Consistent known fs)
    (htruthful : Truthful lib known)
    (htrue : TrueRecord lib known p.path a) (h : artifactMatches lib fs a p = true) :
    a.identity = p.identity ∧ ∃ file, fs.get p.path = some file ∧
      lib.sha256 file.bytes = a.sha256 := by
  unfold artifactMatches at h
  cases hfile : fs.get p.path with
  | none => simp only [hfile, Bool.false_eq_true] at h
  | some file =>
    simp only [hfile, Bool.and_eq_true, decide_eq_true_eq] at h
    obtain ⟨hidentity, h⟩ := h
    refine ⟨hidentity, file, rfl, ?_⟩
    cases hverified : receiptVerified lib fs a p.path with
    | none => simp only [hverified, Bool.false_eq_true] at h
    | some verified =>
      simp only [hverified, Bool.and_eq_true, Bool.or_eq_true, decide_eq_true_eq] at h
      obtain ⟨hlength, hcontent⟩ := h
      unfold receiptVerified at hverified
      cases hhash : a.artifactReceiptSha256 with
      | none =>
        simp only [hhash, Option.some.injEq] at hverified
        subst hverified
        rcases hcontent with (hmodified | hfalse) | hsha
        · -- size and time are those of the record
          rw [hconsistent _ _ hfile, hlength, hmodified]
          exact htrue.plain hhash
        · cases hfalse
        · exact hsha
      | some receiptSha256 =>
        simp only [hhash] at hverified
        -- The sidecar of now and the one recorded have one hash, so they are one receipt.
        obtain ⟨receipt, hsame, hsha⟩ := htrue.receipted _ hhash
        cases hread : readReceipt lib.toLibrary fs p.path with
        | error message => simp only [hread, reduceCtorEq] at hverified
        | ok document =>
          simp only [hread] at hverified
          cases hverify : verify lib.toLibrary fs p.path document.receipt.identity
              (some receiptSha256) .fast with
          | error message => simp only [hverify, reduceCtorEq] at hverified
          | ok document' =>
            obtain ⟨hread', -, hexpected, file', hfile', hlength', hmatch⟩ := verify_spec hverify
            obtain rfl := Option.some.inj (hfile.symm.trans hfile')
            obtain ⟨-, -, -, hhash'⟩ := readReceipt_hash hread'
            rw [sha256_of_verified hconsistent htruthful hread' hfile hlength' hmatch, ← hsha]
            refine hlib.receiptSha256 _ _ ?_
            rw [hhash', hsame]
            exact hexpected _ rfl

end Stage

end WikiEcon.Stages
