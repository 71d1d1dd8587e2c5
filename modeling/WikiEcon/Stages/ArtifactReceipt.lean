import Mathlib.Data.List.Basic
import Mathlib.Data.Nat.Notation
import WikiEcon.Rust

/-!
# Artifact receipts

`artifact_receipt.rs`: the sidecar of a Parquet file says what is in it, and a sidecar that was
written when the file had its present size and time of modification is believed.

What serde, SHA-256 and the Parquet reader do is a parameter. A write takes its time from a
clock that never repeats itself.
-/

namespace WikiEcon.Stages

/-- The components of a path. -/
abbrev Path := List String

structure File where
  bytes : List UInt8
  modified : ℕ
  deriving DecidableEq

structure FileSystem where
  files : List (Path × File)
  clock : ℕ
  deriving DecidableEq

def FileSystem.get (fs : FileSystem) (path : Path) : Option File := fs.files.lookup path

def FileSystem.paths (fs : FileSystem) : List Path := fs.files.map Prod.fst

/-- A file in its old place, or in a new one. -/
def replaceFile (path : Path) (file : File) : List (Path × File) → List (Path × File)
  | [] => [(path, file)]
  | entry :: rest =>
    if entry.1 = path then (path, file) :: rest else entry :: replaceFile path file rest

def FileSystem.write (fs : FileSystem) (path : Path) (bytes : List UInt8) : FileSystem where
  files := replaceFile path ⟨bytes, fs.clock⟩ fs.files
  clock := fs.clock + 1

def FileSystem.remove (fs : FileSystem) (path : Path) : FileSystem where
  files := fs.files.filter fun entry => entry.1 ≠ path
  clock := fs.clock

def artifactReceiptSchemaVersion : ℕ := 1
def receiptDocumentSchemaVersion : ℕ := 1

structure FieldIdentity where
  name : String
  dataType : String
  deriving DecidableEq

structure SemanticSummary where
  parquetSchema : List FieldIdentity
  rows : ℕ
  minimumDate : Option String
  maximumDate : Option String
  conservationTotals : List (String × ℤ)
  minimumWiki : String
  maximumWiki : String
  orderingContract : String
  deriving DecidableEq

structure ArtifactReceipt where
  schemaVersion : ℕ
  identity : String
  artifactSha256 : String
  bytes : ℕ
  summary : SemanticSummary
  algorithmVersion : String
  inputFingerprint : String
  deriving DecidableEq

structure ArtifactReceiptDocument where
  schemaVersion : ℕ
  receiptSha256 : String
  observedModifiedUnixNanos : ℕ
  receipt : ArtifactReceipt
  deriving DecidableEq

structure SemanticDraft where
  schemaVersion : ℕ
  artifactBytes : ℕ
  observedModifiedUnixNanos : ℕ
  summary : SemanticSummary
  deriving DecidableEq

inductive VerificationMode
  | fast
  | scrub
  deriving DecidableEq

/-- What other crates do with the bytes of a file. -/
structure Library where
  sha256 : List UInt8 → String
  /-- `canonical_receipt_sha256`, the hash of the receipt as JSON. -/
  receiptSha256 : ArtifactReceipt → String
  readDocument : List UInt8 → Option ArtifactReceiptDocument
  writeDocument : ArtifactReceiptDocument → List UInt8
  readDraft : List UInt8 → Option SemanticDraft
  /-- A Parquet file, under an identity and an algorithm version. -/
  scan : List UInt8 → String → String → Except String SemanticSummary
  /-- `parquet_summary`. -/
  parquetSummary : List UInt8 → String →
    Except String (List String × ℕ × Option String × Option String)

/-! ## Paths -/

def withFileName (path : Path) (name : String → String) : Path :=
  path.dropLast ++ [name (path.getLast?.getD "")]

/-- Of a path with a file name, as all are. -/
def sidecarPath (artifact : Path) : Path :=
  withFileName artifact fun name => name ++ ".receipt.json"

def draftPath (artifact : Path) : Path :=
  withFileName artifact fun name => "." ++ name ++ ".semantic-draft.json"

/-- `extension() == "parquet"`. -/
def isParquet (path : Path) : Bool :=
  path.getLast?.any fun name => ".parquet".toList.isSuffixOf name.toList && name != ".parquet"

/-- The components of the identity, of which `//` and an inner `.` leave no trace. -/
def validateIdentity (identity : String) : Except String Unit :=
  let parts := identity.toList.splitOn '/'
  ensure (identity ≠ "" ∧ parts.head? ≠ some [] ∧ parts.head? ≠ some ['.'] ∧ ['.', '.'] ∉ parts)
    ("unsafe artifact receipt identity " ++ identity.quote)

theorem withFileName_ne {path : Path} {name : String → String}
    (hname : ∀ old, old.length < (name old).length) : withFileName path name ≠ path := by
  unfold withFileName
  rcases List.eq_nil_or_concat' path with rfl | ⟨init, last, rfl⟩
  · exact List.cons_ne_nil _ _
  · intro h
    rw [List.dropLast_concat, List.getLast?_concat, Option.getD_some] at h
    have hsame : name last = last := (List.cons.inj (List.append_cancel_left h)).1
    have hlength := hname last
    rw [hsame] at hlength
    exact lt_irrefl _ hlength

theorem sidecarPath_ne (path : Path) : sidecarPath path ≠ path :=
  withFileName_ne fun old => by
    rw [String.length_append]
    exact Nat.lt_add_of_pos_right (by decide)

theorem sidecarPath_eq {path : Path} (hpath : path ≠ []) :
    sidecarPath path = path.dropLast ++ [path.getLast hpath ++ ".receipt.json"] := by
  unfold sidecarPath withFileName
  rw [List.getLast?_eq_getLast_of_ne_nil hpath, Option.getD_some]

theorem sidecarPath_injective {path path' : Path} (hpath : path ≠ []) (hpath' : path' ≠ [])
    (h : sidecarPath path = sidecarPath path') : path = path' := by
  rw [sidecarPath_eq hpath, sidecarPath_eq hpath'] at h
  obtain ⟨hinit, hlast⟩ := List.append_inj' h rfl
  have hname := congrArg String.toList (List.cons.inj hlast).1
  rw [String.toList_append, String.toList_append] at hname
  have hlast := String.toList_inj.mp (List.append_cancel_right hname)
  rw [← List.dropLast_append_getLast hpath, ← List.dropLast_append_getLast hpath', hinit, hlast]

theorem draftPath_ne (path : Path) : draftPath path ≠ path :=
  withFileName_ne fun old => by
    rw [String.length_append, String.length_append]
    have hmark : 0 < ".semantic-draft.json".length := by decide
    omega

/-! ## The file system -/

namespace FileSystem

variable {fs : FileSystem} {path other : Path}

theorem lookup_filter_ne (files : List (Path × File)) (h : other ≠ path) :
    (files.filter fun entry => entry.1 ≠ path).lookup other = files.lookup other := by
  induction files with
  | nil => rfl
  | cons entry rest ih =>
    by_cases heq : entry.1 = path
    · have hbeq : (other == entry.1) = false := beq_eq_false_iff_ne.mpr (heq ▸ h)
      rw [List.filter_cons_of_neg (by simpa using heq), ih, List.lookup_cons, hbeq]
    · rw [List.filter_cons_of_pos (by simpa using heq), List.lookup_cons, List.lookup_cons, ih]

theorem lookup_cons_eq_ite (entry : Path × File) (rest : List (Path × File)) :
    (entry :: rest).lookup other = if other = entry.1 then some entry.2 else rest.lookup other := by
  obtain ⟨key, file⟩ := entry
  rw [List.lookup_cons]
  by_cases h : other = key
  · rw [if_pos h, h, beq_self_eq_true]
  · have hbeq : (other == key) = false := beq_eq_false_iff_ne.mpr h
    rw [if_neg h, hbeq]

theorem lookup_replaceFile (file : File) (files : List (Path × File)) :
    (replaceFile path file files).lookup other = if other = path then some file
    else files.lookup other := by
  induction files with
  | nil => exact lookup_cons_eq_ite (path, file) []
  | cons entry rest ih =>
    unfold replaceFile
    by_cases heq : entry.1 = path
    · rw [if_pos heq, lookup_cons_eq_ite, lookup_cons_eq_ite entry, heq]
      by_cases h : other = path
      · rw [if_pos h, if_pos h]
      · rw [if_neg h, if_neg h, if_neg h]
    · rw [if_neg heq, lookup_cons_eq_ite, lookup_cons_eq_ite, ih]
      by_cases h : other = entry.1
      · have hne : other ≠ path := fun hpath => heq (h.symm.trans hpath)
        rw [if_pos h, if_neg hne, if_pos h]
      · rw [if_neg h, if_neg h]

theorem paths_replaceFile (file : File) (files : List (Path × File)) :
    (replaceFile path file files).map Prod.fst = files.map Prod.fst ∨
      (replaceFile path file files).map Prod.fst = files.map Prod.fst ++ [path] ∧
        files.lookup path = none := by
  induction files with
  | nil => exact Or.inr ⟨rfl, rfl⟩
  | cons entry rest ih =>
    unfold replaceFile
    by_cases heq : entry.1 = path
    · exact Or.inl (by rw [if_pos heq, List.map_cons, List.map_cons, heq])
    · have hbeq : (path == entry.1) = false := beq_eq_false_iff_ne.mpr (Ne.symm heq)
      rw [if_neg heq, List.map_cons, List.map_cons, List.lookup_cons, hbeq, List.cons_append]
      rcases ih with hsame | ⟨hnew, hnone⟩
      · exact Or.inl (by rw [hsame])
      · exact Or.inr ⟨by rw [hnew], hnone⟩

theorem get_remove_ne (h : other ≠ path) : (fs.remove path).get other = fs.get other :=
  lookup_filter_ne fs.files h

theorem get_write (bytes : List UInt8) :
    (fs.write path bytes).get other = if other = path then some ⟨bytes, fs.clock⟩
    else fs.get other :=
  lookup_replaceFile ⟨bytes, fs.clock⟩ fs.files

theorem get_write_ne (bytes : List UInt8) (h : other ≠ path) :
    (fs.write path bytes).get other = fs.get other := by
  rw [get_write, if_neg h]

theorem get_isSome_iff : (fs.get path).isSome ↔ path ∈ fs.paths := by
  unfold get paths
  rw [Option.isSome_iff_ne_none, ne_eq, List.lookup_eq_none_iff, List.mem_map]
  constructor
  · intro h
    by_contra hnone
    refine h fun entry hentry => bne_iff_ne.mpr fun heq => hnone ⟨entry, hentry, heq.symm⟩
  · rintro ⟨entry, hentry, rfl⟩ h
    exact bne_iff_ne.mp (h entry hentry) rfl

/-- The paths stay as they are, but for a new one at the end. -/
theorem paths_write (bytes : List UInt8) :
    (fs.write path bytes).paths = fs.paths ∨
      (fs.write path bytes).paths = fs.paths ++ [path] ∧ fs.get path = none :=
  paths_replaceFile ⟨bytes, fs.clock⟩ fs.files

theorem get_write_self (bytes : List UInt8) :
    (fs.write path bytes).get path = some ⟨bytes, fs.clock⟩ := by
  rw [get_write, if_pos rfl]

end FileSystem

section Receipts

variable (lib : Library)

/-! ## Reading -/

/-- `read`. -/
def readReceipt (fs : FileSystem) (artifact : Path) : Except String ArtifactReceiptDocument := do
  let sidecar ← context (fs.get (sidecarPath artifact)) "failed to read"
  let document ← context (lib.readDocument sidecar.bytes) "failed to parse"
  ensure (document.schemaVersion = receiptDocumentSchemaVersion)
    "unsupported artifact receipt document schema"
  ensure (document.receipt.schemaVersion = artifactReceiptSchemaVersion)
    "unsupported artifact receipt schema"
  ensure (lib.receiptSha256 document.receipt = document.receiptSha256)
    "artifact receipt canonical hash mismatch"
  validateIdentity document.receipt.identity
  return document

def verify (fs : FileSystem) (artifact : Path) (expectedIdentity : String)
    (expectedReceiptSha256 : Option String) (mode : VerificationMode) :
    Except String ArtifactReceiptDocument := do
  let document ← readReceipt lib fs artifact
  ensure (document.receipt.identity = expectedIdentity) "artifact receipt identity mismatch"
  ensure (expectedReceiptSha256.all fun expected => document.receiptSha256 = expected)
    "artifact receipt reference mismatch"
  let file ← context (fs.get artifact) "artifact receipt target is not a file"
  let metadataUnchanged := file.bytes.length = document.receipt.bytes ∧
    file.modified = document.observedModifiedUnixNanos
  ensure (mode = .fast ∧ metadataUnchanged ∨
      file.bytes.length = document.receipt.bytes ∧
        lib.sha256 file.bytes = document.receipt.artifactSha256)
    "artifact and authoritative receipt do not match"
  return document

/-! ## Writing -/

/-- `write`. -/
def writeReceipt (fs : FileSystem) (artifact : Path) (receipt : ArtifactReceipt) :
    Except String (FileSystem × ArtifactReceiptDocument) := do
  validateIdentity receipt.identity
  let file ← context (fs.get artifact) "receipt artifact is not a file"
  ensure (file.bytes.length = receipt.bytes) "receipt artifact size changed before publication"
  let document : ArtifactReceiptDocument :=
    ⟨receiptDocumentSchemaVersion, lib.receiptSha256 receipt, file.modified, receipt⟩
  return (fs.write (sidecarPath artifact) (lib.writeDocument document), document)

/-- The receipt of a file with this summary. -/
def receiptOf (file : File) (summary : SemanticSummary) (identity algorithmVersion : String)
    (inputFingerprint : String) : ArtifactReceipt where
  schemaVersion := artifactReceiptSchemaVersion
  identity := identity
  artifactSha256 := lib.sha256 file.bytes
  bytes := file.bytes.length
  summary := summary
  algorithmVersion := algorithmVersion
  inputFingerprint := inputFingerprint

/-- A draft of the file as it is. -/
def usableDraft (file : File) (bytes : List UInt8) : Option SemanticDraft :=
  (lib.readDraft bytes).filter fun draft => draft.schemaVersion = 1 ∧
    file.bytes.length = draft.artifactBytes ∧ file.modified = draft.observedModifiedUnixNanos

/-- A draft becomes the receipt; one that is of no use is removed. -/
def finalizeSemanticDraft (fs : FileSystem) (artifact : Path)
    (identity algorithmVersion inputFingerprint : String) :
    Except String (FileSystem × Option ArtifactReceiptDocument) :=
  match fs.get (draftPath artifact) with
  | none => .ok (fs, none)
  | some draftFile => do
    let file ← context (fs.get artifact) "failed to inspect the artifact of a draft"
    match usableDraft lib file draftFile.bytes with
    | none => return (fs.remove (draftPath artifact), none)
    | some draft => do
      let written ← writeReceipt lib fs artifact
        (receiptOf lib file draft.summary identity algorithmVersion inputFingerprint)
      return (written.1.remove (draftPath artifact), some written.2)

/-- `scan_and_write`, where there is no draft. -/
def scanAndWrite (fs : FileSystem) (artifact : Path)
    (identity algorithmVersion inputFingerprint : String) :
    Except String (FileSystem × ArtifactReceiptDocument) := do
  let file ← context (fs.get artifact) "failed to open the artifact"
  let summary ← lib.scan file.bytes identity algorithmVersion
  writeReceipt lib fs artifact
    (receiptOf lib file summary identity algorithmVersion inputFingerprint)

/-! ## What a receipt says -/

variable {lib} {fs : FileSystem} {artifact : Path}

theorem readReceipt_hash {document : ArtifactReceiptDocument}
    (h : readReceipt lib fs artifact = .ok document) :
    ∃ sidecar, fs.get (sidecarPath artifact) = some sidecar ∧
      lib.readDocument sidecar.bytes = some document ∧
      lib.receiptSha256 document.receipt = document.receiptSha256 := by
  obtain ⟨sidecar, hsidecar, h⟩ := bind_eq_ok.mp h
  obtain ⟨read, hread, h⟩ := bind_eq_ok.mp h
  obtain ⟨_, -, h⟩ := bind_eq_ok.mp h
  obtain ⟨_, -, h⟩ := bind_eq_ok.mp h
  obtain ⟨_, hhash, h⟩ := bind_eq_ok.mp h
  obtain ⟨_, -, h⟩ := bind_eq_ok.mp h
  cases h
  exact ⟨sidecar, context_eq_ok.mp hsidecar, context_eq_ok.mp hread, ensure_eq_ok.mp hhash⟩

theorem verify_eq_ok {expectedIdentity : String} {expected : Option String}
    {mode : VerificationMode} {document : ArtifactReceiptDocument} :
    verify lib fs artifact expectedIdentity expected mode = .ok document ↔
      readReceipt lib fs artifact = .ok document ∧ document.receipt.identity = expectedIdentity ∧
        (∀ hash ∈ expected, document.receiptSha256 = hash) ∧
        ∃ file, fs.get artifact = some file ∧
          (mode = .fast ∧ file.bytes.length = document.receipt.bytes ∧
              file.modified = document.observedModifiedUnixNanos ∨
            file.bytes.length = document.receipt.bytes ∧
              lib.sha256 file.bytes = document.receipt.artifactSha256) := by
  have hall : (expected.all fun hash => document.receiptSha256 = hash) = true ↔
      ∀ hash ∈ expected, document.receiptSha256 = hash := by
    cases expected <;> simp
  constructor
  · intro h
    obtain ⟨read, hread, h⟩ := bind_eq_ok.mp h
    obtain ⟨_, hidentity, h⟩ := bind_eq_ok.mp h
    obtain ⟨_, hexpected, h⟩ := bind_eq_ok.mp h
    obtain ⟨file, hfile, h⟩ := bind_eq_ok.mp h
    obtain ⟨_, hmatches, h⟩ := bind_eq_ok.mp h
    cases h
    exact ⟨hread, ensure_eq_ok.mp hidentity, hall.mp (ensure_eq_ok.mp hexpected), file,
      context_eq_ok.mp hfile, ensure_eq_ok.mp hmatches⟩
  · rintro ⟨hread, hidentity, hexpected, file, hfile, hmatches⟩
    refine bind_eq_ok.mpr ⟨document, hread, bind_eq_ok.mpr ⟨(), ensure_eq_ok.mpr hidentity, ?_⟩⟩
    refine bind_eq_ok.mpr ⟨(), ensure_eq_ok.mpr (hall.mpr hexpected), ?_⟩
    refine bind_eq_ok.mpr ⟨file, context_eq_ok.mpr hfile, ?_⟩
    exact bind_eq_ok.mpr ⟨(), ensure_eq_ok.mpr hmatches, rfl⟩

theorem verify_spec {expectedIdentity : String} {expected : Option String} {mode : VerificationMode}
    {document : ArtifactReceiptDocument}
    (h : verify lib fs artifact expectedIdentity expected mode = .ok document) :
    readReceipt lib fs artifact = .ok document ∧ document.receipt.identity = expectedIdentity ∧
      (∀ hash ∈ expected, document.receiptSha256 = hash) ∧
      ∃ file, fs.get artifact = some file ∧ file.bytes.length = document.receipt.bytes ∧
        (file.modified = document.observedModifiedUnixNanos ∨
          lib.sha256 file.bytes = document.receipt.artifactSha256) := by
  obtain ⟨hread, hidentity, hexpected, file, hfile, hmatches⟩ := verify_eq_ok.mp h
  rcases hmatches with ⟨-, hlength, hmodified⟩ | ⟨hlength, hhash⟩
  · exact ⟨hread, hidentity, hexpected, file, hfile, hlength, Or.inl hmodified⟩
  · exact ⟨hread, hidentity, hexpected, file, hfile, hlength, Or.inr hhash⟩

end Receipts

end WikiEcon.Stages
