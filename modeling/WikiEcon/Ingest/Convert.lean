import Mathlib.Data.List.Lex
import Mathlib.Data.List.Sort
import Mathlib.Data.String.Basic
import WikiEcon.Compute.Frames
import WikiEcon.Lib.Fallible
import WikiEcon.Rust

/-!
# Converting a source

A source is read line by line into chunks; each chunk is parsed, normalized, split by
month and written, one Parquet file for each month and layer. The files of a chunk are
known to the conversion once all of them are written. When something fails the files
known so far are removed, and the marker as well.

Where a write can fail is the parameter `fault`; parsing and normalizing are
parameters too, since either can fail on any chunk. What is removed can be removed.
-/

namespace WikiEcon.Ingest

open Compute Fallible

/-- The components of a path. -/
abbrev Path := List String

structure IngestRoots where
  analytical : Path
  warehouse : Path
  metricInput : Option Path

/-- A normalized row: the columns it is filed under, and the others. -/
structure NormalizedRow (ρ : Type) where
  year : Option ℤ
  yearMonth : Option String
  columns : ρ
  deriving DecidableEq

/-- A file on disk. -/
inductive File (ρ : Type)
  /-- One that was there before. -/
  | earlier (n : ℕ)
  /-- A Parquet file that was not finished. -/
  | truncated
  | whole (rows : List (NormalizedRow ρ))
  | manifest (rows : ℕ)
  deriving DecidableEq

/-- Where `write_parquet` fails. -/
inductive WriteFault
  /-- The name, or the directory cannot be created. -/
  | directory
  | create
  /-- Writing, synchronizing, validating or renaming fails. -/
  | inFile
  /-- The file is in place, but its directory cannot be synchronized. -/
  | afterRename
  deriving DecidableEq

/-- A decompressed source: its bytes, and whether decoding fails after them. -/
structure Source where
  bytes : List UInt8
  corrupt : Bool := false

structure LayerOutputs where
  analytical : List Path := []
  warehouse : List Path := []
  metricInput : List Path := []

/-- What a conversion is given. -/
structure Conversion (ρ φ : Type) where
  roots : IngestRoots
  sourceId : String
  chunkLimit : ℕ
  transactionId : Option String
  markerIsValid : Except String Bool
  existingOutputs : List Path
  parseIngestChunk : List UInt8 → Except String φ
  normalizeRevisionChunk : φ → Except String (List (NormalizedRow ρ))
  fault : Path → Option WriteFault
  writeMarkerManifest : ℕ → LayerOutputs → Except String Unit

/-- The disk, with the paths the call has written to, and the variables of the loop. -/
structure Work (ρ : Type) where
  files : Path → Option (File ρ)
  written : List Path := []
  chunkBytes : List UInt8 := []
  chunkIdx : ℕ := 0
  totalRows : ℕ := 0
  outputs : LayerOutputs := {}

variable {ρ φ : Type}

/-! ## Names -/

def partName (sourceId : String) (chunkIdx : ℕ) : String :=
  sourceId ++ ".part-" ++ zeroPad 5 chunkIdx ++ ".parquet"

def temporaryName (filename transactionId : String) : String :=
  "." ++ filename ++ "." ++ transactionId ++ ".tmp"

def monthPartitionDir (root : Path) (year : ℤ) (yearMonth : String) : Path :=
  root ++ ["year=" ++ toString year, "year_month=" ++ yearMonth]

def markerPath (c : Conversion ρ φ) : Path :=
  c.roots.analytical ++ ["_markers", c.sourceId ++ ".done"]

/-! ## Writing -/

def put (path : Path) (file : File ρ) : Fallible String (Work ρ) Unit :=
  update fun w => { w with
    files := Function.update w.files path (some file)
    written := w.written ++ [path] }

def removeFile (path : Path) : Fallible String (Work ρ) Unit :=
  update fun w => { w with files := Function.update w.files path none }

def failWith (message : String) : Fallible String (Work ρ) Unit := lift (.error message)

/-- `write_parquet`, to `directory.join(filename)`. -/
def writeParquet (c : Conversion ρ φ) (rows : List (NormalizedRow ρ)) (directory : Path)
    (filename : String) : Fallible String (Work ρ) Unit :=
  let dest := directory ++ [filename]
  match c.transactionId with
  | none =>
    match c.fault dest with
    | some .directory => failWith "cannot create directory"
    | some .create => failWith "cannot create file"
    | some .inFile => do
      put dest .truncated
      failWith "cannot write file"
    -- nothing is renamed, and no directory synchronized
    | some .afterRename => put dest (.whole rows)
    | none => put dest (.whole rows)
  | some transactionId =>
    let target := directory ++ [temporaryName filename transactionId]
    match c.fault dest with
    | some .directory => failWith "cannot create directory"
    | some .create => do
      removeFile target
      failWith "cannot create file"
    | some .inFile => do
      put target .truncated
      removeFile target
      failWith "cannot write file"
    | some .afterRename => do
      put target (.whole rows)
      put dest (.whole rows)
      removeFile target
      failWith "cannot synchronize directory"
    | none => do
      put target (.whole rows)
      put dest (.whole rows)
      removeFile target

/-- The partition of a row. -/
def partitionKey (row : NormalizedRow ρ) : Except String (ℤ × String) := do
  let year ← context row.year "normalized chunk is missing year"
  let yearMonth ← context row.yearMonth "normalized chunk is missing year_month"
  return (year, yearMonth)

/-- `build_partition_index`: the partitions in order, each with its rows. -/
def buildPartitionIndex (rows : List (NormalizedRow ρ)) :
    Except String (List ((ℤ × String) × List (NormalizedRow ρ))) := do
  let keys ← rows.mapM partitionKey
  let ordered := keys.dedup.insertionSort fun a b => a.1 < b.1 ∨ a.1 = b.1 ∧ a.2 ≤ b.2
  return ordered.map fun key =>
    (key, rows.filter fun row => row.year = some key.1 ∧ row.yearMonth = some key.2)

/-- The directories a partition is written to, in order. -/
def partitionDirs (c : Conversion ρ φ) (key : ℤ × String) : List Path :=
  match c.roots.metricInput with
  | some root => [monthPartitionDir root key.1 key.2]
  | none => [monthPartitionDir c.roots.warehouse key.1 key.2,
      monthPartitionDir c.roots.analytical key.1 key.2]

/-- The files of one partition, and the outputs with them. -/
def writePartition (c : Conversion ρ φ) (chunkIdx : ℕ) (outputs : LayerOutputs)
    (partition : (ℤ × String) × List (NormalizedRow ρ)) : Fallible String (Work ρ) LayerOutputs :=
  let name := partName c.sourceId chunkIdx
  match c.roots.metricInput with
  | some root => do
    let dir := monthPartitionDir root partition.1.1 partition.1.2
    writeParquet c partition.2 dir name
    return { outputs with metricInput := outputs.metricInput ++ [dir ++ [name]] }
  | none => do
    let dir := monthPartitionDir c.roots.warehouse partition.1.1 partition.1.2
    writeParquet c partition.2 dir name
    let outputs := { outputs with warehouse := outputs.warehouse ++ [dir ++ [name]] }
    let dir := monthPartitionDir c.roots.analytical partition.1.1 partition.1.2
    writeParquet c partition.2 dir name
    return { outputs with analytical := outputs.analytical ++ [dir ++ [name]] }

def writePartitions (c : Conversion ρ φ) (chunkIdx : ℕ) :
    List ((ℤ × String) × List (NormalizedRow ρ)) → LayerOutputs →
      Fallible String (Work ρ) LayerOutputs
  | [], outputs => return outputs
  | partition :: rest, outputs => do
    let outputs ← writePartition c chunkIdx outputs partition
    writePartitions c chunkIdx rest outputs

def writePartitionedFrames (c : Conversion ρ φ) (normalized : List (NormalizedRow ρ))
    (chunkIdx : ℕ) : Fallible String (Work ρ) LayerOutputs := do
  let partitionIndex ← lift (buildPartitionIndex normalized)
  writePartitions c chunkIdx partitionIndex {}

/-- `flush_chunk`; the bytes are taken first. -/
def flushChunk (c : Conversion ρ φ) : Fallible String (Work ρ) (ℕ × LayerOutputs) := do
  let w ← read
  if w.chunkBytes.isEmpty then return (0, {})
  else do
    update fun w => { w with chunkBytes := [] }
    let parsed ← lift (c.parseIngestChunk w.chunkBytes)
    let normalized ← lift (c.normalizeRevisionChunk parsed)
    if normalized.isEmpty then return (0, {})
    else do
      let outputs ← writePartitionedFrames c normalized w.chunkIdx
      return (normalized.length, outputs)

/-! ## The conversion -/

/-- What `read_until` returns one call after another. -/
def readLines : List UInt8 → List (List UInt8)
  | [] => []
  | byte :: rest =>
    if byte = 10 then [byte] :: readLines rest
    else match readLines rest with
      | [] => [[byte]]
      | line :: lines => (byte :: line) :: lines

/-- The lines of a source: where decoding fails, those that were complete. -/
def sourceLines (source : Source) : List (List UInt8) :=
  let lines := readLines source.bytes
  if source.corrupt then lines.filter fun line => line.getLast? = some 10 else lines

/-- A chunk is flushed and what it wrote is remembered. -/
def flushAndRemember (c : Conversion ρ φ) : Fallible String (Work ρ) Unit := do
  let flushed ← flushChunk c
  update fun w => { w with
    totalRows := w.totalRows + flushed.1
    outputs := {
      analytical := w.outputs.analytical ++ flushed.2.analytical
      warehouse := w.outputs.warehouse ++ flushed.2.warehouse
      metricInput := w.outputs.metricInput ++ flushed.2.metricInput } }

def convertLines (c : Conversion ρ φ) : List (List UInt8) → Fallible String (Work ρ) Unit
  | [] => return
  | line :: rest => do
    update fun w => { w with chunkBytes := w.chunkBytes ++ line }
    let w ← read
    if c.chunkLimit ≤ w.chunkBytes.length then do
      flushAndRemember c
      update fun w => { w with chunkIdx := w.chunkIdx + 1 }
    else pure ()
    convertLines c rest

def conversion (c : Conversion ρ φ) (source : Source) : Fallible String (Work ρ) Unit := do
  convertLines c (sourceLines source)
  lift (ensure (source.corrupt = false) "cannot decode source")
  let w ← read
  if w.chunkBytes.isEmpty then pure () else flushAndRemember c

/-- The files of all layers that the conversion knows of. -/
def LayerOutputs.all (outputs : LayerOutputs) : List Path :=
  outputs.analytical ++ outputs.warehouse ++ outputs.metricInput

def cleanupWrittenPaths (files : Path → Option (File ρ)) (paths : List Path) :
    Path → Option (File ρ) :=
  paths.foldl (fun files path => Function.update files path none) files

/-- The files known to the conversion are removed, and then the marker. -/
def cleanup (c : Conversion ρ φ) (w : Work ρ) : Work ρ :=
  { w with
    files := Function.update (cleanupWrittenPaths w.files w.outputs.all) (markerPath c) none }

/-- `convert_file_with_chunk_limit`. -/
def convertFileWithChunkLimit (c : Conversion ρ φ) (source : Source)
    (files : Path → Option (File ρ)) :
    Except String (List Path) × Work ρ :=
  match c.markerIsValid with
  | .error e => (.error e, { files := files })
  | .ok true => (.ok c.existingOutputs, { files := files })
  | .ok false =>
    match (conversion c source).exec { files := files } with
    | (.error e, w) => (.error e, cleanup c w)
    | (.ok _, w) =>
      match c.writeMarkerManifest w.totalRows w.outputs with
      | .error e => (.error e, cleanup c w)
      | .ok _ =>
        (.ok (if w.outputs.metricInput.isEmpty then w.outputs.analytical
          else w.outputs.metricInput),
          { w with files := Function.update w.files (markerPath c) (some (.manifest w.totalRows)) })

end WikiEcon.Ingest
