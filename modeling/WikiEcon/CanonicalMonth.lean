import WikiEcon.Lib.KWayMerge
import WikiEcon.Lib.PrefixCode
import WikiEcon.Rust
import Mathlib.Data.String.Basic

/-!
# Canonical month identities

`canonical_month.rs` names a month of metric input by a digest that must not
depend on how ingest happened to cut the month into files. `compute` opens the
fragments, merges them in row order and feeds each row's encoding to SHA-256.

Two facts make the digest an identity of the *multiset* of rows:

- the merge sees the sorted list of all rows, so neither the file names nor the
  fragment boundaries reach the byte stream (`KWayMerge.drain_eq_foldlM`);
- the encoding of a row is self-delimiting, so a byte stream spells exactly one
  list of rows although no separator stands between them
  (`updateDigest_selfDelimiting`).

The Parquet reader and SHA-256 are outside the crate: a fragment is its schema
and its rows, and the hash is the parameter `sha256`.
-/

namespace WikiEcon.CanonicalMonth

open KWayMerge PrefixCode

def logicalSchemaVersion : ℕ := 3
def encodingVersion : String := "metric-input-canonical-row-v2-historical-actor"
def receiptSchemaVersion : ℕ := 1

/-- A Rust string: UTF-8 text of at most `isize::MAX` bytes. -/
structure Str where
  text : String
  size_lt : text.utf8ByteSize < 2 ^ 63
  deriving DecidableEq

def Str.bytes (s : Str) : List UInt8 := s.text.toByteArray.data.toList

structure CanonicalRow where
  eventTimestamp : Option Str
  eventUserId : Option Int64
  eventUserTextHistorical : Option Str
  eventUserText : Option Str
  eventUserIsBotBy : Option Str
  eventUserIsAnonymous : Option Bool
  eventUserIsTemporary : Option Bool
  pageId : Option Int64
  pageTitle : Option Str
  pageNamespace : Option Int32
  revisionId : Option Int64
  revisionTextBytesDiff : Option Int64
  isReverted : Option Bool
  isMinor : Option Bool
  deriving DecidableEq

/-! ## The derived row order -/

/-- The fields in declaration order; an absent field is below every value. -/
abbrev OrderKey : Type :=
  WithBot String ×ₗ WithBot ℤ ×ₗ WithBot String ×ₗ WithBot String ×ₗ WithBot String ×ₗ
    WithBot Bool ×ₗ WithBot Bool ×ₗ WithBot ℤ ×ₗ WithBot String ×ₗ WithBot ℤ ×ₗ WithBot ℤ ×ₗ
    WithBot ℤ ×ₗ WithBot Bool ×ₗ WithBot Bool

def CanonicalRow.orderKey (r : CanonicalRow) : OrderKey :=
  toLex (nullFirst (r.eventTimestamp.map Str.text),
  toLex (nullFirst (r.eventUserId.map Int64.toInt),
  toLex (nullFirst (r.eventUserTextHistorical.map Str.text),
  toLex (nullFirst (r.eventUserText.map Str.text),
  toLex (nullFirst (r.eventUserIsBotBy.map Str.text),
  toLex (nullFirst r.eventUserIsAnonymous,
  toLex (nullFirst r.eventUserIsTemporary,
  toLex (nullFirst (r.pageId.map Int64.toInt),
  toLex (nullFirst (r.pageTitle.map Str.text),
  toLex (nullFirst (r.pageNamespace.map Int32.toInt),
  toLex (nullFirst (r.revisionId.map Int64.toInt),
  toLex (nullFirst (r.revisionTextBytesDiff.map Int64.toInt),
  toLex (nullFirst r.isReverted, nullFirst r.isMinor)))))))))))))

theorem Str.text_injective : Function.Injective Str.text := by
  rintro ⟨s, hs⟩ ⟨t, ht⟩ h
  obtain rfl : s = t := h
  rfl

theorem CanonicalRow.orderKey_injective : Function.Injective CanonicalRow.orderKey := by
  intro a b h
  have hstr := Option.map_injective Str.text_injective
  have hi64 : Function.Injective (Option.map Int64.toInt) :=
    Option.map_injective fun _ _ => Int64.toInt_inj.mp
  have hi32 : Function.Injective (Option.map Int32.toInt) :=
    Option.map_injective fun _ _ => Int32.toInt_inj.mp
  simp only [orderKey, toLex_inj, Prod.mk.injEq, nullFirst_inj] at h
  obtain ⟨h1, h2, h3, h4, h5, h6, h7, h8, h9, h10, h11, h12, h13, h14⟩ := h
  cases a
  cases b
  simp only [mk.injEq]
  exact ⟨hstr h1, hi64 h2, hstr h3, hstr h4, hstr h5, h6, h7, hi64 h8, hstr h9, hi32 h10,
    hi64 h11, hi64 h12, h13, h14⟩

instance : LinearOrder CanonicalRow :=
  LinearOrder.lift' CanonicalRow.orderKey CanonicalRow.orderKey_injective

/-! ## The row encoding -/

def encodeString : Option Str → List UInt8 := marked fun s => lengthPrefixed s.bytes
def encodeI64 : Option Int64 → List UInt8 := marked fun v => beBytes 8 v.toBitVec.toNat
def encodeI32 : Option Int32 → List UInt8 := marked fun v => beBytes 4 v.toBitVec.toNat
def encodeBool : Option Bool → List UInt8 := marked fun b => [if b then 1 else 0]

/-- The bytes one row feeds to the digest. -/
def CanonicalRow.updateDigest (r : CanonicalRow) : List UInt8 :=
  encodeString r.eventTimestamp ++ encodeI64 r.eventUserId
    ++ encodeString r.eventUserTextHistorical ++ encodeString r.eventUserText
    ++ encodeString r.eventUserIsBotBy ++ encodeBool r.eventUserIsAnonymous
    ++ encodeBool r.eventUserIsTemporary ++ encodeI64 r.pageId ++ encodeString r.pageTitle
    ++ encodeI32 r.pageNamespace ++ encodeI64 r.revisionId
    ++ encodeI64 r.revisionTextBytesDiff ++ encodeBool r.isReverted ++ encodeBool r.isMinor

theorem Str.bytes_injective : Function.Injective Str.bytes := by
  intro a b h
  apply Str.text_injective
  exact String.toByteArray_inj.mp (ByteArray.ext (Array.toList_inj.mp h))

theorem encodeString_selfDelimiting : SelfDelimiting encodeString := by
  apply SelfDelimiting.marked
  refine selfDelimiting_lengthPrefixed Str.bytes_injective fun s => ?_
  have hlen : s.bytes.length = s.text.utf8ByteSize := rfl
  have hlt := s.size_lt
  rw [hlen]
  omega

theorem encodeI64_selfDelimiting : SelfDelimiting encodeI64 := by
  apply SelfDelimiting.marked
  refine SelfDelimiting.of_length (fun v => beBytes_length 8 _) fun a b h => ?_
  have ha := a.toBitVec.isLt
  have hb := b.toBitVec.isLt
  exact Int64.toBitVec_inj.mp (BitVec.toNat_inj.mp (beBytes_inj 8 ha hb h))

theorem encodeI32_selfDelimiting : SelfDelimiting encodeI32 := by
  apply SelfDelimiting.marked
  refine SelfDelimiting.of_length (fun v => beBytes_length 4 _) fun a b h => ?_
  have ha := a.toBitVec.isLt
  have hb := b.toBitVec.isLt
  exact Int32.toBitVec_inj.mp (BitVec.toNat_inj.mp (beBytes_inj 4 ha hb h))

theorem encodeBool_selfDelimiting : SelfDelimiting encodeBool := by
  apply SelfDelimiting.marked
  refine SelfDelimiting.of_length (w := 1) (fun _ => rfl) fun a b h => ?_
  revert h
  cases a <;> cases b <;> decide

/-- A row's bytes end where the row ends, whatever row comes next. -/
theorem updateDigest_selfDelimiting : SelfDelimiting CanonicalRow.updateDigest := by
  have hs := encodeString_selfDelimiting
  have h64 := encodeI64_selfDelimiting
  have h32 := encodeI32_selfDelimiting
  have hb := encodeBool_selfDelimiting
  have htuple := ((((((((((((hs.append h64).append hs).append hs).append hs).append hb).append
    hb).append h64).append hs).append h32).append h64).append h64).append hb).append hb
  refine htuple.comp (f := fun r : CanonicalRow =>
    (((((((((((((r.eventTimestamp, r.eventUserId), r.eventUserTextHistorical),
      r.eventUserText), r.eventUserIsBotBy), r.eventUserIsAnonymous), r.eventUserIsTemporary),
      r.pageId), r.pageTitle), r.pageNamespace), r.revisionId), r.revisionTextBytesDiff),
      r.isReverted), r.isMinor)) ?_
  intro a b h
  cases a
  cases b
  simp only [Prod.mk.injEq] at h
  simp only [CanonicalRow.mk.injEq]
  tauto

theorem updateDigest_ne_nil (r : CanonicalRow) : r.updateDigest ≠ [] := by
  simp [CanonicalRow.updateDigest, encodeBool, marked_ne_nil]

/-! ## Fragments -/

inductive DataType
  | string
  | int64
  | int32
  | boolean
  | other (name : String)
  deriving DecidableEq

def DataType.debug : DataType → String
  | .string => "String"
  | .int64 => "Int64"
  | .int32 => "Int32"
  | .boolean => "Boolean"
  | .other name => name

/-- A Parquet file as the reader presents it: the columns of the projection and
the rows of the fourteen canonical ones. -/
structure ParquetFile where
  schema : List (String × DataType)
  rows : List CanonicalRow

def expectedSchema : List (String × DataType) :=
  [("event_timestamp", .string), ("event_user_id", .int64),
    ("event_user_text_historical", .string), ("event_user_text", .string),
    ("event_user_is_bot_by", .string), ("event_user_is_anonymous", .boolean),
    ("event_user_is_temporary", .boolean), ("page_id", .int64), ("page_title", .string),
    ("page_namespace", .int32), ("revision_id", .int64), ("revision_text_bytes_diff", .int64),
    ("is_reverted", .boolean), ("is_minor", .boolean)]

def metricInputColumns : List String := expectedSchema.map Prod.fst

def validateColumn (schema : List (String × DataType)) (column : String × DataType) :
    Except String Unit :=
  match schema.lookup column.1 with
  | none => .error s!"canonical month schema is missing {column.1}"
  | some dtype =>
    if dtype = column.2 then .ok ()
    else .error
      s!"canonical month column {column.1} has {dtype.debug}, expected {column.2.debug}"

def validateSchema (schema : List (String × DataType)) : Except String Unit :=
  if schema.length = expectedSchema.length then expectedSchema.forM (validateColumn schema)
  else .error "canonical month schema width changed"

/-- `SortedRun::new`: open the file and check its schema before reading a row. -/
def SortedRun.new (directory : String → Option ParquetFile) (path : String) :
    Except String (List CanonicalRow) :=
  match directory path with
  | none => .error s!"failed to open Parquet input {path}"
  | some file => (validateSchema file.schema).map fun _ => file.rows

/-! ## `compute` -/

structure MonthIdentity where
  schemaVersion : ℕ
  wiki : String
  eventMonth : String
  logicalSchemaVersion : ℕ
  encodingVersion : String
  orderingContract : String
  digest : String
  rows : ℕ
  edits : ℕ
  deriving DecidableEq

/-- What the loop carries: the bytes fed to the digest and the row count. -/
structure Feed where
  bytes : List UInt8
  rows : ℕ

/-- `digest_header`: the constants every month's stream begins with. -/
def digestHeader : List UInt8 :=
  "wiki-economics".toByteArray.data.toList ++ [0] ++ "canonical-month".toByteArray.data.toList
    ++ [0] ++ beBytes 4 logicalSchemaVersion
    ++ lengthPrefixed encodingVersion.toByteArray.data.toList
    ++ metricInputColumns.flatMap fun column => lengthPrefixed column.toByteArray.data.toList

/-- Seven bytes `YYYY-MM`. A character outside ASCII fails the digit test in
the source as its bytes do, so the test reads characters. -/
def isEventMonth (eventMonth : String) : Bool :=
  let chars := eventMonth.toList
  chars.length = 7 && chars[4]? = some '-' && (chars.eraseIdx 4).all Char.isDigit

def inMonth (eventMonth : String) (timestamp : Str) : Bool :=
  eventMonth.toList.isPrefixOf timestamp.text.toList

/-- One popped row: check its month, feed its encoding, count it. -/
def consume (eventMonth : String) (feed : Feed) (row : CanonicalRow) : Except String Feed :=
  match row.eventTimestamp with
  | none => .error "canonical month row has no event timestamp"
  | some timestamp =>
    if inMonth eventMonth timestamp then
      if feed.rows < u64Max then
        .ok { bytes := feed.bytes ++ row.updateDigest, rows := feed.rows + 1 }
      else .error "canonical month row overflow"
    else .error "canonical month row escaped event-month partition"

section Compute

variable (sha256 : List UInt8 → String) (directory : String → Option ParquetFile)
  (wiki eventMonth : String)

/-- The bytes `compute` feeds to the digest, and how many rows they encode. -/
def feed (files : List String) : Except String Feed := do
  if !isEventMonth eventMonth then
    throw s!"invalid canonical event month {eventMonth}"
  if files.isEmpty then
    throw "canonical month has no fragments"
  let runs ← (files.mergeSort (· ≤ ·)).dedup.mapM (SortedRun.new directory)
  let feed ← drain (fun previous row => decide (previous ≤ row))
    "canonical month input fragment violates the logical row order" false
    (consume eventMonth) runs { bytes := digestHeader, rows := 0 }
  if feed.rows = 0 then
    throw "canonical month cannot be empty"
  return feed

def compute (files : List String) : Except String MonthIdentity := do
  let feed ← feed directory eventMonth files
  return {
    schemaVersion := receiptSchemaVersion
    wiki := wiki
    eventMonth := eventMonth
    logicalSchemaVersion := logicalSchemaVersion
    encodingVersion := encodingVersion
    orderingContract := "null-first-lexicographic-all-13-columns-v1"
    digest := sha256 feed.bytes
    rows := feed.rows
    edits := feed.rows }

/-- The byte sequence a successful `compute` hashes. -/
def stream (files : List String) : Option (List UInt8) :=
  (feed directory eventMonth files).toOption.map Feed.bytes

/-- The rows of all fragments. -/
def rowsOf (files : List String) : List CanonicalRow :=
  files.flatMap fun path => ((directory path).map ParquetFile.rows).getD []

/-- A set of distinct fragments of one month, each readable and in row order.
The row counter is a `u64`, which `compute` checks. -/
structure MonthInput (files : List String) : Prop where
  nodup : files.Nodup
  readable : ∀ path ∈ files, ∃ file, directory path = some file ∧
    validateSchema file.schema = .ok () ∧ file.rows.IsChain (· ≤ ·)
  month : ∀ row ∈ rowsOf directory files, ∃ timestamp, row.eventTimestamp = some timestamp ∧
    inMonth eventMonth timestamp = true
  rows_le : (rowsOf directory files).length ≤ u64Max

/-! ## What the loop feeds -/

/-- Over rows of the month the loop appends each row's bytes and counts it. -/
theorem foldlM_consume (eventMonth : String) :
    ∀ (rows : List CanonicalRow) (feed : Feed),
      (∀ row ∈ rows, ∃ timestamp, row.eventTimestamp = some timestamp ∧
        inMonth eventMonth timestamp = true) →
      feed.rows + rows.length ≤ u64Max →
      rows.foldlM (consume eventMonth) feed
        = .ok { bytes := feed.bytes ++ rows.flatMap CanonicalRow.updateDigest
                rows := feed.rows + rows.length } := by
  intro rows
  induction rows with
  | nil => intro feed _ _; simp [pure, Except.pure]
  | cons row rest ih =>
    intro feed hmonth hlen
    obtain ⟨timestamp, hts, hin⟩ := hmonth row (List.mem_cons_self ..)
    rw [List.length_cons] at hlen
    have hstep : consume eventMonth feed row
        = .ok { bytes := feed.bytes ++ row.updateDigest, rows := feed.rows + 1 } := by
      have hlt : feed.rows < u64Max := by omega
      rw [consume, hts]
      simp only [hin, hlt, if_true]
    rw [List.foldlM_cons, hstep]
    show rest.foldlM (consume eventMonth) _ = _
    rw [ih _ (fun row hrow => hmonth row (List.mem_cons_of_mem _ hrow))
      (by show feed.rows + 1 + rest.length ≤ u64Max; omega)]
    simp only [List.flatMap_cons, List.append_assoc, List.length_cons]
    rw [Nat.add_right_comm, Nat.add_assoc]

/-- A row outside the month stops the loop, wherever it stands. -/
theorem foldlM_consume_error (eventMonth : String) :
    ∀ (rows : List CanonicalRow) (feed : Feed) {row : CanonicalRow}, row ∈ rows →
      (∀ timestamp, row.eventTimestamp = some timestamp → inMonth eventMonth timestamp = false) →
      ∃ e, rows.foldlM (consume eventMonth) feed = .error e := by
  intro rows
  induction rows with
  | nil => intro feed row hrow; exact absurd hrow (by simp)
  | cons head rest ih =>
    intro feed row hrow hout
    rw [List.foldlM_cons]
    cases hstep : consume eventMonth feed head with
    | error e => exact ⟨e, rfl⟩
    | ok next =>
      rcases List.mem_cons.mp hrow with rfl | hrest
      · unfold consume at hstep
        cases hts : row.eventTimestamp with
        | none => simp [hts] at hstep
        | some timestamp => simp [hts, hout timestamp hts] at hstep
      · exact ih next hrest hout

/-- Opening files that are there and have the schema yields their rows. -/
theorem mapM_sortedRun {directory : String → Option ParquetFile} :
    ∀ {files : List String}, (∀ path ∈ files, ∃ file, directory path = some file ∧
        validateSchema file.schema = .ok ()) →
      files.mapM (SortedRun.new directory)
        = .ok (files.map fun path => ((directory path).map ParquetFile.rows).getD []) := by
  intro files
  induction files with
  | nil => intro _; rfl
  | cons path rest ih =>
    intro h
    obtain ⟨file, hfile, hschema⟩ := h path (List.mem_cons_self ..)
    have hrest := ih fun p hp => h p (List.mem_cons_of_mem _ hp)
    rw [List.mapM_cons, hrest, SortedRun.new, hfile]
    simp only [hschema, Except.map, List.map_cons, hfile, Option.map_some, Option.getD_some]
    rfl

/-- A file that opened is among the runs. -/
theorem mem_of_mapM_sortedRun {directory : String → Option ParquetFile} {path : String}
    {file : ParquetFile} (hfile : directory path = some file) :
    ∀ {files : List String} {runs : List (List CanonicalRow)}, path ∈ files →
      files.mapM (SortedRun.new directory) = .ok runs → file.rows ∈ runs := by
  intro files
  induction files with
  | nil => intro runs hmem; exact absurd hmem (by simp)
  | cons head rest ih =>
    intro runs hmem hruns
    rw [List.mapM_cons] at hruns
    cases hhead : SortedRun.new directory head with
    | error e => rw [hhead] at hruns; exact absurd hruns (by simp [bind, Except.bind])
    | ok run =>
      cases hrest : rest.mapM (SortedRun.new directory) with
      | error e => rw [hhead, hrest] at hruns; exact absurd hruns (by simp [bind, Except.bind])
      | ok tail =>
        rw [hhead, hrest] at hruns
        obtain rfl : run :: tail = runs := Except.ok.inj hruns
        rcases List.mem_cons.mp hmem with rfl | hmem
        · rw [SortedRun.new, hfile] at hhead
          cases hschema : validateSchema file.schema with
          | error e => simp [hschema, Except.map] at hhead
          | ok u =>
            simp only [hschema, Except.map, Except.ok.injEq] at hhead
            exact hhead ▸ List.mem_cons_self ..
        · exact List.mem_cons_of_mem _ (ih hmem hrest)

/-- The runs of the month's files, once every file has opened. -/
def runsOf (files : List String) : List (List CanonicalRow) :=
  (files.mergeSort (· ≤ ·)).dedup.map fun path => ((directory path).map ParquetFile.rows).getD []

variable {directory} {eventMonth}

theorem MonthInput.flatten_runsOf {files : List String}
    (h : MonthInput directory eventMonth files) :
    (runsOf directory files).flatten.Perm (rowsOf directory files) := by
  have hperm : (files.mergeSort (· ≤ ·)).Perm files := List.mergeSort_perm _ _
  rw [runsOf, List.Nodup.dedup (hperm.nodup_iff.mpr h.nodup), ← List.flatMap_def]
  exact hperm.flatMap_right _

/-- **What `compute` hashes**: the header, then the sorted rows of the month. -/
theorem MonthInput.feed_eq {files : List String} (hmonth : isEventMonth eventMonth = true)
    (h : MonthInput directory eventMonth files) (hne : rowsOf directory files ≠ []) :
    feed directory eventMonth files
      = .ok { bytes := digestHeader
                ++ (merged [rowsOf directory files]).flatMap CanonicalRow.updateDigest
              rows := (rowsOf directory files).length } := by
  have hfiles : files.isEmpty = false := by
    cases files with
    | nil => exact absurd rfl hne
    | cons _ _ => rfl
  have hopen : (files.mergeSort (· ≤ ·)).dedup.mapM (SortedRun.new directory)
      = .ok (runsOf directory files) := by
    refine mapM_sortedRun fun path hpath => ?_
    obtain ⟨file, hfile, hschema, -⟩ :=
      h.readable path (List.mem_mergeSort.mp (List.mem_dedup.mp hpath))
    exact ⟨file, hfile, hschema⟩
  have hsorted : ∀ run ∈ runsOf directory files,
      run.IsChain (fun a b => decide (a ≤ b) = true) := by
    intro run hrun
    obtain ⟨path, hpath, rfl⟩ := List.mem_map.mp hrun
    obtain ⟨file, hfile, -, hchain⟩ :=
      h.readable path (List.mem_mergeSort.mp (List.mem_dedup.mp hpath))
    rw [hfile]
    exact hchain.imp fun a b hab => decide_eq_true hab
  have hmerged : merged (runsOf directory files) = merged [rowsOf directory files] :=
    merged_eq_of_perm (by simpa using h.flatten_runsOf)
  have hperm : (merged [rowsOf directory files]).Perm (rowsOf directory files) := by
    simpa using merged_perm [rowsOf directory files]
  have hdrain := drain_eq_foldlM "canonical month input fragment violates the logical row order"
    (fun a b hab => of_decide_eq_true hab) false
    (consume eventMonth) (runsOf directory files) { bytes := digestHeader, rows := 0 } hsorted
  rw [hmerged, foldlM_consume eventMonth _ _
    (fun row hrow => h.month row (hperm.mem_iff.mp hrow))
    (by rw [hperm.length_eq, Nat.zero_add]; exact h.rows_le)] at hdrain
  have hrows : ¬ (0 + (merged [rowsOf directory files]).length = 0) := by
    rw [hperm.length_eq, Nat.zero_add]
    exact fun hzero => hne (List.length_eq_zero_iff.mp hzero)
  unfold feed
  simp only [hmonth, hfiles, hopen, hdrain, hrows, bind, Except.bind, pure, Except.pure,
    Bool.not_true, Bool.false_eq_true, if_false]
  rw [hperm.length_eq, Nat.zero_add]

/-- A successful `compute` opened every file, merged the runs and found a row. -/
theorem feed_cases {files : List String} {result : Feed}
    (h : feed directory eventMonth files = .ok result) :
    ∃ runs, (files.mergeSort (· ≤ ·)).dedup.mapM (SortedRun.new directory) = .ok runs ∧
      drain (fun previous row => decide (previous ≤ row))
        "canonical month input fragment violates the logical row order" false
        (consume eventMonth) runs { bytes := digestHeader, rows := 0 } = .ok result ∧
      result.rows ≠ 0 := by
  unfold feed at h
  simp only [bind, Except.bind, pure, Except.pure] at h
  split at h
  · exact absurd h (by simp [throw, throwThe, MonadExceptOf.throw])
  · split at h
    · exact absurd h (by simp [throw, throwThe, MonadExceptOf.throw])
    · split at h
      · exact absurd h (by simp)
      next runs hruns =>
        split at h
        · exact absurd h (by simp)
        next last hlast =>
          split at h
          · exact absurd h (by simp [throw, throwThe, MonadExceptOf.throw])
          next hrows =>
            obtain rfl := Except.ok.inj h
            exact ⟨runs, hruns, hlast, hrows⟩

/-- **An unsorted fragment is an error**, whatever the other fragments hold. -/
theorem feed_unsorted {files : List String} {path : String} {file : ParquetFile}
    (hpath : path ∈ files) (hfile : directory path = some file)
    (hrows : ¬ file.rows.IsChain (· ≤ ·)) :
    ∃ e, feed directory eventMonth files = .error e := by
  cases hfeed : feed directory eventMonth files with
  | error e => exact ⟨e, rfl⟩
  | ok result =>
    obtain ⟨runs, hruns, hdrain, -⟩ := feed_cases hfeed
    have hrun := mem_of_mapM_sortedRun hfile
      (List.mem_dedup.mpr (List.mem_mergeSort.mpr hpath)) hruns
    obtain ⟨e, he⟩ := drain_unordered
      "canonical month input fragment violates the logical row order" false (consume eventMonth)
        { bytes := digestHeader, rows := 0 } hrun
      (fun hchain => hrows (hchain.imp fun a b hab => of_decide_eq_true hab))
    rw [hdrain] at he
    exact absurd he (by simp)

/-- **A row outside the month is an error**, whatever fragment holds it. -/
theorem feed_escaped {files : List String} {path : String} {file : ParquetFile}
    {row : CanonicalRow} (hpath : path ∈ files) (hfile : directory path = some file)
    (hrow : row ∈ file.rows)
    (hout : ∀ timestamp, row.eventTimestamp = some timestamp →
      inMonth eventMonth timestamp = false) :
    ∃ e, feed directory eventMonth files = .error e := by
  cases hfeed : feed directory eventMonth files with
  | error e => exact ⟨e, rfl⟩
  | ok result =>
    obtain ⟨runs, hruns, hdrain, -⟩ := feed_cases hfeed
    have hrun := mem_of_mapM_sortedRun hfile
      (List.mem_dedup.mpr (List.mem_mergeSort.mpr hpath)) hruns
    by_cases hsorted : ∀ run ∈ runs, run.IsChain (fun a b => decide (a ≤ b) = true)
    · rw [drain_eq_foldlM _ (fun a b hab => of_decide_eq_true hab) false _ runs _ hsorted] at hdrain
      have hmem : row ∈ merged runs :=
        (merged_perm runs).mem_iff.mpr (List.mem_flatten.mpr ⟨file.rows, hrun, hrow⟩)
      obtain ⟨e, he⟩ := foldlM_consume_error eventMonth (merged runs)
        { bytes := digestHeader, rows := 0 } hmem hout
      rw [hdrain] at he
      exact absurd he (by simp)
    · push Not at hsorted
      obtain ⟨run, hmemrun, hchain⟩ := hsorted
      obtain ⟨e, he⟩ := drain_unordered
        "canonical month input fragment violates the logical row order" false (consume eventMonth)
          { bytes := digestHeader, rows := 0 } hmemrun hchain
      rw [hdrain] at he
      exact absurd he (by simp)

/-- With no rows there is nothing to hash. -/
theorem MonthInput.feed_nil {files : List String} (h : MonthInput directory eventMonth files)
    (hnil : rowsOf directory files = []) :
    ∃ e, feed directory eventMonth files = .error e := by
  cases hfeed : feed directory eventMonth files with
  | error e => exact ⟨e, rfl⟩
  | ok result =>
    obtain ⟨runs, hruns, hdrain, hrows⟩ := feed_cases hfeed
    rw [mapM_sortedRun fun path hpath => by
      obtain ⟨file, hfile, hschema, -⟩ :=
        h.readable path (List.mem_mergeSort.mp (List.mem_dedup.mp hpath))
      exact ⟨file, hfile, hschema⟩] at hruns
    obtain rfl : runsOf directory files = runs := Except.ok.inj hruns
    have hflat : (runsOf directory files).flatten = [] :=
      List.perm_nil.mp (hnil ▸ h.flatten_runsOf)
    have hempty : ∀ run ∈ runsOf directory files, run = [] := List.flatten_eq_nil_iff.mp hflat
    have hmerged : merged (runsOf directory files) = [] := by
      have hperm := merged_perm (runsOf directory files)
      rw [hflat] at hperm
      exact List.perm_nil.mp hperm
    rw [drain_eq_foldlM _ (fun a b hab => of_decide_eq_true hab) false _ _ _
      (fun run hrun => hempty run hrun ▸ List.isChain_nil), hmerged] at hdrain
    obtain rfl := Except.ok.inj hdrain
    exact absurd rfl hrows

/-! ## The digest as an identity -/

/-- The encoded rows of two row sets agree exactly when the row sets do. -/
theorem flatMap_updateDigest_merged_inj {rows rows' : List CanonicalRow} :
    (merged [rows]).flatMap CanonicalRow.updateDigest
        = (merged [rows']).flatMap CanonicalRow.updateDigest ↔ rows.Perm rows' := by
  constructor
  · intro h
    have heq := updateDigest_selfDelimiting.flatMap_injective updateDigest_ne_nil h
    have hleft := merged_perm [rows]
    have hright := merged_perm [rows']
    rw [List.flatten_singleton] at hleft hright
    exact hleft.symm.trans (heq ▸ hright)
  · intro h
    have hflat : [rows].flatten.Perm [rows'].flatten := by simpa using h
    rw [merged_eq_of_perm hflat]

theorem compute_eq_map (sha256 : List UInt8 → String) (wiki : String) (files : List String) :
    compute sha256 directory wiki eventMonth files
      = (feed directory eventMonth files).map fun feed => {
          schemaVersion := receiptSchemaVersion
          wiki := wiki
          eventMonth := eventMonth
          logicalSchemaVersion := logicalSchemaVersion
          encodingVersion := encodingVersion
          orderingContract := "null-first-lexicographic-all-13-columns-v1"
          digest := sha256 feed.bytes
          rows := feed.rows
          edits := feed.rows } := by
  rw [compute]
  cases feed directory eventMonth files <;> rfl

theorem MonthInput.stream_eq {files : List String} (hmonth : isEventMonth eventMonth = true)
    (h : MonthInput directory eventMonth files) :
    stream directory eventMonth files
      = if rowsOf directory files = [] then none
        else some (digestHeader
          ++ (merged [rowsOf directory files]).flatMap CanonicalRow.updateDigest) := by
  rw [stream]
  split
  next hnil =>
    obtain ⟨e, he⟩ := h.feed_nil hnil
    rw [he]
    rfl
  next hne =>
    rw [h.feed_eq hmonth hne]
    rfl

end Compute

/-- **The stream is the multiset.** Two inputs of one month feed the same bytes
exactly when their fragments hold the same rows, each as often. -/
theorem stream_eq_iff {eventMonth : String} {directoryA directoryB : String → Option ParquetFile}
    {filesA filesB : List String} (hmonth : isEventMonth eventMonth = true)
    (hA : MonthInput directoryA eventMonth filesA) (hB : MonthInput directoryB eventMonth filesB) :
    stream directoryA eventMonth filesA = stream directoryB eventMonth filesB
      ↔ (rowsOf directoryA filesA).Perm (rowsOf directoryB filesB) := by
  rw [hA.stream_eq hmonth, hB.stream_eq hmonth]
  by_cases hnilA : rowsOf directoryA filesA = []
  · by_cases hnilB : rowsOf directoryB filesB = []
    · simp [hnilA, hnilB]
    · simp only [hnilA, hnilB, if_true, if_false, List.nil_perm]
      simp
  · by_cases hnilB : rowsOf directoryB filesB = []
    · simp only [hnilA, hnilB, if_true, if_false, List.perm_nil]
      simp
    · simp only [hnilA, hnilB, if_false, Option.some.injEq, List.append_cancel_left_eq]
      exact flatMap_updateDigest_merged_inj

/-- The digest in the record is the hash of the stream. -/
theorem digest_compute (sha256 : List UInt8 → String) (directory : String → Option ParquetFile)
    (wiki eventMonth : String) (files : List String) :
    (compute sha256 directory wiki eventMonth files).toOption.map MonthIdentity.digest
      = (stream directory eventMonth files).map sha256 := by
  rw [compute_eq_map, stream]
  cases feed directory eventMonth files <;> rfl

/-- The two streams of a comparison do not collide under `sha256`. -/
def NoCollision (sha256 : List UInt8 → String) (a b : Option (List UInt8)) : Prop :=
  ∀ x y, a = some x → b = some y → sha256 x = sha256 y → x = y

theorem NoCollision.map_eq_iff {sha256 : List UInt8 → String} {a b : Option (List UInt8)}
    (h : NoCollision sha256 a b) : a.map sha256 = b.map sha256 ↔ a = b := by
  refine ⟨fun heq => ?_, fun heq => congrArg _ heq⟩
  cases a with
  | none =>
    cases b with
    | none => rfl
    | some y => exact absurd heq (by simp)
  | some x =>
    cases b with
    | none => exact absurd heq (by simp)
    | some y => rw [h x y rfl rfl (Option.some.inj heq)]

/-- **Canonical month identity.** Within a month the hashed stream, and with it
the digest, identifies the multiset of rows: neither file names nor fragment
boundaries matter and duplicates count. An unsorted fragment or a row of another
month is an error, never a digest. -/
theorem monthIdentity_iff_rows (sha256 : List UInt8 → String) (wiki eventMonth : String) :
    (∀ (directoryA directoryB : String → Option ParquetFile) (filesA filesB : List String),
      isEventMonth eventMonth = true → MonthInput directoryA eventMonth filesA →
      MonthInput directoryB eventMonth filesB →
      (stream directoryA eventMonth filesA = stream directoryB eventMonth filesB
        ↔ (rowsOf directoryA filesA).Perm (rowsOf directoryB filesB)) ∧
      (NoCollision sha256 (stream directoryA eventMonth filesA)
          (stream directoryB eventMonth filesB) →
        ((compute sha256 directoryA wiki eventMonth filesA).toOption.map MonthIdentity.digest
            = (compute sha256 directoryB wiki eventMonth filesB).toOption.map MonthIdentity.digest
          ↔ (rowsOf directoryA filesA).Perm (rowsOf directoryB filesB)))) ∧
    (∀ (directory : String → Option ParquetFile) (files : List String) (path : String)
        (file : ParquetFile), path ∈ files → directory path = some file →
      (¬ file.rows.IsChain (· ≤ ·) ∨
        ∃ row ∈ file.rows, ∀ timestamp, row.eventTimestamp = some timestamp →
          inMonth eventMonth timestamp = false) →
      ∃ e, compute sha256 directory wiki eventMonth files = .error e) := by
  constructor
  · intro directoryA directoryB filesA filesB hmonth hA hB
    have hstream := stream_eq_iff hmonth hA hB
    refine ⟨hstream, fun hsha => ?_⟩
    rw [digest_compute, digest_compute, hsha.map_eq_iff, hstream]
  · intro directory files path file hpath hfile hbad
    have herror : ∃ e, feed directory eventMonth files = .error e := by
      rcases hbad with hunsorted | ⟨row, hrow, hout⟩
      · exact feed_unsorted hpath hfile hunsorted
      · exact feed_escaped hpath hfile hrow hout
    obtain ⟨e, he⟩ := herror
    exact ⟨e, by rw [compute_eq_map, he]; rfl⟩

/-- A revision of January 2024, all else unknown. -/
def januaryRow (revisionId : Int64) : CanonicalRow where
  eventTimestamp := some ⟨"2024-01-01T00:00:00Z", by decide⟩
  eventUserId := none
  eventUserTextHistorical := none
  eventUserText := none
  eventUserIsBotBy := none
  eventUserIsAnonymous := none
  eventUserIsTemporary := none
  pageId := none
  pageTitle := none
  pageNamespace := none
  revisionId := some revisionId
  revisionTextBytesDiff := none
  isReverted := none
  isMinor := none

/-- Two fragments, one fragment of the same rows, and one in the wrong order. -/
def januaryDirectory : String → Option ParquetFile
  | "part-0" => some ⟨expectedSchema, [januaryRow 1, januaryRow 3]⟩
  | "part-1" => some ⟨expectedSchema, [januaryRow 2]⟩
  | "whole" => some ⟨expectedSchema, [januaryRow 1, januaryRow 2, januaryRow 3]⟩
  | "shuffled" => some ⟨expectedSchema, [januaryRow 2, januaryRow 1]⟩
  | _ => none

theorem januaryDirectory_input {files : List String}
    (hfiles : files = ["part-0", "part-1"] ∨ files = ["whole"]) :
    MonthInput januaryDirectory "2024-01" files := by
  rcases hfiles with rfl | rfl
  · refine ⟨by decide, ?_, ?_, by decide⟩
    · intro path hpath
      rcases List.mem_cons.mp hpath with rfl | hpath
      · exact ⟨_, rfl, by decide, by decide⟩
      · obtain rfl := List.mem_singleton.mp hpath
        exact ⟨_, rfl, by decide, by decide⟩
    · intro row hrow
      simp only [rowsOf, januaryDirectory, List.flatMap_cons, List.flatMap_nil, Option.map_some,
        Option.getD_some, List.cons_append, List.nil_append, List.mem_cons, List.not_mem_nil,
        or_false] at hrow
      rcases hrow with rfl | rfl | rfl <;> exact ⟨_, rfl, by decide⟩
  · refine ⟨by decide, ?_, ?_, by decide⟩
    · intro path hpath
      obtain rfl := List.mem_singleton.mp hpath
      exact ⟨_, rfl, by decide, by decide⟩
    · intro row hrow
      simp only [rowsOf, januaryDirectory, List.flatMap_cons, List.flatMap_nil, Option.map_some,
        Option.getD_some, List.append_nil, List.mem_cons, List.not_mem_nil, or_false] at hrow
      rcases hrow with rfl | rfl | rfl <;> exact ⟨_, rfl, by decide⟩

theorem monthIdentity_iff_rows_january :
    (compute (fun bytes => toString bytes.length) januaryDirectory "simplewiki" "2024-01"
        ["part-0", "part-1"]).toOption.map MonthIdentity.digest
      = (compute (fun bytes => toString bytes.length) januaryDirectory "simplewiki" "2024-01"
          ["whole"]).toOption.map MonthIdentity.digest ∧
    ∃ e, compute (fun bytes => toString bytes.length) januaryDirectory "simplewiki" "2024-01"
      ["part-0", "shuffled"] = .error e := by
  obtain ⟨hidentity, herror⟩ :=
    monthIdentity_iff_rows (fun bytes => toString bytes.length) "simplewiki" "2024-01"
  have hperm : (rowsOf januaryDirectory ["part-0", "part-1"]).Perm
      (rowsOf januaryDirectory ["whole"]) := by decide
  obtain ⟨hstream, hdigest⟩ := hidentity januaryDirectory januaryDirectory
    ["part-0", "part-1"] ["whole"] (by decide) (januaryDirectory_input (Or.inl rfl))
    (januaryDirectory_input (Or.inr rfl))
  refine ⟨(hdigest ?_).mpr hperm, herror januaryDirectory ["part-0", "shuffled"] "shuffled"
    _ (by decide) rfl (Or.inl (by decide))⟩
  intro x y hx hy _
  exact Option.some.inj (hx.symm.trans ((hstream.mpr hperm).trans hy))

end WikiEcon.CanonicalMonth
