import Mathlib.Algebra.BigOperators.Group.List.Basic
import Mathlib.Data.List.Induction
import WikiEcon.Lib.Tiling
import WikiEcon.Rust

/-!
# Reading a Parquet file in bounded batches

`SequentialParquetReader` of `storage.rs`. The constructor reads the footer once and cuts
every row group into slices of at most `maximum_batch_rows`; `next_batch` returns one
slice a call and evicts a row group's bytes when its last slice was read.

Opening the file, decoding its footer and decoding the rows of a slice is the work of the
Parquet library: a file is the footer it decodes, and a call of `next_batch` is given
what the library returns for a slice.
-/

namespace WikiEcon.Storage

open Tiling (Tiles)

/-! ## The footer -/

structure RowGroup where
  numRows : ℕ
  /-- `full_byte_range`: start and end in the file. -/
  fullByteRange : ℕ × ℕ
deriving DecidableEq, Repr

/-- `FileMetadata`; the row count is a `usize`. -/
structure FileMetadata where
  numRows : ℕ
  rowGroups : List RowGroup
  numRows_le : numRows ≤ u64Max

/-- What the kernel is told to forget: where the group starts and how long it is. -/
def RowGroup.span (group : RowGroup) : ℕ × ℕ :=
  (group.fullByteRange.1, group.fullByteRange.2 - group.fullByteRange.1)

def totalRows (groups : List RowGroup) : ℕ := (groups.map RowGroup.numRows).sum

/-! ## The slices -/

structure ParquetBatchSlice where
  offset : ℕ
  rows : ℕ
  completedByteRange : Option (ℕ × ℕ)
deriving DecidableEq, Repr

def ParquetBatchSlice.piece (slice : ParquetBatchSlice) : ℕ × ℕ := (slice.offset, slice.rows)

/-- The `while remaining > 0` loop on one row group. -/
def sliceRowGroup (maximumBatchRows : ℕ) (hpos : 0 < maximumBatchRows) (range : ℕ × ℕ)
    (slices : List ParquetBatchSlice) (offset remaining : ℕ) :
    Except String (List ParquetBatchSlice × ℕ) :=
  if _hrows : 0 < remaining then do
    let batchRows := min remaining maximumBatchRows
    let slice : ParquetBatchSlice :=
      ⟨offset, batchRows, if remaining - batchRows = 0 then some range else none⟩
    let offset ← context (checkedAdd u64Max offset batchRows) "Parquet batch row offset overflow"
    sliceRowGroup maximumBatchRows hpos range (slices ++ [slice]) offset (remaining - batchRows)
  else pure (slices, offset)
termination_by remaining
decreasing_by omega

/-- `checked_sub` on the two ends of the byte range. -/
def byteLength (group : RowGroup) : Except String ℕ :=
  context (if group.fullByteRange.1 ≤ group.fullByteRange.2
    then some (group.fullByteRange.2 - group.fullByteRange.1) else none)
    "invalid Parquet row-group byte range"

/-- The loop over the row groups. -/
def sliceRowGroups (maximumBatchRows : ℕ) (hpos : 0 < maximumBatchRows) :
    List RowGroup → List ParquetBatchSlice → ℕ → Except String (List ParquetBatchSlice × ℕ)
  | [], slices, offset => pure (slices, offset)
  | group :: groups, slices, offset => do
    let length ← byteLength group
    let next ← sliceRowGroup maximumBatchRows hpos (group.fullByteRange.1, length) slices offset
      group.numRows
    sliceRowGroups maximumBatchRows hpos groups next.1 next.2

structure SequentialParquetReader where
  metadata : FileMetadata
  slices : List ParquetBatchSlice
  nextSlice : ℕ
  rows : ℕ
  /-- The size of the file. -/
  bytes : ℕ
  cacheReleased : Bool

/-- `new_with_strategy`, on a file of this size with this footer. -/
def newWithStrategy (bytes : ℕ) (metadata : FileMetadata) (maximumBatchRows : ℕ) :
    Except String SequentialParquetReader :=
  if hpos : 0 < maximumBatchRows then do
    let built ← sliceRowGroups maximumBatchRows hpos metadata.rowGroups [] 0
    ensure (built.2 = metadata.numRows) "Parquet row-group totals disagree with footer"
    pure {
      metadata
      slices := built.1
      nextSlice := 0
      rows := metadata.numRows
      bytes
      cacheReleased := false }
  else .error "sequential Parquet batch size must be positive"

/-! ## Reading -/

section Reading

variable {Row : Type}

/-- What the library returns for a slice: an offset and a number of rows. -/
abbrev ReadSlice (Row : Type) := ℕ → ℕ → Except String (List Row)

/-- `release_cache`, and the byte ranges it evicts. -/
def SequentialParquetReader.releaseCache (reader : SequentialParquetReader) :
    SequentialParquetReader × List (ℕ × ℕ) :=
  if reader.cacheReleased then (reader, [])
  else ({ reader with cacheReleased := true }, [(0, reader.bytes)])

/-- `next_batch`: the frame, the reader left behind, and the byte ranges evicted. -/
def SequentialParquetReader.nextBatch (reader : SequentialParquetReader)
    (readSlice : ReadSlice Row) :
    Except String (Option (List Row)) × SequentialParquetReader × List (ℕ × ℕ) :=
  match reader.slices[reader.nextSlice]? with
  | none => (.ok none, reader.releaseCache)
  | some slice =>
    match readSlice slice.offset slice.rows with
    | .error error => (.error error, reader, [])
    | .ok frame =>
      if frame.length = slice.rows then
        (.ok (some frame), { reader with nextSlice := reader.nextSlice + 1 },
          slice.completedByteRange.toList)
      else (.error "short sequential Parquet read", reader, [])

/-- Done is said past the last slice, and nowhere else. -/
theorem SequentialParquetReader.nextBatch_none_iff (reader : SequentialParquetReader)
    (readSlice : ReadSlice Row) :
    (reader.nextBatch readSlice).1 = .ok none ↔ reader.slices[reader.nextSlice]? = none := by
  unfold nextBatch
  cases reader.slices[reader.nextSlice]? with
  | none => exact iff_of_true rfl rfl
  | some slice =>
    refine iff_of_false ?_ (by simp)
    cases hframe : readSlice slice.offset slice.rows with
    | error error => simp [hframe]
    | ok frame => by_cases hheight : frame.length = slice.rows <;> simp [hframe, hheight]

/-- A caller that goes on calling `next_batch`: what it was given, and what was evicted. -/
structure Iteration (Row : Type) where
  reader : SequentialParquetReader
  returned : List Row
  discarded : List (ℕ × ℕ)

/-- One call. -/
def Iteration.next (state : Iteration Row) (readSlice : ReadSlice Row) : Iteration Row :=
  let call := state.reader.nextBatch readSlice
  { reader := call.2.1
    returned := match call.1 with
      | .ok (some frame) => state.returned ++ frame
      | _ => state.returned
    discarded := state.discarded ++ call.2.2 }

/-- One call after the other, each with what the library returns during that call. -/
def iterate (reader : SequentialParquetReader) (reads : List (ReadSlice Row)) : Iteration Row :=
  reads.foldl Iteration.next ⟨reader, [], []⟩

end Reading

/-! ## What the slices are -/

/-- The slices of one row group that starts at `offset`: laid end to end over its rows, none
above the maximum, and only the last says that the group's bytes are done with. -/
structure GroupSlices (maximumBatchRows offset : ℕ) (group : RowGroup)
    (slices : List ParquetBatchSlice) : Prop where
  tiles : Tiles offset (slices.map ParquetBatchSlice.piece) (offset + group.numRows)
  bounded : ∀ slice ∈ slices, 0 < slice.rows ∧ slice.rows ≤ maximumBatchRows
  completed : slices = [] ∨ ∃ earlier last, slices = earlier ++ [last] ∧
    last.completedByteRange = some group.span ∧
    ∀ slice ∈ earlier, slice.completedByteRange = none

/-- The slices of the row groups one group after the other, so that none straddles two. -/
inductive Sliced (maximumBatchRows : ℕ) : ℕ → List RowGroup → List ParquetBatchSlice → Prop
  | nil (offset : ℕ) : Sliced maximumBatchRows offset [] []
  | cons {offset : ℕ} {group : RowGroup} {groups : List RowGroup}
      {own later : List ParquetBatchSlice}
      (hown : GroupSlices maximumBatchRows offset group own)
      (hlater : Sliced maximumBatchRows (offset + group.numRows) groups later) :
      Sliced maximumBatchRows offset (group :: groups) (own ++ later)

section Slices

variable {maximumBatchRows offset : ℕ}

theorem totalRows_cons (group : RowGroup) (groups : List RowGroup) :
    totalRows (group :: groups) = group.numRows + totalRows groups := List.sum_cons

theorem GroupSlices.eq_nil_iff {group : RowGroup} {slices : List ParquetBatchSlice}
    (h : GroupSlices maximumBatchRows offset group slices) : slices = [] ↔ group.numRows = 0 := by
  have htiles := h.tiles
  cases slices with
  | nil =>
    have hempty : offset = offset + group.numRows := htiles
    exact iff_of_true rfl (by omega)
  | cons slice rest =>
    have hpos : 0 < slice.rows := htiles.2.1
    have hle : offset + slice.rows ≤ offset + group.numRows := htiles.2.2.le
    exact iff_of_false (by simp) (by omega)

theorem Sliced.tiles {groups : List RowGroup} {slices : List ParquetBatchSlice}
    (h : Sliced maximumBatchRows offset groups slices) :
    Tiles offset (slices.map ParquetBatchSlice.piece) (offset + totalRows groups) := by
  induction h with
  | nil offset => exact rfl
  | cons hown _ ih =>
    rw [List.map_append, totalRows_cons, ← Nat.add_assoc]
    exact hown.tiles.append ih

theorem Sliced.bounded {groups : List RowGroup} {slices : List ParquetBatchSlice}
    (h : Sliced maximumBatchRows offset groups slices) :
    ∀ slice ∈ slices, 0 < slice.rows ∧ slice.rows ≤ maximumBatchRows := by
  induction h with
  | nil offset => simp
  | cons hown _ ih =>
    intro slice hmem
    exact (List.mem_append.mp hmem).elim (hown.bounded slice) (ih slice)

theorem sliceRowGroup_zero (hpos : 0 < maximumBatchRows) (range : ℕ × ℕ)
    (slices : List ParquetBatchSlice) :
    sliceRowGroup maximumBatchRows hpos range slices offset 0 = .ok (slices, offset) := by
  rw [sliceRowGroup]
  rfl

/-- One round of the inner loop, where the offset stays a `usize`. -/
theorem sliceRowGroup_step (hpos : 0 < maximumBatchRows) (range : ℕ × ℕ)
    (slices : List ParquetBatchSlice) {remaining : ℕ} (hrows : 0 < remaining)
    (hfits : offset + min remaining maximumBatchRows ≤ u64Max) :
    sliceRowGroup maximumBatchRows hpos range slices offset remaining
      = sliceRowGroup maximumBatchRows hpos range
          (slices ++ [⟨offset, min remaining maximumBatchRows,
            if remaining - min remaining maximumBatchRows = 0 then some range else none⟩])
          (offset + min remaining maximumBatchRows)
          (remaining - min remaining maximumBatchRows) := by
  have hadd : checkedAdd u64Max offset (min remaining maximumBatchRows)
      = some (offset + min remaining maximumBatchRows) := checkedAdd_eq_some.mpr ⟨hfits, rfl⟩
  rw [sliceRowGroup, dif_pos hrows]
  simp only [hadd]
  rfl

theorem sliceRowGroup_overflow (hpos : 0 < maximumBatchRows) (range : ℕ × ℕ)
    (slices : List ParquetBatchSlice) {remaining : ℕ} (hrows : 0 < remaining)
    (hfits : ¬offset + min remaining maximumBatchRows ≤ u64Max) :
    sliceRowGroup maximumBatchRows hpos range slices offset remaining
      = .error "Parquet batch row offset overflow" := by
  have hadd : checkedAdd u64Max offset (min remaining maximumBatchRows) = none := if_neg hfits
  rw [sliceRowGroup, dif_pos hrows]
  simp only [hadd]
  rfl

/-- What the inner loop adds while the offset stays a `usize`. -/
theorem sliceRowGroup_fits (hpos : 0 < maximumBatchRows) (group : RowGroup) (remaining : ℕ) :
    ∀ (offset : ℕ) (slices : List ParquetBatchSlice), offset + remaining ≤ u64Max →
      ∃ own, sliceRowGroup maximumBatchRows hpos group.span slices offset remaining
          = .ok (slices ++ own, offset + remaining) ∧
        GroupSlices maximumBatchRows offset { group with numRows := remaining } own := by
  -- every round takes at least one of the remaining rows
  induction remaining using Nat.strongRecOn with
  | ind remaining ih =>
    intro offset slices hfits
    by_cases hrows : 0 < remaining
    · set batchRows := min remaining maximumBatchRows with hbatch
      have hsome : 0 < batchRows := by omega
      have hle : batchRows ≤ remaining := Nat.min_le_left _ _
      obtain ⟨own, hresult, hown⟩ := ih (remaining - batchRows) (by omega) (offset + batchRows)
        (slices ++ [⟨offset, batchRows, if remaining - batchRows = 0 then some group.span
          else none⟩]) (by omega)
      refine ⟨⟨offset, batchRows, if remaining - batchRows = 0 then some group.span else none⟩
        :: own, ?_, ?_⟩
      · rw [sliceRowGroup_step hpos group.span slices hrows (by omega), hresult,
          List.append_assoc]
        congr 2
        omega
      · have hend : offset + remaining = offset + batchRows + (remaining - batchRows) := by omega
        refine ⟨⟨rfl, hsome, ?_⟩, ?_, Or.inr ?_⟩
        · show Tiles (offset + batchRows) _ (offset + remaining)
          exact hend ▸ hown.tiles
        · intro slice hmem
          rcases List.mem_cons.mp hmem with rfl | hlater
          · exact ⟨hsome, Nat.min_le_right _ _⟩
          · exact hown.bounded slice hlater
        · rcases hown.completed with rfl | ⟨earlier, last, rfl, hlast, hearlier⟩
          · -- nothing is left: this slice is the last one
            have hdone : remaining - batchRows = 0 := hown.eq_nil_iff.mp rfl
            exact ⟨[], _, rfl, if_pos hdone, by simp⟩
          · have hmore : ¬remaining - batchRows = 0 := fun hdone =>
              absurd (hown.eq_nil_iff.mpr hdone) (by simp)
            refine ⟨_ :: earlier, last, rfl, hlast, ?_⟩
            intro slice hmem
            rcases List.mem_cons.mp hmem with rfl | hlater
            · exact if_neg hmore
            · exact hearlier slice hlater
    · obtain rfl : remaining = 0 := by omega
      refine ⟨[], ?_, rfl, by simp, Or.inl rfl⟩
      rw [sliceRowGroup_zero, List.append_nil]
      rfl

/-- The inner loop fails when the offset leaves its range, and only then. -/
theorem sliceRowGroup_ok (hpos : 0 < maximumBatchRows) (range : ℕ × ℕ) (remaining : ℕ) :
    ∀ (offset : ℕ) (slices : List ParquetBatchSlice) (built : List ParquetBatchSlice × ℕ),
      offset ≤ u64Max →
      sliceRowGroup maximumBatchRows hpos range slices offset remaining = .ok built →
      offset + remaining ≤ u64Max := by
  induction remaining using Nat.strongRecOn with
  | ind remaining ih =>
    intro offset slices built hoffset hresult
    by_cases hrows : 0 < remaining
    · by_cases hfits : offset + min remaining maximumBatchRows ≤ u64Max
      · rw [sliceRowGroup_step hpos range slices hrows hfits] at hresult
        have := ih _ (by omega) _ _ _ hfits hresult
        omega
      · rw [sliceRowGroup_overflow hpos range slices hrows hfits] at hresult
        exact absurd hresult (by simp)
    · omega

theorem byteLength_eq {group : RowGroup} (h : group.fullByteRange.1 ≤ group.fullByteRange.2) :
    byteLength group = .ok group.span.2 := by
  unfold byteLength
  rw [if_pos h]
  rfl

/-- The outer loop: it succeeds exactly while the rows can be counted, and then the slices it
adds are those of the groups. -/
theorem sliceRowGroups_ok (hpos : 0 < maximumBatchRows) (groups : List RowGroup) :
    ∀ (offset : ℕ) (slices : List ParquetBatchSlice), offset ≤ u64Max →
      (∀ group ∈ groups, group.fullByteRange.1 ≤ group.fullByteRange.2) →
      (offset + totalRows groups ≤ u64Max →
        ∃ added, sliceRowGroups maximumBatchRows hpos groups slices offset
            = .ok (slices ++ added, offset + totalRows groups) ∧
          Sliced maximumBatchRows offset groups added) ∧
      ∀ built, sliceRowGroups maximumBatchRows hpos groups slices offset = .ok built →
        offset + totalRows groups ≤ u64Max := by
  induction groups with
  | nil =>
    intro offset slices hoffset _
    refine ⟨fun _ => ⟨[], ?_, .nil offset⟩, fun _ _ => hoffset⟩
    rw [List.append_nil]
    rfl
  | cons group groups ih =>
    intro offset slices hoffset hranges
    have hlength := byteLength_eq (hranges group List.mem_cons_self)
    have hlater := fun next hnext => ih (offset + group.numRows) next hnext
      fun other hmem => hranges other (List.mem_cons_of_mem _ hmem)
    have hunfold : sliceRowGroups maximumBatchRows hpos (group :: groups) slices offset
        = sliceRowGroup maximumBatchRows hpos group.span slices offset group.numRows >>= fun next =>
          sliceRowGroups maximumBatchRows hpos groups next.1 next.2 := by
      rw [sliceRowGroups, hlength]
      rfl
    rw [hunfold, totalRows_cons, ← Nat.add_assoc]
    refine ⟨fun hfits => ?_, fun built hresult => ?_⟩
    · obtain ⟨own, hown, howned⟩ := sliceRowGroup_fits hpos group group.numRows offset slices
        (by omega)
      obtain ⟨added, hadded, hsliced⟩ := (hlater (slices ++ own) (by omega)).1 hfits
      refine ⟨own ++ added, ?_, .cons howned hsliced⟩
      rw [hown, ← List.append_assoc]
      exact hadded
    · obtain ⟨next, hnext, hrest⟩ := bind_eq_ok.mp hresult
      have hfits := sliceRowGroup_ok hpos group.span group.numRows offset slices next hoffset hnext
      obtain ⟨own, hown, -⟩ := sliceRowGroup_fits hpos group group.numRows offset slices hfits
      rw [hown] at hnext
      cases hnext
      exact (hlater _ hfits).2 built hrest

end Slices

/-! ## What a caller is given -/

section Iterating

variable {Row : Type} {content : List Row} {maximumBatchRows : ℕ}

/-- A frame of the height asked for holds those rows of the file. A read may also fail, or
come back short. -/
def SlicesOf (content : List Row) (readSlice : ReadSlice Row) : Prop :=
  ∀ offset rows frame, readSlice offset rows = .ok frame → frame.length = rows →
    frame = (content.drop offset).take rows

/-- A read inside the file that does not fail. -/
def ReadsAll (content : List Row) (readSlice : ReadSlice Row) : Prop :=
  ∀ offset rows, offset + rows ≤ content.length →
    readSlice offset rows = .ok ((content.drop offset).take rows)

/-- The byte ranges of the row groups, the empty ones apart, whose rows are all among the
first `read` rows of the file. -/
def completedGroups : List RowGroup → ℕ → List (ℕ × ℕ)
  | [], _ => []
  | group :: groups, read =>
    if group.numRows ≤ read then
      (if group.numRows = 0 then [] else [group.span]) ++
        completedGroups groups (read - group.numRows)
    else []

/-- The rows of the slices a reader has gone through. -/
def rowsOf (slices : List ParquetBatchSlice) : ℕ := (slices.map ParquetBatchSlice.rows).sum

def rangesOf (slices : List ParquetBatchSlice) : List (ℕ × ℕ) :=
  slices.filterMap ParquetBatchSlice.completedByteRange

theorem rowsOf_append (earlier later : List ParquetBatchSlice) :
    rowsOf (earlier ++ later) = rowsOf earlier + rowsOf later := by
  unfold rowsOf
  rw [List.map_append, List.sum_append]

theorem rangesOf_append (earlier later : List ParquetBatchSlice) :
    rangesOf (earlier ++ later) = rangesOf earlier ++ rangesOf later := List.filterMap_append

theorem rangesOf_singleton (slice : ParquetBatchSlice) :
    rangesOf [slice] = slice.completedByteRange.toList := by
  unfold rangesOf
  cases hrange : slice.completedByteRange with
  | none => exact List.filterMap_cons_none hrange
  | some range => exact List.filterMap_cons_some hrange

theorem rowsOf_of_tiles : ∀ {slices : List ParquetBatchSlice} {first last : ℕ},
    Tiles first (slices.map ParquetBatchSlice.piece) last → first + rowsOf slices = last
  | [], _, _, h => h
  | slice :: rest, first, last, ⟨_, _, hrest⟩ => by
    have hsum := rowsOf_of_tiles hrest
    have hcons : rowsOf (slice :: rest) = slice.rows + rowsOf rest := List.sum_cons
    have hpiece : slice.piece.2 = slice.rows := rfl
    omega

theorem GroupSlices.rowsOf_eq {offset : ℕ} {group : RowGroup} {own : List ParquetBatchSlice}
    (h : GroupSlices maximumBatchRows offset group own) : rowsOf own = group.numRows :=
  Nat.add_left_cancel (rowsOf_of_tiles h.tiles)

theorem GroupSlices.rangesOf_eq {offset : ℕ} {group : RowGroup} {own : List ParquetBatchSlice}
    (h : GroupSlices maximumBatchRows offset group own) :
    rangesOf own = if group.numRows = 0 then [] else [group.span] := by
  by_cases hempty : group.numRows = 0
  · rw [if_pos hempty, h.eq_nil_iff.mpr hempty]
    rfl
  · rw [if_neg hempty]
    rcases h.completed with hnil | ⟨earlier, last, rfl, hlast, hearlier⟩
    · exact absurd (h.eq_nil_iff.mp hnil) hempty
    · have hnone : rangesOf earlier = [] := List.filterMap_eq_nil_iff.mpr hearlier
      rw [rangesOf_append, hnone]
      exact congrArg Option.toList hlast

/-- Before its last slice a row group is neither read to its end nor evicted. -/
theorem GroupSlices.take_lt {offset k : ℕ} {group : RowGroup} {own : List ParquetBatchSlice}
    (h : GroupSlices maximumBatchRows offset group own) (hk : k < own.length) :
    rowsOf (own.take k) < group.numRows ∧ rangesOf (own.take k) = [] := by
  constructor
  · have hsplit : rowsOf (own.take k) + rowsOf (own.drop k) = group.numRows := by
      rw [← rowsOf_append, List.take_append_drop, h.rowsOf_eq]
    have hcons := List.drop_eq_getElem_cons hk
    have hpos := (h.bounded own[k] (List.getElem_mem hk)).1
    have hsum : rowsOf (own.drop k) = own[k].rows + rowsOf (own.drop (k + 1)) := by
      rw [hcons]
      exact List.sum_cons
    omega
  · rcases h.completed with rfl | ⟨earlier, last, rfl, -, hearlier⟩
    · exact absurd hk (Nat.not_lt_zero k)
    · rw [List.length_append, List.length_singleton] at hk
      rw [List.take_append_of_le_length (by omega)]
      exact List.filterMap_eq_nil_iff.mpr fun slice hmem =>
        hearlier slice (List.mem_of_mem_take hmem)

/-- The ranges evicted after some slices are those of the groups read to their ends. -/
theorem Sliced.rangesOf_take {offset : ℕ} {groups : List RowGroup}
    {slices : List ParquetBatchSlice} (h : Sliced maximumBatchRows offset groups slices) (k : ℕ) :
    rangesOf (slices.take k) = completedGroups groups (rowsOf (slices.take k)) := by
  induction h generalizing k with
  | nil offset =>
    rw [List.take_nil]
    rfl
  | @cons offset group groups own later hown _ ih =>
    unfold completedGroups
    by_cases hk : k < own.length
    · obtain ⟨hrows, hranges⟩ := hown.take_lt hk
      rw [List.take_append_of_le_length (le_of_lt hk), if_neg (by omega), hranges]
    · -- the group is read to its end: go on with the later groups
      have hsplit : (own ++ later).take k = own ++ later.take (k - own.length) := by
        rw [List.take_append, List.take_of_length_le (by omega)]
      rw [hsplit, rowsOf_append, rangesOf_append, hown.rowsOf_eq, hown.rangesOf_eq,
        if_pos (Nat.le_add_right _ _), Nat.add_sub_cancel_left, ih]

/-- Where a caller stands after some calls. -/
structure At (slices : List ParquetBatchSlice) (bytes : ℕ) (content : List Row)
    (state : Iteration Row) : Prop where
  slices_eq : state.reader.slices = slices
  bytes_eq : state.reader.bytes = bytes
  within : state.reader.nextSlice ≤ slices.length
  returned : state.returned = content.take (rowsOf (slices.take state.reader.nextSlice))
  discarded : state.discarded = rangesOf (slices.take state.reader.nextSlice) ++
    if state.reader.cacheReleased then [(0, bytes)] else []
  released : state.reader.cacheReleased → state.reader.nextSlice = slices.length

section Step

variable {slices : List ParquetBatchSlice} {bytes : ℕ} {state : Iteration Row}

/-- A slice starts where those before it end. -/
theorem offset_eq {last k : ℕ} {slice : ParquetBatchSlice}
    (htiles : Tiles 0 (slices.map ParquetBatchSlice.piece) last)
    (hslice : slices[k]? = some slice) :
    slice.offset = rowsOf (slices.take k) := by
  have hgen : ∀ (slices : List ParquetBatchSlice) (first k : ℕ),
      Tiles first (slices.map ParquetBatchSlice.piece) last → slices[k]? = some slice →
        slice.offset = first + rowsOf (slices.take k) := by
    intro slices
    induction slices with
    | nil => intro first k _ hnone; exact absurd hnone (by simp)
    | cons head rest ih =>
      rintro first (_ | k) ⟨hoffset, _, hrest⟩ hget
      · cases hget
        exact hoffset
      · have hlater := ih _ k hrest hget
        have hcons : rowsOf ((head :: rest).take (k + 1)) = head.rows + rowsOf (rest.take k) :=
          List.sum_cons
        have hpiece : head.piece.2 = head.rows := rfl
        omega
  exact (hgen slices 0 k htiles hslice).trans (Nat.zero_add _)

theorem take_succ {k : ℕ} {slice : ParquetBatchSlice} (hslice : slices[k]? = some slice) :
    slices.take (k + 1) = slices.take k ++ [slice] := by
  rw [List.take_add_one, hslice]
  rfl

/-- **One call**: the slices gone through, the rows returned and the bytes evicted go on
together. -/
theorem At.next {last : ℕ} (h : At slices bytes content state)
    (htiles : Tiles 0 (slices.map ParquetBatchSlice.piece) last) {readSlice : ReadSlice Row}
    (hread : SlicesOf content readSlice) : At slices bytes content (state.next readSlice) := by
  obtain ⟨hslices, hbytes, hwithin, hreturned, hdiscarded, hreleased⟩ := h
  unfold Iteration.next SequentialParquetReader.nextBatch
  rw [hslices]
  cases hslice : slices[state.reader.nextSlice]? with
  | none =>
    -- past the last slice: the cache is given up, once
    have hend : state.reader.nextSlice = slices.length :=
      le_antisymm hwithin (List.getElem?_eq_none_iff.mp hslice)
    by_cases hcache : state.reader.cacheReleased
    · have hsame : state.reader.releaseCache = (state.reader, []) := if_pos hcache
      refine ⟨?_, ?_, ?_, ?_, ?_, ?_⟩
      all_goals simp only [hsame, List.append_nil]
      all_goals assumption
    · have hnew : state.reader.releaseCache
          = ({ state.reader with cacheReleased := true }, [(0, state.reader.bytes)]) :=
            if_neg hcache
      rw [if_neg hcache, List.append_nil] at hdiscarded
      refine ⟨?_, ?_, ?_, ?_, ?_, ?_⟩
      all_goals simp only [hnew]
      · exact hslices
      · exact hbytes
      · exact hwithin
      · exact hreturned
      · rw [hdiscarded, hbytes]
        rfl
      · exact fun _ => hend
  | some slice =>
    have hopen : ¬state.reader.cacheReleased := fun hcache => by
      rw [hreleased hcache, List.getElem?_eq_none (le_refl _)] at hslice
      cases hslice
    rw [if_neg hopen, List.append_nil] at hdiscarded
    have hstay : At slices bytes content ⟨state.reader, state.returned, state.discarded ++ []⟩ :=
      ⟨hslices, hbytes, hwithin, hreturned, by rw [if_neg hopen, hdiscarded], hreleased⟩
    cases hframe : readSlice slice.offset slice.rows with
    | error error =>
      simp only [hframe]
      exact hstay
    | ok frame =>
      simp only [hframe]
      by_cases hheight : frame.length = slice.rows
      · rw [if_pos hheight]
        have hlt : state.reader.nextSlice < slices.length := (List.getElem?_eq_some_iff.mp hslice).1
        have hgrown : rowsOf (slices.take (state.reader.nextSlice + 1))
            = rowsOf (slices.take state.reader.nextSlice) + slice.rows := by
          rw [take_succ hslice, rowsOf_append]
          rfl
        refine ⟨rfl, hbytes, hlt, ?_, ?_, fun hcache => absurd hcache hopen⟩
        · show state.returned ++ frame = content.take _
          rw [hgrown, List.take_add, hreturned, hread _ _ _ hframe hheight,
            offset_eq htiles hslice]
        · show state.discarded ++ slice.completedByteRange.toList
            = rangesOf (slices.take (state.reader.nextSlice + 1)) ++ if _ then _ else []
          rw [if_neg hopen, take_succ hslice, rangesOf_append, hdiscarded, List.append_nil,
            rangesOf_singleton]
      · rw [if_neg hheight]
        exact hstay

/-- A read that does not fail takes the caller to the next slice. -/
theorem nextSlice_next {last : ℕ} (h : At slices bytes content state)
    (htiles : Tiles 0 (slices.map ParquetBatchSlice.piece) last) (hlast : last = content.length)
    {readSlice : ReadSlice Row} (hread : ReadsAll content readSlice) :
    (state.next readSlice).reader.nextSlice = min (state.reader.nextSlice + 1) slices.length := by
  unfold Iteration.next SequentialParquetReader.nextBatch
  rw [h.slices_eq]
  cases hslice : slices[state.reader.nextSlice]? with
  | none =>
    have hend : slices.length ≤ state.reader.nextSlice := List.getElem?_eq_none_iff.mp hslice
    have hsame : state.reader.releaseCache.1.nextSlice = state.reader.nextSlice := by
      unfold SequentialParquetReader.releaseCache
      split <;> rfl
    have hle := h.within
    show state.reader.releaseCache.1.nextSlice = _
    omega
  | some slice =>
    have hmem : slice.piece ∈ slices.map ParquetBatchSlice.piece :=
      List.mem_map_of_mem (List.mem_of_getElem? hslice)
    have hinside : slice.offset + slice.rows ≤ last := (htiles.mem hmem).2.2
    have hlt : state.reader.nextSlice < slices.length := (List.getElem?_eq_some_iff.mp hslice).1
    have hheight : ((content.drop slice.offset).take slice.rows).length = slice.rows := by
      rw [List.length_take, List.length_drop]
      omega
    have hframe := hread slice.offset slice.rows (by omega)
    simp only [hframe]
    rw [if_pos hheight]
    show state.reader.nextSlice + 1 = _
    omega

/-- Every run of calls stands where its slices say. -/
theorem At.iterate {reader : SequentialParquetReader} {last : ℕ}
    (htiles : Tiles 0 (reader.slices.map ParquetBatchSlice.piece) last)
    (hfresh : reader.nextSlice = 0) (hcache : reader.cacheReleased = false)
    (reads : List (ReadSlice Row)) (hreads : ∀ readSlice ∈ reads, SlicesOf content readSlice) :
    At reader.slices reader.bytes content (iterate reader reads) := by
  have hstart : At reader.slices reader.bytes content ⟨reader, [], []⟩ := by
    refine ⟨rfl, rfl, ?_, ?_, ?_, ?_⟩
    · show reader.nextSlice ≤ _
      omega
    · show [] = content.take (rowsOf (reader.slices.take reader.nextSlice))
      rw [hfresh]
      rfl
    · show [] = rangesOf (reader.slices.take reader.nextSlice) ++ if _ then _ else []
      rw [hfresh, hcache]
      rfl
    · intro hreleased
      exact absurd (hcache.symm.trans hreleased) (by simp)
  exact List.foldlRecOn reads _ hstart fun state h readSlice hmem =>
    h.next htiles (hreads readSlice hmem)

/-- Calls that do not fail go through the slices. -/
theorem nextSlice_iterate {reader : SequentialParquetReader}
    (htiles : Tiles 0 (reader.slices.map ParquetBatchSlice.piece) content.length)
    (hfresh : reader.nextSlice = 0) (hcache : reader.cacheReleased = false)
    (reads : List (ReadSlice Row)) (hreads : ∀ readSlice ∈ reads, SlicesOf content readSlice)
    (hall : ∀ readSlice ∈ reads, ReadsAll content readSlice) :
    (iterate reader reads).reader.nextSlice = min reads.length reader.slices.length := by
  induction reads using List.reverseRecOn with
  | nil =>
    show reader.nextSlice = _
    rw [List.length_nil, Nat.zero_min, hfresh]
  | append_singleton earlier readSlice ih =>
    have hbefore := At.iterate htiles hfresh hcache earlier
      fun other hmem => hreads other (List.mem_append_left _ hmem)
    have hcalls := ih (fun other hmem => hreads other (List.mem_append_left _ hmem))
      fun other hmem => hall other (List.mem_append_left _ hmem)
    have hrun : iterate reader (earlier ++ [readSlice]) = (iterate reader earlier).next readSlice :=
      List.foldl_append
    rw [hrun, nextSlice_next hbefore htiles rfl
      (hall readSlice (List.mem_append_right _ List.mem_cons_self)), hcalls, List.length_append,
      List.length_singleton]
    omega

end Step

/-- What holds at any time of a caller's calls. -/
structure Iterated (metadata : FileMetadata) (bytes : ℕ) (content : List Row)
    (state : Iteration Row) : Prop where
  /-- Every row once, in file order. -/
  in_order : state.returned = content.take state.returned.length
  /-- A row group is evicted once its rows were returned, and then only; the whole file is
  when there are no more. -/
  discarded : state.discarded = completedGroups metadata.rowGroups state.returned.length ++
    if state.reader.cacheReleased then [(0, bytes)] else []
  released : state.reader.cacheReleased → state.returned = content
  /-- `next_batch` says that it is done exactly when everything was returned. -/
  exhausted : ∀ readSlice : ReadSlice Row,
    (state.reader.nextBatch readSlice).1 = .ok none ↔ state.returned = content

/-- A reader as the constructor leaves it. -/
structure Built (bytes : ℕ) (metadata : FileMetadata) (maximumBatchRows : ℕ)
    (reader : SequentialParquetReader) : Prop where
  bytes_eq : reader.bytes = bytes
  rows_eq : reader.rows = metadata.numRows
  sliced : Sliced maximumBatchRows 0 metadata.rowGroups reader.slices
  total : totalRows metadata.rowGroups = metadata.numRows
  fresh : reader.nextSlice = 0
  kept : reader.cacheReleased = false

section Construction

variable {bytes : ℕ} {metadata : FileMetadata} {reader : SequentialParquetReader}

theorem Built.tiles (h : Built bytes metadata maximumBatchRows reader) :
    Tiles 0 (reader.slices.map ParquetBatchSlice.piece) metadata.numRows := by
  have htiles := h.sliced.tiles
  rwa [Nat.zero_add, h.total] at htiles

theorem newWithStrategy_eq (hpos : 0 < maximumBatchRows) :
    newWithStrategy bytes metadata maximumBatchRows
      = sliceRowGroups maximumBatchRows hpos metadata.rowGroups [] 0 >>= fun built =>
        ensure (built.2 = metadata.numRows) "Parquet row-group totals disagree with footer" >>=
          fun _ => pure ⟨metadata, built.1, 0, metadata.numRows, bytes, false⟩ := by
  unfold newWithStrategy
  rw [dif_pos hpos]

theorem newWithStrategy_built (hpos : 0 < maximumBatchRows)
    (hranges : ∀ group ∈ metadata.rowGroups, group.fullByteRange.1 ≤ group.fullByteRange.2)
    (h : newWithStrategy bytes metadata maximumBatchRows = .ok reader) :
    Built bytes metadata maximumBatchRows reader := by
  rw [newWithStrategy_eq hpos] at h
  obtain ⟨built, hbuilt, hrest⟩ := bind_eq_ok.mp h
  obtain ⟨_, htotal, hreader⟩ := bind_eq_ok.mp hrest
  have hsum := ensure_eq_ok.mp htotal
  obtain ⟨hfits, hfails⟩ := sliceRowGroups_ok hpos metadata.rowGroups 0 [] (Nat.zero_le _) hranges
  obtain ⟨slices, hslices, hsliced⟩ := hfits (hfails built hbuilt)
  rw [hslices, List.nil_append, Nat.zero_add] at hbuilt
  cases hbuilt
  cases hreader
  exact ⟨rfl, rfl, hsliced, hsum, rfl, rfl⟩

/-- The constructor succeeds exactly when the row groups add up to the footer's rows. -/
theorem newWithStrategy_ok_iff (hpos : 0 < maximumBatchRows)
    (hranges : ∀ group ∈ metadata.rowGroups, group.fullByteRange.1 ≤ group.fullByteRange.2) :
    (∃ reader, newWithStrategy bytes metadata maximumBatchRows = .ok reader)
      ↔ totalRows metadata.rowGroups = metadata.numRows := by
  refine ⟨fun ⟨reader, h⟩ => (newWithStrategy_built hpos hranges h).total, fun htotal => ?_⟩
  have hle := metadata.numRows_le
  obtain ⟨slices, hslices, -⟩ := (sliceRowGroups_ok hpos metadata.rowGroups 0 [] (Nat.zero_le _)
    hranges).1 (by omega)
  refine ⟨⟨metadata, slices, 0, metadata.numRows, bytes, false⟩, ?_⟩
  rw [newWithStrategy_eq hpos, hslices, List.nil_append, Nat.zero_add, htotal]
  exact bind_eq_ok.mpr ⟨_, rfl, bind_eq_ok.mpr ⟨(), ensure_eq_ok.mpr rfl, rfl⟩⟩

theorem Built.iterated (h : Built bytes metadata maximumBatchRows reader)
    (hcontent : content.length = metadata.numRows) (reads : List (ReadSlice Row))
    (hreads : ∀ readSlice ∈ reads, SlicesOf content readSlice) :
    Iterated metadata bytes content (iterate reader reads) := by
  obtain ⟨hslices, hbytes, hwithin, hreturned, hdiscarded, hreleased⟩ :=
    At.iterate h.tiles h.fresh h.kept reads hreads
  set state := iterate reader reads
  have hsplit := rowsOf_append (reader.slices.take state.reader.nextSlice)
    (reader.slices.drop state.reader.nextSlice)
  have hall : rowsOf reader.slices = content.length := by
    have hsum := rowsOf_of_tiles h.tiles
    omega
  rw [List.take_append_drop] at hsplit
  have hlength : state.returned.length = rowsOf (reader.slices.take state.reader.nextSlice) := by
    rw [hreturned, List.length_take]
    omega
  have hwhole : state.reader.nextSlice = reader.slices.length → state.returned = content := by
    intro hend
    rw [hreturned, hend, List.take_length, hall, List.take_length]
  refine ⟨?_, ?_, fun hcache => hwhole (hreleased hcache), fun readSlice => ?_⟩
  · rw [hlength]
    exact hreturned
  · rw [hlength, ← h.sliced.rangesOf_take, ← h.bytes_eq]
    exact hdiscarded
  · rw [SequentialParquetReader.nextBatch_none_iff, hslices, List.getElem?_eq_none_iff]
    refine ⟨fun hle => hwhole (le_antisymm hwithin hle), fun heq => ?_⟩
    by_contra hlt
    -- a slice is left, and it is not empty
    have hpos := (h.sliced.bounded _ (List.getElem_mem (not_le.mp hlt))).1
    have hleft : rowsOf (reader.slices.drop state.reader.nextSlice)
        = reader.slices[state.reader.nextSlice].rows
          + rowsOf (reader.slices.drop (state.reader.nextSlice + 1)) := by
      rw [List.drop_eq_getElem_cons (not_le.mp hlt)]
      exact List.sum_cons
    have hlengths := congrArg List.length heq
    omega

end Construction

/-- **The slices tile the file**: the constructor fails exactly when the row groups do not add
up; its slices go through the row groups in order; and whatever calls fail, `next_batch`
returns every row once and evicts no row group early. -/
theorem sequential_slices (bytes : ℕ) (metadata : FileMetadata) (maximumBatchRows : ℕ)
    (hpos : 1 ≤ maximumBatchRows)
    (hranges : ∀ group ∈ metadata.rowGroups, group.fullByteRange.1 ≤ group.fullByteRange.2) :
    ((∃ reader, newWithStrategy bytes metadata maximumBatchRows = .ok reader)
        ↔ totalRows metadata.rowGroups = metadata.numRows) ∧
      ∀ reader, newWithStrategy bytes metadata maximumBatchRows = .ok reader →
        (∀ slice ∈ reader.slices, 0 < slice.rows ∧ slice.rows ≤ maximumBatchRows) ∧
        Tiles 0 (reader.slices.map ParquetBatchSlice.piece) metadata.numRows ∧
        Sliced maximumBatchRows 0 metadata.rowGroups reader.slices ∧
        ∀ (content : List Row), content.length = metadata.numRows →
          ∀ reads : List (ReadSlice Row), (∀ readSlice ∈ reads, SlicesOf content readSlice) →
            Iterated metadata bytes content (iterate reader reads) ∧
            ((∀ readSlice ∈ reads, ReadsAll content readSlice) →
              reader.slices.length ≤ reads.length →
              (iterate reader reads).returned = content) := by
  refine ⟨newWithStrategy_ok_iff hpos hranges, fun reader hreader => ?_⟩
  have hbuilt := newWithStrategy_built hpos hranges hreader
  refine ⟨hbuilt.sliced.bounded, hbuilt.tiles, hbuilt.sliced, fun content hcontent reads hreads =>
    ⟨hbuilt.iterated hcontent reads hreads, fun hall hlong => ?_⟩⟩
  have hat := At.iterate hbuilt.tiles hbuilt.fresh hbuilt.kept reads hreads
  have hend := nextSlice_iterate (hcontent ▸ hbuilt.tiles) hbuilt.fresh hbuilt.kept
    reads hreads hall
  have hsum := rowsOf_of_tiles hbuilt.tiles
  rw [Nat.min_eq_right hlong] at hend
  rw [hat.returned, hend, List.take_length]
  exact List.take_of_length_le (by omega)

end Iterating

/-! ## A file with an empty row group -/

/-- Five rows: three, none, and two. -/
def threeGroups : FileMetadata where
  numRows := 5
  rowGroups := [⟨3, (4, 90)⟩, ⟨0, (90, 90)⟩, ⟨2, (90, 140)⟩]
  numRows_le := Nat.le_of_ble_eq_true rfl

def fiveRows : List ℕ := [10, 11, 12, 13, 14]

/-- A read of the file that does not fail. -/
def readFive : ReadSlice ℕ := fun offset rows => .ok ((fiveRows.drop offset).take rows)

theorem slicesOf_readFive : SlicesOf fiveRows readFive := fun _ _ _ h _ => (Except.ok.inj h).symm

/-- The three slices, and the call that finds no more; and a call that fails on the way. -/
theorem sequential_slices_threeGroups : ∃ reader, newWithStrategy 200 threeGroups 2 = .ok reader ∧
    (iterate reader (List.replicate 4 readFive)).returned = fiveRows ∧
    Iterated threeGroups 200 fiveRows
      (iterate reader [readFive, fun _ _ => .error "I/O error", readFive]) := by
  have htotal : totalRows threeGroups.rowGroups = threeGroups.numRows := rfl
  obtain ⟨hiff, hslices⟩ := @sequential_slices ℕ 200 threeGroups 2 (by decide) (by decide)
  obtain ⟨reader, hreader⟩ := hiff.mpr htotal
  obtain ⟨-, -, -, hiterates⟩ := hslices reader hreader
  have hlength : reader.slices.length = 3 := by
    have hnew : (newWithStrategy 200 threeGroups 2).toOption.map (fun r => r.slices.length)
        = some 3 := by decide +kernel
    rw [hreader] at hnew
    exact Option.some.inj hnew
  refine ⟨reader, hreader, (hiterates fiveRows rfl _ ?_).2 ?_ ?_, (hiterates fiveRows rfl _ ?_).1⟩
  · intro readSlice hread
    rw [List.eq_of_mem_replicate hread]
    exact slicesOf_readFive
  · intro readSlice hread
    rw [List.eq_of_mem_replicate hread]
    exact fun _ _ _ => rfl
  · rw [hlength]
    decide
  · intro readSlice hread
    simp only [List.mem_cons, List.not_mem_nil, or_false] at hread
    rcases hread with rfl | rfl | rfl
    · exact slicesOf_readFive
    · exact fun _ _ _ h _ => by cases h
    · exact slicesOf_readFive

end WikiEcon.Storage
