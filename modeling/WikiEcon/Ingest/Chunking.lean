import Mathlib.Data.List.Flatten
import Mathlib.Data.Set.Basic
import WikiEcon.Ingest.Cleanup

/-!
# Chunking a source

A conversion that succeeds wrote the same rows whatever its chunk limit was. A chunk is a
run of whole lines, so the rows of the chunks are those of the lines; each chunk is split
by month, and its parts carry its index, so that reading a month's parts in ascending
index gives the month's rows back in source order. `Written` is what holds of the chunks
flushed so far, and `Ingested` what a conversion that succeeds leaves.
-/

namespace WikiEcon.Ingest

open Compute Fallible

variable {ρ φ : Type}

/-! ## Roots and layers -/

/-- `IngestRoots::legacy`. -/
def IngestRoots.legacy (dataDir : Path) (wiki : String) : IngestRoots where
  analytical := dataDir ++ ["parquet", wiki]
  warehouse := dataDir ++ ["warehouse", wiki]
  metricInput := none

/-- `IngestRoots::snapshot`, for a version that is valid. -/
def IngestRoots.snapshot (dataDir : Path) (wiki snapshotVersion : String) : IngestRoots where
  analytical := dataDir ++ ["parquet", wiki, "_snapshots", snapshotVersion]
  warehouse := dataDir ++ ["warehouse", wiki, "_snapshots", snapshotVersion]
  metricInput := some (dataDir ++ ["metric-input", wiki, "_snapshots", snapshotVersion])

/-- The roots the program builds. -/
def IngestRoots.Constructed (roots : IngestRoots) : Prop :=
  ∃ dataDir wiki, roots = .legacy dataDir wiki ∨
    ∃ snapshotVersion, roots = .snapshot dataDir wiki snapshotVersion

inductive Layer
  | analytical
  | warehouse
  | metricInput
  deriving DecidableEq

/-- The root of a layer that parts are written to. -/
def IngestRoots.writes (roots : IngestRoots) : Layer → Option Path
  | .analytical => if roots.metricInput.isSome then none else some roots.analytical
  | .warehouse => if roots.metricInput.isSome then none else some roots.warehouse
  | .metricInput => roots.metricInput

def LayerOutputs.layer (outputs : LayerOutputs) : Layer → List Path
  | .analytical => outputs.analytical
  | .warehouse => outputs.warehouse
  | .metricInput => outputs.metricInput

theorem IngestRoots.Constructed.ne {roots : IngestRoots} (h : roots.Constructed) :
    roots.warehouse ≠ roots.analytical := by
  obtain ⟨dataDir, wiki, rfl | ⟨version, rfl⟩⟩ := h
  all_goals
    intro heq
    have htail := List.append_cancel_left heq
    exact absurd (List.cons.inj htail).1 (by decide)

/-- No two layers share a root. -/
theorem IngestRoots.Constructed.writes_inj {roots : IngestRoots} (h : roots.Constructed)
    {layer layer' : Layer} {root : Path} (hlayer : roots.writes layer = some root)
    (hlayer' : roots.writes layer' = some root) : layer = layer' := by
  have hne := h.ne
  cases hmetric : roots.metricInput with
  | none =>
    cases layer <;> cases layer' <;> simp_all [IngestRoots.writes]
  | some metric =>
    cases layer <;> cases layer' <;> simp_all [IngestRoots.writes]

/-! ## The paths of parts -/

def partPath (sourceId : String) (root : Path) (key : ℤ × String) (k : ℕ) : Path :=
  monthPartitionDir root key.1 key.2 ++ [partName sourceId k]

theorem toDigits_inj {m n : ℕ} (h : Nat.toDigits 10 m = Nat.toDigits 10 n) : m = n := by
  have hvalue : ∀ k : ℕ, Nat.ofDigitChars 10 (Nat.toDigits 10 k) 0 = k := fun k =>
    Nat.ofDigitChars_toDigits (by omega) (by omega)
  rw [← hvalue m, h, hvalue]

theorem toList_toString_int (a : ℤ) : (toString a).toList
    = if 0 ≤ a then Nat.toDigits 10 a.natAbs else '-' :: Nat.toDigits 10 a.natAbs := by
  cases a with
  | ofNat m =>
    show (Nat.repr m).toList = _
    rw [Nat.repr_eq_ofList_toDigits, String.toList_ofList]
    rfl
  | negSucc m =>
    show ("-" ++ Nat.repr (m + 1)).toList = _
    rw [String.toList_append, Nat.repr_eq_ofList_toDigits,
      @String.toList_ofList (Nat.toDigits 10 (m + 1))]
    rfl

theorem toString_int_inj {a b : ℤ} (h : toString a = toString b) : a = b := by
  have hlist := congrArg String.toList h
  rw [toList_toString_int, toList_toString_int] at hlist
  have hdash : ∀ {k : ℕ} {rest : List Char}, Nat.toDigits 10 k ≠ '-' :: rest := by
    intro k rest heq
    have hmem : '-' ∈ Nat.toDigits 10 k := heq ▸ List.mem_cons_self
    exact absurd (Nat.isDigit_of_mem_toDigits (by omega) (by omega) hmem) (by decide)
  by_cases ha : 0 ≤ a <;> by_cases hb : 0 ≤ b
  · rw [if_pos ha, if_pos hb] at hlist
    have := toDigits_inj hlist
    omega
  · rw [if_pos ha, if_neg hb] at hlist
    exact absurd hlist hdash
  · rw [if_neg ha, if_pos hb] at hlist
    exact absurd hlist.symm hdash
  · rw [if_neg ha, if_neg hb] at hlist
    have := toDigits_inj (List.cons.inj hlist).2
    omega

theorem string_append_cancel_left {a b c : String} (h : a ++ b = a ++ c) : b = c := by
  have hlist := congrArg String.toList h
  rw [String.toList_append, String.toList_append] at hlist
  exact String.toList_inj.mp (List.append_cancel_left hlist)

/-- The path of a part names its layer, its month and its chunk. -/
theorem partPath_inj {sourceId : String} {root root' : Path} {key key' : ℤ × String} {k k' : ℕ}
    (h : partPath sourceId root key k = partPath sourceId root' key' k') :
    root = root' ∧ key = key' ∧ k = k' := by
  obtain ⟨hdir, hname⟩ := append_singleton_inj h
  obtain ⟨hroot, hmonth⟩ := List.append_inj' hdir rfl
  obtain ⟨hyear, hrest⟩ := List.cons.inj hmonth
  exact ⟨hroot, Prod.ext (toString_int_inj (string_append_cancel_left hyear))
    (string_append_cancel_left (List.cons.inj hrest).1), (partName_inj hname).2⟩

theorem isPart_partPath (sourceId : String) (root : Path) (key : ℤ × String) (k : ℕ) :
    IsPart sourceId k (partPath sourceId root key k) := ⟨_, rfl⟩

/-! ## Lines -/

/-- Whole lines, the last of which need not end. -/
def Lined : List (List UInt8) → Prop
  | [] => True
  | line :: rest => (∃ body, 10 ∉ body ∧ line = body ++ [10]) ∧ Lined rest ∨
      (line ≠ [] ∧ 10 ∉ line ∧ rest = [])

theorem lined_readLines (bytes : List UInt8) : Lined (readLines bytes) := by
  induction bytes with
  | nil => exact trivial
  | cons byte rest ih =>
    unfold readLines
    by_cases hend : byte = 10
    · rw [if_pos hend, hend]
      exact Or.inl ⟨⟨[], List.not_mem_nil, rfl⟩, ih⟩
    · rw [if_neg hend]
      have hfirst : ∀ {line : List UInt8}, 10 ∉ line → 10 ∉ byte :: line := fun hline hmem =>
        (List.mem_cons.mp hmem).elim (fun heq => hend heq.symm) hline
      cases hlines : readLines rest with
      | nil => exact Or.inr ⟨by simp, hfirst List.not_mem_nil, rfl⟩
      | cons line lines =>
        rw [hlines] at ih
        rcases ih with ⟨⟨body, hbody, rfl⟩, hlater⟩ | ⟨-, hline, rfl⟩
        · exact Or.inl ⟨⟨byte :: body, hfirst hbody, rfl⟩, hlater⟩
        · exact Or.inr ⟨by simp, hfirst hline, rfl⟩

theorem readLines_cons_of_ne {byte : UInt8} {rest line : List UInt8} {lines : List (List UInt8)}
    (hne : byte ≠ 10) (h : readLines rest = line :: lines) :
    readLines (byte :: rest) = (byte :: line) :: lines := by
  rw [readLines, if_neg hne, h]

theorem readLines_line {body : List UInt8} (hbody : 10 ∉ body) (rest : List UInt8) :
    readLines (body ++ [10] ++ rest) = (body ++ [10]) :: readLines rest := by
  induction body with
  | nil => exact if_pos rfl
  | cons byte body ih =>
    have hne : byte ≠ 10 := fun heq => hbody (heq ▸ List.mem_cons_self)
    have hlater := ih fun hmem => hbody (List.mem_cons_of_mem _ hmem)
    exact readLines_cons_of_ne hne hlater

theorem readLines_unended {line : List UInt8} (hne : line ≠ []) (hline : 10 ∉ line) :
    readLines line = [line] := by
  induction line with
  | nil => exact absurd rfl hne
  | cons byte rest ih =>
    have hbyte : byte ≠ 10 := fun heq => hline (heq ▸ List.mem_cons_self)
    cases rest with
    | nil => exact if_neg hbyte
    | cons next rest =>
      exact readLines_cons_of_ne hbyte
        (ih (by simp) fun hmem => hline (List.mem_cons_of_mem _ hmem))

/-- A run of lines is read back as those lines. -/
theorem readLines_flatten : ∀ {lines : List (List UInt8)}, Lined lines →
    readLines lines.flatten = lines
  | [], _ => rfl
  | line :: rest, h => by
    rw [List.flatten_cons]
    rcases h with ⟨⟨body, hbody, rfl⟩, hrest⟩ | ⟨hne, hline, rfl⟩
    · rw [readLines_line hbody, readLines_flatten hrest]
    · rw [List.flatten_nil, List.append_nil]
      exact readLines_unended hne hline

theorem Lined.left : ∀ {earlier later : List (List UInt8)}, Lined (earlier ++ later) →
    Lined earlier
  | [], _, _ => trivial
  | _ :: earlier, later, h => by
    rcases h with ⟨hline, hrest⟩ | ⟨hne, hline, hnil⟩
    · exact Or.inl ⟨hline, hrest.left⟩
    · exact Or.inr ⟨hne, hline, (List.append_eq_nil_iff.mp hnil).1⟩

theorem Lined.right : ∀ {earlier later : List (List UInt8)}, Lined (earlier ++ later) → Lined later
  | [], _, h => h
  | _ :: _, _, h => by
    rcases h with ⟨-, hrest⟩ | ⟨-, -, hnil⟩
    · exact hrest.right
    · rw [(List.append_eq_nil_iff.mp hnil).2]
      exact trivial

theorem Lined.flatten_eq_nil : ∀ {lines : List (List UInt8)}, Lined lines → lines.flatten = [] →
    lines = []
  | [], _, _ => rfl
  | line :: rest, h, hempty => by
    have hline := (List.append_eq_nil_iff.mp (List.flatten_cons ▸ hempty)).1
    rcases h with ⟨⟨body, -, rfl⟩, -⟩ | ⟨hne, -, -⟩
    · exact absurd hline (by simp)
    · exact absurd hline hne

/-! ## Months -/

/-- The row is filed under the month. -/
def InMonth (key : ℤ × String) (row : NormalizedRow ρ) : Prop :=
  row.year = some key.1 ∧ row.yearMonth = some key.2

instance (key : ℤ × String) : DecidablePred (@InMonth ρ key) := fun _ => instDecidableAnd

def inMonth (key : ℤ × String) (rows : List (NormalizedRow ρ)) : List (NormalizedRow ρ) :=
  rows.filter fun row => InMonth key row

theorem inMonth_eq_nil_iff {key : ℤ × String} {rows : List (NormalizedRow ρ)} :
    inMonth key rows = [] ↔ ¬∃ row ∈ rows, InMonth key row := by
  unfold inMonth
  rw [List.filter_eq_nil_iff]
  simp

/-- What `build_partition_index` returns: each month with a row, once, with its rows. -/
structure Partitioned (rows : List (NormalizedRow ρ))
    (partitions : List ((ℤ × String) × List (NormalizedRow ρ))) : Prop where
  keys_nodup : (partitions.map Prod.fst).Nodup
  rows_eq : ∀ partition ∈ partitions, partition.2 = inMonth partition.1 rows
  key_iff : ∀ key, key ∈ partitions.map Prod.fst ↔ ∃ row ∈ rows, InMonth key row
  keyed : ∀ row ∈ rows, ∃ key, InMonth key row

theorem partitionKey_eq_ok {row : NormalizedRow ρ} {key : ℤ × String} :
    partitionKey row = .ok key ↔ InMonth key row := by
  unfold partitionKey
  constructor
  · intro h
    obtain ⟨year, hyear, hrest⟩ := bind_eq_ok.mp h
    obtain ⟨yearMonth, hmonth, hkey⟩ := bind_eq_ok.mp hrest
    cases hkey
    exact ⟨context_eq_ok.mp hyear, context_eq_ok.mp hmonth⟩
  · rintro ⟨hyear, hmonth⟩
    exact bind_eq_ok.mpr ⟨key.1, context_eq_ok.mpr hyear,
      bind_eq_ok.mpr ⟨key.2, context_eq_ok.mpr hmonth, rfl⟩⟩

theorem mapM_partitionKey : ∀ {rows : List (NormalizedRow ρ)} {keys : List (ℤ × String)},
    rows.mapM partitionKey = .ok keys → List.Forall₂ (fun row key => InMonth key row) rows keys
  | [], keys, h => by
    cases h
    exact .nil
  | row :: rest, keys, h => by
    rw [List.mapM_cons] at h
    obtain ⟨key, hkey, hlater⟩ := bind_eq_ok.mp h
    obtain ⟨later, hrest, heq⟩ := bind_eq_ok.mp hlater
    cases heq
    exact .cons (partitionKey_eq_ok.mp hkey) (mapM_partitionKey hrest)

theorem InMonth.unique {key key' : ℤ × String} {row : NormalizedRow ρ} (h : InMonth key row)
    (h' : InMonth key' row) : key = key' :=
  Prod.ext (Option.some.inj (h.1.symm.trans h'.1)) (Option.some.inj (h.2.symm.trans h'.2))

theorem mem_keys_iff {rows : List (NormalizedRow ρ)} {keys : List (ℤ × String)}
    (h : List.Forall₂ (fun row key => InMonth key row) rows keys) (key : ℤ × String) :
    key ∈ keys ↔ ∃ row ∈ rows, InMonth key row := by
  induction h with
  | nil => simp
  | cons hrow _ ih =>
    rw [List.mem_cons, ih]
    constructor
    · rintro (rfl | ⟨row, hlater, hin⟩)
      · exact ⟨_, List.mem_cons_self, hrow⟩
      · exact ⟨row, List.mem_cons_of_mem _ hlater, hin⟩
    · rintro ⟨row, hrows, hin⟩
      rcases List.mem_cons.mp hrows with rfl | hlater
      · exact Or.inl (hin.unique hrow)
      · exact Or.inr ⟨row, hlater, hin⟩

theorem exists_key {rows : List (NormalizedRow ρ)} {keys : List (ℤ × String)}
    (h : List.Forall₂ (fun row key => InMonth key row) rows keys) :
    ∀ row ∈ rows, ∃ key, InMonth key row := by
  induction h with
  | nil => simp
  | cons hrow _ ih =>
    intro row hrows
    rcases List.mem_cons.mp hrows with rfl | hlater
    · exact ⟨_, hrow⟩
    · exact ih row hlater

theorem buildPartitionIndex_ok {rows : List (NormalizedRow ρ)}
    {partitions : List ((ℤ × String) × List (NormalizedRow ρ))}
    (h : buildPartitionIndex rows = .ok partitions) : Partitioned rows partitions := by
  obtain ⟨keys, hkeys, hresult⟩ := bind_eq_ok.mp h
  cases hresult
  have hforall := mapM_partitionKey hkeys
  refine ⟨?_, ?_, ?_, exists_key hforall⟩
  · rw [List.map_map]
    show ((keys.dedup.insertionSort _).map id).Nodup
    rw [List.map_id]
    exact (List.perm_insertionSort _ _).nodup_iff.mpr (List.nodup_dedup keys)
  · intro partition hpartition
    obtain ⟨key, -, rfl⟩ := List.mem_map.mp hpartition
    rfl
  · intro key
    rw [List.map_map, ← mem_keys_iff hforall]
    show key ∈ (keys.dedup.insertionSort _).map id ↔ _
    rw [List.map_id, List.mem_insertionSort, List.mem_dedup]

/-! ## Writes -/

abbrev Write (ρ : Type) := Path × List (NormalizedRow ρ)

/-- These files were written whole, and nothing else but temporary files was touched. -/
structure Puts (c : Conversion ρ φ) (writes : List (Write ρ)) (w w' : Work ρ) : Prop where
  stored : ∀ write ∈ writes, w'.files write.1 = some (.whole write.2)
  other : ∀ p, p ∉ writes.map Prod.fst → ¬IsTemporary c p → w'.files p = w.files p
  chunkIdx : w'.chunkIdx = w.chunkIdx
  totalRows : w'.totalRows = w.totalRows
  outputs : w'.outputs = w.outputs
  chunkBytes : w'.chunkBytes = w.chunkBytes

theorem Puts.refl (c : Conversion ρ φ) (w : Work ρ) : Puts c [] w w where
  stored _ h := absurd h List.not_mem_nil
  other _ _ _ := rfl
  chunkIdx := rfl
  totalRows := rfl
  outputs := rfl
  chunkBytes := rfl

/-- Writes to other paths follow: what was stored stays. -/
theorem Puts.append {c : Conversion ρ φ} {earlier later : List (Write ρ)} {w w' w'' : Work ρ}
    (h : Puts c earlier w w') (h' : Puts c later w' w'')
    (hparts : ∀ write ∈ earlier, ¬IsTemporary c write.1)
    (hnodup : ((earlier ++ later).map Prod.fst).Nodup) : Puts c (earlier ++ later) w w'' where
  stored write hwrite := by
    rw [List.map_append] at hnodup
    rcases List.mem_append.mp hwrite with hearlier | hlater
    · have hnot : write.1 ∉ later.map Prod.fst := fun hmem =>
        (List.nodup_append.mp hnodup).2.2 _ (List.mem_map_of_mem hearlier) _ hmem rfl
      rw [h'.other _ hnot (hparts write hearlier)]
      exact h.stored write hearlier
    · exact h'.stored write hlater
  other p hp htemp := by
    rw [List.map_append, List.mem_append, not_or] at hp
    exact (h'.other p hp.2 htemp).trans (h.other p hp.1 htemp)
  chunkIdx := h'.chunkIdx.trans h.chunkIdx
  totalRows := h'.totalRows.trans h.totalRows
  outputs := h'.outputs.trans h.outputs
  chunkBytes := h'.chunkBytes.trans h.chunkBytes

theorem Puts.of_put {c : Conversion ρ φ} (w : Work ρ) (dest : Path)
    (rows : List (NormalizedRow ρ)) {files : Path → Option (File ρ)} {written : List Path}
    (hfiles : ∀ p, p ≠ dest → ¬IsTemporary c p → files p = w.files p)
    (hdest : files dest = some (.whole rows)) :
    Puts c [(dest, rows)] w { w with files := files, written := written } where
  stored write hwrite := by
    rw [List.mem_singleton.mp hwrite]
    exact hdest
  other p hp htemp := hfiles p (fun heq => hp (List.mem_singleton.mpr heq)) htemp
  chunkIdx := rfl
  totalRows := rfl
  outputs := rfl
  chunkBytes := rfl

theorem writeParquet_puts {c : Conversion ρ φ} {rows : List (NormalizedRow ρ)} {directory : Path}
    {k : ℕ} {w w' : Work ρ} {u : Unit}
    (h : (writeParquet c rows directory (partName c.sourceId k)).exec w = (.ok u, w')) :
    Puts c [(directory ++ [partName c.sourceId k], rows)] w w' := by
  have hput : ∀ written : List Path, Puts c [(directory ++ [partName c.sourceId k], rows)] w
      { w with
        files := Function.update w.files (directory ++ [partName c.sourceId k]) (some (.whole rows))
        written := written } := fun written =>
    .of_put w _ rows (fun p hne _ => Function.update_of_ne hne ..) (Function.update_self ..)
  unfold writeParquet at h
  dsimp only at h
  cases htx : c.transactionId with
  | none =>
    rw [htx] at h
    cases hfault : c.fault (directory ++ [partName c.sourceId k]) with
    | none =>
      rw [hfault] at h
      obtain ⟨-, rfl⟩ := Prod.mk.inj h
      exact hput _
    | some fault =>
      rw [hfault] at h
      -- without a rename the directory is not synchronized
      cases fault with
      | afterRename =>
        obtain ⟨-, rfl⟩ := Prod.mk.inj h
        exact hput _
      | directory => exact absurd (Prod.mk.inj h).1 (by simp)
      | create => exact absurd (Prod.mk.inj h).1 (by simp)
      | inFile => exact absurd (Prod.mk.inj h).1 (by simp)
  | some t =>
    rw [htx] at h
    have htemp : IsTemporary c (directory ++ [temporaryName (partName c.sourceId k) t]) :=
      ⟨directory, k, t, htx, rfl⟩
    have hpart : ¬IsTemporary c (directory ++ [partName c.sourceId k]) :=
      IsPart.not_temporary ⟨directory, rfl⟩
    have hne : directory ++ [partName c.sourceId k]
        ≠ directory ++ [temporaryName (partName c.sourceId k) t] := fun heq => hpart (heq ▸ htemp)
    cases hfault : c.fault (directory ++ [partName c.sourceId k]) with
    | none =>
      rw [hfault] at h
      obtain ⟨-, rfl⟩ := Prod.mk.inj h
      refine .of_put w _ rows (fun p hp hnot => ?_) ?_
      · have hother : p ≠ directory ++ [temporaryName (partName c.sourceId k) t] := fun heq =>
          hnot (heq ▸ htemp)
        show Function.update (Function.update (Function.update w.files _ _) _ _) _ _ p = _
        rw [Function.update_of_ne hother, Function.update_of_ne hp, Function.update_of_ne hother]
      · show Function.update (Function.update (Function.update w.files _ _) _ _) _ _ _ = _
        rw [Function.update_of_ne hne, Function.update_self]
    | some fault =>
      rw [hfault] at h
      cases fault with
      | directory => exact absurd (Prod.mk.inj h).1 (by simp)
      | create => exact absurd (Prod.mk.inj h).1 (by simp)
      | inFile => exact absurd (Prod.mk.inj h).1 (by simp)
      | afterRename => exact absurd (Prod.mk.inj h).1 (by simp)

/-- The writes of one partition, in order. -/
def partitionWrites (c : Conversion ρ φ) (k : ℕ)
    (partition : (ℤ × String) × List (NormalizedRow ρ)) : List (Write ρ) :=
  (partitionPaths c k partition.1).map fun p => (p, partition.2)

/-- A write of a partition goes to its part in one of the layers. -/
theorem mem_partitionWrites {c : Conversion ρ φ} {k : ℕ}
    {partition : (ℤ × String) × List (NormalizedRow ρ)} {write : Write ρ} :
    write ∈ partitionWrites c k partition ↔ ∃ layer root, c.roots.writes layer = some root ∧
      write = (partPath c.sourceId root partition.1 k, partition.2) := by
  unfold partitionWrites partitionPaths partitionDirs partPath
  cases hroots : c.roots.metricInput with
  | some metric =>
    simp only [List.map_cons, List.map_nil, List.mem_singleton]
    constructor
    · rintro rfl
      exact ⟨.metricInput, metric, hroots, rfl⟩
    · rintro ⟨layer, root, hlayer, rfl⟩
      cases layer <;> simp_all [IngestRoots.writes]
  | none =>
    simp only [List.map_cons, List.map_nil, List.mem_cons, List.not_mem_nil, or_false]
    constructor
    · rintro (rfl | rfl)
      · exact ⟨.warehouse, c.roots.warehouse, by simp [IngestRoots.writes, hroots], rfl⟩
      · exact ⟨.analytical, c.roots.analytical, by simp [IngestRoots.writes, hroots], rfl⟩
    · rintro ⟨layer, root, hlayer, rfl⟩
      cases layer <;> simp_all [IngestRoots.writes]

theorem nodup_partitionWrites {c : Conversion ρ φ} (hroots : c.roots.Constructed) (k : ℕ)
    (partition : (ℤ × String) × List (NormalizedRow ρ)) :
    ((partitionWrites c k partition).map Prod.fst).Nodup := by
  have hne := hroots.ne
  unfold partitionWrites partitionPaths partitionDirs
  cases c.roots.metricInput with
  | some metric => exact List.nodup_singleton _
  | none =>
    refine List.nodup_cons.mpr ⟨fun hmem => ?_, List.nodup_singleton _⟩
    exact hne (partPath_inj (List.mem_singleton.mp hmem)).1

theorem not_temporary_of_mem {c : Conversion ρ φ} {k : ℕ}
    {partition : (ℤ × String) × List (NormalizedRow ρ)} {write : Write ρ}
    (h : write ∈ partitionWrites c k partition) : ¬IsTemporary c write.1 := by
  obtain ⟨_, root, -, rfl⟩ := mem_partitionWrites.mp h
  exact (isPart_partPath c.sourceId root partition.1 k).not_temporary

theorem nodup_flatMap_partitionWrites {c : Conversion ρ φ} (hroots : c.roots.Constructed) (k : ℕ)
    {partitions : List ((ℤ × String) × List (NormalizedRow ρ))}
    (hkeys : (partitions.map Prod.fst).Nodup) :
    ((partitions.flatMap (partitionWrites c k)).map Prod.fst).Nodup := by
  induction partitions with
  | nil => exact List.nodup_nil
  | cons partition rest ih =>
    obtain ⟨hfirst, hrest⟩ := List.nodup_cons.mp (List.map_cons ▸ hkeys)
    rw [List.flatMap_cons, List.map_append, List.nodup_append]
    refine ⟨nodup_partitionWrites hroots k partition, ih hrest, ?_⟩
    rintro p hp q hq rfl
    obtain ⟨write, hwrite, rfl⟩ := List.mem_map.mp hp
    obtain ⟨_, root, -, rfl⟩ := mem_partitionWrites.mp hwrite
    obtain ⟨write', hwrite', heq⟩ := List.mem_map.mp hq
    obtain ⟨other, hother, hmem⟩ := List.mem_flatMap.mp hwrite'
    obtain ⟨_, root', -, rfl⟩ := mem_partitionWrites.mp hmem
    -- the same path would be the same month twice
    have hkey : other.1 = partition.1 := (partPath_inj heq).2.1
    exact hfirst (hkey ▸ List.mem_map_of_mem hother)

/-- The parts of a chunk in one layer, in order. -/
def layerParts (c : Conversion ρ φ) (k : ℕ)
    (partitions : List ((ℤ × String) × List (NormalizedRow ρ))) (layer : Layer) : List Path :=
  match c.roots.writes layer with
  | none => []
  | some root => partitions.map fun partition => partPath c.sourceId root partition.1 k

theorem writePartition_puts {c : Conversion ρ φ} (hroots : c.roots.Constructed) {k : ℕ}
    {outputs outputs' : LayerOutputs} {partition : (ℤ × String) × List (NormalizedRow ρ)}
    {w w' : Work ρ} (h : (writePartition c k outputs partition).exec w = (.ok outputs', w')) :
    Puts c (partitionWrites c k partition) w w' ∧
      ∀ layer, outputs'.layer layer = outputs.layer layer ++ layerParts c k [partition] layer := by
  have hnodup := nodup_partitionWrites hroots k partition
  have htemp := fun write => @not_temporary_of_mem ρ φ c k partition write
  unfold writePartition at h
  unfold partitionWrites partitionPaths partitionDirs at hnodup htemp ⊢
  unfold layerParts IngestRoots.writes
  cases hmetric : c.roots.metricInput with
  | some metric =>
    rw [hmetric] at h
    rcases bind_cases h with ⟨_, herror, -⟩ | ⟨_, left, hwrite, hrest⟩
    · exact absurd herror (by simp)
    · obtain ⟨heq, rfl⟩ := Prod.mk.inj hrest
      cases heq
      refine ⟨writeParquet_puts hwrite, fun layer => ?_⟩
      cases layer <;> simp [LayerOutputs.layer, partPath]
  | none =>
    rw [hmetric] at h hnodup htemp
    rcases bind_cases h with ⟨_, herror, -⟩ | ⟨_, left, hwrite, hrest⟩
    · exact absurd herror (by simp)
    · rcases bind_cases hrest with ⟨_, herror, -⟩ | ⟨_, left', hwrite', hrest'⟩
      · exact absurd herror (by simp)
      · obtain ⟨heq, rfl⟩ := Prod.mk.inj hrest'
        cases heq
        refine ⟨(writeParquet_puts hwrite).append (writeParquet_puts hwrite') ?_ hnodup,
          fun layer => ?_⟩
        · exact fun write hmem =>
            htemp write (List.mem_cons.mpr (Or.inl (List.mem_singleton.mp hmem)))
        · cases layer <;> simp [LayerOutputs.layer, partPath]

theorem layerParts_cons (c : Conversion ρ φ) (k : ℕ)
    (partition : (ℤ × String) × List (NormalizedRow ρ))
    (rest : List ((ℤ × String) × List (NormalizedRow ρ))) (layer : Layer) :
    layerParts c k (partition :: rest) layer
      = layerParts c k [partition] layer ++ layerParts c k rest layer := by
  unfold layerParts
  cases c.roots.writes layer <;> rfl

theorem writePartitions_puts {c : Conversion ρ φ} (hroots : c.roots.Constructed) {k : ℕ} :
    ∀ {partitions : List ((ℤ × String) × List (NormalizedRow ρ))} {outputs outputs' : LayerOutputs}
      {w w' : Work ρ}, (partitions.map Prod.fst).Nodup →
      (writePartitions c k partitions outputs).exec w = (.ok outputs', w') →
      Puts c (partitions.flatMap (partitionWrites c k)) w w' ∧
        ∀ layer, outputs'.layer layer = outputs.layer layer ++ layerParts c k partitions layer := by
  intro partitions
  induction partitions with
  | nil =>
    intro outputs outputs' w w' _ h
    obtain ⟨heq, rfl⟩ := Prod.mk.inj h
    cases heq
    refine ⟨.refl c w, fun layer => ?_⟩
    unfold layerParts
    cases c.roots.writes layer <;> simp
  | cons partition rest ih =>
    intro outputs outputs' w w' hkeys h
    have hnodup := nodup_flatMap_partitionWrites hroots k hkeys
    rcases bind_cases h with ⟨_, herror, -⟩ | ⟨next, left, hfirst, hrest⟩
    · exact absurd herror (by simp)
    · obtain ⟨hput, hnext⟩ := writePartition_puts hroots hfirst
      obtain ⟨hputs, hlater⟩ := ih (List.nodup_cons.mp (List.map_cons ▸ hkeys)).2 hrest
      rw [List.flatMap_cons] at hnodup ⊢
      refine ⟨hput.append hputs (fun write => not_temporary_of_mem) hnodup, fun layer => ?_⟩
      rw [hlater, hnext, layerParts_cons c k partition rest, List.append_assoc]

/-! ## Chunks -/

/-- The reader parses each line independently of its neighbours: where a chunk parses and
normalizes, its rows are those of its lines. -/
def LineByLine (c : Conversion ρ φ) (rowsOf : List UInt8 → List (NormalizedRow ρ)) : Prop :=
  ∀ bytes parsed rows, c.parseIngestChunk bytes = .ok parsed →
    c.normalizeRevisionChunk parsed = .ok rows → rows = (readLines bytes).flatMap rowsOf

/-- What holds once these chunks were flushed, each with its rows. -/
structure Written (c : Conversion ρ φ) (chunks : List (List (NormalizedRow ρ))) (w : Work ρ) :
    Prop where
  total : w.totalRows = chunks.flatten.length
  listed : ∀ layer p, p ∈ w.outputs.layer layer ↔ ∃ root key k rows,
    c.roots.writes layer = some root ∧ chunks[k]? = some rows ∧ (∃ row ∈ rows, InMonth key row) ∧
      p = partPath c.sourceId root key k
  nodup : ∀ layer, (w.outputs.layer layer).Nodup
  stored : ∀ layer root key k rows, c.roots.writes layer = some root → chunks[k]? = some rows →
    (∃ row ∈ rows, InMonth key row) →
      w.files (partPath c.sourceId root key k) = some (.whole (inMonth key rows))
  keyed : ∀ row ∈ chunks.flatten, ∃ key, InMonth key row

theorem Written.start (c : Conversion ρ φ) (files : Path → Option (File ρ)) :
    Written c [] ({ files := files } : Work ρ) where
  total := rfl
  listed layer p := by
    constructor
    · intro h
      cases layer <;> exact absurd h List.not_mem_nil
    · rintro ⟨_, _, _, _, -, hchunk, -⟩
      exact absurd hchunk (by simp)
  nodup layer := by cases layer <;> exact List.nodup_nil
  stored _ _ _ _ _ _ hchunk := absurd hchunk (by simp)
  keyed _ h := absurd h List.not_mem_nil

theorem getElem?_snoc {α : Type} {l : List α} {a b : α} {k : ℕ} :
    (l ++ [a])[k]? = some b ↔ l[k]? = some b ∨ k = l.length ∧ b = a := by
  rcases Nat.lt_trichotomy k l.length with hlt | rfl | hgt
  · rw [List.getElem?_append_left hlt]
    exact ⟨Or.inl, fun h => h.elim id fun ⟨heq, _⟩ => absurd heq (by omega)⟩
  · simp [eq_comm]
  · rw [List.getElem?_eq_none (by simp; omega), List.getElem?_eq_none (by omega)]
    exact ⟨fun h => absurd h (by simp), fun h => h.elim (fun h => absurd h (by simp))
      fun ⟨heq, _⟩ => absurd heq (by omega)⟩

/-- A chunk that flushes: its rows are split by month, and its parts are written. -/
theorem flushChunk_ok {c : Conversion ρ φ} (hroots : c.roots.Constructed)
    {rowsOf : List UInt8 → List (NormalizedRow ρ)} (hlines : LineByLine c rowsOf)
    {w w' : Work ρ} {result : ℕ × LayerOutputs} (hsome : w.chunkBytes ≠ [])
    (h : (flushChunk c).exec w = (.ok result, w')) :
    ∃ partitions, Partitioned ((readLines w.chunkBytes).flatMap rowsOf) partitions ∧
      result.1 = ((readLines w.chunkBytes).flatMap rowsOf).length ∧
      Puts c (partitions.flatMap (partitionWrites c w.chunkIdx)) { w with chunkBytes := [] } w' ∧
      ∀ layer, result.2.layer layer = layerParts c w.chunkIdx partitions layer := by
  unfold flushChunk at h
  rw [exec_read_bind, if_neg (by simpa using hsome), exec_update_bind] at h
  rcases lift_bind_cases h with ⟨_, herror, -⟩ | ⟨parsed, hparsed, h⟩
  · exact absurd herror (by simp)
  rcases lift_bind_cases h with ⟨_, herror, -⟩ | ⟨rows, hnormalized, h⟩
  · exact absurd herror (by simp)
  have hrows := hlines _ _ _ hparsed hnormalized
  rw [← hrows]
  by_cases hempty : rows.isEmpty = true
  · -- nothing is written, and the index is used up all the same
    rw [if_pos hempty] at h
    obtain ⟨heq, rfl⟩ := Prod.mk.inj h
    cases heq
    obtain rfl := List.isEmpty_iff.mp hempty
    refine ⟨[], ⟨List.nodup_nil, by simp, by simp, by simp⟩, rfl, .refl c _, fun layer => ?_⟩
    unfold layerParts
    cases c.roots.writes layer <;> cases layer <;> rfl
  · rw [if_neg hempty] at h
    rcases bind_cases h with ⟨_, herror, -⟩ | ⟨outputs, left, hwrite, hrest⟩
    · exact absurd herror (by simp)
    obtain ⟨heq, rfl⟩ := Prod.mk.inj hrest
    cases heq
    rcases lift_bind_cases hwrite with ⟨_, herror, -⟩ | ⟨partitions, hindex, hwrite⟩
    · exact absurd herror (by simp)
    have hpartitioned := buildPartitionIndex_ok hindex
    obtain ⟨hputs, houtputs⟩ := writePartitions_puts hroots hpartitioned.keys_nodup hwrite
    refine ⟨partitions, hpartitioned, rfl, hputs, fun layer => ?_⟩
    rw [houtputs]
    cases layer <;> exact List.nil_append _

theorem mem_layerParts {c : Conversion ρ φ} {k : ℕ} {rows : List (NormalizedRow ρ)}
    {partitions : List ((ℤ × String) × List (NormalizedRow ρ))}
    (h : Partitioned rows partitions) {layer : Layer} {p : Path} :
    p ∈ layerParts c k partitions layer ↔ ∃ root key, c.roots.writes layer = some root ∧
      (∃ row ∈ rows, InMonth key row) ∧ p = partPath c.sourceId root key k := by
  unfold layerParts
  cases hlayer : c.roots.writes layer with
  | none => simp
  | some root =>
    constructor
    · intro hmem
      obtain ⟨partition, hpartition, rfl⟩ := List.mem_map.mp hmem
      exact ⟨root, partition.1, rfl, (h.key_iff _).mp (List.mem_map_of_mem hpartition), rfl⟩
    · rintro ⟨root', key, hroot, hrow, rfl⟩
      obtain ⟨partition, hpartition, rfl⟩ := List.mem_map.mp ((h.key_iff key).mpr hrow)
      cases hroot
      exact List.mem_map_of_mem hpartition

theorem nodup_layerParts {c : Conversion ρ φ} {k : ℕ}
    {partitions : List ((ℤ × String) × List (NormalizedRow ρ))}
    (h : (partitions.map Prod.fst).Nodup) (layer : Layer) :
    (layerParts c k partitions layer).Nodup := by
  unfold layerParts
  cases c.roots.writes layer with
  | none => exact List.nodup_nil
  | some root =>
    have hmap : (partitions.map fun partition => partPath c.sourceId root partition.1 k)
        = (partitions.map Prod.fst).map fun key => partPath c.sourceId root key k := by
      rw [List.map_map]
      rfl
    show (partitions.map fun partition => partPath c.sourceId root partition.1 k).Nodup
    rw [hmap]
    exact h.map fun key key' heq => (partPath_inj heq).2.1

/-- **One flush**: the rows of the chunk join those written before, under the chunk's own
index. -/
theorem Written.flush {c : Conversion ρ φ} (hroots : c.roots.Constructed)
    {rowsOf : List UInt8 → List (NormalizedRow ρ)} (hlines : LineByLine c rowsOf)
    {chunks : List (List (NormalizedRow ρ))} {w w' : Work ρ} {u : Unit} (hw : Written c chunks w)
    (hidx : w.chunkIdx = chunks.length) (hsome : w.chunkBytes ≠ [])
    (h : (flushAndRemember c).exec w = (.ok u, w')) :
    Written c (chunks ++ [(readLines w.chunkBytes).flatMap rowsOf]) w' ∧
      w'.chunkIdx = w.chunkIdx ∧ w'.chunkBytes = [] := by
  rcases bind_cases h with ⟨_, herror, -⟩ | ⟨result, left, hflush, hrest⟩
  · exact absurd herror (by simp)
  obtain ⟨partitions, hparts, hcount, hputs, houtputs⟩ := flushChunk_ok hroots hlines hsome hflush
  obtain ⟨-, rfl⟩ := Prod.mk.inj hrest
  generalize (readLines w.chunkBytes).flatMap rowsOf = rows at *
  have hlayer : ∀ layer, ({ left with
      totalRows := left.totalRows + result.1
      outputs := {
        analytical := left.outputs.analytical ++ result.2.analytical
        warehouse := left.outputs.warehouse ++ result.2.warehouse
        metricInput := left.outputs.metricInput ++ result.2.metricInput } } : Work ρ).outputs.layer
          layer
      = w.outputs.layer layer ++ layerParts c chunks.length partitions layer := by
    intro layer
    rw [← hidx, ← houtputs, hputs.outputs.symm]
    cases layer <;> rfl
  -- a part of this chunk is no part of an earlier one
  have hnew : ∀ {root root' : Path} {key key' : ℤ × String} {k : ℕ}
    {rows' : List (NormalizedRow ρ)},
      chunks[k]? = some rows' →
      partPath c.sourceId root key k ≠ partPath c.sourceId root' key' chunks.length := by
    intro root root' key key' k rows' hchunk heq
    have hlt := (List.getElem?_eq_some_iff.mp hchunk).1
    have := (partPath_inj heq).2.2
    omega
  refine ⟨⟨?_, ?_, ?_, ?_, ?_⟩, hputs.chunkIdx, hputs.chunkBytes⟩
  · show left.totalRows + result.1 = _
    rw [hputs.totalRows, hcount, List.flatten_append, List.length_append, List.flatten_singleton]
    exact congrArg (· + rows.length) hw.total
  · intro layer p
    rw [hlayer, List.mem_append, hw.listed, mem_layerParts hparts]
    constructor
    · rintro (⟨root, key, k, rows', hroot, hchunk, hrow, rfl⟩ | ⟨root, key, hroot, hrow, rfl⟩)
      · exact ⟨root, key, k, rows', hroot, getElem?_snoc.mpr (Or.inl hchunk), hrow, rfl⟩
      · exact ⟨root, key, _, rows, hroot, getElem?_snoc.mpr (Or.inr ⟨rfl, rfl⟩), hrow, rfl⟩
    · rintro ⟨root, key, k, rows', hroot, hchunk, hrow, rfl⟩
      rcases getElem?_snoc.mp hchunk with hbefore | ⟨rfl, rfl⟩
      · exact Or.inl ⟨root, key, k, rows', hroot, hbefore, hrow, rfl⟩
      · exact Or.inr ⟨root, key, hroot, hrow, rfl⟩
  · intro layer
    rw [hlayer, List.nodup_append]
    refine ⟨hw.nodup layer, nodup_layerParts hparts.keys_nodup layer, ?_⟩
    rintro p hp q hq rfl
    obtain ⟨root, key, k, rows', -, hchunk, -, hpath⟩ := (hw.listed layer p).mp hp
    obtain ⟨root', key', -, -, hpath'⟩ := (mem_layerParts hparts).mp hq
    exact hnew hchunk (hpath.symm.trans hpath')
  · intro layer root key k rows' hroot hchunk hrow
    show left.files _ = _
    rcases getElem?_snoc.mp hchunk with hbefore | ⟨rfl, rfl⟩
    · have hnot : partPath c.sourceId root key k
          ∉ (partitions.flatMap (partitionWrites c w.chunkIdx)).map Prod.fst := by
        intro hmem
        obtain ⟨write, hwrite, heq⟩ := List.mem_map.mp hmem
        obtain ⟨partition, -, hpartition⟩ := List.mem_flatMap.mp hwrite
        obtain ⟨_, root', -, rfl⟩ := mem_partitionWrites.mp hpartition
        rw [hidx] at heq
        exact hnew hbefore heq.symm
      rw [hputs.other _ hnot (isPart_partPath ..).not_temporary]
      exact hw.stored layer root key k rows' hroot hbefore hrow
    · obtain ⟨partition, hpartition, rfl⟩ := List.mem_map.mp ((hparts.key_iff key).mpr hrow)
      rw [← hparts.rows_eq partition hpartition]
      refine hputs.stored (partPath c.sourceId root partition.1 chunks.length, partition.2)
        (List.mem_flatMap.mpr ⟨partition, hpartition, mem_partitionWrites.mpr ?_⟩)
      exact ⟨layer, root, hroot, by rw [hidx]⟩
  · intro row hrow
    rw [List.flatten_append, List.flatten_singleton] at hrow
    exact (List.mem_append.mp hrow).elim (hw.keyed row) (hparts.keyed row)

/-- **The loop**: the rows of the chunks and of the lines still in hand are those of all lines
read. -/
theorem convertLines_written {c : Conversion ρ φ} (hroots : c.roots.Constructed)
    {rowsOf : List UInt8 → List (NormalizedRow ρ)} (hlines : LineByLine c rowsOf)
    (lines : List (List UInt8)) :
    ∀ {pending : List (List UInt8)} {chunks : List (List (NormalizedRow ρ))}
      {w w' : Work ρ} {u : Unit},
      Lined (pending ++ lines) → w.chunkBytes = pending.flatten → w.chunkIdx = chunks.length →
      Written c chunks w → (convertLines c lines).exec w = (.ok u, w') →
      ∃ pending' chunks', Lined pending' ∧ w'.chunkBytes = pending'.flatten ∧
        w'.chunkIdx = chunks'.length ∧ Written c chunks' w' ∧
        chunks'.flatten ++ pending'.flatMap rowsOf
          = chunks.flatten ++ (pending ++ lines).flatMap rowsOf := by
  induction lines with
  | nil =>
    intro pending chunks w w' u hlined hbytes hidx hw h
    obtain ⟨-, rfl⟩ := Prod.mk.inj h
    rw [List.append_nil] at hlined ⊢
    exact ⟨pending, chunks, hlined, hbytes, hidx, hw, rfl⟩
  | cons line rest ih =>
    intro pending chunks w w' u hlined hbytes hidx hw h
    have hsplit : pending ++ line :: rest = (pending ++ [line]) ++ rest :=
      (List.append_cons pending line rest)
    rw [hsplit] at hlined ⊢
    have hadded : w.chunkBytes ++ line = (pending ++ [line]).flatten := by
      rw [hbytes, List.flatten_append, List.flatten_singleton]
    have hw' : Written c chunks { w with chunkBytes := w.chunkBytes ++ line } :=
      ⟨hw.total, hw.listed, hw.nodup, hw.stored, hw.keyed⟩
    unfold convertLines at h
    rw [exec_update_bind, exec_read_bind] at h
    -- Where the chunk is full its lines become a chunk of rows, and the pending lines start anew.
    by_cases hfull : c.chunkLimit ≤ (w.chunkBytes ++ line).length
    · rw [if_pos hfull] at h
      rcases bind_cases h with ⟨_, herror, -⟩ | ⟨_, left, hflush, hrest⟩
      · exact absurd herror (by simp)
      rw [exec_update_bind] at hrest
      have hsome : w.chunkBytes ++ line ≠ [] := fun hempty => by
        rw [hadded] at hempty
        exact absurd (hlined.left.flatten_eq_nil hempty) (by simp)
      obtain ⟨hwritten, hsame, hnone⟩ := hw'.flush hroots hlines hidx hsome hflush
      have hlined' := hlined.left
      rw [show ({ w with chunkBytes := w.chunkBytes ++ line } : Work ρ).chunkBytes
        = (pending ++ [line]).flatten from hadded, readLines_flatten hlined'] at hwritten
      have hcount : left.chunkIdx + 1
          = (chunks ++ [(pending ++ [line]).flatMap rowsOf]).length := by
        rw [hsame, List.length_append, List.length_singleton]
        exact congrArg (· + 1) hidx
      have hwritten' : Written c (chunks ++ [(pending ++ [line]).flatMap rowsOf])
          { left with chunkIdx := left.chunkIdx + 1 } :=
        ⟨hwritten.total, hwritten.listed, hwritten.nodup, hwritten.stored, hwritten.keyed⟩
      obtain ⟨pending', chunks', hpending, hbytes', hidx', hwritten'', hrows⟩ :=
        @ih [] _ { left with chunkIdx := left.chunkIdx + 1 } w' u
          (by rw [List.nil_append]; exact hlined.right) hnone hcount hwritten' hrest
      refine ⟨pending', chunks', hpending, hbytes', hidx', hwritten'', hrows.trans ?_⟩
      rw [List.flatten_append, List.flatten_singleton, List.nil_append, List.append_assoc,
        ← List.flatMap_append]
    · rw [if_neg hfull] at h
      exact @ih (pending ++ [line]) chunks { w with chunkBytes := w.chunkBytes ++ line } w' u hlined
        hadded hidx hw' h

/-! ## What is read back -/

/-- The rows of a file on disk. -/
def rowsAt (files : Path → Option (File ρ)) (p : Path) : List (NormalizedRow ρ) :=
  match files p with
  | some (.whole rows) => rows
  | _ => []

/-- The rows of a month in a layer: its parts, read in ascending chunk index. -/
def monthRows (c : Conversion ρ φ) (w : Work ρ) (layer : Layer) (key : ℤ × String) :
    List (NormalizedRow ρ) :=
  match c.roots.writes layer with
  | none => []
  | some root => (List.range (w.chunkIdx + 1)).flatMap fun k =>
      if partPath c.sourceId root key k ∈ w.outputs.layer layer then
        rowsAt w.files (partPath c.sourceId root key k)
      else []

theorem monthRows_of_root {c : Conversion ρ φ} {layer : Layer} {root : Path}
    (hroot : c.roots.writes layer = some root) (w : Work ρ) (key : ℤ × String) :
    monthRows c w layer key = (List.range (w.chunkIdx + 1)).flatMap fun k =>
      if partPath c.sourceId root key k ∈ w.outputs.layer layer then
        rowsAt w.files (partPath c.sourceId root key k)
      else [] := by
  unfold monthRows
  rw [hroot]

/-- The months of the paths the marker names. -/
def markerMonths (c : Conversion ρ φ) (outputs : LayerOutputs) : Set (ℤ × String) :=
  {key | ∃ layer root k, c.roots.writes layer = some root ∧
    partPath c.sourceId root key k ∈ outputs.layer layer}

/-- What a conversion of these rows leaves. -/
structure Ingested (c : Conversion ρ φ) (rows : List (NormalizedRow ρ)) (w : Work ρ) : Prop where
  total : w.totalRows = rows.length
  keyed : ∀ row ∈ rows, ∃ key, InMonth key row
  /-- In source order, in every layer that is written. -/
  month : ∀ layer root, c.roots.writes layer = some root → ∀ key,
    monthRows c w layer key = inMonth key rows
  months : markerMonths c w.outputs = {key | ∃ row ∈ rows, InMonth key row}
  parts : ∀ layer, ∀ p ∈ w.outputs.layer layer, ∃ root key k,
    c.roots.writes layer = some root ∧ k ≤ w.chunkIdx ∧ p = partPath c.sourceId root key k
  nodup : w.outputs.all.Nodup

/-- The conversion with another chunk limit. -/
def Conversion.withChunkLimit (c : Conversion ρ φ) (chunkLimit : ℕ) : Conversion ρ φ :=
  { c with chunkLimit }

theorem flatMap_range_getD {α β : Type} (f : List α → List β) (hnil : f [] = []) (l : List (List α))
    {n : ℕ} (hn : l.length ≤ n) :
    ((List.range n).flatMap fun k => f (l[k]?.getD [])) = l.flatMap f := by
  induction l using List.reverseRecOn generalizing n with
  | nil =>
    rw [List.flatMap_nil, List.flatMap_eq_nil_iff]
    intro k _
    exact hnil
  | append_singleton l a ih =>
    obtain ⟨n, rfl⟩ : ∃ m, n = l.length + 1 + m :=
      ⟨n - (l.length + 1), by rw [List.length_append, List.length_singleton] at hn; omega⟩
    have hlast : (l ++ [a])[l.length]?.getD [] = a := by simp
    have hlater : ((List.range n).map (l.length + 1 + ·)).flatMap
        (fun k => f ((l ++ [a])[k]?.getD [])) = [] := by
      rw [List.flatMap_eq_nil_iff]
      intro k hk
      obtain ⟨j, -, rfl⟩ := List.mem_map.mp hk
      rw [List.getElem?_eq_none (by rw [List.length_append, List.length_singleton]; omega)]
      exact hnil
    have hearlier : ((List.range l.length).flatMap fun k => f ((l ++ [a])[k]?.getD []))
        = (List.range l.length).flatMap fun k => f (l[k]?.getD []) := by
      refine List.flatMap_congr fun k hk => ?_
      rw [List.getElem?_append_left (List.mem_range.mp hk)]
    rw [List.range_add, List.flatMap_append, hlater, List.append_nil, List.range_succ,
      List.flatMap_append, hearlier, ih (le_refl _), List.flatMap_append]
    show l.flatMap f ++ (f ((l ++ [a])[l.length]?.getD []) ++ []) = l.flatMap f ++ (f a ++ [])
    rw [hlast]

/-- What the flushed chunks leave, once the last index is known. -/
theorem Written.ingested {c : Conversion ρ φ} (hroots : c.roots.Constructed)
    {chunks : List (List (NormalizedRow ρ))} {w : Work ρ} (hw : Written c chunks w)
    (hidx : chunks.length ≤ w.chunkIdx + 1) : Ingested c chunks.flatten w where
  total := hw.total
  keyed := hw.keyed
  month layer root hroot key := by
    have hpart : ∀ k, (if partPath c.sourceId root key k ∈ w.outputs.layer layer then
          rowsAt w.files (partPath c.sourceId root key k) else [])
        = inMonth key (chunks[k]?.getD []) := by
      intro k
      split
      next hmem =>
        obtain ⟨root', key', k', rows, hroot', hchunk, hrow, heq⟩ := (hw.listed layer _).mp hmem
        obtain ⟨rfl, rfl, rfl⟩ := partPath_inj heq
        unfold rowsAt
        rw [hw.stored layer root key k rows hroot' hchunk hrow, hchunk]
        rfl
      next hnot =>
        -- a part that is not written has no row
        cases hchunk : chunks[k]? with
        | none => rfl
        | some rows =>
          refine (inMonth_eq_nil_iff.mpr fun hrow => hnot ?_).symm
          exact (hw.listed layer _).mpr ⟨root, key, k, rows, hroot, hchunk, hrow, rfl⟩
    have hrange := flatMap_range_getD (inMonth key) rfl chunks hidx
    rw [monthRows_of_root hroot]
    simp only [hpart]
    rw [hrange]
    unfold inMonth
    rw [List.filter_flatten, List.flatMap_def]
  months := by
    ext key
    constructor
    · rintro ⟨layer, root, k, -, hmem⟩
      obtain ⟨root', key', k', rows, -, hchunk, ⟨row, hrow, hin⟩, heq⟩ :=
        (hw.listed layer _).mp hmem
      obtain ⟨-, rfl, -⟩ := partPath_inj heq
      exact ⟨row, List.mem_flatten.mpr ⟨rows, List.mem_of_getElem? hchunk, hrow⟩, hin⟩
    · rintro ⟨row, hrow, hin⟩
      obtain ⟨rows, hrows, hmem⟩ := List.mem_flatten.mp hrow
      obtain ⟨k, hchunk⟩ := List.getElem?_of_mem hrows
      obtain ⟨layer, root, hroot⟩ : ∃ layer root, c.roots.writes layer = some root := by
        cases hmetric : c.roots.metricInput with
        | some metric => exact ⟨.metricInput, metric, hmetric⟩
        | none => exact ⟨.warehouse, c.roots.warehouse, by simp [IngestRoots.writes, hmetric]⟩
      exact ⟨layer, root, k, hroot,
        (hw.listed layer _).mpr ⟨root, key, k, rows, hroot, hchunk, ⟨row, hmem, hin⟩, rfl⟩⟩
  parts layer p hp := by
    obtain ⟨root, key, k, rows, hroot, hchunk, -, rfl⟩ := (hw.listed layer p).mp hp
    have hlt := (List.getElem?_eq_some_iff.mp hchunk).1
    exact ⟨root, key, k, hroot, by omega, rfl⟩
  nodup := by
    have hdisjoint : ∀ layer layer', layer ≠ layer' → ∀ p ∈ w.outputs.layer layer,
        ∀ q ∈ w.outputs.layer layer', p ≠ q := by
      rintro layer layer' hne p hp q hq rfl
      obtain ⟨root, _, _, _, hroot, -, -, hpath⟩ := (hw.listed layer p).mp hp
      obtain ⟨root', _, _, _, hroot', -, -, hpath'⟩ := (hw.listed layer' p).mp hq
      obtain ⟨rfl, -⟩ := partPath_inj (hpath.symm.trans hpath')
      exact hne (hroots.writes_inj hroot hroot')
    show (w.outputs.layer .analytical ++ w.outputs.layer .warehouse
      ++ w.outputs.layer .metricInput).Nodup
    refine List.nodup_append.mpr ⟨List.nodup_append.mpr ⟨hw.nodup _, hw.nodup _,
      hdisjoint _ _ (by decide)⟩, hw.nodup _, fun p hp => ?_⟩
    rcases List.mem_append.mp hp with hanalytical | hwarehouse
    · exact hdisjoint .analytical .metricInput (by decide) p hanalytical
    · exact hdisjoint .warehouse .metricInput (by decide) p hwarehouse

/-- The loop and the last flush together. -/
theorem conversion_written {c : Conversion ρ φ} (hroots : c.roots.Constructed)
    {rowsOf : List UInt8 → List (NormalizedRow ρ)} (hlines : LineByLine c rowsOf) {source : Source}
    {files : Path → Option (File ρ)} {w : Work ρ} {u : Unit}
    (h : (conversion c source).exec { files := files } = (.ok u, w)) :
    ∃ chunks, Written c chunks w ∧ chunks.length ≤ w.chunkIdx + 1 ∧
      chunks.flatten = (sourceLines source).flatMap rowsOf := by
  rcases bind_cases h with ⟨_, herror, -⟩ | ⟨_, left, hloop, hrest⟩
  · exact absurd herror (by simp)
  rcases lift_bind_cases hrest with ⟨_, herror, -⟩ | ⟨_, hdecoded, hrest⟩
  · exact absurd herror (by simp)
  have hcorrupt : source.corrupt = false := ensure_eq_ok.mp hdecoded
  have hsource : sourceLines source = readLines source.bytes := by
    unfold sourceLines
    rw [if_neg (by simp [hcorrupt])]
  rw [hsource] at hloop ⊢
  obtain ⟨pending, chunks, hpending, hbytes, hidx, hwritten, hrows⟩ :=
    convertLines_written hroots hlines (readLines source.bytes)
      (show Lined ([] ++ readLines source.bytes) from lined_readLines source.bytes) rfl rfl
      (Written.start c files) hloop
  rw [List.flatten_nil, List.nil_append, List.nil_append] at hrows
  rw [exec_read_bind] at hrest
  by_cases hempty : left.chunkBytes.isEmpty = true
  · rw [if_pos hempty] at hrest
    obtain ⟨-, rfl⟩ := Prod.mk.inj hrest
    have hnone := hpending.flatten_eq_nil (hbytes.symm.trans (List.isEmpty_iff.mp hempty))
    refine ⟨chunks, hwritten, by omega, ?_⟩
    rwa [hnone, List.flatMap_nil, List.append_nil] at hrows
  · rw [if_neg hempty] at hrest
    obtain ⟨hwritten', hsame, -⟩ := hwritten.flush hroots hlines hidx
      (fun hnil => hempty (List.isEmpty_iff.mpr hnil)) hrest
    rw [hbytes, readLines_flatten hpending] at hwritten'
    refine ⟨chunks ++ [pending.flatMap rowsOf], hwritten', ?_, ?_⟩
    · rw [List.length_append, List.length_singleton, hsame, hidx]
    · rw [List.flatten_append, List.flatten_singleton]
      exact hrows

/-- The marker is written last. -/
def marked (c : Conversion ρ φ) (w : Work ρ) : Work ρ :=
  { w with files := Function.update w.files (markerPath c) (some (.manifest w.totalRows)) }

theorem convertFile_cases {c : Conversion ρ φ} {source : Source} {files : Path → Option (File ρ)}
    {paths : List Path} {w : Work ρ}
    (h : convertFileWithChunkLimit c source files = (.ok paths, w)) :
    c.markerIsValid = .ok true ∧ w = { files := files } ∨
      c.markerIsValid = .ok false ∧ ∃ left,
        (conversion c source).exec { files := files } = (.ok (), left) ∧ w = marked c left := by
  unfold convertFileWithChunkLimit at h
  cases hmarker : c.markerIsValid with
  | error e =>
    rw [hmarker] at h
    exact absurd (Prod.mk.inj h).1 (by simp)
  | ok valid =>
    rw [hmarker] at h
    cases valid with
    | true => exact Or.inl ⟨rfl, (Prod.mk.inj h).2.symm⟩
    | false =>
      dsimp only at h
      cases hrun : (conversion c source).exec { files := files } with
      | mk result left =>
        rw [hrun] at h
        cases result with
        | error e => exact absurd (Prod.mk.inj h).1 (by simp)
        | ok u =>
          dsimp only at h
          cases hwrite : c.writeMarkerManifest left.totalRows left.outputs with
          | error e =>
            rw [hwrite] at h
            exact absurd (Prod.mk.inj h).1 (by simp)
          | ok v =>
            rw [hwrite] at h
            exact Or.inr ⟨rfl, left, rfl, (Prod.mk.inj h).2.symm⟩

/-- A conversion that succeeds leaves the rows of the source's lines. -/
theorem convertFile_ingested {c : Conversion ρ φ} (hroots : c.roots.Constructed)
    {rowsOf : List UInt8 → List (NormalizedRow ρ)} (hlines : LineByLine c rowsOf) {source : Source}
    {files : Path → Option (File ρ)} {paths : List Path} {w : Work ρ}
    (hmarker : c.markerIsValid = .ok false)
    (h : convertFileWithChunkLimit c source files = (.ok paths, w)) :
    Ingested c ((sourceLines source).flatMap rowsOf) w := by
  rcases convertFile_cases h with ⟨htrue, -⟩ | ⟨-, left, hrun, rfl⟩
  · exact absurd (hmarker.symm.trans htrue) (by simp)
  obtain ⟨chunks, hwritten, hidx, hrows⟩ := conversion_written hroots hlines hrun
  rw [← hrows]
  -- the marker is none of the parts
  have hwritten' : Written c chunks (marked c left) := by
    refine ⟨hwritten.total, hwritten.listed, hwritten.nodup, ?_, hwritten.keyed⟩
    intro layer root key k rows hroot hchunk hrow
    show Function.update left.files _ _ _ = _
    rw [Function.update_of_ne (isPart_partPath ..).ne_marker]
    exact hwritten.stored layer root key k rows hroot hchunk hrow
  exact hwritten'.ingested hroots hidx

theorem monthRows_skipped (c : Conversion ρ φ) (files : Path → Option (File ρ)) (layer : Layer)
    (key : ℤ × String) : monthRows c { files := files } layer key = [] := by
  cases hroot : c.roots.writes layer with
  | none =>
    unfold monthRows
    rw [hroot]
  | some root =>
    rw [monthRows_of_root hroot, List.flatMap_eq_nil_iff]
    intro k _
    refine if_neg fun hmem => ?_
    cases layer <;> exact absurd hmem List.not_mem_nil

/-- **Chunking is invisible**: two conversions of a source that succeed leave the same rows in
each month and layer, the same total and the same months in the marker, whatever their chunk
limits; and unless the source was ingested before, these are the rows of its lines, in source
order, in parts that share no path. -/
theorem chunking_invisible (c : Conversion ρ φ) (hroots : c.roots.Constructed)
    (rowsOf : List UInt8 → List (NormalizedRow ρ)) (hlines : LineByLine c rowsOf) (source : Source)
    (limit limit' : ℕ) (files files' : Path → Option (File ρ)) {paths paths' : List Path}
    {w w' : Work ρ}
    (h : convertFileWithChunkLimit (c.withChunkLimit limit) source files = (.ok paths, w))
    (h' : convertFileWithChunkLimit (c.withChunkLimit limit') source files' = (.ok paths', w')) :
    (w.totalRows = w'.totalRows ∧
      (∀ layer key, monthRows c w layer key = monthRows c w' layer key) ∧
      markerMonths c w.outputs = markerMonths c w'.outputs) ∧
    (c.markerIsValid = .ok false →
      Ingested c ((sourceLines source).flatMap rowsOf) w ∧
        Ingested c ((sourceLines source).flatMap rowsOf) w') := by
  have hingested : ∀ {n : ℕ} {disk : Path → Option (File ρ)} {ps : List Path} {v : Work ρ},
      c.markerIsValid = .ok false →
      convertFileWithChunkLimit (c.withChunkLimit n) source disk = (.ok ps, v) →
      Ingested c ((sourceLines source).flatMap rowsOf) v := by
    intro n disk ps v hmarker hrun
    have hleft := @convertFile_ingested ρ φ (c.withChunkLimit n) hroots rowsOf hlines source disk ps
      v hmarker hrun
    exact ⟨hleft.total, hleft.keyed, hleft.month, hleft.months, hleft.parts, hleft.nodup⟩
  refine ⟨?_, fun hmarker => ⟨hingested hmarker h, hingested hmarker h'⟩⟩
  cases hvalid : c.markerIsValid with
  | error e =>
    rcases convertFile_cases h with ⟨hok, -⟩ | ⟨hok, -⟩
    · exact absurd (hvalid.symm.trans hok) (by simp)
    · exact absurd (hvalid.symm.trans hok) (by simp)
  | ok valid =>
    cases valid with
    | true =>
      have hskipped : ∀ {n : ℕ} {disk : Path → Option (File ρ)} {ps : List Path} {v : Work ρ},
          convertFileWithChunkLimit (c.withChunkLimit n) source disk = (.ok ps, v) →
          v = { files := disk } := by
        intro n disk ps v hrun
        rcases convertFile_cases hrun with ⟨-, heq⟩ | ⟨hok, -⟩
        · exact heq
        · exact absurd (hvalid.symm.trans hok) (by simp)
      rw [hskipped h, hskipped h']
      exact ⟨rfl, fun layer key => by rw [monthRows_skipped, monthRows_skipped], rfl⟩
    | false =>
      have hleft := hingested hvalid h
      have hright := hingested hvalid h'
      refine ⟨hleft.total.trans hright.total.symm, fun layer key => ?_,
        hleft.months.trans hright.months.symm⟩
      cases hroot : c.roots.writes layer with
      | none =>
        unfold monthRows
        rw [hroot]
      | some root =>
        exact (hleft.month layer root hroot key).trans (hright.month layer root hroot key).symm

/-! ## A source of three lines -/

/-- A line that starts with `b` is of February, any other of January. -/
def monthOfLine (line : List UInt8) : List (NormalizedRow (List UInt8)) :=
  [⟨some 2024, some (if line.head? = some 98 then "2024-02" else "2024-01"), line⟩]

def threeLines : Conversion (List UInt8) (List (List UInt8)) where
  roots := .legacy ["data"] "nlwiki"
  sourceId := "nlwiki"
  chunkLimit := 1
  transactionId := none
  markerIsValid := .ok false
  existingOutputs := []
  parseIngestChunk bytes := .ok (readLines bytes)
  normalizeRevisionChunk lines := .ok (lines.flatMap monthOfLine)
  fault _ := none
  writeMarkerManifest _ _ := .ok ()

/-- One line a chunk, and all of them in one. -/
theorem chunking_invisible_threeLines :
    monthRows threeLines (convertFileWithChunkLimit (threeLines.withChunkLimit 1)
      { bytes := [97, 10, 98, 10, 99] } fun _ => none).2
    = monthRows threeLines (convertFileWithChunkLimit (threeLines.withChunkLimit 1024)
      { bytes := [97, 10, 98, 10, 99] } fun _ => none).2 := by
  have hlines : LineByLine threeLines monthOfLine := by
    intro bytes parsed rows hparsed hnormalized
    cases hparsed
    cases hnormalized
    rfl
  have hok : ∀ limit, (convertFileWithChunkLimit (threeLines.withChunkLimit limit)
        { bytes := [97, 10, 98, 10, 99] } fun _ => none).1.isOk = true →
      ∃ paths, convertFileWithChunkLimit (threeLines.withChunkLimit limit)
          { bytes := [97, 10, 98, 10, 99] } (fun _ => none)
        = (.ok paths, (convertFileWithChunkLimit (threeLines.withChunkLimit limit)
            { bytes := [97, 10, 98, 10, 99] } fun _ => none).2) := by
    intro limit h
    cases hrun : convertFileWithChunkLimit (threeLines.withChunkLimit limit)
      { bytes := [97, 10, 98, 10, 99] } fun _ => none with
    | mk result w =>
      rw [hrun] at h
      cases result with
      | error e => exact absurd h (by simp [Except.isOk, Except.toBool])
      | ok paths => exact ⟨paths, rfl⟩
  obtain ⟨paths, hone⟩ := hok 1 (by decide +kernel)
  obtain ⟨paths', hall⟩ := hok 1024 (by decide +kernel)
  have hrows := (chunking_invisible threeLines ⟨["data"], "nlwiki", Or.inl rfl⟩ monthOfLine hlines
    { bytes := [97, 10, 98, 10, 99] } 1 1024 (fun _ => none) (fun _ => none) hone hall).1.2.1
  exact funext fun layer => funext fun key => hrows layer key

end WikiEcon.Ingest
