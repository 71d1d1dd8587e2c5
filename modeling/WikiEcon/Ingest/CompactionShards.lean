import WikiEcon.Ingest.Compaction
import WikiEcon.Lib.Workers

/-!
# The shards hold the rows

What is staged before a transaction is written: for each month the shards hold, sorted, the rows
of the fragments of that month and nothing else (`Lossless`), and the manifest passes every check
that is made of it later (`Durable`). `stage_withstands` is the result; the loops before it keep
`Staged`, which says how many fragments of each month are in.
-/

namespace WikiEcon.Ingest.Compaction

open Compute (zeroPad zeroPad_inj dash_notMem_zeroPad)
open Programs

variable {Row : Type} [LinearOrder Row] (lib : Library Row) (target : Target)

/-! ## What a manifest promises -/

/-- The rows of a fragment. -/
def rowsAt (fragments : Path → Option Bytes) (fragment : GenerationFragment) : List Row :=
  ((fragments fragment.path).bind lib.readParquet).getD []

/-- The path of a shard in its directory. -/
def inDirectory (shard : GenerationFragment) : Path :=
  shard.path.drop target.final.length

/-- The rows of a shard. -/
def rowsIn (directory : Directory) (shard : GenerationFragment) : List Row :=
  ((directory (inDirectory target shard)).bind lib.readParquet).getD []

/-- A shard of the month's partition. -/
def InPartition (month : ℤ × String) (shard : GenerationFragment) : Prop :=
  shard.path.dropLast = target.final ++ ["year=" ++ zeroPad 4 month.1, "year_month=" ++ month.2]

instance (month : ℤ × String) : DecidablePred (InPartition target month) :=
  fun shard => inferInstanceAs (Decidable (shard.path.dropLast = _))

/-- A fragment of the month's partition. -/
def IsOf (month : ℤ × String) (fragment : GenerationFragment) : Prop :=
  fragmentMonth fragment = .ok month

instance (month : ℤ × String) : DecidablePred (IsOf month) :=
  fun fragment => match h : fragmentMonth fragment with
    | .ok found => decidable_of_iff (found = month) (by simp [IsOf, h])
    | .error _ => isFalse (by simp [IsOf, h])

/-- The shards hold the rows of the fragments as they were at first, month by month. -/
structure Lossless (original : Path → Option Bytes) (directory : Directory)
    (manifest : CompactionManifest) : Prop where
  present : ∀ shard ∈ manifest.compactedFragments,
    compactedRelative shard = .ok (inDirectory target shard) ∧
      ∃ bytes, directory (inDirectory target shard) = some bytes ∧
        validateShard lib shard bytes = .ok ()
  shardPaths : ∀ shard ∈ manifest.compactedFragments, ∃ (month : ℤ × String) (k : ℕ),
    shard.path = target.final ++ shardPath month.1 month.2 k
  sourceMonth : ∀ fragment ∈ manifest.sourceFragments, ∃ month, IsOf month fragment
  sourcePaths : ∀ fragment ∈ manifest.sourceFragments,
    checkedPath fragment.path = .ok fragment.path
  rows : ∀ month,
    ((manifest.compactedFragments.filter (InPartition target month)).flatMap
        (rowsIn lib target directory)).Perm
      ((manifest.sourceFragments.filter (IsOf month)).flatMap (rowsAt lib original))
  sorted : ∀ shard ∈ manifest.compactedFragments,
    (rowsIn lib target directory shard).Pairwise (· ≤ ·)

/-- The proof of a source that its marker is what it was. -/
structure MarkerProof (marker : String → Option Bytes) (source : CompactionSource) : Prop where
  path : checkedPath source.markerPath = .ok (target.markerPath source.sourceId)
  hexadecimal : source.markerSha256.toList.length = 64 ∧
    source.markerSha256.toList.all (fun c => c.isDigit || "abcdefABCDEF".toList.contains c) = true
  hash : ∃ bytes, marker source.sourceId = some bytes ∧ lib.sha256 bytes = source.markerSha256

/-- What every later validation asks, but for the shards. -/
structure Durable (marker : String → Option Bytes) (manifest : CompactionManifest) : Prop where
  checked : validateManifest target manifest = .ok ()
  markers : ∀ source ∈ manifest.sources, MarkerProof lib target marker source

/-! ## Paths -/

theorem checkedPath_eq_ok {path path' : Path} (h : checkedPath path = .ok path') :
    path' = path := by
  obtain ⟨_, -, h⟩ := bind_eq_ok.mp h
  exact (Except.ok.inj h).symm

theorem zeroPad_injective {width : ℕ} {a b : ℤ} (h : zeroPad width a = zeroPad width b) :
    a = b := by
  have hdash : ∀ {n k : ℤ}, 0 ≤ n → k < 0 → zeroPad width n ≠ zeroPad width k := by
    intro n k hn hk heq
    obtain ⟨n, rfl⟩ := Int.eq_ofNat_of_zero_le hn
    refine dash_notMem_zeroPad width n ?_
    show '-' ∈ (zeroPad width ((n : ℕ) : ℤ)).toList
    rw [heq, zeroPad, if_neg (by omega), String.toList_append]
    exact List.mem_append_left _ (by decide)
  by_cases ha : 0 ≤ a <;> by_cases hb : 0 ≤ b
  · obtain ⟨a, rfl⟩ := Int.eq_ofNat_of_zero_le ha
    obtain ⟨b, rfl⟩ := Int.eq_ofNat_of_zero_le hb
    exact congrArg Nat.cast (zeroPad_inj h)
  · exact absurd h (hdash ha (by omega))
  · exact absurd h.symm (hdash hb (by omega))
  · -- both are negative: what follows the sign is the padded absolute value
    have habs : zeroPad (width - 1) (a.natAbs : ℤ) = zeroPad (width - 1) (b.natAbs : ℤ) := by
      have hdigits : ∀ n : ℤ, ¬ 0 ≤ n →
          zeroPad width n = "-" ++ zeroPad (width - 1) (n.natAbs : ℤ) := by
        intro n hn
        rw [zeroPad, if_neg hn, zeroPad, if_pos (Int.natCast_nonneg _)]
        rfl
      rw [hdigits a ha, hdigits b hb] at h
      exact String.append_right_inj "-" |>.mp h
    have := zeroPad_inj habs
    omega

/-- The paths of two shards differ. -/
theorem shardPath_inj {y y' : ℤ} {m m' : String} {k k' : ℕ}
    (h : shardPath y m k = shardPath y' m' k') : (y, m) = (y', m') ∧ k = k' := by
  unfold shardPath at h
  simp only [List.cons.injEq, and_true, String.append_right_inj] at h
  obtain ⟨hyear, rfl, hshard⟩ := h
  refine ⟨by rw [zeroPad_injective hyear], ?_⟩
  have hlist := congrArg String.toList hshard
  simp only [String.toList_append] at hlist
  have hpadded := List.append_cancel_left (List.append_cancel_right hlist)
  exact zeroPad_inj (String.toList_inj.mp hpadded)

theorem inDirectory_eq {shard : GenerationFragment} {path : Path}
    (h : shard.path = target.final ++ path) : inDirectory target shard = path := by
  rw [inDirectory, h, List.drop_left]

theorem compactedRelative_eq {shard : GenerationFragment} {month : ℤ × String} {k : ℕ} {path : Path}
    (hplace : shard.path = target.final ++ shardPath month.1 month.2 k)
    (h : compactedRelative shard = .ok path) : path = inDirectory target shard := by
  obtain ⟨compacted, -, h⟩ := bind_eq_ok.mp h
  obtain ⟨_, hlength, h⟩ := bind_eq_ok.mp h
  have hlength := ensure_eq_ok.mp hlength
  rw [hplace, List.length_append] at hlength
  have hshard : (shardPath month.1 month.2 k).length = 3 := rfl
  have hfinal : target.final.length = 5 := rfl
  obtain rfl := Except.ok.inj h
  rw [inDirectory, show compacted + 1 = target.final.length by omega]

theorem inPartition_iff {shard : GenerationFragment} {month : ℤ × String} (month' : ℤ × String)
    {k : ℕ} (h : shard.path = target.final ++ shardPath month.1 month.2 k) :
    InPartition target month' shard ↔ month' = month := by
  have hdrop : shard.path.dropLast
      = target.final ++ ["year=" ++ zeroPad 4 month.1, "year_month=" ++ month.2] := by
    rw [h]
    rfl
  unfold InPartition
  rw [hdrop]
  constructor
  · intro heq
    have hparts := List.append_cancel_left heq
    simp only [List.cons.injEq, and_true, String.append_right_inj] at hparts
    exact Prod.ext (zeroPad_injective hparts.1).symm hparts.2.symm
  · rintro rfl
    rfl

omit [LinearOrder Row] in
theorem validateShard_eq_ok {shard : GenerationFragment} {bytes : Bytes} :
    validateShard lib shard bytes = .ok () ↔ bytes.length = shard.bytes ∧
      lib.numRows bytes = some shard.rows ∧ lib.sha256 bytes = shard.sha256 := by
  unfold validateShard
  simp only [bind_eq_ok, ensure_eq_ok, context_eq_ok, exists_const]
  constructor
  · rintro ⟨hlength, rows, hrows, rfl, hhash⟩
    exact ⟨hlength, hrows, hhash⟩
  · rintro ⟨hlength, hrows, hhash⟩
    exact ⟨hlength, _, hrows, rfl, hhash⟩

/-! ## Months and groups -/

/-- Every fragment goes into one group, and the groups keep the order. -/
theorem flatten_of_packFragmentGroups {inputs : List GenerationFragment} {targetBytes : ℕ}
    {groups : List (List GenerationFragment)}
    (h : packFragmentGroups inputs targetBytes = .ok groups) :
    groups.flatten = inputs := by
  have hloop : ∀ (rest : List GenerationFragment) {packed packed'},
      rest.foldlM (packFragment targetBytes) packed = .ok packed' →
      packed'.1.flatten ++ packed'.2.1 = packed.1.flatten ++ packed.2.1 ++ rest := by
    intro rest
    induction rest with
    | nil =>
      intro packed packed' h
      obtain rfl := Except.ok.inj h
      rw [List.append_nil]
    | cons input rest ih =>
      intro packed packed' h
      rw [List.foldlM_cons] at h
      obtain ⟨next, hnext, h⟩ := bind_eq_ok.mp h
      rw [ih h]
      obtain ⟨total, -, hnext⟩ := bind_eq_ok.mp hnext
      split at hnext
      · obtain rfl := Except.ok.inj hnext
        simp
      · obtain rfl := Except.ok.inj hnext
        simp
  obtain ⟨packed, hpacked, h⟩ := bind_eq_ok.mp h
  have hall := hloop inputs hpacked
  obtain rfl := Except.ok.inj h
  split
  · rw [List.flatten_append, List.flatten_singleton, hall]
    rfl
  next hopen =>
    rw [not_not.mp hopen, List.append_nil] at hall
    rw [hall]
    rfl

/-- Fragments beside the months they are of. -/
abbrev Keyed (fragments : List GenerationFragment)
    (keyed : List ((ℤ × String) × GenerationFragment)) : Prop :=
  List.Forall₂ (fun fragment entry => IsOf entry.1 fragment ∧ entry.2 = fragment) fragments keyed

theorem Keyed.filter {fragments : List GenerationFragment}
    {keyed : List ((ℤ × String) × GenerationFragment)} (h : Keyed fragments keyed)
    (month : ℤ ×ₗ String) :
    (keyed.filter fun entry => toLex entry.1 = month).map Prod.snd
      = fragments.filter (IsOf (ofLex month)) := by
  induction h with
  | nil => rfl
  | @cons fragment entry fragments keyed hhead htail ih =>
    have hiff : IsOf (ofLex month) fragment ↔ toLex entry.1 = month := by
      unfold IsOf
      rw [show fragmentMonth fragment = .ok entry.1 from hhead.1]
      constructor
      · exact fun h => congrArg toLex (Except.ok.inj h)
      · rintro rfl
        rfl
    by_cases hkey : toLex entry.1 = month
    · rw [List.filter_cons_of_pos (by simpa using hkey),
        List.filter_cons_of_pos (by simpa using hiff.mpr hkey), List.map_cons, ih, hhead.2]
    · rw [List.filter_cons_of_neg (by simpa using hkey),
        List.filter_cons_of_neg (by simpa using fun h => hkey (hiff.mp h)), ih]

theorem Keyed.exists_mem {fragments : List GenerationFragment}
    {keyed : List ((ℤ × String) × GenerationFragment)} (h : Keyed fragments keyed)
    {fragment : GenerationFragment} (hfragment : fragment ∈ fragments) :
    ∃ entry ∈ keyed, IsOf entry.1 fragment := by
  induction h with
  | nil => exact absurd hfragment List.not_mem_nil
  | cons hhead htail ih =>
    rcases List.mem_cons.mp hfragment with rfl | hfragment
    · exact ⟨_, List.mem_cons_self, hhead.1⟩
    · obtain ⟨entry, hentry, h⟩ := ih hfragment
      exact ⟨entry, List.mem_cons_of_mem _ hentry, h⟩

/-- The months come once each, with all their fragments. -/
theorem byMonth_spec {fragments : List GenerationFragment}
    {months : List ((ℤ × String) × List GenerationFragment)} (h : byMonth fragments = .ok months) :
    (months.map Prod.fst).Nodup ∧ (∀ month ∈ months, month.2 = fragments.filter (IsOf month.1)) ∧
      ∀ fragment ∈ fragments, ∃ month ∈ months.map Prod.fst, IsOf month fragment := by
  obtain ⟨keyed, hkeyed, h⟩ := bind_eq_ok.mp h
  obtain rfl := Except.ok.inj h
  have hall : Keyed fragments keyed := by
    refine (Workers.forall₂_of_mapM_eq_ok hkeyed).imp fun fragment entry hentry => ?_
    obtain ⟨month, hmonth, hentry⟩ := bind_eq_ok.mp hentry
    obtain rfl := Except.ok.inj hentry
    exact ⟨hmonth, rfl⟩
  rw [List.map_map]
  refine ⟨(SortedTable.keys_nodup keyed).map ofLex.injective, fun month hmonth => ?_,
    fun fragment hfragment => ?_⟩
  · obtain ⟨key, -, rfl⟩ := List.mem_map.mp hmonth
    exact hall.filter key
  · obtain ⟨entry, hentry, hmonth⟩ := hall.exists_mem hfragment
    exact ⟨entry.1, List.mem_map.mpr
      ⟨toLex entry.1, SortedTable.mem_keys.mpr ⟨entry, hentry, rfl⟩, rfl⟩, hmonth⟩

/-! ## Programs that read -/

/-- Whatever calls fail, the invariant is kept and the result has the property. -/
abbrev Safe {α : Type} (inv : Disk → Prop) (post : α → Disk → Prop) (action : Action α)
    (d : Disk) : Prop :=
  Withstands Call.fallible Disk.perform "I/O error" inv post action d

section Reads

variable {inv : Disk → Prop} {d : Disk}

theorem check_safe {α : Type} (hd : inv d) (x : Except String α) :
    Safe inv (fun a d' => d' = d ∧ x = .ok a) (check x) d :=
  .checked hd x

theorem ask_safe (hd : inv d) (c : Call) (hafter : inv (d.perform c).2) :
    Safe inv (fun a d' => d' = (d.perform c).2 ∧ (d.perform c).1 = .ok a) (ask c) d :=
  .asked hd c hafter

/-- A call that only reads. -/
theorem read_safe (hd : inv d) (c : Call) (hreads : (d.perform c).2 = d) :
    Safe inv (fun a d' => d' = d ∧ (d.perform c).1 = .ok a) (ask c) d :=
  (ask_safe hd c (hreads.symm ▸ hd)).mono fun _ _ h => ⟨h.1.trans hreads, h.2⟩

/-- A loop that reads: of each element its body's promise. -/
theorem forEach_safe {α : Type} {l : List α} {post : α → Prop} {body : α → Action Unit} (hd : inv d)
    (hbody : ∀ a ∈ l, Safe inv (fun _ d' => d' = d ∧ post a) (body a) d) :
    Safe inv (fun _ d' => d' = d ∧ ∀ a ∈ l, post a) (forEach l body) d := by
  have hloop : Safe inv (fun _ d' => d' = d ∧ ∀ a ∈ l, post a)
      (l.foldlM (fun _ a => body a) ()) d := by
    refine @Withstands.foldlM _ _ _ _ _ _ _ _ _ _ _ (fun done _ d' => d' = d ∧ ∀ a ∈ done, post a)
      _ l () (fun done a rest hl t _ _ hdone => ?_) hd ⟨rfl, fun a ha => absurd ha List.not_mem_nil⟩
    obtain ⟨rfl, hdone⟩ := hdone
    have ha : a ∈ l := by
      rw [hl]
      exact List.mem_append_right _ List.mem_cons_self
    refine (hbody a ha).mono fun _ d' hpost => ⟨hpost.1, fun b hb => ?_⟩
    rcases List.mem_append.mp hb with hb | hb
    · exact hdone b hb
    · exact List.mem_singleton.mp hb ▸ hpost.2
  exact hloop

theorem validateMarkerProof_safe (hd : inv d) (source : CompactionSource) :
    Safe inv (fun _ d' => d' = d ∧
      checkedPath source.markerPath = .ok (target.markerPath source.sourceId) ∧
      source.markerSha256.toList.length = 64 ∧
      source.markerSha256.toList.all
        (fun c => c.isDigit || "abcdefABCDEF".toList.contains c) = true)
      (validateMarkerProof target source) d := by
  refine (check_safe hd (checkedPath source.markerPath)).bind ?_
  rintro marker _ - ⟨rfl, hmarker⟩
  refine (read_safe hd (.markerIsFile source.sourceId) rfl).bind ?_
  rintro present _ - ⟨rfl, -⟩
  refine (check_safe hd _).mono fun _ d' h => ⟨h.1, ?_⟩
  obtain ⟨hlength, hhex, hpath, -⟩ := ensure_eq_ok.mp h.2
  exact ⟨hpath ▸ hmarker, hlength, hhex⟩

theorem validateStructure_safe (hd : inv d) (manifest : CompactionManifest) :
    Safe inv (fun _ d' => d' = d ∧ validateManifest target manifest = .ok () ∧
      ∀ source ∈ manifest.sources,
        checkedPath source.markerPath = .ok (target.markerPath source.sourceId) ∧
        source.markerSha256.toList.length = 64 ∧
        source.markerSha256.toList.all
          (fun c => c.isDigit || "abcdefABCDEF".toList.contains c) = true)
      (validateStructure target manifest) d := by
  refine (check_safe hd (validateManifest target manifest)).bind ?_
  rintro _ _ - ⟨rfl, hcheck⟩
  refine (forEach_safe hd fun source _ => validateMarkerProof_safe target hd source).mono ?_
  exact fun _ d' h => ⟨h.1, hcheck, h.2⟩

omit [LinearOrder Row] in
theorem validateSourceMarkerHashes_safe (hd : inv d) (manifest : CompactionManifest) :
    Safe inv (fun _ d' => d' = d) (validateSourceMarkerHashes lib manifest) d := by
  have hloop : Safe inv (fun _ d' => d' = d ∧ ∀ source ∈ manifest.sources, True)
      (validateSourceMarkerHashes lib manifest) d := by
    refine forEach_safe hd fun source _ => ?_
    refine (check_safe hd (checkedPath source.markerPath)).bind ?_
    rintro _ _ - ⟨rfl, -⟩
    refine (read_safe hd (.readMarker source.sourceId) rfl).bind ?_
    rintro bytes _ - ⟨rfl, -⟩
    exact (check_safe hd _).mono fun _ d' h => ⟨h.1, trivial⟩
  exact hloop.mono fun _ d' h => h.1

omit [LinearOrder Row] in
theorem validateOutputsAt_safe (hd : inv d) (root : Root) (manifest : CompactionManifest) :
    Safe inv (fun _ d' => d' = d ∧ ∀ shard ∈ manifest.compactedFragments, ∃ path bytes,
      compactedRelative shard = .ok path ∧
      ((d.directory root).bind fun directory => directory path) = some bytes ∧
      validateShard lib shard bytes = .ok ()) (validateOutputsAt lib root manifest) d := by
  refine forEach_safe hd fun shard _ => ?_
  refine (check_safe hd (compactedRelative shard)).bind ?_
  rintro path _ - ⟨rfl, hpath⟩
  refine (read_safe hd (.readShard root path) rfl).bind ?_
  rintro bytes _ - ⟨rfl, hbytes⟩
  exact (check_safe hd _).mono fun _ d' h =>
    ⟨h.1, path, bytes, hpath, context_eq_ok.mp hbytes, h.2⟩

end Reads

/-! ## One group -/

/-- Nothing is known of the generation but what may be staged. -/
structure Bare (original : Path → Option Bytes) (markers : String → Option Bytes) (d : Disk) :
    Prop where
  fragments : d.fragments = original
  marker : d.marker = markers
  final : d.final = none
  transaction : d.transaction = none
  manifest : d.manifest = none
  receipt : d.receipt = none

variable {original : Path → Option Bytes} {markers : String → Option Bytes} {d : Disk}

theorem Bare.restaged (hd : Bare original markers d) (directory : Option Directory) :
    Bare original markers { d with staging := directory } :=
  ⟨hd.fragments, hd.marker, hd.final, hd.transaction, hd.manifest, hd.receipt⟩

/-- The shard of a group. -/
structure IsShard (original : Path → Option Bytes) (bytes : Bytes) (month : ℤ × String) (k : ℕ)
    (inputs : List GenerationFragment) (shard : GenerationFragment) : Prop where
  paths : ∀ input ∈ inputs, checkedPath input.path = .ok input.path
  path : shard.path = target.final ++ shardPath month.1 month.2 k
  valid : validateShard lib shard bytes = .ok ()
  rows : lib.readParquet bytes
    = some ((inputs.flatMap (rowsAt lib original)).insertionSort (· ≤ ·))

/-- What Parquet writes it reads. -/
def ReadsBack : Prop := ∀ rows, lib.readParquet (lib.writeParquet rows) = some rows

omit [LinearOrder Row] in
/-- The fragments of a group are read one after another. -/
theorem appendFragments_safe (hd : Bare original markers d) (inputs : List GenerationFragment) :
    Safe (Bare original markers)
      (fun read d' => d' = d ∧ read.getD [] = inputs.flatMap (rowsAt lib original) ∧
        ∀ input ∈ inputs, checkedPath input.path = .ok input.path)
      (inputs.foldlM (appendFragment lib) none) d := by
  refine @Withstands.foldlM _ _ _ _ _ _ _ _ _ _ _
    (fun done read d' => d' = d ∧ read.getD [] = done.flatMap (rowsAt lib original) ∧
      ∀ input ∈ done, checkedPath input.path = .ok input.path)
    _ inputs none (fun done input rest _ t frame _ hdone => ?_) hd
    ⟨rfl, rfl, fun input hinput => absurd hinput List.not_mem_nil⟩
  obtain ⟨rfl, hframe, hpaths⟩ := hdone
  refine (check_safe hd (checkedPath input.path)).bind ?_
  rintro path _ - ⟨rfl, hpath⟩
  obtain rfl := checkedPath_eq_ok hpath
  refine (read_safe hd (.readFragment input.path) rfl).bind ?_
  rintro bytes _ - ⟨rfl, hbytes⟩
  refine (check_safe hd (context (lib.readParquet bytes) _)).bind ?_
  rintro rows t - ⟨rfl, hrows⟩
  have hbytes : original input.path = some bytes := by
    rw [← hd.fragments]
    exact context_eq_ok.mp hbytes
  refine .done hd ⟨rfl, ?_, fun other hother => ?_⟩
  · rw [List.flatMap_append, List.flatMap_singleton, Option.getD_some, hframe, rowsAt, hbytes,
      Option.bind_some, context_eq_ok.mp hrows, Option.getD_some]
  · rcases List.mem_append.mp hother with hother | hother
    · exact hpaths other hother
    · rwa [List.mem_singleton.mp hother]

theorem compactGroup_safe (hreads : ReadsBack lib) (hd : Bare original markers d)
    {directory : Directory} (hstaging : d.staging = some directory) (group : CompactGroupContext)
    (shard : ℕ) (inputs : List GenerationFragment) :
    Safe (Bare original markers)
      (fun output d' => ∃ bytes,
        d'.staging = some (Function.update directory (shardPath group.year group.month shard)
          (some bytes)) ∧
        IsShard lib target original bytes (group.year, group.month) shard inputs output)
      (compactGroup lib target group shard inputs) d := by
  refine (check_safe hd (sumChecked GenerationFragment.rows inputs _)).bind ?_
  rintro expectedRows _ - ⟨rfl, -⟩
  refine (appendFragments_safe lib hd inputs).bind ?_
  rintro read _ - ⟨rfl, hread, hpaths⟩
  refine (check_safe hd (context read _)).bind ?_
  rintro frame _ - ⟨rfl, hframe⟩
  rw [context_eq_ok.mp hframe, Option.getD_some] at hread
  refine (check_safe hd _).bind ?_
  rintro _ _ - ⟨rfl, -⟩
  refine (check_safe hd _).bind ?_
  rintro _ d - ⟨rfl, -⟩
  -- the file is created, written and read again
  let relative := shardPath group.year group.month shard
  let bytes := lib.writeParquet (frame.insertionSort (· ≤ ·))
  refine (ask_safe hd (.createShard relative) (hd.restaged _)).bind ?_
  rintro _ d₁ hd₁ ⟨hcreated, -⟩
  have hstaging₁ : d₁.staging = some (Function.update directory relative (some [])) := by
    rw [hcreated]
    show putFile d.staging relative [] = _
    rw [hstaging]
    rfl
  refine (ask_safe hd₁ (.writeShard relative bytes) (hd₁.restaged _)).bind ?_
  rintro _ d₂ hd₂ ⟨hwritten, -⟩
  have hstaging₂ : d₂.staging = some (Function.update directory relative (some bytes)) := by
    rw [hwritten]
    show putFile d₁.staging relative bytes = _
    rw [hstaging₁]
    exact congrArg some (Function.update_idem ..)
  refine (read_safe hd₂ (.readShard .staging relative) rfl).bind ?_
  rintro found d₂ - ⟨rfl, hfound⟩
  obtain rfl : bytes = found := by
    have hfile := context_eq_ok.mp hfound
    rw [show d₂.directory .staging = d₂.staging from rfl, hstaging₂, Option.bind_some,
      Function.update_self] at hfile
    exact Option.some.inj hfile
  refine (check_safe hd₂ (context (lib.numRows bytes) _)).bind ?_
  rintro rows d₂ - ⟨rfl, hrows⟩
  refine (check_safe hd₂ _).bind ?_
  rintro _ d₂ - ⟨rfl, hsame⟩
  refine (check_safe hd₂ _).bind ?_
  rintro _ d₂ - ⟨rfl, -⟩
  refine .done hd₂ ⟨bytes, hstaging₂, hpaths, rfl, ?_, ?_⟩
  · refine (validateShard_eq_ok lib).mpr ⟨rfl, ?_, rfl⟩
    rw [context_eq_ok.mp hrows]
    exact congrArg some (ensure_eq_ok.mp hsame)
  · rw [← hread]
    exact hreads _

/-! ## All groups -/

/-- Of each month some fragments are in, in so many shards. -/
structure Staged (original : Path → Option Bytes) (directory : Directory)
    (compacted : List GenerationFragment) (held : ℤ × String → List GenerationFragment)
    (next : ℤ × String → ℕ) : Prop where
  shards : ∀ shard ∈ compacted, ∃ month, ∃ k < next month,
    shard.path = target.final ++ shardPath month.1 month.2 k ∧
      (∃ bytes, directory (shardPath month.1 month.2 k) = some bytes ∧
        validateShard lib shard bytes = .ok ()) ∧
      (rowsIn lib target directory shard).Pairwise (· ≤ ·)
  rows : ∀ month,
    ((compacted.filter (InPartition target month)).flatMap (rowsIn lib target directory)).Perm
      ((held month).flatMap (rowsAt lib original))
  paths : ∀ month, ∀ fragment ∈ held month, checkedPath fragment.path = .ok fragment.path

variable {lib target} {directory : Directory} {compacted : List GenerationFragment}
  {held : ℤ × String → List GenerationFragment} {next : ℤ × String → ℕ}

/-- A shard with a new number leaves the others as they are. -/
theorem Staged.add (h : Staged lib target original directory compacted held next)
    {month : ℤ × String} {bytes : Bytes} {inputs : List GenerationFragment}
    {output : GenerationFragment}
    (houtput : IsShard lib target original bytes month (next month) inputs output) :
    Staged lib target original
      (Function.update directory (shardPath month.1 month.2 (next month)) (some bytes))
      (compacted ++ [output]) (Function.update held month (held month ++ inputs))
      (Function.update next month (next month + 1)) := by
  let directory' := Function.update directory (shardPath month.1 month.2 (next month)) (some bytes)
  have hnew : rowsIn lib target directory' output
      = (inputs.flatMap (rowsAt lib original)).insertionSort (· ≤ ·) := by
    rw [rowsIn, inDirectory_eq target houtput.path, show directory' _ = some bytes from
      Function.update_self .., Option.bind_some, houtput.rows, Option.getD_some]
  -- The new shard has a number that none before has, so the files before are as they were.
  have hfile : ∀ {month' k}, k < next month' →
      directory' (shardPath month'.1 month'.2 k) = directory (shardPath month'.1 month'.2 k) := by
    intro month' k hk
    refine Function.update_of_ne (fun heq => ?_) _ _
    obtain ⟨hmonth, rfl⟩ := shardPath_inj heq
    rw [show month' = month from hmonth] at hk
    exact Nat.lt_irrefl _ hk
  have hold : ∀ shard ∈ compacted,
      rowsIn lib target directory' shard = rowsIn lib target directory shard := by
    intro shard hshard
    obtain ⟨month', k, hk, hpath, -⟩ := h.shards shard hshard
    rw [rowsIn, rowsIn, inDirectory_eq target hpath, hfile hk]
  constructor
  · intro shard hshard
    rcases List.mem_append.mp hshard with hshard | hshard
    · obtain ⟨month', k, hk, hpath, ⟨found, hfound, hvalid⟩, hsorted⟩ := h.shards shard hshard
      refine ⟨month', k, ?_, hpath, ⟨found, (hfile hk).trans hfound, hvalid⟩, ?_⟩
      · by_cases hmonth : month' = month
        · rw [hmonth, Function.update_self]
          rw [hmonth] at hk
          omega
        · rwa [Function.update_of_ne hmonth]
      · rwa [hold shard hshard]
    · obtain rfl := List.mem_singleton.mp hshard
      refine ⟨month, next month, ?_, houtput.path,
        ⟨bytes, Function.update_self .., houtput.valid⟩, ?_⟩
      · rw [Function.update_self]
        omega
      · rw [hnew]
        exact List.pairwise_insertionSort _ _
  -- The rows of the month grow by the rows of the inputs, those of the others stay.
  · intro month'
    have hrest : (compacted.filter (InPartition target month')).flatMap
      (rowsIn lib target directory')
        = (compacted.filter (InPartition target month')).flatMap (rowsIn lib target directory) :=
      List.flatMap_congr fun shard hshard => hold shard (List.mem_of_mem_filter hshard)
    have hin := inPartition_iff target month' houtput.path
    rw [List.filter_append, List.flatMap_append, hrest]
    by_cases hmonth : month' = month
    · rw [List.filter_cons_of_pos (by simpa using hin.mpr hmonth), List.filter_nil,
        List.flatMap_singleton, hnew, hmonth, Function.update_self, List.flatMap_append]
      exact (hmonth ▸ h.rows month').append (List.perm_insertionSort _ _)
    · rw [List.filter_cons_of_neg (by simpa using fun h => hmonth (hin.mp h)), List.filter_nil,
        List.flatMap_nil, List.append_nil, Function.update_of_ne hmonth]
      exact h.rows month'
  · intro month' fragment hfragment
    by_cases hmonth : month' = month
    · rw [hmonth, Function.update_self] at hfragment
      rcases List.mem_append.mp hfragment with hfragment | hfragment
      · exact h.paths month fragment hfragment
      · exact houtput.paths fragment hfragment
    · rw [Function.update_of_ne hmonth] at hfragment
      exact h.paths month' fragment hfragment

/-- The months that are done are in, and nothing of the others. -/
def MonthsStaged (lib : Library Row) (target : Target) (original : Path → Option Bytes)
    (done : List ((ℤ × String) × List GenerationFragment)) (compacted : List GenerationFragment)
    (d : Disk) : Prop :=
  ∃ directory held next, d.staging = some directory ∧
    Staged lib target original directory compacted held next ∧
    (∀ month ∈ done, held month.1 = month.2) ∧
    ∀ month ∉ done.map Prod.fst, held month = [] ∧ next month = 0

theorem compactMonth_safe (hreads : ReadsBack lib) (policy : CompactionPolicy)
    {done : List ((ℤ × String) × List GenerationFragment)}
    {month : (ℤ × String) × List GenerationFragment} (hnew : month.1 ∉ done.map Prod.fst)
    (hd : Bare original markers d) (hdone : MonthsStaged lib target original done compacted d) :
    Safe (Bare original markers) (MonthsStaged lib target original (done ++ [month]))
      (compactMonth lib target policy compacted month) d := by
  obtain ⟨directory, held, next, hstaging, hstaged, hheld, hother⟩ := hdone
  obtain ⟨hheld₀, hnext₀⟩ := hother month.1 hnew
  refine (check_safe hd (packFragmentGroups month.2 policy.targetBytes)).bind ?_
  rintro groups d - ⟨rfl, hgroups⟩
  -- so many groups of the month are in
  have hloop := @Withstands.foldlM _ _ _ _ Call.fallible Disk.perform "I/O error" _
    (Bare original markers) d _
    (fun (turns : List (List GenerationFragment × ℕ)) compacted d' =>
      ∃ directory, d'.staging = some directory ∧ Staged lib target original directory compacted
        (Function.update held month.1 (turns.map Prod.fst).flatten)
        (Function.update next month.1 turns.length))
    (fun compacted group => do
      let output ← compactGroup lib target ⟨month.1.1, month.1.2, policy.maximumBytes⟩
        group.2 group.1
      return compacted ++ [output]) groups.zipIdx compacted ?_ hd ?_
  · refine hloop.mono fun compacted' d' hall => ?_
    obtain ⟨directory', hstaging', hstaged'⟩ := hall
    have hflat : (groups.zipIdx.map Prod.fst).flatten = month.2 := by
      rw [List.zipIdx_map_fst, flatten_of_packFragmentGroups hgroups]
    rw [hflat] at hstaged'
    refine ⟨directory', _, _, hstaging', hstaged', fun month' hmonth' => ?_,
      fun month' hmonth' => ?_⟩
    · rcases List.mem_append.mp hmonth' with hmonth' | hmonth'
      · rw [Function.update_of_ne, hheld month' hmonth']
        exact fun heq => hnew (heq ▸ List.mem_map_of_mem hmonth')
      · rw [List.mem_singleton.mp hmonth', Function.update_self]
    · rw [List.map_append, List.mem_append, not_or] at hmonth'
      have hne : month' ≠ month.1 := fun heq => hmonth'.2 (by simp [heq])
      rw [Function.update_of_ne hne, Function.update_of_ne hne]
      exact hother month' hmonth'.1
  · intro turns group rest hturns d₁ compacted₁ hd₁ hstaged₁
    obtain ⟨directory₁, hstaging₁, hstaged₁⟩ := hstaged₁
    have hindex : group.2 = turns.length := by
      have hget : groups.zipIdx[turns.length]? = some group := by
        rw [hturns]
        simp
      rw [List.getElem?_zipIdx] at hget
      obtain ⟨inputs, -, hgroup⟩ := Option.map_eq_some_iff.mp hget
      rw [← hgroup]
      exact Nat.zero_add _
    refine (compactGroup_safe lib target hreads hd₁ hstaging₁ _ group.2 group.1).bind ?_
    rintro output d₂ hd₂ ⟨bytes, hstaging₂, houtput⟩
    refine .done hd₂ ⟨_, hstaging₂, ?_⟩
    have hshard : IsShard lib target original bytes month.1
        (Function.update next month.1 turns.length month.1) group.1 output := by
      rw [Function.update_self, ← hindex]
      exact houtput
    simpa [hindex] using hstaged₁.add hshard
  · refine ⟨directory, hstaging, ?_⟩
    rw [List.map_nil, List.flatten_nil, List.length_nil, ← hheld₀, ← hnext₀,
      Function.update_eq_self, Function.update_eq_self]
    exact hstaged

/-! ## The manifest -/

theorem sortFragments_perm (fragments : List GenerationFragment) :
    (sortFragments fragments).Perm fragments :=
  List.perm_insertionSort _ _

omit [LinearOrder Row] in
/-- Each source is proved with the marker that is there. -/
theorem sourceProofs_safe (hd : Bare original markers d) (source : GenerationManifest)
    (plan : List String) :
    Safe (Bare original markers) (fun sources d' => d' = d ∧ ∀ proof ∈ sources, ∃ bytes,
        markers proof.sourceId = some bytes ∧ lib.sha256 bytes = proof.markerSha256)
      (plan.foldlM (sourceProof lib target source) []) d := by
  refine @Withstands.foldlM _ _ _ _ _ _ _ _ _ _ _
    (fun _ (sources : List CompactionSource) d' => d' = d ∧ ∀ proof ∈ sources, ∃ bytes,
      markers proof.sourceId = some bytes ∧ lib.sha256 bytes = proof.markerSha256)
    _ plan [] (fun done sourceId rest _ t sources _ hdone => ?_) hd
    ⟨rfl, fun proof hproof => absurd hproof List.not_mem_nil⟩
  obtain ⟨rfl, hproofs⟩ := hdone
  refine (read_safe hd (.readMarker sourceId) rfl).bind ?_
  rintro bytes t - ⟨rfl, hbytes⟩
  refine (check_safe hd (context (lib.markerRows bytes) _)).bind ?_
  rintro markerRows t - ⟨rfl, -⟩
  refine (check_safe hd (rowsBySource source.fragments sourceId)).bind ?_
  rintro rows t - ⟨rfl, -⟩
  refine (check_safe hd _).bind ?_
  rintro _ t - ⟨rfl, -⟩
  refine .done hd ⟨rfl, fun proof hproof => ?_⟩
  rcases List.mem_append.mp hproof with hproof | hproof
  · exact hproofs proof hproof
  · rw [List.mem_singleton.mp hproof]
    refine ⟨bytes, ?_, rfl⟩
    rw [← hd.marker]
    exact context_eq_ok.mp hbytes

omit [LinearOrder Row] in
theorem buildManifest_spec {source : GenerationManifest} {policy : CompactionPolicy}
    {sources : List CompactionSource} {compacted : List GenerationFragment}
    {manifest : CompactionManifest}
    (h : buildManifest lib target source policy sources compacted = .ok manifest) :
    manifest.sources = sources ∧ manifest.sourceFragments = sortFragments source.fragments ∧
      manifest.compactedFragments = compacted := by
  obtain ⟨_, -, h⟩ := bind_eq_ok.mp h
  obtain ⟨_, -, h⟩ := bind_eq_ok.mp h
  obtain ⟨_, -, h⟩ := bind_eq_ok.mp h
  obtain ⟨_, -, h⟩ := bind_eq_ok.mp h
  obtain rfl := Except.ok.inj h
  exact ⟨rfl, rfl, rfl⟩

/-- With all months in, the shards are lossless if they pass their validation. -/
theorem lossless_of_staged {source : GenerationManifest} {manifest : CompactionManifest}
    {months : List ((ℤ × String) × List GenerationFragment)}
    (hmonths : byMonth source.fragments = .ok months)
    (hsource : manifest.sourceFragments.Perm source.fragments)
    (hcompacted : manifest.compactedFragments.Perm compacted)
    (hstaged : Staged lib target original directory compacted held next)
    (hheld : ∀ month ∈ months, held month.1 = month.2)
    (hother : ∀ month ∉ months.map Prod.fst, held month = [] ∧ next month = 0)
    (hvalid : ∀ shard ∈ manifest.compactedFragments, ∃ path bytes,
      compactedRelative shard = .ok path ∧ directory path = some bytes ∧
      validateShard lib shard bytes = .ok ()) :
    Lossless lib target original directory manifest := by
  obtain ⟨-, hfragments, hall⟩ := byMonth_spec hmonths
  have hheldAll : ∀ month, held month = source.fragments.filter (IsOf month) := by
    intro month
    by_cases hmem : month ∈ months.map Prod.fst
    · obtain ⟨entry, hentry, rfl⟩ := List.mem_map.mp hmem
      rw [hheld entry hentry, hfragments entry hentry]
    · rw [(hother month hmem).1, eq_comm, List.filter_eq_nil_iff]
      intro fragment hfragment hof
      obtain ⟨month', hmonth', hof'⟩ := hall fragment hfragment
      have hof : IsOf month fragment := of_decide_eq_true hof
      have hsame : month' = month := Except.ok.inj (Eq.trans (Eq.symm hof') hof)
      exact hmem (hsame ▸ hmonth')
  constructor
  · intro shard hshard
    obtain ⟨path, bytes, hpath, hbytes, hshard'⟩ := hvalid shard hshard
    obtain ⟨month, k, -, hplace, -⟩ := hstaged.shards shard (hcompacted.mem_iff.mp hshard)
    have hsame := compactedRelative_eq target hplace hpath
    exact ⟨hsame ▸ hpath, bytes, hsame ▸ hbytes, hshard'⟩
  · intro shard hshard
    obtain ⟨month, k, -, hplace, -⟩ := hstaged.shards shard (hcompacted.mem_iff.mp hshard)
    exact ⟨month, k, hplace⟩
  · intro fragment hfragment
    obtain ⟨month, -, hmonth⟩ := hall fragment (hsource.mem_iff.mp hfragment)
    exact ⟨month, hmonth⟩
  · intro fragment hfragment
    have hfragment := hsource.mem_iff.mp hfragment
    obtain ⟨month, -, hmonth⟩ := hall fragment hfragment
    refine hstaged.paths month fragment ?_
    rw [hheldAll month, List.mem_filter]
    exact ⟨hfragment, decide_eq_true hmonth⟩
  · intro month
    have hshards := ((hcompacted.filter (InPartition target month)).flatMap_right
      (rowsIn lib target directory)).trans (hstaged.rows month)
    rw [hheldAll month] at hshards
    exact hshards.trans ((hsource.filter (IsOf month)).flatMap_right (rowsAt lib original)).symm
  · intro shard hshard
    obtain ⟨month, k, -, -, -, hsorted⟩ := hstaged.shards shard (hcompacted.mem_iff.mp hshard)
    exact hsorted

/-- **What is staged is lossless**, whichever calls fail, and passes the later checks. -/
theorem stage_safe (hreads : ReadsBack lib) (source : GenerationManifest)
    (policy : CompactionPolicy) (hd : Bare original markers d)
    (hstaging : d.staging = some directory) :
    Safe (Bare original markers) (fun manifest d' => ∃ directory, d'.staging = some directory ∧
        Lossless lib target original directory manifest ∧ Durable lib target markers manifest)
      (stage lib target source policy) d := by
  refine (check_safe hd (byMonth source.fragments)).bind ?_
  rintro months d - ⟨rfl, hmonths⟩
  have hempty : MonthsStaged lib target original [] [] d := by
    refine ⟨directory, fun _ => [], fun _ => 0, hstaging, ⟨?_, ?_, ?_⟩, ?_, ?_⟩
    · exact fun shard hshard => absurd hshard List.not_mem_nil
    · exact fun month => .refl _
    · exact fun month fragment hfragment => absurd hfragment List.not_mem_nil
    · exact fun month hmonth => absurd hmonth List.not_mem_nil
    · exact fun month _ => ⟨rfl, rfl⟩
  have hloop := @Withstands.foldlM _ _ _ _ Call.fallible Disk.perform "I/O error" _
    (Bare original markers) d _ (MonthsStaged lib target original) (compactMonth lib target policy)
    months [] (fun done month rest hdone t compacted ht hstaged => ?_) hd hempty
  · refine Withstands.bind hloop fun compacted d₁ hd₁ hstaged => ?_
    obtain ⟨directory₁, held, next, hstaging₁, hstaged, hheld, hother⟩ := hstaged
    refine (sourceProofs_safe hd₁ source target.plan).bind ?_
    rintro sources d₁ - ⟨rfl, hsources⟩
    refine (check_safe hd₁ (buildManifest lib target source policy sources _)).bind ?_
    rintro manifest d₁ - ⟨rfl, hmanifest⟩
    obtain ⟨rfl, hfragments, hcompacted⟩ := buildManifest_spec hmanifest
    refine (validateStructure_safe target hd₁ manifest).bind ?_
    rintro _ d₁ - ⟨rfl, hchecked, hproofs⟩
    refine (validateOutputsAt_safe lib hd₁ .staging manifest).bind ?_
    rintro _ d₁ - ⟨rfl, hvalid⟩
    refine .done hd₁ ⟨directory₁, hstaging₁, ?_, hchecked, fun proof hproof => ?_⟩
    · refine lossless_of_staged hmonths (hfragments ▸ sortFragments_perm _)
        (hcompacted ▸ sortFragments_perm _) hstaged hheld hother fun shard hshard => ?_
      obtain ⟨path, bytes, hpath, hbytes, hshard'⟩ := hvalid shard hshard
      refine ⟨path, bytes, hpath, ?_, hshard'⟩
      rw [show d₁.directory .staging = d₁.staging from rfl, hstaging₁] at hbytes
      exact hbytes
    · obtain ⟨hpath, hlength, hhex⟩ := hproofs proof hproof
      exact ⟨hpath, ⟨hlength, hhex⟩, hsources proof hproof⟩
  · refine compactMonth_safe hreads policy ?_ ht hstaged
    have hnodup := (byMonth_spec hmonths).1
    rw [hdone, List.map_append, List.map_cons] at hnodup
    exact fun hmem => (List.nodup_append.mp hnodup).2.2 _ hmem _ List.mem_cons_self rfl

end WikiEcon.Ingest.Compaction
