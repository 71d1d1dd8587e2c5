import Mathlib.Data.String.Basic
import WikiEcon.Stages.Recordings

/-!
# Stage receipts are stable

What a recorder has just recorded is reusable when its directories are collected again, as long
as the recording itself brought no new file into them. `record` gives every Parquet output a
sidecar there, so its outputs must come with their sidecars (`Prepared`); a sidecar that is of
another algorithm or other inputs is rewritten in its place, before it is inspected itself.
-/

namespace WikiEcon.Stages

/-! ## Sidecars -/

theorem isParquet_sidecarPath (path : Path) : isParquet (sidecarPath path) = false := by
  unfold isParquet sidecarPath withFileName
  rw [List.getLast?_concat, Option.any_some, String.toList_append]
  have hsuffix : ∀ l : List Char,
    ".parquet".toList.isSuffixOf (l ++ ".receipt.json".toList) = false := by
    intro l
    unfold List.isSuffixOf
    rw [List.reverse_append]
    rfl
  rw [hsuffix, Bool.false_and]

theorem ne_nil_of_isParquet {path : Path} (h : isParquet path = true) : path ≠ [] := by
  rintro rfl
  cases h

theorem holds_concat {dir : Collected} {init : Path} {name : String} :
    dir.holds (init ++ [name]) = true ↔ dir.root <+: init := by
  unfold Collected.holds
  rw [Bool.and_eq_true, List.isPrefixOf_iff_prefix, bne_iff_ne, List.prefix_concat_iff]
  constructor
  · rintro ⟨heq | hroot, hne⟩
    · exact absurd heq.symm hne
    · exact hroot
  · intro hroot
    refine ⟨Or.inr hroot, fun heq => ?_⟩
    have hlength := hroot.length_le
    rw [← heq, List.length_append, List.length_singleton] at hlength
    omega

/-- A sidecar lies beside its file. -/
theorem holds_sidecarPath {dir : Collected} {path : Path} (hpath : path ≠ []) :
    dir.holds (sidecarPath path) = dir.holds path := by
  rw [Bool.eq_iff_iff, sidecarPath_eq hpath, holds_concat]
  conv_rhs => rw [← List.dropLast_append_getLast hpath]
  exact holds_concat.symm

theorem ne_nil_of_holds {dir : Collected} {path : Path} (h : dir.holds path = true) :
    path ≠ [] := by
  rintro rfl
  obtain ⟨hroot, hne⟩ := Bool.and_eq_true _ _ ▸ h
  have hnil : dir.root = [] := List.prefix_nil.mp (List.isPrefixOf_iff_prefix.mp hroot)
  exact bne_iff_ne.mp hne hnil.symm

theorem intercalate_concat {α : Type} (sep suffix last : List α) (init : List (List α)) :
    sep.intercalate (init ++ [last ++ suffix]) = sep.intercalate (init ++ [last]) ++ suffix := by
  induction init with
  | nil => simp [List.intercalate]
  | cons first rest ih =>
    cases rest with
    | nil => simp [List.intercalate, List.intersperse]
    | cons second rest =>
      show sep.intercalate (first :: second :: (rest ++ [last ++ suffix]))
        = sep.intercalate (first :: second :: (rest ++ [last])) ++ suffix
      simp only [List.intercalate_cons_cons, List.append_assoc]
      exact congrArg (fun l => first ++ (sep ++ l)) ih

/-- A sidecar is tracked after its file. -/
theorem identity_lt_sidecarPath {dir : Collected} {path : Path} (h : dir.holds path = true) :
    (dir.tracked path).identity < (dir.tracked (sidecarPath path)).identity := by
  have hpath := ne_nil_of_holds h
  have hroot : dir.root.length ≤ path.dropLast.length := by
    rw [← List.dropLast_append_getLast hpath] at h
    exact (holds_concat.mp h).length_le
  have hdrop : ∀ name, (path.dropLast ++ [name]).drop dir.root.length
      = path.dropLast.drop dir.root.length ++ [name] :=
    fun name => List.drop_append_of_le_length hroot
  have hsidecar : (dir.tracked (sidecarPath path)).identity
      = (dir.tracked path).identity ++ ".receipt.json" := by
    unfold Collected.tracked
    conv_rhs => rw [← List.dropLast_append_getLast hpath]
    rw [sidecarPath_eq hpath, hdrop, hdrop]
    apply String.toList_inj.mp
    simp only [String.toList_append, String.toList_intercalate, List.map_append, List.map_cons,
      List.map_nil, intercalate_concat, List.append_assoc]
  rw [hsidecar, String.lt_iff_toList_lt, String.toList_append]
  conv_lhs => rw [← List.append_nil (dir.tracked path).identity.toList]
  exact List.append_left_lt (List.nil_lt_cons _ _)

section Reuse

variable {lib : StageLibrary} {fs fs' : FileSystem} {p : TrackedPath} {a : ArtifactIdentity}

/-! ## What a look at a file depends on -/

theorem readReceipt_congr {path : Path}
    (hsidecar : fs'.get (sidecarPath path) = fs.get (sidecarPath path)) :
    readReceipt lib.toLibrary fs' path = readReceipt lib.toLibrary fs path := by
  unfold readReceipt
  rw [hsidecar]

theorem verify_congr {path : Path} {identity : String} {expected : Option String}
    {mode : VerificationMode} (hfile : fs'.get path = fs.get path)
    (hsidecar : fs'.get (sidecarPath path) = fs.get (sidecarPath path)) :
    verify lib.toLibrary fs' path identity expected mode
      = verify lib.toLibrary fs path identity expected mode := by
  unfold verify
  rw [readReceipt_congr hsidecar, hfile]

/-- A match depends on the file, and on its sidecar if the record has its receipt. -/
theorem artifactMatches_congr (hfile : fs'.get p.path = fs.get p.path)
    (hsidecar : a.artifactReceiptSha256 = none ∨
      fs'.get (sidecarPath p.path) = fs.get (sidecarPath p.path)) :
    artifactMatches lib fs' a p = artifactMatches lib fs a p := by
  have hverified : receiptVerified lib fs' a p.path = receiptVerified lib fs a p.path := by
    unfold receiptVerified
    rcases hsidecar with hnone | hsidecar
    · rw [hnone]
    · simp only [readReceipt_congr hsidecar, verify_congr hfile hsidecar]
  unfold artifactMatches
  rw [hfile, hverified]

/-! ## What was recorded matches -/

/-- A record of a verified receipt. -/
theorem receiptedIdentity_matches {document : ArtifactReceiptDocument} {file : File}
    {identity : String} {expected : Option String}
    (hverify : verify lib.toLibrary fs p.path identity expected .fast = .ok document)
    (hfile : fs.get p.path = some file) :
    artifactMatches lib fs (receiptedIdentity p.identity file document) p = true := by
  obtain ⟨hread, hidentity, -, file', hfile', hmatches⟩ := verify_eq_ok.mp hverify
  obtain rfl := Option.some.inj (hfile.symm.trans hfile')
  have hlength : file.bytes.length = document.receipt.bytes := by
    rcases hmatches with ⟨-, hlength, -⟩ | ⟨hlength, -⟩ <;> exact hlength
  have hagain : verify lib.toLibrary fs p.path document.receipt.identity
      (some document.receiptSha256) .fast = .ok document :=
    verify_eq_ok.mpr ⟨hread, rfl, fun hash hhash => Option.some.inj hhash, file, hfile, hmatches⟩
  have hverified : receiptVerified lib fs (receiptedIdentity p.identity file document) p.path
      = some true := by
    have hhash : (receiptedIdentity p.identity file document).artifactReceiptSha256
        = some document.receiptSha256 := rfl
    unfold receiptVerified
    simp only [hhash, hread, hagain]
  unfold artifactMatches
  simp only [hfile, hverified]
  simp [receiptedIdentity, hlength]

theorem inspect_matches (h : inspect lib fs p = .ok a) : artifactMatches lib fs a p = true := by
  obtain ⟨file, hfile, h⟩ := bind_eq_ok.mp h
  have hfile := context_eq_ok.mp hfile
  split at h
  · obtain ⟨found, hfound, h⟩ := bind_eq_ok.mp h
    obtain ⟨document, hverify, h⟩ := bind_eq_ok.mp h
    cases h
    exact receiptedIdentity_matches hverify hfile
  · obtain ⟨summary, -, h⟩ := bind_eq_ok.mp h
    cases h
    unfold artifactMatches
    simp only [hfile]
    simp [receiptVerified]

/-- A file that is not Parquet is recorded without a receipt. -/
theorem inspect_unreceipted (hparquet : isParquet p.path = false) (h : inspect lib fs p = .ok a) :
    a.artifactReceiptSha256 = none := by
  obtain ⟨file, -, h⟩ := bind_eq_ok.mp h
  rw [if_neg (by rw [hparquet]; exact fun h => Bool.false_ne_true h.1)] at h
  obtain ⟨summary, -, h⟩ := bind_eq_ok.mp h
  cases h
  rfl

/-! ## Receipted outputs -/

/-- A Parquet file with the sidecar that `record` looks for. -/
def Settled (lib : StageLibrary) (algorithmVersion inputFingerprint : String) (fs : FileSystem)
    (path : Path) : Prop :=
  ∃ document, verify lib.toLibrary fs path document.receipt.identity none .fast = .ok document ∧
    document.receipt.algorithmVersion = algorithmVersion ∧
    document.receipt.inputFingerprint = inputFingerprint

theorem Settled.congr {algorithmVersion inputFingerprint : String} {path : Path}
    (h : Settled lib algorithmVersion inputFingerprint fs path) (hfile : fs'.get path = fs.get path)
    (hsidecar : fs'.get (sidecarPath path) = fs.get (sidecarPath path)) :
    Settled lib algorithmVersion inputFingerprint fs' path := by
  obtain ⟨document, hverify, h⟩ := h
  exact ⟨document, (verify_congr hfile hsidecar).trans hverify, h⟩

/-- What the inspection of a Parquet output that has a sidecar leaves behind. -/
structure ReceiptedStep (lib : StageLibrary) (algorithmVersion inputFingerprint : String)
    (fs : FileSystem) (p : TrackedPath) (inspected : FileSystem × ArtifactIdentity) : Prop where
  paths : inspected.1.paths = fs.paths
  frame : ∀ path, path ≠ sidecarPath p.path → inspected.1.get path = fs.get path
  settled : Settled lib algorithmVersion inputFingerprint inspected.1 p.path
  unchanged : Settled lib algorithmVersion inputFingerprint fs p.path → inspected.1 = fs
  isMatch : artifactMatches lib inspected.1 inspected.2 p = true

/-- What is written as JSON is read back. -/
def ReadsBack (lib : StageLibrary) : Prop :=
  ∀ document, lib.readDocument (lib.writeDocument document) = some document

/-- A sidecar that was just written is read back. -/
theorem writeReceipt_verify (hback : ReadsBack lib) {artifact : Path} {receipt : ArtifactReceipt}
    {file : File} {written : FileSystem × ArtifactReceiptDocument}
    (hfile : fs.get artifact = some file)
    (hschema : receipt.schemaVersion = artifactReceiptSchemaVersion)
    (h : writeReceipt lib.toLibrary fs artifact receipt = .ok written) :
    written.1 = fs.write (sidecarPath artifact) (lib.writeDocument written.2) ∧
      written.2.receipt = receipt ∧
      verify lib.toLibrary written.1 artifact receipt.identity none .fast = .ok written.2 := by
  obtain ⟨_, hidentity, h⟩ := bind_eq_ok.mp h
  obtain ⟨file', hfile', h⟩ := bind_eq_ok.mp h
  obtain ⟨_, hlength, h⟩ := bind_eq_ok.mp h
  obtain rfl := Option.some.inj (hfile.symm.trans (context_eq_ok.mp hfile'))
  cases h
  refine ⟨rfl, rfl, verify_eq_ok.mpr ⟨?_, rfl, fun hash hhash => (by cases hhash), file, ?_,
    Or.inl ⟨rfl, ensure_eq_ok.mp hlength, rfl⟩⟩⟩
  · refine bind_eq_ok.mpr ⟨_, context_eq_ok.mpr (FileSystem.get_write_self _), ?_⟩
    refine bind_eq_ok.mpr ⟨_, context_eq_ok.mpr (hback _), ?_⟩
    refine bind_eq_ok.mpr ⟨(), ensure_eq_ok.mpr rfl,
      bind_eq_ok.mpr ⟨(), ensure_eq_ok.mpr hschema, ?_⟩⟩
    refine bind_eq_ok.mpr ⟨(), ensure_eq_ok.mpr rfl, ?_⟩
    exact bind_eq_ok.mpr ⟨(), hidentity, rfl⟩
  · rw [FileSystem.get_write_ne _ (sidecarPath_ne artifact).symm]
    exact hfile

theorem receiptedDocument_step (hback : ReadsBack lib) {algorithmVersion inputFingerprint : String}
    {receipted : FileSystem × ArtifactReceiptDocument}
    (hsidecar : (fs.get (sidecarPath p.path)).isSome) (hdraft : fs.get (draftPath p.path) = none)
    (h : receiptedDocument lib fs p algorithmVersion inputFingerprint = .ok receipted) :
    receipted.1.paths = fs.paths ∧
      (∀ path, path ≠ sidecarPath p.path → receipted.1.get path = fs.get path) ∧
      (verify lib.toLibrary receipted.1 p.path receipted.2.receipt.identity none .fast
          = .ok receipted.2 ∧
        receipted.2.receipt.algorithmVersion = algorithmVersion ∧
        receipted.2.receipt.inputFingerprint = inputFingerprint) ∧
      (Settled lib algorithmVersion inputFingerprint fs p.path → receipted.1 = fs) := by
  obtain ⟨drafted, hdrafted, h⟩ := bind_eq_ok.mp h
  obtain rfl : (fs, none) = drafted := by
    unfold finalizeSemanticDraft at hdrafted
    rw [hdraft] at hdrafted
    exact Except.ok.inj hdrafted
  replace h : existingOrScanned lib fs p algorithmVersion inputFingerprint = .ok receipted := h
  unfold existingOrScanned at h
  rw [if_pos hsidecar] at h
  obtain ⟨found, hfound, h⟩ := bind_eq_ok.mp h
  obtain ⟨existing, hverify, h⟩ := bind_eq_ok.mp h
  obtain ⟨hread, hidentity, -, file, hfile, -⟩ := verify_eq_ok.mp hverify
  obtain rfl := Except.ok.inj (hfound.symm.trans hread)
  split at h
  · -- the sidecar is the one that is looked for
    rename_i hcurrent
    cases h
    exact ⟨rfl, fun _ _ => rfl, ⟨hverify, hcurrent⟩, fun _ => rfl⟩
  · rename_i hstale
    obtain ⟨file', hfile', h⟩ := bind_eq_ok.mp h
    obtain ⟨summary, -, h⟩ := bind_eq_ok.mp h
    obtain rfl := Option.some.inj (hfile.symm.trans (context_eq_ok.mp hfile'))
    obtain ⟨hwritten, hreceipt, hagain⟩ := writeReceipt_verify hback hfile rfl h
    refine ⟨?_, fun path hpath => ?_, ⟨?_, ?_, ?_⟩, fun hsettled => absurd ?_ hstale⟩
    · rw [hwritten]
      rcases @FileSystem.paths_write fs (sidecarPath p.path)
        (lib.writeDocument receipted.2) with hsame | ⟨-, hnone⟩
      · exact hsame
      · rw [hnone] at hsidecar
        cases hsidecar
    · rw [hwritten, FileSystem.get_write_ne _ hpath]
    · rw [hreceipt]
      exact hagain
    · rw [hreceipt]
      rfl
    · rw [hreceipt]
      rfl
    · -- what is there is what is read
      obtain ⟨document, hdocument, hcurrent⟩ := hsettled
      obtain rfl := Except.ok.inj (hread.symm.trans (verify_eq_ok.mp hdocument).1)
      exact hcurrent

theorem receiptedStep (hback : ReadsBack lib) {algorithmVersion inputFingerprint : String}
    {inspected : FileSystem × ArtifactIdentity} (hparquet : isParquet p.path = true)
    (hsidecar : (fs.get (sidecarPath p.path)).isSome) (hdraft : fs.get (draftPath p.path) = none)
    (h : inspectReceiptedOutput lib algorithmVersion inputFingerprint fs p = .ok inspected) :
    ReceiptedStep lib algorithmVersion inputFingerprint fs p inspected := by
  unfold inspectReceiptedOutput at h
  rw [if_pos hparquet] at h
  obtain ⟨receipted, hreceipted, h⟩ := bind_eq_ok.mp h
  obtain ⟨file, hfile, h⟩ := bind_eq_ok.mp h
  cases h
  obtain ⟨hpaths, hframe, hdocument, hunchanged⟩ :=
    receiptedDocument_step hback hsidecar hdraft hreceipted
  exact ⟨hpaths, hframe, ⟨receipted.2, hdocument⟩, hunchanged,
    receiptedIdentity_matches hdocument.1 (context_eq_ok.mp hfile)⟩

/-- Every Parquet output has a sidecar and no draft. -/
def HaveSidecars (fs : FileSystem) (paths : List TrackedPath) : Prop :=
  ∀ p ∈ paths, isParquet p.path = true →
    (fs.get (sidecarPath p.path)).isSome ∧ fs.get (draftPath p.path) = none

theorem HaveSidecars.congr {paths : List TrackedPath} (h : HaveSidecars fs paths)
    (hpaths : fs'.paths = fs.paths) : HaveSidecars fs' paths := by
  intro p hp hparquet
  obtain ⟨hsidecar, hdraft⟩ := h p hp hparquet
  refine ⟨?_, ?_⟩
  · rw [FileSystem.get_isSome_iff, hpaths]
    exact FileSystem.get_isSome_iff.mp hsidecar
  · rw [← Option.not_isSome_iff_eq_none, FileSystem.get_isSome_iff, hpaths,
      ← FileSystem.get_isSome_iff, hdraft]
    exact Bool.false_ne_true

/-- Sidecars come after the files they lie beside. -/
def SidecarsLater (whole : List TrackedPath) : Prop :=
  ∀ before p rest, whole = before ++ p :: rest → ∀ q ∈ rest, isParquet q.path = true →
    p.path = sidecarPath q.path → ∃ q' ∈ before, q'.path = q.path

/-- The inspection of other files leaves a settled one as it is. -/
theorem Settled.step {algorithmVersion inputFingerprint : String} {q : Path}
    {inspected : FileSystem × ArtifactIdentity} (hparquet : isParquet p.path = true)
    (hstep : ReceiptedStep lib algorithmVersion inputFingerprint fs p inspected)
    (hq : isParquet q = true) (h : Settled lib algorithmVersion inputFingerprint fs q) :
    Settled lib algorithmVersion inputFingerprint inspected.1 q := by
  by_cases hsame : q = p.path
  · rw [hsame]
    exact hstep.settled
  · refine h.congr (hstep.frame _ fun heq => ?_) (hstep.frame _ fun heq => hsame ?_)
    · rw [heq, isParquet_sidecarPath] at hq
      cases hq
    · exact sidecarPath_injective (ne_nil_of_isParquet hq) (ne_nil_of_isParquet hparquet) heq

/-- Receipted outputs that come with their sidecars: no file comes or goes, a file changes only
if it is a sidecar that was not settled, and all that was recorded matches in the end. -/
theorem inspectReceiptedOutputs_spec {whole : List TrackedPath}
    (hback : (∃ p ∈ whole, isParquet p.path = true) → ReadsBack lib) (hlater : SidecarsLater whole)
    {algorithmVersion inputFingerprint : String} :
    ∀ {paths before : List TrackedPath} {fs : FileSystem}
      {inspected : FileSystem × List ArtifactIdentity},
      whole = before ++ paths → HaveSidecars fs paths →
      (∀ q ∈ before, isParquet q.path = true →
        Settled lib algorithmVersion inputFingerprint fs q.path) →
      inspectReceiptedOutputs lib algorithmVersion inputFingerprint fs paths = .ok inspected →
      inspected.1.paths = fs.paths ∧
      (∀ path, (∀ q ∈ paths, isParquet q.path = true → path = sidecarPath q.path →
        Settled lib algorithmVersion inputFingerprint fs q.path) →
        inspected.1.get path = fs.get path) ∧
      List.Forall₂ (fun a p => artifactMatches lib inspected.1 a p = true) inspected.2 paths := by
  intro paths
  induction paths with
  | nil =>
    intro before fs inspected _ _ _ h
    cases h
    exact ⟨rfl, fun _ _ => rfl, .nil⟩
  | cons p rest ih =>
    intro before fs inspected hwhole hsidecars hsettled h
    obtain ⟨first, hfirst, h⟩ := bind_eq_ok.mp h
    obtain ⟨others, hothers, h⟩ := bind_eq_ok.mp h
    cases h
    have hwhole' : whole = (before ++ [p]) ++ rest := by
      rw [hwhole, List.append_assoc]
      rfl
    -- what one step does, to a Parquet file and to another
    have hstep : first.1.paths = fs.paths ∧ artifactMatches lib first.1 first.2 p = true ∧
        (∀ q, isParquet q = true → Settled lib algorithmVersion inputFingerprint fs q →
          Settled lib algorithmVersion inputFingerprint first.1 q) ∧
        (isParquet p.path = true → Settled lib algorithmVersion inputFingerprint first.1 p.path) ∧
        (∀ path, (isParquet p.path = true → path = sidecarPath p.path →
          Settled lib algorithmVersion inputFingerprint fs p.path) →
          first.1.get path = fs.get path) ∧
        (first.2.artifactReceiptSha256 = none ∨ isParquet p.path = true) := by
      by_cases hparquet : isParquet p.path = true
      · obtain ⟨hsidecar, hdraft⟩ := hsidecars p List.mem_cons_self hparquet
        have hstep := receiptedStep (hback ⟨p, by simp [hwhole], hparquet⟩) hparquet hsidecar
          hdraft hfirst
        refine ⟨hstep.paths, hstep.isMatch, fun q hq => Settled.step hparquet hstep hq,
          fun _ => hstep.settled, fun path hpath => ?_, Or.inr hparquet⟩
        by_cases hown : path = sidecarPath p.path
        · rw [hstep.unchanged (hpath hparquet hown)]
        · exact hstep.frame path hown
      · unfold inspectReceiptedOutput at hfirst
        rw [if_neg hparquet] at hfirst
        obtain ⟨a, ha, hfirst⟩ := bind_eq_ok.mp hfirst
        cases hfirst
        exact ⟨rfl, inspect_matches ha, fun _ _ h => h, fun h => absurd h hparquet,
          fun _ _ => rfl, Or.inl (inspect_unreceipted (Bool.eq_false_iff.mpr hparquet) ha)⟩
    obtain ⟨hpaths, hmatch, hkept, hown, hframe, hkind⟩ := hstep
    have hsettled' : ∀ q ∈ before ++ [p], isParquet q.path = true →
        Settled lib algorithmVersion inputFingerprint first.1 q.path := by
      intro q hq hparquet
      rcases List.mem_append.mp hq with hq | hq
      · exact hkept _ hparquet (hsettled q hq hparquet)
      · obtain rfl := List.mem_singleton.mp hq
        exact hown hparquet
    have hsidecars' : HaveSidecars fs rest := fun q hq => hsidecars q (List.mem_cons_of_mem _ hq)
    obtain ⟨hpaths', hframe', hmatches⟩ :=
      ih hwhole' (hsidecars'.congr hpaths) hsettled' hothers
    refine ⟨hpaths'.trans hpaths, fun path hpath => ?_, .cons ?_ hmatches⟩
    · rw [hframe' path fun q hq hparquet heq =>
        hkept _ hparquet (hpath q (List.mem_cons_of_mem _ hq) hparquet heq)]
      exact hframe path fun hparquet heq => hpath p List.mem_cons_self hparquet heq
    · -- nothing that comes later touches this file or its sidecar
      have hfile : others.1.get p.path = first.1.get p.path := by
        refine hframe' _ fun q hq hparquet heq => ?_
        obtain ⟨q', hq', hpath⟩ := hlater before p rest hwhole q hq hparquet heq
        rw [← hpath] at hparquet ⊢
        exact hkept _ hparquet (hsettled q' hq' hparquet)
      have hsidecar : first.2.artifactReceiptSha256 = none ∨
          others.1.get (sidecarPath p.path) = first.1.get (sidecarPath p.path) := by
        rcases hkind with hnone | hparquet
        · exact Or.inl hnone
        · refine Or.inr (hframe' _ fun q _ hq heq => ?_)
          rw [← sidecarPath_injective (ne_nil_of_isParquet hparquet) (ne_nil_of_isParquet hq) heq]
          exact hown hparquet
      exact (artifactMatches_congr hfile hsidecar).trans hmatch

/-! ## Collecting again -/

theorem mem_inventory {dirs : List Collected} : p ∈ inventory fs dirs ↔
    ∃ dir ∈ dirs, p = dir.tracked p.path ∧ p.path ∈ fs.paths ∧ dir.holds p.path = true := by
  unfold inventory collectTrackedFiles
  simp only [List.mem_flatten, List.mem_map, exists_exists_and_eq_and, mem_sortTracked,
    List.mem_filter]
  refine exists_congr fun dir => and_congr_right fun _ => ⟨?_, ?_⟩
  · rintro ⟨path, hpath, rfl⟩
    exact ⟨rfl, hpath⟩
  · rintro ⟨hp, hpath⟩
    exact ⟨p.path, hpath, hp.symm⟩

theorem inventory_congr {dirs : List Collected}
    (h : ∀ dir ∈ dirs, fs'.paths.filter dir.holds = fs.paths.filter dir.holds) :
    inventory fs' dirs = inventory fs dirs := by
  unfold inventory
  refine congrArg List.flatten (List.map_congr_left fun dir hdir => ?_)
  unfold collectTrackedFiles
  rw [h dir hdir]

/-- A file outside leaves the inventory as it is. -/
theorem inventory_write {dirs : List Collected} {path : Path} {bytes : List UInt8}
    (houtside : ∀ dir ∈ dirs, dir.holds path = false) :
    inventory (fs.write path bytes) dirs = inventory fs dirs := by
  refine inventory_congr fun dir hdir => ?_
  rcases @FileSystem.paths_write fs path bytes with hsame | ⟨hnew, -⟩
  · rw [hsame]
  · rw [hnew, List.filter_append, List.filter_singleton, houtside dir hdir]
    exact List.append_nil _

theorem sidecarsLater_inventory (fs : FileSystem) (dirs : List Collected) :
    SidecarsLater (sortTracked (inventory fs dirs)) := by
  intro before p rest hwhole q hq hparquet heq
  have hmem : ∀ t, t ∈ before ++ p :: rest ↔ t ∈ inventory fs dirs := by
    intro t
    rw [← hwhole]
    exact mem_sortTracked
  obtain ⟨dir, hdir, hp, -, hholds⟩ := mem_inventory.mp ((hmem p).mp (by simp))
  obtain ⟨-, -, -, hpresent, -⟩ := mem_inventory.mp ((hmem q).mp (by simp [hq]))
  rw [heq, holds_sidecarPath (ne_nil_of_isParquet hparquet)] at hholds
  -- the file is tracked from this directory too, under a smaller identity
  have hfile : dir.tracked q.path ∈ before ++ p :: rest :=
    (hmem _).mpr (mem_inventory.mpr ⟨dir, hdir, rfl, hpresent, hholds⟩)
  have hless : (dir.tracked q.path).identity < p.identity := by
    rw [hp, heq]
    exact identity_lt_sidecarPath hholds
  rcases List.mem_append.mp hfile with hbefore | hafter
  · exact ⟨_, hbefore, rfl⟩
  · have htotal : Std.Total fun a b : TrackedPath => a.identity ≤ b.identity :=
      ⟨fun _ _ => le_total _ _⟩
    have htrans : IsTrans TrackedPath fun a b => a.identity ≤ b.identity :=
      ⟨fun _ _ _ => le_trans⟩
    have hsorted : (sortTracked (inventory fs dirs)).Pairwise fun a b => a.identity ≤ b.identity :=
      List.pairwise_insertionSort _ _
    have hsorted' : (p :: rest).Pairwise fun a b => a.identity ≤ b.identity :=
      (List.pairwise_append.mp (hwhole ▸ hsorted)).2.1
    rcases List.mem_cons.mp hafter with hsame | hrest
    · rw [hsame] at hless
      exact absurd hless (lt_irrefl _)
    · exact absurd hless (not_lt.mpr (List.rel_of_pairwise_cons hsorted' hrest))

/-! ## Stability -/

/-- The files of the collected directories match what was recorded, and the receipt went
elsewhere. -/
theorem persistReceipt_reusable {receiptPath : Path} {spec : StageSpec}
    {inputs outputs : List ArtifactIdentity} {inDirs outDirs : List Collected}
    (hstage : let receipt := (persistReceipt lib fs receiptPath spec inputs outputs).2
      lib.readStage (lib.writeStage receipt) = some receipt)
    (houtside : ∀ dir ∈ inDirs ++ outDirs, dir.holds receiptPath = false)
    (hinputs : List.Forall₂ (fun a p => artifactMatches lib fs a p = true) inputs
      (sortTracked (inventory fs inDirs)))
    (houtputs : List.Forall₂ (fun a p => artifactMatches lib fs a p = true) outputs
      (sortTracked (inventory fs outDirs))) :
    let recorded := persistReceipt lib fs receiptPath spec inputs outputs
    reusable lib recorded.1 receiptPath spec (inventory recorded.1 inDirs)
      (inventory recorded.1 outDirs) = true := by
  intro recorded
  have hstored : storedReceipt lib recorded.1 receiptPath = some recorded.2 := by
    unfold storedReceipt
    show ((fs.write receiptPath (lib.writeStage recorded.2)).get receiptPath).bind _ = _
    rw [FileSystem.get_write_self]
    exact hstage
  -- The receipt lies outside the directories, so writing it changes none of the files.
  have hmatches : ∀ {records : List ArtifactIdentity} {dirs : List Collected},
      (∀ dir ∈ dirs, dir.holds receiptPath = false) →
      List.Forall₂ (fun a p => artifactMatches lib fs a p = true) records
        (sortTracked (inventory fs dirs)) →
      pathsMatch lib recorded.1 records (inventory recorded.1 dirs) = true := by
    intro records dirs hdirs h
    rw [pathsMatch_iff, show inventory recorded.1 dirs =
      inventory fs dirs from inventory_write hdirs]
    rw [List.forall₂_iff_zip] at h ⊢
    refine ⟨h.1, fun {a p} hpair => ?_⟩
    obtain ⟨dir, hdir, -, -, hholds⟩ :=
      mem_inventory.mp (mem_sortTracked.mp (List.of_mem_zip hpair).2)
    have hne : ∀ path, dir.holds path = true → path ≠ receiptPath := by
      rintro path hpath rfl
      rw [hdirs dir hdir] at hpath
      cases hpath
    refine (artifactMatches_congr (FileSystem.get_write_ne _ (hne _ hholds)) (Or.inr ?_)).trans
      (h.2 hpair)
    refine FileSystem.get_write_ne _ (hne _ ?_)
    rw [holds_sidecarPath (ne_nil_of_holds hholds)]
    exact hholds
  unfold reusable
  simp only [hstored, Bool.and_eq_true]
  refine ⟨⟨?_, ?_⟩, ?_⟩
  · simp [receiptMatchesSpec, recorded, persistReceipt, StageReceipt.seed]
  · exact hmatches (fun dir hdir => houtside dir (List.mem_append_left _ hdir)) hinputs
  · exact hmatches (fun dir hdir => houtside dir (List.mem_append_right _ hdir)) houtputs

theorem inspectAll_matches {paths : List TrackedPath} {records : List ArtifactIdentity}
    (h : inspectAll lib fs paths = .ok records) :
    List.Forall₂ (fun a p => artifactMatches lib fs a p = true) records (sortTracked paths) :=
  ((Workers.forall₂_of_mapM_eq_ok h).imp fun _ _ ha => inspect_matches ha).flip

/-- What `record` needs, and the other recorders do not: every Parquet output comes with its
sidecar, without a draft, and lies in none of the input directories. -/
structure Prepared (run : Recording) (inDirs : List Collected) : Prop where
  sidecars : HaveSidecars run.before run.outputs
  apart : ∀ p ∈ run.outputs, isParquet p.path = true → ∀ dir ∈ inDirs, dir.holds p.path = false

/-- **Stage receipts are stable.** What was recorded of collected directories is reusable when
they are collected again and no file was touched since, wherever the receipt lies outside. -/
theorem recording_reusable {run : Recording} {inDirs outDirs : List Collected}
    (hran : run.Ran lib) (hstage : lib.readStage (lib.writeStage run.receipt) = some run.receipt)
    (hback : (∃ p ∈ run.outputs, isParquet p.path = true) → ReadsBack lib)
    (hinputs : run.inputs = inventory run.before inDirs)
    (houtputs : run.outputs = inventory run.before outDirs)
    (houtside : ∀ dir ∈ inDirs ++ outDirs, dir.holds run.receiptPath = false)
    (hprepared : run.recorder = .receipted → Prepared run inDirs) :
    reusable lib run.after run.receiptPath run.spec (inventory run.after inDirs)
      (inventory run.after outDirs) = true := by
  unfold Recording.Ran recordWith at hran
  cases hrecorder : run.recorder with
  | receipted =>
    obtain ⟨hsidecars, hapart⟩ := hprepared hrecorder
    simp only [hrecorder] at hran
    obtain ⟨_, -, hran⟩ := bind_eq_ok.mp hran
    obtain ⟨inputs, hinspected, hran⟩ := bind_eq_ok.mp hran
    obtain ⟨outputs, hrecorded, hran⟩ := bind_eq_ok.mp hran
    have hpersisted : persistReceipt lib outputs.1 run.receiptPath run.spec inputs outputs.2
        = (run.after, run.receipt) := Except.ok.inj hran
    have hafter : _ = run.after := congrArg Prod.fst hpersisted
    have hreceipt : _ = run.receipt := congrArg Prod.snd hpersisted
    rw [← hreceipt] at hstage
    have hback' : (∃ p ∈ sortTracked run.outputs, isParquet p.path = true) → ReadsBack lib :=
      fun ⟨p, hp, hparquet⟩ => hback ⟨p, mem_sortTracked.mp hp, hparquet⟩
    have hsorted : HaveSidecars run.before (sortTracked run.outputs) :=
      fun p hp => hsidecars p (mem_sortTracked.mp hp)
    have hlater : SidecarsLater (sortTracked run.outputs) :=
      houtputs ▸ sidecarsLater_inventory run.before outDirs
    obtain ⟨hpaths, hframe, hmatches⟩ := inspectReceiptedOutputs_spec hback' hlater
      (List.nil_append _).symm hsorted (fun q hq => absurd hq List.not_mem_nil) hrecorded
    have hinventory : ∀ dirs, inventory outputs.1 dirs = inventory run.before dirs :=
      fun dirs => inventory_congr fun dir _ => by rw [hpaths]
    -- the sidecars that were written lie beside the outputs, so no input saw them
    have hkept : ∀ dir ∈ inDirs, ∀ path, dir.holds path = true →
        outputs.1.get path = run.before.get path := by
      intro dir hdir path hholds
      refine hframe path fun q hq hparquet heq => ?_
      rw [heq, holds_sidecarPath (ne_nil_of_isParquet hparquet),
        hapart q (mem_sortTracked.mp hq) hparquet dir hdir] at hholds
      cases hholds
    rw [← hafter]
    refine persistReceipt_reusable hstage houtside ?_ ?_
    · rw [hinventory, ← hinputs]
      have hinput := inspectAll_matches hinspected
      rw [List.forall₂_iff_zip] at hinput ⊢
      refine ⟨hinput.1, fun {a p} hpair => ?_⟩
      have hmem := mem_sortTracked.mp (List.of_mem_zip hpair).2
      rw [hinputs] at hmem
      obtain ⟨dir, hdir, -, -, hholds⟩ := mem_inventory.mp hmem
      refine (artifactMatches_congr (hkept dir hdir _ hholds) (Or.inr (hkept dir hdir _ ?_))).trans
        (hinput.2 hpair)
      rw [holds_sidecarPath (ne_nil_of_holds hholds)]
      exact hholds
    · rw [hinventory, ← houtputs]
      exact hmatches
  | plain =>
    simp only [hrecorder] at hran
    obtain ⟨_, -, hran⟩ := bind_eq_ok.mp hran
    obtain ⟨inputs, hinspected, hran⟩ := bind_eq_ok.mp hran
    obtain ⟨outputs, hrecorded, hran⟩ := bind_eq_ok.mp hran
    have hpersisted : persistReceipt lib run.before run.receiptPath run.spec inputs outputs
        = (run.after, run.receipt) := Except.ok.inj hran
    have hafter : _ = run.after := congrArg Prod.fst hpersisted
    have hreceipt : _ = run.receipt := congrArg Prod.snd hpersisted
    rw [← hreceipt] at hstage
    rw [← hafter]
    exact persistReceipt_reusable hstage houtside (hinputs ▸ inspectAll_matches hinspected)
      (houtputs ▸ inspectAll_matches hrecorded)
  | verified source =>
    simp only [hrecorder] at hran
    obtain ⟨_, -, hran⟩ := bind_eq_ok.mp hran
    obtain ⟨inputs, hinspected, hran⟩ := bind_eq_ok.mp hran
    obtain ⟨outputs, hrecorded, hran⟩ := bind_eq_ok.mp hran
    have hpersisted : persistReceipt lib run.before run.receiptPath run.spec inputs
        (outputs.insertionSort fun a b => a.identity ≤ b.identity) = (run.after, run.receipt) :=
      Except.ok.inj hran
    have hafter : _ = run.after := congrArg Prod.fst hpersisted
    have hreceipt : _ = run.receipt := congrArg Prod.snd hpersisted
    rw [← hreceipt] at hstage
    have hmatches : List.Forall₂ (fun a p => artifactMatches lib run.before a p = true) outputs
        run.outputs := by
      refine ((Workers.forall₂_of_mapM_eq_ok hrecorded).imp fun p a h => ?_).flip
      obtain ⟨found, -, h⟩ := bind_eq_ok.mp h
      obtain ⟨_, hmatch, h⟩ := bind_eq_ok.mp h
      cases h
      show artifactMatches lib run.before a p = true
      exact ensure_eq_ok.mp hmatch
    rw [← hafter]
    exact persistReceipt_reusable hstage houtside (hinputs ▸ inspectAll_matches hinspected)
      (houtputs ▸ forall₂_insertionSort (fun a p h => artifactMatches_identity h) hmatches)

end Reuse

namespace Monthly

theorem library_readsBack : ReadsBack library := documentCodec.read_encode

/-- The table that was just recorded is reusable, although its sidecar was rewritten. -/
theorem recording_reusable_monthly :
    reusable library run.after receiptPath spec (inventory run.after [⟨["data"], "data"⟩])
      (inventory run.after [⟨["out"], "out"⟩]) = true := by
  have hstage : library.readStage (library.writeStage run.receipt) = some run.receipt :=
    stageReceiptCodec.read_encode run.receipt
  have hprepared : Prepared run [⟨["data"], "data"⟩] :=
    ⟨by unfold HaveSidecars; decide +kernel, by decide +kernel⟩
  exact @recording_reusable library run _ _ run_ran hstage (fun _ => library_readsBack) rfl rfl
    (by decide +kernel) fun _ => hprepared

end Monthly

end WikiEcon.Stages
