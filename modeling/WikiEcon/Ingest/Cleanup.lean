import Mathlib.Data.List.Basic
import WikiEcon.Ingest.Convert

/-!
# What a failed conversion leaves

The files of a chunk are known to the conversion only once all of them are written, so
those of the chunk that fails are not removed. `Wrote` is what a series of writes does
to the disk, `Good` holds while chunks are flushed, and `Broken` when one fails: what is
left is `leftBy`, the files written before the one that failed. The result is exact: a
failed conversion leaves nothing if and only if a chunk that fails to be written fails
at its first file.
-/

namespace WikiEcon.Ingest

open Compute Fallible

variable {ρ φ : Type}

/-! ## Names -/

theorem append_cons_inj_right {α : Type} [DecidableEq α] {x y z w : List α} {a : α} (hz : a ∉ z)
    (hw : a ∉ w) (h : x ++ a :: z = y ++ a :: w) : x = y ∧ z = w := by
  have hreverse : ∀ {u v : List α}, a ∉ v →
      (u ++ a :: v).reverse.takeWhile (· ≠ a) = v.reverse := by
    intro u v hv
    rw [List.reverse_append, List.reverse_cons, List.append_assoc,
      List.takeWhile_append_of_pos fun b hb => ?_]
    · rw [List.singleton_append, List.takeWhile_cons_of_neg (by simp), List.append_nil]
    · refine decide_eq_true fun heq => hv ?_
      exact heq ▸ List.mem_reverse.mp hb
  have hright : z = w := by
    have hlist := congrArg (fun l => (List.reverse l).takeWhile (· ≠ a)) h
    rw [hreverse hz, hreverse hw] at hlist
    exact List.reverse_injective hlist
  subst hright
  exact ⟨List.append_cancel_right h, rfl⟩

theorem partName_inj {s t : String} {j k : ℕ} (h : partName s j = partName t k) :
    s = t ∧ j = k := by
  have hlist := congrArg String.toList h
  unfold partName at hlist
  simp only [String.toList_append] at hlist
  have hlist := List.append_cancel_right hlist
  have hpart : ".part-".toList = ".part".toList ++ ['-'] := by decide
  rw [hpart, List.append_assoc, List.append_assoc, List.append_assoc, List.append_assoc,
    ← List.append_assoc s.toList, ← List.append_assoc t.toList] at hlist
  obtain ⟨hname, hindex⟩ := append_cons_inj_right (dash_notMem_zeroPad 5 j)
    (dash_notMem_zeroPad 5 k) hlist
  exact ⟨String.toList_inj.mp (List.append_cancel_right hname),
    zeroPad_inj (String.toList_inj.mp hindex)⟩

/-- The last letter of a name. -/
def lastLetter (name : String) : Option Char := name.toList.getLast?

theorem lastLetter_append (a : String) {b : String} {c : Char} (h : lastLetter b = some c) :
    lastLetter (a ++ b) = some c := by
  unfold lastLetter at *
  rw [String.toList_append, List.getLast?_append, h]
  rfl

theorem lastLetter_partName (s : String) (k : ℕ) : lastLetter (partName s k) = some 't' :=
  lastLetter_append _ (by decide)

theorem lastLetter_temporaryName (f t : String) : lastLetter (temporaryName f t) = some 'p' :=
  lastLetter_append _ (by decide)

theorem lastLetter_done (s : String) : lastLetter (s ++ ".done") = some 'e' :=
  lastLetter_append _ (by decide)

theorem append_singleton_inj {a b : Path} {x y : String} (h : a ++ [x] = b ++ [y]) :
    a = b ∧ x = y := by
  obtain ⟨hdir, hname⟩ := List.append_inj' h rfl
  exact ⟨hdir, (List.cons.inj hname).1⟩

/-- A part file of a source. -/
def IsPart (sourceId : String) (k : ℕ) (p : Path) : Prop := ∃ dir, p = dir ++ [partName sourceId k]

/-- A temporary file of the call. -/
def IsTemporary (c : Conversion ρ φ) (p : Path) : Prop :=
  ∃ dir k t, c.transactionId = some t ∧ p = dir ++ [temporaryName (partName c.sourceId k) t]

theorem IsPart.not_temporary {c : Conversion ρ φ} {s : String} {k : ℕ} {p : Path}
    (h : IsPart s k p) : ¬ IsTemporary c p := by
  obtain ⟨dir, rfl⟩ := h
  rintro ⟨dir', _, t, -, heq⟩
  have hletter := congrArg lastLetter (append_singleton_inj heq).2
  rw [lastLetter_partName, lastLetter_temporaryName] at hletter
  exact absurd hletter (by decide)

theorem IsPart.eq {s : String} {j k : ℕ} {p : Path} (hj : IsPart s j p) (hk : IsPart s k p) :
    j = k := by
  obtain ⟨dir, rfl⟩ := hj
  obtain ⟨dir', heq⟩ := hk
  exact (partName_inj (append_singleton_inj heq).2).2

theorem IsPart.ne_marker {c : Conversion ρ φ} {s : String} {k : ℕ} {p : Path} (h : IsPart s k p) :
    p ≠ markerPath c := by
  obtain ⟨dir, rfl⟩ := h
  intro heq
  have hsplit : markerPath c = (c.roots.analytical ++ ["_markers"]) ++ [c.sourceId ++ ".done"] := by
    unfold markerPath
    rw [List.append_assoc]
    rfl
  rw [hsplit] at heq
  have hletter := congrArg lastLetter (append_singleton_inj heq).2
  rw [lastLetter_partName, lastLetter_done] at hletter
  exact absurd hletter (by decide)

/-! ## Writes -/

/-- Whether writing to a path fails. -/
def breaks (c : Conversion ρ φ) (p : Path) : Bool :=
  match c.fault p with
  | none => false
  | some .afterRename => c.transactionId.isSome
  | some _ => true

/-- Whether a write that fails leaves a file. -/
def leavesFile (c : Conversion ρ φ) (p : Path) : Bool :=
  match c.transactionId with
  | none => c.fault p = some .inFile
  | some _ => c.fault p = some .afterRename

/-- What writing these files does, temporary files aside: they are there. -/
structure Wrote (c : Conversion ρ φ) (paths : List Path) (w w' : Work ρ) : Prop where
  parts : ∀ p ∈ paths, ¬ IsTemporary c p
  outputs : w'.outputs = w.outputs
  chunkIdx : w'.chunkIdx = w.chunkIdx
  chunkBytes : w'.chunkBytes = w.chunkBytes
  other : ∀ p, p ∉ paths → ¬ IsTemporary c p → w'.files p = w.files p
  temporary : ∀ p, IsTemporary c p → w'.files p = none ∨ w'.files p = w.files p
  there : ∀ p ∈ paths, (w'.files p).isSome = true
  written : ∀ p ∈ w'.written, p ∈ w.written ∨ p ∈ paths ∨ IsTemporary c p ∧ w'.files p = none
  recorded : ∀ p ∈ paths, p ∈ w'.written
  still : ∀ p ∈ w.written, p ∈ w'.written

theorem Wrote.refl {c : Conversion ρ φ} (w : Work ρ) : Wrote c [] w w where
  parts _ h := absurd h List.not_mem_nil
  outputs := rfl
  chunkIdx := rfl
  chunkBytes := rfl
  other _ _ _ := rfl
  temporary _ _ := Or.inr rfl
  there _ h := absurd h List.not_mem_nil
  written _ h := Or.inl h
  recorded _ h := absurd h List.not_mem_nil
  still _ h := h

theorem Wrote.append {c : Conversion ρ φ} {a b : List Path} {w w' w'' : Work ρ}
    (h : Wrote c a w w') (h' : Wrote c b w' w'') : Wrote c (a ++ b) w w'' where
  parts p hp := (List.mem_append.mp hp).elim (h.parts p) (h'.parts p)
  outputs := h'.outputs.trans h.outputs
  chunkIdx := h'.chunkIdx.trans h.chunkIdx
  chunkBytes := h'.chunkBytes.trans h.chunkBytes
  other p hp htemp := by
    obtain ⟨ha, hb⟩ := not_or.mp (fun hor => hp (List.mem_append.mpr hor))
    exact (h'.other p hb htemp).trans (h.other p ha htemp)
  temporary p htemp := by
    rcases h'.temporary p htemp with hnone | hsame
    · exact Or.inl hnone
    · rw [hsame]
      exact h.temporary p htemp
  there p hp := by
    by_cases hb : p ∈ b
    · exact h'.there p hb
    · have ha := (List.mem_append.mp hp).resolve_right hb
      rw [h'.other p hb (h.parts p ha)]
      exact h.there p ha
  written p hp := by
    rcases h'.written p hp with hbefore | hb | htemp
    · rcases h.written p hbefore with hw | ha | ⟨htemp, hnone⟩
      · exact Or.inl hw
      · exact Or.inr (Or.inl (List.mem_append_left _ ha))
      · refine Or.inr (Or.inr ⟨htemp, ?_⟩)
        rcases h'.temporary p htemp with hnone' | hsame
        · exact hnone'
        · rw [hsame]
          exact hnone
    · exact Or.inr (Or.inl (List.mem_append_right _ hb))
    · exact Or.inr (Or.inr htemp)
  recorded p hp := (List.mem_append.mp hp).elim (fun ha => h'.still p (h.recorded p ha))
    (h'.recorded p)
  still p hp := h'.still p (h.still p hp)

/-- What a write leaves, whether it fails or not. -/
def leftByOne (c : Conversion ρ φ) (p : Path) : List Path :=
  if breaks c p && !leavesFile c p then [] else [p]

/-- Only the temporary file was there, and it is gone. -/
theorem Wrote.of_temporary {c : Conversion ρ φ} {w : Work ρ} {target : Path}
    (htemp : IsTemporary c target) (written : List Path)
    (hwritten : ∀ p ∈ written, p ∈ w.written ∨ p = target)
    (hstill : ∀ p ∈ w.written, p ∈ written) :
    Wrote c [] w { w with files := Function.update w.files target none, written := written } where
  parts _ h := absurd h List.not_mem_nil
  outputs := rfl
  chunkIdx := rfl
  chunkBytes := rfl
  other p _ hp := by
    have hne : p ≠ target := fun heq => hp (heq ▸ htemp)
    exact Function.update_of_ne hne ..
  temporary p _ := by
    by_cases heq : p = target
    · exact Or.inl (heq ▸ Function.update_self ..)
    · exact Or.inr (Function.update_of_ne heq ..)
  there _ h := absurd h List.not_mem_nil
  written p hp := by
    rcases hwritten p hp with hbefore | rfl
    · exact Or.inl hbefore
    · exact Or.inr (Or.inr ⟨htemp, Function.update_self ..⟩)
  recorded _ h := absurd h List.not_mem_nil
  still := hstill

theorem Wrote.of_put {c : Conversion ρ φ} {w : Work ρ} {dest : Path}
    (hdest : ¬ IsTemporary c dest) (file : File ρ) : Wrote c [dest] w { w with
      files := Function.update w.files dest (some file)
      written := w.written ++ [dest] } where
  parts p hp := List.mem_singleton.mp hp ▸ hdest
  outputs := rfl
  chunkIdx := rfl
  chunkBytes := rfl
  other p hp _ := by
    have hne : p ≠ dest := fun heq => hp (List.mem_singleton.mpr heq)
    exact Function.update_of_ne hne ..
  temporary p hp := by
    have hne : p ≠ dest := fun heq => hdest (heq ▸ hp)
    exact Or.inr (Function.update_of_ne hne ..)
  there p hp := by
    rw [List.mem_singleton.mp hp]
    show (Function.update w.files dest (some file) dest).isSome = true
    rw [Function.update_self]
    rfl
  written p hp := (List.mem_append.mp hp).imp_right Or.inl
  recorded _ hp := List.mem_append_right _ hp
  still _ hp := List.mem_append_left _ hp

theorem writeParquet_spec {c : Conversion ρ φ} {rows : List (NormalizedRow ρ)} {directory : Path}
    {k : ℕ} {w w' : Work ρ} {r : Except String Unit}
    (h : (writeParquet c rows directory (partName c.sourceId k)).exec w = (r, w')) :
    Wrote c (leftByOne c (directory ++ [partName c.sourceId k])) w w' ∧
      (breaks c (directory ++ [partName c.sourceId k]) = false ↔ r = .ok ()) := by
  have hpart : IsPart c.sourceId k (directory ++ [partName c.sourceId k]) := ⟨directory, rfl⟩
  have hdest : ¬ IsTemporary c (directory ++ [partName c.sourceId k]) := hpart.not_temporary
  unfold writeParquet at h
  unfold leftByOne breaks leavesFile
  dsimp only at h
  cases htx : c.transactionId with
  | none =>
    rw [htx] at h
    cases hfault : c.fault (directory ++ [partName c.sourceId k]) with
    | none =>
      rw [hfault] at h
      obtain ⟨rfl, rfl⟩ := Prod.mk.inj h
      exact ⟨.of_put hdest _, by simp⟩
    | some fault =>
      rw [hfault] at h
      cases fault with
      | directory =>
        obtain ⟨rfl, rfl⟩ := Prod.mk.inj h
        exact ⟨.refl w, by simp⟩
      | create =>
        obtain ⟨rfl, rfl⟩ := Prod.mk.inj h
        exact ⟨.refl w, by simp⟩
      | inFile =>
        obtain ⟨rfl, rfl⟩ := Prod.mk.inj h
        exact ⟨.of_put hdest _, by simp⟩
      | afterRename =>
        obtain ⟨rfl, rfl⟩ := Prod.mk.inj h
        exact ⟨.of_put hdest _, by simp⟩
  | some t =>
    rw [htx] at h
    have htemp : IsTemporary c (directory ++ [temporaryName (partName c.sourceId k) t]) :=
      ⟨directory, k, t, htx, rfl⟩
    have hne : directory ++ [temporaryName (partName c.sourceId k) t]
        ≠ directory ++ [partName c.sourceId k] := fun heq => hdest (heq ▸ htemp)
    -- the temporary file is written, then the file, then the first is gone
    have hrenamed : ∀ file, Wrote c [directory ++ [partName c.sourceId k]] w { w with
        files := Function.update (Function.update (Function.update w.files
          (directory ++ [temporaryName (partName c.sourceId k) t]) (some file))
          (directory ++ [partName c.sourceId k]) (some file))
          (directory ++ [temporaryName (partName c.sourceId k) t]) none
        written := (w.written ++ [directory ++ [temporaryName (partName c.sourceId k) t]])
          ++ [directory ++ [partName c.sourceId k]] } := by
      intro file
      have hcommute : Function.update (Function.update (Function.update w.files
          (directory ++ [temporaryName (partName c.sourceId k) t]) (some file))
          (directory ++ [partName c.sourceId k]) (some file))
          (directory ++ [temporaryName (partName c.sourceId k) t]) none
          = Function.update (Function.update w.files
            (directory ++ [temporaryName (partName c.sourceId k) t]) none)
            (directory ++ [partName c.sourceId k]) (some file) := by
        rw [Function.update_comm hne.symm, Function.update_idem]
      rw [hcommute]
      exact (Wrote.of_temporary htemp (w.written ++ [_])
        (fun p hp => (List.mem_append.mp hp).imp_right List.mem_singleton.mp)
        fun p hp => List.mem_append_left _ hp).append (.of_put hdest file)
    cases hfault : c.fault (directory ++ [partName c.sourceId k]) with
    | none =>
      rw [hfault] at h
      obtain ⟨rfl, rfl⟩ := Prod.mk.inj h
      exact ⟨hrenamed _, by simp⟩
    | some fault =>
      rw [hfault] at h
      cases fault with
      | directory =>
        obtain ⟨rfl, rfl⟩ := Prod.mk.inj h
        exact ⟨.refl w, by simp⟩
      | create =>
        obtain ⟨rfl, rfl⟩ := Prod.mk.inj h
        exact ⟨.of_temporary htemp w.written (fun _ hp => Or.inl hp) fun _ hp => hp, by simp⟩
      | inFile =>
        obtain ⟨rfl, rfl⟩ := Prod.mk.inj h
        refine ⟨?_, by simp⟩
        have hidem : Function.update (Function.update w.files
            (directory ++ [temporaryName (partName c.sourceId k) t]) (some .truncated))
            (directory ++ [temporaryName (partName c.sourceId k) t]) none
            = Function.update w.files
              (directory ++ [temporaryName (partName c.sourceId k) t]) none :=
          Function.update_idem ..
        show Wrote c [] w { w with
          files := Function.update (Function.update w.files _ (some .truncated)) _ none
          written := w.written ++ [directory ++ [temporaryName (partName c.sourceId k) t]] }
        rw [hidem]
        exact .of_temporary htemp _ (fun p hp => (List.mem_append.mp hp).imp_right
          List.mem_singleton.mp) fun p hp => List.mem_append_left _ hp
      | afterRename =>
        obtain ⟨rfl, rfl⟩ := Prod.mk.inj h
        exact ⟨hrenamed _, by simp⟩

/-! ## A chunk -/

/-- What is left of a series of writes: those before the first that fails, and what
this one leaves. -/
def leftBy (c : Conversion ρ φ) : List Path → List Path
  | [] => []
  | p :: rest => if breaks c p then leftByOne c p else p :: leftBy c rest

def allWritten (c : Conversion ρ φ) (paths : List Path) : Bool := paths.all fun p => !breaks c p

theorem leftBy_append (c : Conversion ρ φ) (a b : List Path) :
    leftBy c (a ++ b) = if allWritten c a then a ++ leftBy c b else leftBy c a := by
  induction a with
  | nil => rfl
  | cons p rest ih =>
    rw [List.cons_append]
    have hcons : ∀ l, leftBy c (p :: l) = if breaks c p then leftByOne c p else p :: leftBy c l :=
      fun _ => rfl
    have hall : allWritten c (p :: rest) = (!breaks c p && allWritten c rest) := rfl
    rw [hcons, hcons, hall, ih]
    cases breaks c p with
    | true => rfl
    | false =>
      cases allWritten c rest with
      | true => rfl
      | false => rfl

theorem leftBy_of_allWritten {c : Conversion ρ φ} {paths : List Path}
    (h : allWritten c paths = true) : leftBy c paths = paths := by
  have happend := leftBy_append c paths []
  rw [List.append_nil, if_pos h] at happend
  rw [happend]
  exact List.append_nil paths

/-- How a series of writes ends. -/
structure Ended (c : Conversion ρ φ) (paths : List Path) (outputs : LayerOutputs) (w w' : Work ρ)
    (r : Except String LayerOutputs) : Prop where
  wrote : Wrote c (leftBy c paths) w w'
  ok : allWritten c paths = true →
    ∃ outputs', r = .ok outputs' ∧ ∀ p, p ∈ outputs'.all ↔ p ∈ outputs.all ∨ p ∈ paths
  error : allWritten c paths = false → ∃ e, r = .error e

/-- The files of a partition. -/
def partitionPaths (c : Conversion ρ φ) (k : ℕ) (key : ℤ × String) : List Path :=
  (partitionDirs c key).map fun dir => dir ++ [partName c.sourceId k]

theorem writePartition_ended {c : Conversion ρ φ} {k : ℕ} {outputs : LayerOutputs}
    {partition : (ℤ × String) × List (NormalizedRow ρ)} {w w' : Work ρ}
    {r : Except String LayerOutputs}
    (h : (writePartition c k outputs partition).exec w = (r, w')) :
    Ended c (partitionPaths c k partition.1) outputs w w' r := by
  unfold writePartition at h
  unfold partitionPaths partitionDirs
  cases hroots : c.roots.metricInput with
  | some root =>
    -- A metric input has one file for the month.
    rw [hroots] at h
    show Ended c [monthPartitionDir root partition.1.1 partition.1.2 ++ [partName c.sourceId k]]
      outputs w w' r
    rcases bind_cases h with ⟨e, rfl, hwrite⟩ | ⟨_, left, hwrite, hrest⟩
    · obtain ⟨hwrote, hok⟩ := writeParquet_spec hwrite
      have hbreaks : breaks c (monthPartitionDir root partition.1.1 partition.1.2
          ++ [partName c.sourceId k]) = true := by
        by_contra hnot
        exact absurd (hok.mp (by simpa using hnot)) (by simp)
      refine ⟨?_, fun hall => ?_, fun _ => ⟨e, rfl⟩⟩
      · unfold leftBy
        rw [if_pos hbreaks]
        exact hwrote
      · simp [allWritten, hbreaks] at hall
    · obtain ⟨hwrote, hok⟩ := writeParquet_spec hwrite
      have hbreaks := hok.mpr rfl
      obtain ⟨rfl, rfl⟩ := Prod.mk.inj hrest
      refine ⟨?_, fun _ => ⟨_, rfl, fun p => ?_⟩, fun hnot => ?_⟩
      · unfold leftBy leftBy
        unfold leftByOne at hwrote
        simpa [hbreaks] using hwrote
      · simp [LayerOutputs.all, or_assoc]
      · simp [allWritten, hbreaks] at hnot
  | none =>
    -- Otherwise there are two, and the second is not written where the first failed.
    rw [hroots] at h
    show Ended c [monthPartitionDir c.roots.warehouse partition.1.1 partition.1.2
        ++ [partName c.sourceId k], monthPartitionDir c.roots.analytical partition.1.1 partition.1.2
        ++ [partName c.sourceId k]] outputs w w' r
    rcases bind_cases h with ⟨e, rfl, hwrite⟩ | ⟨_, left, hwrite, hrest⟩
    · obtain ⟨hwrote, hok⟩ := writeParquet_spec hwrite
      have hbreaks : breaks c (monthPartitionDir c.roots.warehouse partition.1.1 partition.1.2
          ++ [partName c.sourceId k]) = true := by
        by_contra hnot
        exact absurd (hok.mp (by simpa using hnot)) (by simp)
      refine ⟨?_, fun hall => ?_, fun _ => ⟨e, rfl⟩⟩
      · unfold leftBy
        rw [if_pos hbreaks]
        exact hwrote
      · simp [allWritten, hbreaks] at hall
    · obtain ⟨hwrote, hok⟩ := writeParquet_spec hwrite
      have hfirst := hok.mpr rfl
      have hwrote' : Wrote c [monthPartitionDir c.roots.warehouse partition.1.1 partition.1.2
          ++ [partName c.sourceId k]] w left := by
        unfold leftByOne at hwrote
        simpa [hfirst] using hwrote
      rcases bind_cases hrest with ⟨e, rfl, hwrite⟩ | ⟨_, left', hwrite, hrest⟩
      · obtain ⟨hsecond, hok⟩ := writeParquet_spec hwrite
        have hbreaks : breaks c (monthPartitionDir c.roots.analytical partition.1.1 partition.1.2
            ++ [partName c.sourceId k]) = true := by
          by_contra hnot
          exact absurd (hok.mp (by simpa using hnot)) (by simp)
        refine ⟨?_, fun hall => ?_, fun _ => ⟨e, rfl⟩⟩
        · unfold leftBy leftBy
          rw [if_neg (by simp [hfirst]), if_pos hbreaks]
          exact hwrote'.append hsecond
        · simp [allWritten, hbreaks] at hall
      · obtain ⟨hsecond, hok⟩ := writeParquet_spec hwrite
        have hbreaks := hok.mpr rfl
        obtain ⟨rfl, rfl⟩ := Prod.mk.inj hrest
        refine ⟨?_, fun _ => ⟨_, rfl, fun p => ?_⟩, fun hnot => ?_⟩
        · unfold leftBy leftBy leftBy
          rw [if_neg (by simp [hfirst]), if_neg (by simp [hbreaks])]
          unfold leftByOne at hsecond
          refine hwrote'.append ?_
          simpa [hbreaks] using hsecond
        · simp only [LayerOutputs.all, List.mem_append, List.mem_cons, List.not_mem_nil, or_false]
          tauto
        · simp [allWritten, hfirst, hbreaks] at hnot

theorem writePartitions_ended {c : Conversion ρ φ} {k : ℕ} :
    ∀ (partitions : List ((ℤ × String) × List (NormalizedRow ρ))) {outputs : LayerOutputs}
      {w w' : Work ρ} {r : Except String LayerOutputs},
      (writePartitions c k partitions outputs).exec w = (r, w') →
      Ended c (partitions.flatMap fun p => partitionPaths c k p.1) outputs w w' r := by
  intro partitions
  induction partitions with
  | nil =>
    intro outputs w w' r h
    obtain ⟨rfl, rfl⟩ := Prod.mk.inj h
    exact ⟨.refl w, fun _ => ⟨outputs, rfl, fun p => by simp⟩, fun h =>
      absurd h (by simp [allWritten])⟩
  | cons partition rest ih =>
    intro outputs w w' r h
    rw [List.flatMap_cons]
    rcases bind_cases h with ⟨e, rfl, hfirst⟩ | ⟨outputs', left, hfirst, hrest⟩
    · have hended := writePartition_ended hfirst
      have hnot : allWritten c (partitionPaths c k partition.1) = false := by
        by_contra hall
        obtain ⟨_, hok, -⟩ := hended.ok (by simpa using hall)
        exact absurd hok (by simp)
      refine ⟨?_, fun hall => ?_, fun _ => ⟨e, rfl⟩⟩
      · rw [leftBy_append, hnot]
        exact hended.wrote
      · unfold allWritten at hall hnot
        rw [List.all_append, hnot] at hall
        exact absurd hall (by simp)
    · have hended := writePartition_ended hfirst
      have hall : allWritten c (partitionPaths c k partition.1) = true := by
        by_contra hnot
        obtain ⟨_, herror⟩ := hended.error (by simpa using hnot)
        exact absurd herror (by simp)
      obtain ⟨_, hsame, hmem⟩ := hended.ok hall
      obtain rfl := Except.ok.inj hsame
      have hlater := ih hrest
      have happend : allWritten c (partitionPaths c k partition.1
          ++ rest.flatMap fun p => partitionPaths c k p.1)
          = allWritten c (rest.flatMap fun p => partitionPaths c k p.1) := by
        unfold allWritten at *
        rw [List.all_append, hall, Bool.true_and]
      refine ⟨?_, fun h => ?_, fun h => hlater.error (happend ▸ h)⟩
      · rw [leftBy_append, if_pos hall]
        have hwrote := hended.wrote
        rw [leftBy_of_allWritten hall] at hwrote
        exact hwrote.append hlater.wrote
      · obtain ⟨final, hok, hfinal⟩ := hlater.ok (happend ▸ h)
        refine ⟨final, hok, fun p => ?_⟩
        rw [hfinal, hmem, List.mem_append, or_assoc]

/-- The files a chunk is written to, in order. -/
def plan (c : Conversion ρ φ) (k : ℕ) (bytes : List UInt8) : Except String (List Path) :=
  if bytes.isEmpty then .ok []
  else do
    let parsed ← c.parseIngestChunk bytes
    let normalized ← c.normalizeRevisionChunk parsed
    if normalized.isEmpty then return []
    else do
      let partitions ← buildPartitionIndex normalized
      return partitions.flatMap fun p => partitionPaths c k p.1

theorem isPart_of_plan {c : Conversion ρ φ} {k : ℕ} {bytes : List UInt8} {paths : List Path}
    (h : plan c k bytes = .ok paths) : ∀ p ∈ paths, IsPart c.sourceId k p := by
  unfold plan at h
  split at h
  · obtain rfl := Except.ok.inj h
    exact fun _ hp => absurd hp List.not_mem_nil
  · obtain ⟨_, -, h⟩ := bind_eq_ok.mp h
    obtain ⟨_, -, h⟩ := bind_eq_ok.mp h
    split at h
    · obtain rfl := Except.ok.inj h
      exact fun _ hp => absurd hp List.not_mem_nil
    · obtain ⟨partitions, -, h⟩ := bind_eq_ok.mp h
      obtain rfl := Except.ok.inj h
      intro p hp
      obtain ⟨partition, -, hp⟩ := List.mem_flatMap.mp hp
      obtain ⟨dir, -, rfl⟩ := List.mem_map.mp hp
      exact ⟨dir, rfl⟩

/-- What is left of a chunk that cannot be parsed or normalized is nothing. -/
def leftByChunk (c : Conversion ρ φ) (k : ℕ) (bytes : List UInt8) : List Path :=
  match plan c k bytes with
  | .ok paths => leftBy c paths
  | .error _ => []

/-- A chunk is parsed, normalized and written without a failure. -/
def flushes (c : Conversion ρ φ) (k : ℕ) (bytes : List UInt8) : Bool :=
  match plan c k bytes with
  | .ok paths => allWritten c paths
  | .error _ => false

theorem flushChunk_spec {c : Conversion ρ φ} {w w' : Work ρ} {r : Except String (ℕ × LayerOutputs)}
    (h : (flushChunk c).exec w = (r, w')) :
    Wrote c (leftByChunk c w.chunkIdx w.chunkBytes) { w with chunkBytes := [] } w' ∧
      (flushes c w.chunkIdx w.chunkBytes = true → ∃ rows outputs, r = .ok (rows, outputs) ∧
        ∀ p, p ∈ outputs.all ↔ p ∈ leftByChunk c w.chunkIdx w.chunkBytes) ∧
      (flushes c w.chunkIdx w.chunkBytes = false → ∃ e, r = .error e) := by
  unfold flushChunk at h
  rw [exec_read_bind] at h
  -- a chunk without a plan leaves nothing
  have hfail : ∀ {e}, plan c w.chunkIdx w.chunkBytes = .error e → r = .error e →
      w' = { w with chunkBytes := [] } →
      Wrote c (leftByChunk c w.chunkIdx w.chunkBytes) { w with chunkBytes := [] } w' ∧
        (flushes c w.chunkIdx w.chunkBytes = true → ∃ rows outputs, r = .ok (rows, outputs) ∧
          ∀ p, p ∈ outputs.all ↔ p ∈ leftByChunk c w.chunkIdx w.chunkBytes) ∧
        (flushes c w.chunkIdx w.chunkBytes = false → ∃ e, r = .error e) := by
    rintro e hplan rfl rfl
    unfold leftByChunk flushes
    rw [hplan]
    exact ⟨.refl _, fun h => absurd h (by simp), fun _ => ⟨e, rfl⟩⟩
  have hnothing : plan c w.chunkIdx w.chunkBytes = .ok [] → r = .ok (0, {}) →
      w' = { w with chunkBytes := [] } →
      Wrote c (leftByChunk c w.chunkIdx w.chunkBytes) { w with chunkBytes := [] } w' ∧
        (flushes c w.chunkIdx w.chunkBytes = true → ∃ rows outputs, r = .ok (rows, outputs) ∧
          ∀ p, p ∈ outputs.all ↔ p ∈ leftByChunk c w.chunkIdx w.chunkBytes) ∧
        (flushes c w.chunkIdx w.chunkBytes = false → ∃ e, r = .error e) := by
    rintro hplan rfl rfl
    unfold leftByChunk flushes
    rw [hplan]
    exact ⟨.refl _, fun _ => ⟨0, {}, rfl, fun p => Iff.rfl⟩, fun h =>
      absurd h (by simp [allWritten])⟩
  by_cases hempty : w.chunkBytes.isEmpty = true
  · rw [if_pos hempty] at h
    obtain ⟨rfl, rfl⟩ := Prod.mk.inj h
    refine hnothing (if_pos hempty) rfl ?_
    obtain ⟨files, written, chunkBytes, chunkIdx, totalRows, outputs⟩ := w
    obtain rfl : chunkBytes = [] := List.isEmpty_iff.mp hempty
    rfl
  · rw [if_neg hempty, exec_update_bind] at h
    rcases lift_bind_cases h with ⟨e, rfl, rfl, he⟩ | ⟨parsed, hparsed, h⟩
    · refine hfail ?_ rfl rfl
      unfold plan
      rw [if_neg hempty, he]
      rfl
    rcases lift_bind_cases h with ⟨e, rfl, rfl, he⟩ | ⟨normalized, hnormalized, h⟩
    · refine hfail ?_ rfl rfl
      unfold plan
      rw [if_neg hempty, hparsed]
      show (c.normalizeRevisionChunk parsed >>= _) = Except.error e
      rw [he]
      rfl
    by_cases hrows : normalized.isEmpty = true
    · rw [if_pos hrows] at h
      obtain ⟨rfl, rfl⟩ := Prod.mk.inj h
      refine hnothing ?_ rfl rfl
      unfold plan
      rw [if_neg hempty]
      exact bind_eq_ok.mpr ⟨_, hparsed, bind_eq_ok.mpr ⟨_, hnormalized, if_pos hrows⟩⟩
    · rw [if_neg hrows] at h
      have hplan : ∀ {partitions}, buildPartitionIndex normalized = .ok partitions →
          plan c w.chunkIdx w.chunkBytes
            = .ok (partitions.flatMap fun p => partitionPaths c w.chunkIdx p.1) := by
        intro partitions hindex
        unfold plan
        rw [if_neg hempty]
        refine bind_eq_ok.mpr ⟨_, hparsed, bind_eq_ok.mpr ⟨_, hnormalized, ?_⟩⟩
        rw [if_neg hrows]
        exact bind_eq_ok.mpr ⟨_, hindex, rfl⟩
      cases hindex : buildPartitionIndex normalized with
      | error e =>
        unfold writePartitionedFrames at h
        rw [hindex] at h
        obtain ⟨rfl, rfl⟩ := Prod.mk.inj (show (Except.error e, { w with chunkBytes := [] })
          = (r, w') from h)
        refine hfail ?_ rfl rfl
        unfold plan
        rw [if_neg hempty, hparsed]
        show (c.normalizeRevisionChunk parsed >>= _) = Except.error e
        rw [hnormalized]
        show (if normalized.isEmpty then _ else _) = Except.error e
        rw [if_neg hrows, hindex]
        rfl
      | ok partitions =>
        unfold leftByChunk flushes
        rw [hplan hindex]
        have hrun : ∃ r', (writePartitions c w.chunkIdx partitions {}).exec
          { w with chunkBytes := [] }
            = (r', w') ∧ (∀ e, r' = .error e → r = .error e) ∧
            ∀ outputs, r' = .ok outputs → r = .ok (normalized.length, outputs) := by
          unfold writePartitionedFrames at h
          rw [hindex] at h
          rcases bind_cases h with ⟨e, rfl, hwrites⟩ | ⟨outputs, left, hwrites, hrest⟩
          · exact ⟨.error e, hwrites, fun _ he => by rw [Except.error.inj he],
              fun _ hok => absurd hok (by simp)⟩
          · obtain ⟨rfl, rfl⟩ := Prod.mk.inj hrest
            exact ⟨.ok outputs, hwrites, fun _ he => absurd he (by simp),
              fun _ hok => by rw [Except.ok.inj hok]⟩
        obtain ⟨r', hwrites, herror, hok⟩ := hrun
        have hended := writePartitions_ended partitions hwrites
        refine ⟨hended.wrote, fun hall => ?_, fun hnot => ?_⟩
        · obtain ⟨outputs, hr', hmem⟩ := hended.ok hall
          refine ⟨_, outputs, hok outputs hr', fun p => ?_⟩
          show p ∈ outputs.all ↔ p ∈ leftBy c _
          rw [hmem, leftBy_of_allWritten hall]
          exact ⟨fun h => h.resolve_left (by simp [LayerOutputs.all]), Or.inr⟩
        · obtain ⟨e, hr'⟩ := hended.error hnot
          exact ⟨e, herror e hr'⟩

/-! ## A conversion -/

/-- The chunks that are full, and the bytes after them. -/
def gather (limit : ℕ) : List UInt8 → List (List UInt8) → List (List UInt8) × List UInt8
  | bytes, [] => ([], bytes)
  | bytes, line :: rest =>
    if limit ≤ (bytes ++ line).length then
      ((bytes ++ line) :: (gather limit [] rest).1, (gather limit [] rest).2)
    else gather limit (bytes ++ line) rest

/-- The chunks of a source, the last of which need not be full. -/
def chunksOf (c : Conversion ρ φ) (source : Source) : List (List UInt8) :=
  let gathered := gather c.chunkLimit [] (sourceLines source)
  if source.corrupt || gathered.2.isEmpty then gathered.1 else gathered.1 ++ [gathered.2]

/-- The first chunk that does not flush, with its index. -/
def firstFailed (c : Conversion ρ φ) : ℕ → List (List UInt8) → Option (ℕ × List UInt8)
  | _, [] => none
  | k, bytes :: rest => if flushes c k bytes then firstFailed c (k + 1) rest else some (k, bytes)

theorem firstFailed_append (c : Conversion ρ φ) (k : ℕ) (a b : List (List UInt8)) :
    firstFailed c k (a ++ b) = match firstFailed c k a with
      | some failed => some failed
      | none => firstFailed c (k + a.length) b := by
  induction a generalizing k with
  | nil => rfl
  | cons bytes rest ih =>
    rw [List.cons_append]
    have hcons : ∀ l, firstFailed c k (bytes :: l)
        = if flushes c k bytes then firstFailed c (k + 1) l else some (k, bytes) := fun _ => rfl
    rw [hcons, hcons]
    split
    · rw [ih, List.length_cons, Nat.add_assoc, Nat.add_comm 1]
    · rfl

theorem flushes_of_firstFailed {c : Conversion ρ φ} {j k : ℕ} {chunks : List (List UInt8)}
    {bytes : List UInt8} (h : firstFailed c k chunks = some (j, bytes)) :
    flushes c j bytes = false := by
  induction chunks generalizing k with
  | nil => exact absurd h (by simp [firstFailed])
  | cons first rest ih =>
    unfold firstFailed at h
    split at h
    · exact ih h
    next hnot =>
      obtain ⟨rfl, rfl⟩ := Prod.mk.inj (Option.some.inj h)
      exact Bool.eq_false_iff.mpr hnot

/-- While chunks are flushed: what was written is known, and nothing else is touched. -/
structure Good (c : Conversion ρ φ) (files : Path → Option (File ρ)) (k : ℕ) (w : Work ρ) :
    Prop where
  outputs : ∀ p ∈ w.outputs.all, ∃ j < k, IsPart c.sourceId j p
  written : ∀ p ∈ w.written, p ∈ w.outputs.all ∨ IsTemporary c p ∧ w.files p = none
  other : ∀ p, p ∉ w.outputs.all → ¬ IsTemporary c p → w.files p = files p

/-- Once a chunk failed: what it left is there, and is not known. -/
structure Broken (c : Conversion ρ φ) (files : Path → Option (File ρ)) (left : List Path)
    (w : Work ρ) : Prop where
  outputs : ∀ p ∈ w.outputs.all, ∃ j, IsPart c.sourceId j p
  parts : ∀ p ∈ left, p ∉ w.outputs.all ∧ ∃ j, IsPart c.sourceId j p
  written : ∀ p ∈ w.written, p ∈ w.outputs.all ∨ p ∈ left ∨ IsTemporary c p ∧ w.files p = none
  recorded : ∀ p ∈ left, p ∈ w.written ∧ (w.files p).isSome = true
  other : ∀ p, p ∉ w.outputs.all → p ∉ left → ¬ IsTemporary c p → w.files p = files p

theorem Good.broken {c : Conversion ρ φ} {files : Path → Option (File ρ)} {k : ℕ} {w : Work ρ}
    (h : Good c files k w) : Broken c files [] w where
  outputs p hp := by
    obtain ⟨j, -, hpart⟩ := h.outputs p hp
    exact ⟨j, hpart⟩
  parts _ hp := absurd hp List.not_mem_nil
  written p hp := (h.written p hp).imp_right Or.inr
  recorded _ hp := absurd hp List.not_mem_nil
  other p hp _ htemp := h.other p hp htemp

theorem isPart_of_leftByChunk {c : Conversion ρ φ} {k : ℕ} {bytes : List UInt8} {p : Path}
    (hp : p ∈ leftByChunk c k bytes) : IsPart c.sourceId k p := by
  have hsub : ∀ {paths : List Path}, p ∈ leftBy c paths → p ∈ paths := by
    intro paths
    induction paths with
    | nil => exact id
    | cons first rest ih =>
      intro hmem
      unfold leftBy at hmem
      split at hmem
      · unfold leftByOne at hmem
        split at hmem
        · exact absurd hmem List.not_mem_nil
        · exact List.mem_cons.mpr (Or.inl (List.mem_singleton.mp hmem))
      · exact List.mem_cons.mpr ((List.mem_cons.mp hmem).imp_right ih)
  unfold leftByChunk at hp
  split at hp
  next paths hplan => exact isPart_of_plan hplan p (hsub hp)
  next => exact absurd hp List.not_mem_nil

/-- Flushing a chunk keeps what was known, or breaks off. -/
theorem flushAndRemember_spec {c : Conversion ρ φ} {files : Path → Option (File ρ)}
    {w w' : Work ρ} {r : Except String Unit} (hgood : Good c files w.chunkIdx w)
    (h : (flushAndRemember c).exec w = (r, w')) :
    (flushes c w.chunkIdx w.chunkBytes = true → r = .ok () ∧ Good c files (w.chunkIdx + 1) w' ∧
      w'.chunkIdx = w.chunkIdx ∧ w'.chunkBytes = []) ∧
    (flushes c w.chunkIdx w.chunkBytes = false → (∃ e, r = .error e) ∧
      Broken c files (leftByChunk c w.chunkIdx w.chunkBytes) w') := by
  unfold flushAndRemember at h
  -- a file of this chunk has its index, and so is none of those before
  have hnew : ∀ p ∈ leftByChunk c w.chunkIdx w.chunkBytes, p ∉ w.outputs.all := by
    intro p hp hmem
    obtain ⟨j, hlt, hpart⟩ := hgood.outputs p hmem
    have hindex := hpart.eq (isPart_of_leftByChunk hp)
    omega
  rcases bind_cases h with ⟨e, rfl, hflush⟩ | ⟨flushed, left, hflush, hrest⟩
  · obtain ⟨hwrote, hok, -⟩ := flushChunk_spec hflush
    have hnot : flushes c w.chunkIdx w.chunkBytes = false := by
      by_contra hall
      obtain ⟨_, _, heq, -⟩ := hok (by simpa using hall)
      exact absurd heq (by simp)
    refine ⟨fun hall => absurd (hall.symm.trans hnot) (by simp), fun _ => ⟨⟨e, rfl⟩, ?_⟩⟩
    have houtputs : w'.outputs = w.outputs := hwrote.outputs
    refine ⟨fun p hp => ?_, fun p hp => ⟨?_, _, isPart_of_leftByChunk hp⟩, fun p hp => ?_,
      fun p hp => ⟨hwrote.recorded p hp, hwrote.there p hp⟩, fun p hp hleft htemp => ?_⟩
    · obtain ⟨j, -, hpart⟩ := hgood.outputs p (houtputs ▸ hp)
      exact ⟨j, hpart⟩
    · rw [houtputs]
      exact hnew p hp
    · rw [houtputs]
      rcases hwrote.written p hp with hbefore | hleft | htemp
      · rcases hgood.written p hbefore with hmem | ⟨htemp, hnone⟩
        · exact Or.inl hmem
        · refine Or.inr (Or.inr ⟨htemp, ?_⟩)
          exact (hwrote.temporary p htemp).elim id fun hsame => hsame.trans hnone
      · exact Or.inr (Or.inl hleft)
      · exact Or.inr (Or.inr htemp)
    · rw [houtputs] at hp
      exact (hwrote.other p hleft htemp).trans (hgood.other p hp htemp)
  · obtain ⟨hwrote, hok, herror⟩ := flushChunk_spec hflush
    have hall : flushes c w.chunkIdx w.chunkBytes = true := by
      by_contra hnot
      obtain ⟨_, heq⟩ := herror (by simpa using hnot)
      exact absurd heq (by simp)
    obtain ⟨rows, outputs, heq, hmem⟩ := hok hall
    obtain rfl := Except.ok.inj heq
    obtain ⟨rfl, rfl⟩ := Prod.mk.inj (show (Except.ok (), { left with
      totalRows := left.totalRows + rows
      outputs := {
        analytical := left.outputs.analytical ++ outputs.analytical
        warehouse := left.outputs.warehouse ++ outputs.warehouse
        metricInput := left.outputs.metricInput ++ outputs.metricInput } }) = (r, w') from hrest)
    refine ⟨fun _ => ⟨rfl, ?_, hwrote.chunkIdx, hwrote.chunkBytes⟩,
      fun hnot => absurd (hall.symm.trans hnot) (by simp)⟩
    have hall : ∀ p, p ∈ LayerOutputs.all {
        analytical := left.outputs.analytical ++ outputs.analytical
        warehouse := left.outputs.warehouse ++ outputs.warehouse
        metricInput := left.outputs.metricInput ++ outputs.metricInput }
        ↔ p ∈ w.outputs.all ∨ p ∈ leftByChunk c w.chunkIdx w.chunkBytes := by
      intro p
      rw [← hmem]
      have hsame : left.outputs = w.outputs := hwrote.outputs
      simp only [LayerOutputs.all, List.mem_append, hsame]
      tauto
    refine ⟨fun p hp => ?_, fun p hp => ?_, fun p hp htemp => ?_⟩
    · rcases (hall p).mp hp with hbefore | hleft
      · obtain ⟨j, hlt, hpart⟩ := hgood.outputs p hbefore
        exact ⟨j, by omega, hpart⟩
      · exact ⟨w.chunkIdx, by omega, isPart_of_leftByChunk hleft⟩
    · rcases hwrote.written p hp with hbefore | hleft | htemp
      · rcases hgood.written p hbefore with hknown | ⟨htemp, hnone⟩
        · exact Or.inl ((hall p).mpr (Or.inl hknown))
        · refine Or.inr ⟨htemp, ?_⟩
          exact (hwrote.temporary p htemp).elim id fun hsame => hsame.trans hnone
      · exact Or.inl ((hall p).mpr (Or.inr hleft))
      · exact Or.inr htemp
    · obtain ⟨hbefore, hleft⟩ := not_or.mp fun hor => hp ((hall p).mpr hor)
      exact (hwrote.other p hleft htemp).trans (hgood.other p hbefore htemp)

/-- The loop flushes the full chunks in order, up to the first that fails. -/
theorem convertLines_spec {c : Conversion ρ φ} {files : Path → Option (File ρ)}
    (lines : List (List UInt8)) {w w' : Work ρ} {r : Except String Unit}
    (hgood : Good c files w.chunkIdx w) (h : (convertLines c lines).exec w = (r, w')) :
    (firstFailed c w.chunkIdx (gather c.chunkLimit w.chunkBytes lines).1 = none →
      r = .ok () ∧ Good c files w'.chunkIdx w' ∧
      w'.chunkIdx = w.chunkIdx + (gather c.chunkLimit w.chunkBytes lines).1.length ∧
      w'.chunkBytes = (gather c.chunkLimit w.chunkBytes lines).2) ∧
    (∀ k bytes, firstFailed c w.chunkIdx (gather c.chunkLimit w.chunkBytes lines).1
      = some (k, bytes) → (∃ e, r = .error e) ∧ Broken c files (leftByChunk c k bytes) w') := by
  induction lines generalizing w with
  | nil =>
    obtain ⟨rfl, rfl⟩ := Prod.mk.inj h
    exact ⟨fun _ => ⟨rfl, hgood, rfl, rfl⟩, fun k bytes hfailed => absurd hfailed (by
      simp [gather, firstFailed])⟩
  | cons line rest ih =>
    unfold convertLines at h
    rw [exec_update_bind, exec_read_bind] at h
    unfold gather
    have hadded : Good c files w.chunkIdx { w with chunkBytes := w.chunkBytes ++ line } :=
      ⟨hgood.outputs, hgood.written, hgood.other⟩
    -- The line fills the chunk, which is flushed now, or it is only gathered.
    by_cases hfull : c.chunkLimit ≤ (w.chunkBytes ++ line).length
    · rw [if_pos hfull]
      rw [if_pos hfull] at h
      have hsplit : ∀ k, firstFailed c k ((w.chunkBytes ++ line) :: (gather c.chunkLimit [] rest).1)
          = if flushes c k (w.chunkBytes ++ line) then
              firstFailed c (k + 1) (gather c.chunkLimit [] rest).1
            else some (k, w.chunkBytes ++ line) := fun _ => rfl
      rw [hsplit]
      rcases bind_cases h with ⟨e, rfl, hflush⟩ | ⟨_, flushed, hflush, hrest⟩
      -- This chunk is the first that fails, and nothing after it is read.
      · obtain ⟨hok, herror⟩ := flushAndRemember_spec hadded hflush
        have hnot : flushes c w.chunkIdx (w.chunkBytes ++ line) = false := by
          by_contra hall
          exact absurd (hok (by simpa using hall)).1 (by simp)
        rw [if_neg (by simp [hnot])]
        refine ⟨fun hnone => absurd hnone (by simp), fun k bytes hfailed => ?_⟩
        obtain ⟨rfl, rfl⟩ := Prod.mk.inj (Option.some.inj hfailed)
        exact ⟨⟨e, rfl⟩, (herror hnot).2⟩
      · obtain ⟨hok, herror⟩ := flushAndRemember_spec hadded hflush
        have hall : flushes c w.chunkIdx (w.chunkBytes ++ line) = true := by
          by_contra hnot
          obtain ⟨⟨_, heq⟩, -⟩ := herror (by simpa using hnot)
          exact absurd heq (by simp)
        obtain ⟨-, hnext, hsame, hbytes⟩ := hok hall
        have hidx : flushed.chunkIdx = w.chunkIdx := hsame
        rw [exec_update_bind] at hrest
        have hgood' : Good c files (flushed.chunkIdx + 1)
            { flushed with chunkIdx := flushed.chunkIdx + 1 } := by
          rw [hidx]
          exact ⟨hnext.outputs, hnext.written, hnext.other⟩
        obtain ⟨hall', hfailed'⟩ := ih hgood' hrest
        dsimp only at hall' hfailed'
        rw [if_pos hall]
        rw [hidx, hbytes] at hall' hfailed'
        refine ⟨fun hnone => ?_, hfailed'⟩
        obtain ⟨hr, hgood'', hidx'', hbytes''⟩ := hall' hnone
        refine ⟨hr, hgood'', ?_, hbytes''⟩
        rw [hidx'', List.length_cons]
        omega
    · rw [if_neg hfull]
      rw [if_neg hfull] at h
      exact ih hadded h

/-- A conversion that does not fail at a chunk fails only where decoding does. -/
theorem conversion_spec {c : Conversion ρ φ} {source : Source} {files : Path → Option (File ρ)}
    {w : Work ρ} {r : Except String Unit}
    (h : (conversion c source).exec { files := files } = (r, w)) :
    (firstFailed c 0 (chunksOf c source) = none → ∃ k, Good c files k w) ∧
    (∀ k bytes, firstFailed c 0 (chunksOf c source) = some (k, bytes) →
      (∃ e, r = .error e) ∧ Broken c files (leftByChunk c k bytes) w) := by
  have hstart : Good c files 0 ({ files := files } : Work ρ) :=
    ⟨fun p hp => absurd hp (by simp [LayerOutputs.all]), fun p hp => absurd hp List.not_mem_nil,
      fun _ _ _ => rfl⟩
  unfold conversion at h
  unfold chunksOf
  dsimp only
  generalize hgather : gather c.chunkLimit [] (sourceLines source) = gathered
  -- what the loop did, whatever comes after it
  have hloop : ∀ {r' : Except String Unit} {left : Work ρ},
      (convertLines c (sourceLines source)).exec { files := files } = (r', left) →
      (firstFailed c 0 gathered.1 = none → r' = .ok () ∧ Good c files left.chunkIdx left ∧
        left.chunkIdx = gathered.1.length ∧ left.chunkBytes = gathered.2) ∧
      (∀ k bytes, firstFailed c 0 gathered.1 = some (k, bytes) →
        (∃ e, r' = .error e) ∧ Broken c files (leftByChunk c k bytes) left) := by
    intro r' left hlines
    have hspec := convertLines_spec (sourceLines source) hstart hlines
    rw [show ({ files := files } : Work ρ).chunkIdx = 0 from rfl,
      show ({ files := files } : Work ρ).chunkBytes = [] from rfl, hgather, Nat.zero_add] at hspec
    exact hspec
  -- a chunk that is full comes before the last
  have hearlier : ∀ failed, firstFailed c 0 gathered.1 = some failed →
      firstFailed c 0 (if source.corrupt || gathered.2.isEmpty then gathered.1
        else gathered.1 ++ [gathered.2]) = some failed := by
    intro failed hfailed
    split
    · exact hfailed
    · rw [firstFailed_append, hfailed]
  rcases bind_cases h with ⟨e, rfl, hlines⟩ | ⟨_, left, hlines, hrest⟩
  · obtain ⟨hnone, hsome⟩ := hloop hlines
    cases hfailed : firstFailed c 0 gathered.1 with
    | none => exact absurd (hnone hfailed).1 (by simp)
    | some failed =>
      rw [hearlier failed hfailed]
      refine ⟨fun h => absurd h (by simp), fun k bytes h => ?_⟩
      obtain rfl := Option.some.inj h
      exact ⟨⟨e, rfl⟩, (hsome k bytes hfailed).2⟩
  · obtain ⟨hnone, hsome⟩ := hloop hlines
    have hfull : firstFailed c 0 gathered.1 = none := by
      cases hfailed : firstFailed c 0 gathered.1 with
      | none => rfl
      | some failed =>
        obtain ⟨⟨_, heq⟩, -⟩ := hsome failed.1 failed.2 hfailed
        exact absurd heq (by simp)
    obtain ⟨-, hgood, hidx, hbytes⟩ := hnone hfull
    rcases lift_bind_cases hrest with ⟨e, rfl, rfl, hcorrupt⟩ | ⟨_, hcorrupt, hrest⟩
    · have hdecode : source.corrupt = true := by
        by_contra hnot
        have hok : ensure (source.corrupt = false) "cannot decode source" = .ok () :=
          ensure_eq_ok.mpr (by simpa using hnot)
        exact absurd (hcorrupt.symm.trans hok) (by simp)
      rw [if_pos (by simp [hdecode]), hfull]
      exact ⟨fun _ => ⟨_, hgood⟩, fun k bytes h => absurd h (by simp)⟩
    · have hdecode : source.corrupt = false := ensure_eq_ok.mp hcorrupt
      rw [exec_read_bind] at hrest
      by_cases hempty : left.chunkBytes.isEmpty = true
      · rw [if_pos hempty] at hrest
        obtain ⟨-, rfl⟩ := Prod.mk.inj hrest
        rw [if_pos (by simp [← hbytes, hempty]), hfull]
        exact ⟨fun _ => ⟨_, hgood⟩, fun k bytes h => absurd h (by simp)⟩
      · rw [if_neg hempty] at hrest
        rw [if_neg (by simp [← hbytes, hdecode, hempty]), firstFailed_append, hfull, Nat.zero_add,
          ← hidx, ← hbytes]
        obtain ⟨hok, herror⟩ := flushAndRemember_spec hgood hrest
        show ((if flushes c left.chunkIdx left.chunkBytes then none
            else some (left.chunkIdx, left.chunkBytes)) = none → _) ∧
          ∀ k bytes, (if flushes c left.chunkIdx left.chunkBytes then none
            else some (left.chunkIdx, left.chunkBytes)) = some (k, bytes) → _
        cases hflushes : flushes c left.chunkIdx left.chunkBytes with
        | true =>
          rw [if_pos rfl]
          exact ⟨fun _ => ⟨_, (hok hflushes).2.1⟩, fun k bytes h => absurd h (by simp)⟩
        | false =>
          rw [if_neg (by simp)]
          refine ⟨fun h => absurd h (by simp), fun k bytes h => ?_⟩
          obtain ⟨rfl, rfl⟩ := Prod.mk.inj (Option.some.inj h)
          exact herror hflushes

/-! ## What is left -/

theorem cleanupWrittenPaths_apply (files : Path → Option (File ρ)) (paths : List Path) (p : Path) :
    cleanupWrittenPaths files paths p = if p ∈ paths then none else files p := by
  induction paths generalizing files with
  | nil => rfl
  | cons first rest ih =>
    show cleanupWrittenPaths (Function.update files first none) rest p = _
    rw [ih]
    by_cases hrest : p ∈ rest
    · rw [if_pos hrest, if_pos (List.mem_cons_of_mem _ hrest)]
    · rw [if_neg hrest]
      by_cases hfirst : p = first
      · rw [if_pos (hfirst ▸ List.mem_cons_self ..), hfirst, Function.update_self]
      · rw [if_neg (by simp [hfirst, hrest]), Function.update_of_ne hfirst]

theorem cleanup_apply (c : Conversion ρ φ) (w : Work ρ) (p : Path) :
    (cleanup c w).files p
      = if p = markerPath c ∨ p ∈ w.outputs.all then none else w.files p := by
  show Function.update (cleanupWrittenPaths w.files w.outputs.all) (markerPath c) none p = _
  by_cases hmarker : p = markerPath c
  · rw [if_pos (Or.inl hmarker), hmarker, Function.update_self]
  · rw [Function.update_of_ne hmarker, cleanupWrittenPaths_apply]
    by_cases hout : p ∈ w.outputs.all
    · rw [if_pos hout, if_pos (Or.inr hout)]
    · rw [if_neg hout, if_neg (not_or.mpr ⟨hmarker, hout⟩)]

/-- No file that the call wrote is there, nor a marker of the source; what does not
belong to the source is as it was. -/
structure LeavesNothing (c : Conversion ρ φ) (files : Path → Option (File ρ)) (w : Work ρ) :
    Prop where
  parquet : ∀ p ∈ w.written, w.files p = none
  marker : w.files (markerPath c) = none
  others : ∀ p, (∀ k, ¬ IsPart c.sourceId k p) → ¬ IsTemporary c p → p ≠ markerPath c →
    w.files p = files p

/-- A chunk that fails leaves nothing exactly when nothing of it was written. -/
theorem Broken.leavesNothing_iff {c : Conversion ρ φ} {files : Path → Option (File ρ)}
    {left : List Path} {w : Work ρ} (h : Broken c files left w) :
    LeavesNothing c files (cleanup c w) ↔ left = [] := by
  constructor
  · intro hnothing
    refine List.eq_nil_iff_forall_not_mem.mpr fun p hp => ?_
    obtain ⟨hwritten, hthere⟩ := h.recorded p hp
    obtain ⟨hout, j, hpart⟩ := h.parts p hp
    have hgone := hnothing.parquet p hwritten
    rw [cleanup_apply, if_neg (not_or.mpr ⟨hpart.ne_marker, hout⟩)] at hgone
    rw [hgone] at hthere
    exact absurd hthere (by simp)
  · rintro rfl
    refine ⟨fun p hp => ?_, ?_, fun p hpart htemp hmarker => ?_⟩
    · rw [cleanup_apply]
      split
      · rfl
      next hnot =>
        obtain ⟨-, hout⟩ := not_or.mp hnot
        rcases h.written p hp with hknown | hleft | ⟨-, hnone⟩
        · exact absurd hknown hout
        · exact absurd hleft List.not_mem_nil
        · exact hnone
    · rw [cleanup_apply, if_pos (Or.inl rfl)]
    · have hout : p ∉ w.outputs.all := by
        intro hmem
        obtain ⟨j, hj⟩ := h.outputs p hmem
        exact hpart j hj
      rw [cleanup_apply, if_neg (not_or.mpr ⟨hmarker, hout⟩)]
      exact h.other p hout List.not_mem_nil htemp

/-- Nothing is left of a chunk that cannot be written when its first file fails, and
leaves nothing. -/
theorem leftByChunk_eq_nil_iff {c : Conversion ρ φ} {k : ℕ} {bytes : List UInt8}
    (h : flushes c k bytes = false) :
    leftByChunk c k bytes = [] ↔ ∀ paths, plan c k bytes = .ok paths →
      ∃ p rest, paths = p :: rest ∧ breaks c p = true ∧ leavesFile c p = false := by
  unfold flushes at h
  unfold leftByChunk
  cases hplan : plan c k bytes with
  | error e => simp
  | ok paths =>
    rw [hplan] at h
    show leftBy c paths = [] ↔ _
    cases paths with
    | nil => exact absurd h (by simp [allWritten])
    | cons p rest =>
      unfold leftBy leftByOne
      constructor
      · intro hnil paths' heq
        obtain rfl := Except.ok.inj heq
        refine ⟨p, rest, rfl, ?_⟩
        cases hbreaks : breaks c p with
        | false =>
          rw [hbreaks] at hnil
          exact absurd hnil (by simp)
        | true =>
          rw [hbreaks] at hnil
          cases hleaves : leavesFile c p with
          | false => exact ⟨rfl, rfl⟩
          | true =>
            rw [hleaves] at hnil
            exact absurd hnil (by simp)
      · intro hfirst
        obtain ⟨p', rest', heq, hbreaks, hleaves⟩ := hfirst _ rfl
        obtain ⟨rfl, rfl⟩ := List.cons.inj heq
        rw [hbreaks, hleaves]
        rfl

/-- A call that converts, and fails, leaves nothing. -/
def CleansUp (c : Conversion ρ φ) (source : Source) (files : Path → Option (File ρ)) : Prop :=
  c.markerIsValid = .ok false → ∀ e w,
    convertFileWithChunkLimit c source files = (.error e, w) → LeavesNothing c files w

/-- The first chunk that fails cannot be parsed or normalized, or the first file it is to
be written to fails, and leaves nothing. -/
def FailsAtFirstFile (c : Conversion ρ φ) (source : Source) : Prop :=
  ∀ k bytes paths, firstFailed c 0 (chunksOf c source) = some (k, bytes) →
    plan c k bytes = .ok paths →
    ∃ p rest, paths = p :: rest ∧ breaks c p = true ∧ leavesFile c p = false

/-- **A failed conversion leaves nothing behind** if and only if the chunk that failed
had written nothing. -/
theorem cleansUp_iff (c : Conversion ρ φ) (source : Source) (files : Path → Option (File ρ)) :
    CleansUp c source files ↔ (c.markerIsValid = .ok false → FailsAtFirstFile c source) := by
  unfold CleansUp
  refine imp_congr_right fun hmarker => ?_
  unfold convertFileWithChunkLimit
  rw [hmarker]
  dsimp only
  cases hrun : (conversion c source).exec { files := files } with
  | mk r w =>
    obtain ⟨hnone, hsome⟩ := conversion_spec hrun
    unfold FailsAtFirstFile
    cases hfailed : firstFailed c 0 (chunksOf c source) with
    | none =>
      -- every chunk was written, and all of them are known
      obtain ⟨k, hgood⟩ := hnone hfailed
      refine iff_of_true (fun e left hleft => ?_) fun k bytes paths h => absurd h (by simp)
      have hclean := hgood.broken.leavesNothing_iff.mpr rfl
      cases r with
      | error e' =>
        obtain ⟨-, rfl⟩ := Prod.mk.inj hleft
        exact hclean
      | ok _ =>
        dsimp only at hleft
        split at hleft
        · obtain ⟨-, rfl⟩ := Prod.mk.inj hleft
          exact hclean
        · exact absurd (Prod.mk.inj hleft).1 (by simp)
    | some failed =>
      obtain ⟨⟨e, rfl⟩, hbroken⟩ := hsome failed.1 failed.2 hfailed
      have hiff := leftByChunk_eq_nil_iff (flushes_of_firstFailed (j := failed.1) hfailed)
      constructor
      · intro hclean k bytes paths h hplan
        obtain rfl := Option.some.inj h
        exact hiff.mp (hbroken.leavesNothing_iff.mp (hclean e _ rfl)) paths hplan
      · intro hfirst e' left hleft
        obtain ⟨-, rfl⟩ := Prod.mk.inj hleft
        refine hbroken.leavesNothing_iff.mpr (hiff.mpr fun paths hplan => ?_)
        exact hfirst failed.1 failed.2 paths rfl hplan

/-- One chunk of two months, in the two layers. -/
def twoMonths : Conversion Unit Unit where
  roots := { analytical := ["analytical"], warehouse := ["warehouse"], metricInput := none }
  sourceId := "nlwiki"
  chunkLimit := 1024
  transactionId := none
  markerIsValid := .ok false
  existingOutputs := []
  parseIngestChunk _ := .ok ()
  normalizeRevisionChunk _ := .ok [⟨some 2024, some "2024-01", ()⟩, ⟨some 2024, some "2024-02", ()⟩]
  fault path := if path.contains "year_month=2024-02" then some .create else none
  writeMarkerManifest _ _ := .ok ()

/-- The second month cannot be written, and the first is left. -/
theorem twoMonths_leaves_first :
    ¬ CleansUp twoMonths { bytes := [97, 10] } (fun _ => none) := by
  intro h
  have hleft : ((convertFileWithChunkLimit twoMonths { bytes := [97, 10] } fun _ => none).2.files
      ["warehouse", "year=2024", "year_month=2024-01", "nlwiki.part-00000.parquet"]).isSome =
        true := by
    decide +kernel
  have hwritten : ["warehouse", "year=2024", "year_month=2024-01", "nlwiki.part-00000.parquet"]
      ∈ (convertFileWithChunkLimit twoMonths { bytes := [97, 10] } fun _ => none).2.written := by
    decide +kernel
  have herror : (convertFileWithChunkLimit twoMonths { bytes := [97, 10] } fun _ => none).1
      = .error "cannot create file" := rfl
  have hgone := h rfl
  generalize convertFileWithChunkLimit twoMonths { bytes := [97, 10] } (fun _ => none) = run
    at hleft hwritten herror hgone
  rw [(hgone _ run.2 (Prod.ext herror rfl)).parquet _ hwritten] at hleft
  exact absurd hleft (by simp)

end WikiEcon.Ingest
