import Mathlib.Data.List.Sort
import WikiEcon.Lib.KWayMerge
import WikiEcon.Rust

/-!
# The external sort of a spool

`external_sort_spool` of `generation.rs`: a spool is read in batches, each batch is sorted
and written as a run, runs are merged in rounds of at most `fan_in` until `fan_in` are left,
and those are merged into the consumer. A row comes back from its line as it was written, so
a spool or a run is the list of its rows.

`externalSortSpool_eq`: the consumer is folded over the sorted rows, whatever the sizes of
batches and rounds are.
-/

namespace WikiEcon.Patrol

open KWayMerge

variable {T σ : Type} [LinearOrder T]

/-! ## Runs -/

/-- `rows.sort()`. -/
def sortRows (rows : List T) : List T := rows.insertionSort (· ≤ ·)

/-- One line of the spool: a full batch becomes a run. -/
def addRow (batchRows : ℕ) (state : List T × List (List T)) (row : T) : List T × List (List T) :=
  let rows := state.1 ++ [row]
  if rows.length = batchRows then ([], state.2 ++ [sortRows rows]) else (rows, state.2)

def createSortedRuns (batchRows : ℕ) (spool : List T) : Except String (List (List T)) := do
  let state := spool.foldl (addRow batchRows) ([], [])
  let runs := if state.1.isEmpty then state.2 else state.2 ++ [sortRows state.1]
  ensure (runs ≠ []) "monthly patrol spool is empty"
  return runs

/-- The heap of `merge_sorted_runs` holds the next row of every run; a row is emitted before
the one after it is read. -/
def mergeSortedRuns (runs : List (List T)) (emit : σ → T → Except String σ) (start : σ) :
    Except String σ :=
  drain (fun _ _ => true) "" false emit runs start

/-- `merge_runs_to_json`: the rows of the new run. -/
def mergeRunsToJson (runs : List (List T)) : Except String (List T) :=
  mergeSortedRuns runs (fun written row => .ok (written ++ [row])) []

/-! ## Rounds -/

section Chunks

variable {α : Type}

/-- `chunks`; every chunk has a row, so the rows bound their number. -/
def chunksFrom (size : ℕ) : ℕ → List α → List (List α)
  | 0, _ => []
  | _ + 1, [] => []
  | fuel + 1, l => l.take size :: chunksFrom size fuel (l.drop size)

def chunks (size : ℕ) (l : List α) : List (List α) := chunksFrom size l.length l

theorem chunksFrom_flatten {size : ℕ} (hsize : 0 < size) {fuel : ℕ} {l : List α}
    (hfuel : l.length ≤ fuel) : (chunksFrom size fuel l).flatten = l := by
  induction fuel generalizing l with
  | zero => rw [List.length_eq_zero_iff.mp (Nat.le_zero.mp hfuel)]; rfl
  | succ fuel ih =>
    cases l with
    | nil => rfl
    | cons a l =>
      rw [List.length_cons] at hfuel
      rw [chunksFrom, List.flatten_cons, ih, List.take_append_drop]
      · rw [List.length_drop, List.length_cons]
        omega
      · simp

theorem chunks_flatten {size : ℕ} (hsize : 0 < size) (l : List α) : (chunks size l).flatten = l :=
  chunksFrom_flatten hsize (le_refl _)

/-- Chunks of at least two leave about half as many. -/
theorem chunksFrom_length {size : ℕ} (hsize : 2 ≤ size) (fuel : ℕ) (l : List α) :
    2 * (chunksFrom size fuel l).length ≤ l.length + 1 := by
  induction fuel generalizing l with
  | zero => simp [chunksFrom]
  | succ fuel ih =>
    cases l with
    | nil => simp [chunksFrom]
    | cons a l =>
      have hrest := ih ((a :: l).drop size)
      rw [List.length_drop, List.length_cons] at hrest
      rw [chunksFrom, List.length_cons, List.length_cons]
      · -- a chunk of one row is the last
        by_cases hshort : l.length + 1 < size
        · have hnil : (a :: l).drop size = [] :=
            List.drop_eq_nil_of_le (by rw [List.length_cons]; omega)
          rw [hnil]
          cases fuel <;> simp [chunksFrom]
        · omega
      · simp

end Chunks

/-- `while runs.len() > EXTERNAL_SORT_FAN_IN`; `none` when the fuel runs out. -/
def mergeRounds (fanIn : ℕ) : ℕ → List (List T) → Option (Except String (List (List T)))
  | fuel, runs =>
    if runs.length ≤ fanIn then some (.ok runs)
    else match fuel with
      | 0 => none
      | fuel + 1 =>
        match (chunks fanIn runs).mapM mergeRunsToJson with
        | .error message => some (.error message)
        | .ok next => mergeRounds fanIn fuel next

/-- `external_sort_spool`, with at most `fuel` rounds. -/
def externalSortSpool (batchRows fanIn fuel : ℕ) (spool : List T)
    (emit : σ → T → Except String σ) (start : σ) : Option (Except String σ) :=
  match createSortedRuns batchRows spool with
  | .error message => some (.error message)
  | .ok runs => (mergeRounds fanIn fuel runs).map fun result =>
      result.bind fun runs => mergeSortedRuns runs emit start

/-! ## What is emitted -/

theorem sortRows_perm (rows : List T) : (sortRows rows).Perm rows := List.perm_insertionSort ..

theorem sortRows_pairwise (rows : List T) : (sortRows rows).Pairwise (· ≤ ·) :=
  List.pairwise_insertionSort ..

theorem merged_eq_sortRows {runs : List (List T)} {rows : List T} (h : runs.flatten.Perm rows) :
    merged runs = sortRows rows :=
  List.Perm.eq_of_pairwise' (merged_pairwise runs) (sortRows_pairwise rows)
    ((merged_perm runs).trans (h.trans (sortRows_perm rows).symm))

theorem mergeRunsToJson_eq {runs : List (List T)} (hruns : ∀ run ∈ runs, run.Pairwise (· ≤ ·)) :
    mergeRunsToJson runs = .ok (merged runs) := by
  have hpush : ∀ l start : List T, l.foldlM
      (fun written row => (.ok (written ++ [row]) : Except String (List T))) start
        = .ok (start ++ l) := by
    intro l
    induction l with
    | nil => intro start; rw [List.append_nil]; rfl
    | cons a l ih =>
      intro start
      rw [List.foldlM_cons]
      show List.foldlM _ (start ++ [a]) l = _
      rw [ih, List.append_assoc]
      rfl
  unfold mergeRunsToJson mergeSortedRuns
  rw [drain_unchecked _ _ _ _ _ hruns, hpush, List.nil_append]

/-- The runs of a spool: sorted, and together its rows. -/
structure Runs (spool : List T) (runs : List (List T)) : Prop where
  sorted : ∀ run ∈ runs, run.Pairwise (· ≤ ·)
  perm : runs.flatten.Perm spool

theorem foldl_addRow (batchRows : ℕ) (spool : List T) :
    (∀ run ∈ (spool.foldl (addRow batchRows) ([], [])).2, run.Pairwise (· ≤ ·)) ∧
      ((spool.foldl (addRow batchRows) ([], [])).2.flatten
        ++ (spool.foldl (addRow batchRows) ([], [])).1).Perm spool := by
  induction spool using List.reverseRecOn with
  | nil => exact ⟨fun run hrun => absurd hrun List.not_mem_nil, .refl _⟩
  | append_singleton spool row ih =>
    obtain ⟨hsorted, hperm⟩ := ih
    rw [List.foldl_append, List.foldl_cons, List.foldl_nil]
    generalize spool.foldl (addRow batchRows) ([], []) = state at hsorted hperm
    have hmore := hperm.append_right [row]
    rw [List.append_assoc] at hmore
    unfold addRow
    dsimp only
    split
    · refine ⟨fun run hrun => ?_, ?_⟩
      · rcases List.mem_append.mp hrun with hrun | hrun
        · exact hsorted run hrun
        · obtain rfl := List.mem_singleton.mp hrun
          exact sortRows_pairwise _
      · rw [List.flatten_append, List.append_nil]
        refine List.Perm.trans (List.Perm.append_left _ ?_) hmore
        simpa using sortRows_perm _
    · exact ⟨hsorted, hmore⟩

theorem createSortedRuns_eq_ok (batchRows : ℕ) {spool : List T} (hspool : spool ≠ []) :
    ∃ runs, createSortedRuns batchRows spool = .ok runs ∧ Runs spool runs := by
  obtain ⟨hsorted, hperm⟩ := foldl_addRow batchRows spool
  unfold createSortedRuns
  dsimp only
  generalize spool.foldl (addRow batchRows) ([], []) = state at hsorted hperm
  have hruns : Runs spool (if state.1.isEmpty then state.2 else state.2 ++ [sortRows state.1]) := by
    split
    next hempty =>
      rw [List.isEmpty_iff.mp hempty, List.append_nil] at hperm
      exact ⟨hsorted, hperm⟩
    next =>
      refine ⟨fun run hrun => ?_, ?_⟩
      · rcases List.mem_append.mp hrun with hrun | hrun
        · exact hsorted run hrun
        · obtain rfl := List.mem_singleton.mp hrun
          exact sortRows_pairwise _
      · rw [List.flatten_append]
        refine List.Perm.trans (List.Perm.append_left _ ?_) hperm
        simpa using sortRows_perm _
  refine ⟨_, bind_eq_ok.mpr ⟨(), ensure_eq_ok.mpr fun hnil => ?_, rfl⟩, hruns⟩
  rw [hnil] at hruns
  exact hspool (List.Perm.nil_eq hruns.perm).symm

/-- A round leaves the rows and fewer runs. -/
theorem Runs.round {fanIn : ℕ} (hfan : 2 ≤ fanIn) {spool : List T} {runs : List (List T)}
    (h : Runs spool runs) (hmany : fanIn < runs.length) :
    ∃ next, (chunks fanIn runs).mapM mergeRunsToJson = .ok next ∧ Runs spool next ∧
      next.length < runs.length := by
  have hflatten := chunks_flatten (show 0 < fanIn by omega) runs
  have hgroup : ∀ group ∈ chunks fanIn runs, ∀ run ∈ group, run.Pairwise (· ≤ ·) :=
    fun group hgroup run hrun => h.sorted run (by
      rw [← hflatten]
      exact List.mem_flatten.mpr ⟨group, hgroup, hrun⟩)
  refine ⟨(chunks fanIn runs).map merged,
    mapM_eq_ok fun group hg => mergeRunsToJson_eq (hgroup group hg), ⟨?_, ?_⟩, ?_⟩
  · intro run hrun
    obtain ⟨group, -, rfl⟩ := List.mem_map.mp hrun
    exact merged_pairwise group
  · have hperm : ((chunks fanIn runs).map merged).flatten.Perm
        ((chunks fanIn runs).map List.flatten).flatten := by
      induction chunks fanIn runs with
      | nil => exact .refl _
      | cons group groups ih => exact (merged_perm group).append ih
    rw [← List.flatten_flatten, hflatten] at hperm
    exact hperm.trans h.perm
  · have hlength := chunksFrom_length hfan runs.length runs
    rw [List.length_map]
    unfold chunks
    omega

/-- The rounds end, and leave the rows. -/
theorem mergeRounds_eq {fanIn : ℕ} (hfan : 2 ≤ fanIn) {spool : List T} {fuel : ℕ}
    {runs : List (List T)} (h : Runs spool runs) (hfuel : runs.length ≤ fuel) :
    ∃ last, mergeRounds fanIn fuel runs = some (.ok last) ∧ Runs spool last := by
  induction fuel generalizing runs with
  | zero =>
    unfold mergeRounds
    rw [if_pos (by omega)]
    exact ⟨runs, rfl, h⟩
  | succ fuel ih =>
    unfold mergeRounds
    by_cases hfew : runs.length ≤ fanIn
    · rw [if_pos hfew]
      exact ⟨runs, rfl, h⟩
    · obtain ⟨next, hnext, hruns, hless⟩ := h.round hfan (by omega)
      obtain ⟨last, hlast, hlastRuns⟩ := ih hruns (by omega)
      rw [if_neg hfew]
      dsimp only
      rw [hnext]
      exact ⟨last, hlast, hlastRuns⟩

theorem mergeSortedRuns_eq {spool : List T} {runs : List (List T)} (h : Runs spool runs)
    (emit : σ → T → Except String σ) (start : σ) :
    mergeSortedRuns runs emit start = (sortRows spool).foldlM emit start := by
  unfold mergeSortedRuns
  rw [drain_unchecked _ _ _ _ _ h.sorted, merged_eq_sortRows h.perm]

/-- **The external sort** hands the sorted rows to its consumer, after finitely many rounds. -/
theorem externalSortSpool_eq (batchRows : ℕ) {fanIn : ℕ} (hfan : 2 ≤ fanIn) {spool : List T}
    (hspool : spool ≠ []) :
    ∃ rounds, ∀ fuel ≥ rounds, ∀ (emit : σ → T → Except String σ) (start : σ),
      externalSortSpool batchRows fanIn fuel spool emit start
        = some ((sortRows spool).foldlM emit start) := by
  obtain ⟨runs, hcreate, hruns⟩ := createSortedRuns_eq_ok batchRows hspool
  refine ⟨runs.length, fun fuel hfuel emit start => ?_⟩
  obtain ⟨last, hlast, hlastRuns⟩ := mergeRounds_eq hfan hruns hfuel
  unfold externalSortSpool
  rw [hcreate]
  dsimp only
  rw [hlast, ← mergeSortedRuns_eq hlastRuns]
  rfl

end WikiEcon.Patrol
