import Mathlib.Data.List.Induction
import Mathlib.Data.List.Range
import Mathlib.Data.List.Perm.Basic

/-!
# Routing rows to buckets

Rows are distributed over numbered buckets, sometimes more of them than can be
written at once. `split` is the loop that pushes every row on the list of its
bucket; `sweep` runs over the buckets in ranges of bounded width and rereads the
input for each.

`split_eq` says that a bucket gets its rows in their order. `sweep_spec` is the
rule for the ranges: if each extends what holds below its start to its end, it
holds of all buckets in the end, so no bucket is left out at a boundary.
-/

namespace Routing

variable {α ε σ : Type}

/-! ## Splitting -/

/-- Push each row on the list of its bucket. -/
def split (count : ℕ) (bucketOf : α → ℕ) (rows : List α) : List (List α) :=
  rows.foldl (fun lists row => lists.modify (bucketOf row) (· ++ [row])) (List.replicate count [])

theorem split_eq (count : ℕ) (bucketOf : α → ℕ) (rows : List α) :
    split count bucketOf rows
      = (List.range count).map fun bucket => rows.filter (bucketOf · = bucket) := by
  induction rows using List.reverseRecOn with
  | nil =>
    refine List.ext_getElem (by simp [split]) fun i hi hi' => ?_
    simp [split]
  | append_singleton rows row ih =>
    rw [split, List.foldl_append, ← split, ih]
    refine List.ext_getElem (by simp) fun i hi hi' => ?_
    by_cases h : bucketOf row = i
    · simp [h]
    · simp [h]

/-- The buckets up to `bucket` are those before it and itself. -/
theorem filter_lt_succ_perm (bucketOf : α → ℕ) (bucket : ℕ) (rows : List α) :
    (rows.filter (bucketOf · < bucket + 1)).Perm
      (rows.filter (bucketOf · < bucket) ++ rows.filter (bucketOf · = bucket)) := by
  induction rows with
  | nil => exact List.Perm.refl _
  | cons row rows ih =>
    rcases Nat.lt_trichotomy (bucketOf row) bucket with h | h | h
    · have hsucc : bucketOf row < bucket + 1 := by omega
      have hne : bucketOf row ≠ bucket := by omega
      simp only [List.filter_cons, h, hsucc, hne, decide_true, decide_false, if_true, if_false,
        Bool.false_eq_true]
      exact ih.cons row
    · subst h
      have hcons : ((row :: rows).filter (bucketOf · < bucketOf row + 1))
          = row :: rows.filter (bucketOf · < bucketOf row + 1) := by simp
      have hself : ((row :: rows).filter (bucketOf · = bucketOf row))
          = row :: rows.filter (bucketOf · = bucketOf row) := by simp
      have hbelow : ((row :: rows).filter (bucketOf · < bucketOf row))
          = rows.filter (bucketOf · < bucketOf row) := by simp
      rw [hcons, hself, hbelow]
      exact (ih.cons row).trans List.perm_middle.symm
    · have hsucc : ¬ bucketOf row < bucket + 1 := by omega
      have hlt : ¬ bucketOf row < bucket := by omega
      have hne : bucketOf row ≠ bucket := by omega
      simp only [List.filter_cons, hsucc, hlt, hne, decide_false, if_false, Bool.false_eq_true]
      exact ih

/-- A loop over the numbers below `n`. -/
theorem foldlM_range_spec (inv : ℕ → σ → Prop) {step : σ → ℕ → Except ε σ} :
    ∀ {n : ℕ} {s s' : σ}, (∀ i < n, ∀ t t', inv i t → step t i = .ok t' → inv (i + 1) t') →
      inv 0 s → (List.range n).foldlM step s = .ok s' → inv n s' := by
  intro n
  induction n with
  | zero =>
    intro s s' _ hs h
    obtain rfl := Except.ok.inj h
    exact hs
  | succ n ih =>
    intro s s' hstep hs h
    rw [List.range_succ, List.foldlM_append] at h
    cases hprev : (List.range n).foldlM step s with
    | error e => rw [hprev] at h; exact absurd h (by simp [bind, Except.bind])
    | ok t =>
      have ht := ih (fun i hi => hstep i (by omega)) hs hprev
      cases hlast : step t n with
      | error e => simp [hprev, hlast, bind, Except.bind] at h
      | ok u =>
        obtain rfl : u = s' := by
          simpa [hprev, hlast, bind, Except.bind, pure, Except.pure] using h
        exact hstep n (by omega) t u ht hlast

/-- **The rule for a split**: a loop over the buckets with their rows. -/
theorem foldlM_split_spec (inv : ℕ → σ → Prop) {count : ℕ} {bucketOf : α → ℕ} {rows : List α}
    {step : σ → List α × ℕ → Except ε σ} {s s' : σ}
    (hstep : ∀ b < count, ∀ t t', inv b t →
      step t (rows.filter (bucketOf · = b), b) = .ok t' → inv (b + 1) t')
    (hs : inv 0 s) (h : (split count bucketOf rows).zipIdx.foldlM step s = .ok s') :
    inv count s' := by
  have hzip : (split count bucketOf rows).zipIdx
      = (List.range count).map fun b => (rows.filter (bucketOf · = b), b) := by
    rw [split_eq]
    refine List.ext_getElem (by simp) fun i hi hi' => ?_
    simp
  rw [hzip, List.foldlM_map] at h
  exact foldlM_range_spec inv hstep hs h

/-! ## Ranges -/

/-- `(0..count).step_by(width)`. -/
def starts (count width : ℕ) : List ℕ := (List.range ((count + width - 1) / width)).map (· * width)

/-- Visit the ranges from `start` to `min(start + width, count)` in turn. -/
def sweep (count width : ℕ) (visit : ℕ → ℕ → σ → Except ε σ) (s : σ) : Except ε σ :=
  (starts count width).foldlM (fun s start => visit start (min (start + width) count) s) s

/-- **The rule for ranges.** `inv n` says what holds once the buckets below `n`
are done. -/
theorem sweep_spec (inv : ℕ → σ → Prop) {count width : ℕ} (hwidth : 0 < width)
    {visit : ℕ → ℕ → σ → Except ε σ} (hvisit : ∀ start stop s s', start < stop → stop ≤ count →
      inv start s → visit start stop s = .ok s' → inv stop s') {s s' : σ} (hs : inv 0 s)
    (h : sweep count width visit s = .ok s') : inv count s' := by
  rw [sweep, starts, List.foldlM_map] at h
  have hall : inv (min ((count + width - 1) / width * width) count) s' := by
    refine foldlM_range_spec (fun pass t => inv (min (pass * width) count) t)
      (fun pass hpass t t' ht hvisited => ?_) (by simpa using hs) h
    have hstart : pass * width < count := by
      have hmul : (pass + 1) * width ≤ count + width - 1 := (Nat.le_div_iff_mul_le hwidth).mp hpass
      rw [Nat.add_mul, Nat.one_mul] at hmul
      omega
    rw [min_eq_left (le_of_lt hstart)] at ht
    have hnext := hvisit _ _ t t' (by omega) (min_le_right _ _) ht hvisited
    rwa [Nat.add_mul, Nat.one_mul]
  have hcover : count ≤ (count + width - 1) / width * width := by
    have hdiv := Nat.div_add_mod (count + width - 1) width
    have hmod := Nat.mod_lt (count + width - 1) hwidth
    rw [Nat.mul_comm] at hdiv
    omega
  rwa [min_eq_right hcover] at hall

end Routing
