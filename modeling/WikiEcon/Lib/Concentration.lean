import Mathlib.Algebra.BigOperators.Ring.List
import Mathlib.Algebra.Order.BigOperators.Group.List
import Mathlib.Algebra.Order.Field.Basic
import Mathlib.Algebra.Order.Ring.Int
import Mathlib.Algebra.Order.Ring.Nat
import Mathlib.Data.List.Sort
import Mathlib.Tactic.FieldSimp
import Mathlib.Tactic.Linarith
import Mathlib.Tactic.Ring

/-!
# How unequally a total is shared

Shares are a list of nonnegative numbers in ascending order. The Gini coefficient is read off
their sum weighted by their ranks. It is in `[0, 1)` (`gini_nonneg`, `gini_lt_one`) and has no
unit (`gini_scale`).
-/

namespace Concentration

/-! ## Shares weighted by rank -/

section Weighted

variable {K : Type} [Field K]

/-- The sum of the shares, each times its rank, where the first has this rank. -/
def weightedFrom : ℕ → List K → K
  | _, [] => 0
  | rank, v :: rest => rank * v + weightedFrom (rank + 1) rest

theorem weightedFrom_succ (rank : ℕ) (l : List K) :
    weightedFrom (rank + 1) l = weightedFrom rank l + l.sum := by
  induction l generalizing rank with
  | nil => simp [weightedFrom]
  | cons v rest ih =>
    have hrest := ih (rank + 1)
    show ((rank + 1 : ℕ) : K) * v + weightedFrom (rank + 2) rest
      = rank * v + weightedFrom (rank + 1) rest + (v :: rest).sum
    rw [hrest, List.sum_cons]
    push_cast
    ring

theorem weightedFrom_scale (c : K) (rank : ℕ) (l : List K) :
    weightedFrom rank (l.map (c * ·)) = c * weightedFrom rank l := by
  induction l generalizing rank with
  | nil => simp [weightedFrom]
  | cons v rest ih =>
    show rank * (c * v) + weightedFrom (rank + 1) (rest.map (c * ·)) = c * (rank * v + _)
    rw [ih]
    ring

theorem sum_scale (c : K) (l : List K) : (l.map (c * ·)).sum = c * l.sum := by
  rw [List.sum_map_mul_left, List.map_id']

/-- The Gini coefficient of shares in ascending order, some of which are not zero. -/
def gini (l : List K) : K :=
  2 * weightedFrom 1 l / (l.length * l.sum) - (l.length + 1) / l.length

theorem gini_scale {l : List K} {c : K} (hc : c ≠ 0) : gini (l.map (c * ·)) = gini l := by
  unfold gini
  rw [weightedFrom_scale, sum_scale, List.length_map]
  congr 1
  rw [mul_left_comm, mul_left_comm (l.length : K), mul_div_mul_left _ _ hc]

end Weighted

variable {K : Type} [Field K] [LinearOrder K] [IsStrictOrderedRing K]

/-- Each of some shares is at least this large. -/
theorem length_mul_le_sum {a : K} {l : List K} (h : ∀ v ∈ l, a ≤ v) : l.length * a ≤ l.sum := by
  have hle := List.card_nsmul_le_sum l a h
  rwa [nsmul_eq_mul] at hle

/-- The larger shares have the larger ranks. -/
theorem sum_le_weighted {l : List K} (hsorted : l.Pairwise (· ≤ ·)) :
    ((l.length : K) + 1) * l.sum ≤ 2 * weightedFrom 1 l := by
  induction l with
  | nil => simp [weightedFrom]
  | cons v rest ih =>
    obtain ⟨hfirst, hrest⟩ := List.pairwise_cons.mp hsorted
    have hle := ih hrest
    have hall := length_mul_le_sum hfirst
    have hweighted : weightedFrom 1 (v :: rest) = v + (weightedFrom 1 rest + rest.sum) := by
      rw [← weightedFrom_succ]
      show ((1 : ℕ) : K) * v + _ = _
      rw [Nat.cast_one, one_mul]
    rw [hweighted, List.length_cons, List.sum_cons]
    push_cast
    linarith

/-- No rank is above the number of shares. -/
theorem weighted_le {l : List K} (hnonneg : ∀ v ∈ l, 0 ≤ v) (rank : ℕ) :
    weightedFrom rank l + l.sum ≤ (rank + l.length) * l.sum := by
  induction l generalizing rank with
  | nil => simp [weightedFrom]
  | cons v rest ih =>
    have hle := ih (fun w hw => hnonneg w (List.mem_cons_of_mem _ hw)) (rank + 1)
    have hprod : 0 ≤ (rest.length : K) * v :=
      mul_nonneg (Nat.cast_nonneg _) (hnonneg v List.mem_cons_self)
    show rank * v + weightedFrom (rank + 1) rest + _ ≤ _
    rw [List.length_cons, List.sum_cons]
    push_cast at hle ⊢
    linarith

/-! ## The coefficient -/

variable {l : List K}

theorem length_pos_of_sum_pos (hpos : 0 < l.sum) : (0 : K) < l.length := by
  cases l with
  | nil => exact absurd hpos (lt_irrefl _)
  | cons v rest => exact Nat.cast_pos.mpr (by simp)

theorem gini_nonneg (hsorted : l.Pairwise (· ≤ ·)) (hpos : 0 < l.sum) : 0 ≤ gini l := by
  have hlength := length_pos_of_sum_pos hpos
  have hle := sum_le_weighted hsorted
  unfold gini
  rw [sub_nonneg, div_le_div_iff₀ hlength (mul_pos hlength hpos)]
  nlinarith [mul_le_mul_of_nonneg_left hle hlength.le]

theorem gini_lt_one (hnonneg : ∀ v ∈ l, 0 ≤ v) (hpos : 0 < l.sum) : gini l < 1 := by
  have hlength := length_pos_of_sum_pos hpos
  have hle := weighted_le hnonneg 1
  unfold gini
  rw [sub_lt_iff_lt_add, div_lt_iff₀ (mul_pos hlength hpos)]
  have hright : (1 + (l.length + 1 : K) / l.length) * (l.length * l.sum)
      = (2 * l.length + 1) * l.sum := by
    field_simp
    ring
  rw [hright]
  push_cast at hle
  linarith

end Concentration
