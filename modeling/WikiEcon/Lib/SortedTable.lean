import Mathlib.Algebra.BigOperators.Group.List.Basic
import Mathlib.Algebra.Order.Ring.Int
import Mathlib.Algebra.Order.Ring.Nat
import Mathlib.Data.List.Dedup
import Mathlib.Data.List.Perm.Lattice
import Mathlib.Data.List.Sort
import Mathlib.Order.Cover

/-!
# Tables sorted by key

A streaming reduction reads rows in key order, adds up neighbours with the same
key and compares each finished row with the one before it. This file says what
that computes of the table as a whole.

- `keys` lists a table's keys, each once and ascending. A strictly ascending list
  is the `keys` of any table with the same ones (`keys_eq`).
- `coalesceFrom` adds up neighbours. On a sorted table every key comes out once,
  with everything the table holds under it (`weight_coalesceFrom`).
- `withPrevious` hands each row its predecessor. Where the key asked for is the
  one right below the row's own, looking at the predecessor is looking it up in
  the whole table (`withPrevious_eq_map`).
-/

namespace SortedTable

variable {α β κ : Type}

/-! ## Keys -/

section Keys

variable [LinearOrder κ] (key : α → κ)

/-- The keys of a table, each once and in order. -/
def keys (rows : List α) : List κ := (rows.map key).dedup.insertionSort (· ≤ ·)

variable {key}

theorem mem_keys {rows : List α} {k : κ} : k ∈ keys key rows ↔ ∃ a ∈ rows, key a = k := by
  rw [keys, List.mem_insertionSort, List.mem_dedup, List.mem_map]

theorem keys_nodup (rows : List α) : (keys key rows).Nodup :=
  (List.perm_insertionSort (· ≤ ·) _).nodup_iff.mpr (List.nodup_dedup _)

theorem keys_pairwise (rows : List α) : (keys key rows).Pairwise (· < ·) := by
  have hle : (keys key rows).Pairwise (· ≤ ·) := List.pairwise_insertionSort _ _
  have hne : (keys key rows).Pairwise (· ≠ ·) := keys_nodup rows
  exact hle.imp₂ (fun _ _ h h' => lt_of_le_of_ne h h') hne

/-- A strictly ascending list is told by its members. -/
theorem eq_of_pairwise_lt {l l' : List κ} (hl : l.Pairwise (· < ·)) (hl' : l'.Pairwise (· < ·))
    (hmem : ∀ k, k ∈ l ↔ k ∈ l') : l = l' := by
  have hperm : l.Perm l' :=
    (List.perm_ext_iff_of_nodup (hl.imp fun h => ne_of_lt h) (hl'.imp fun h => ne_of_lt h)).mpr hmem
  exact hperm.eq_of_pairwise (fun _ _ _ _ h h' => absurd h (lt_asymm h')) hl hl'

theorem keys_eq {rows : List α} {l : List κ} (hl : l.Pairwise (· < ·))
    (hmem : ∀ k, k ∈ l ↔ ∃ a ∈ rows, key a = k) : keys key rows = l :=
  eq_of_pairwise_lt (keys_pairwise rows) hl fun k => mem_keys.trans (hmem k).symm

theorem keys_congr {rows rows' : List α} (h : rows.Perm rows') :
    keys key rows = keys key rows' :=
  keys_eq (keys_pairwise rows') fun k => by
    rw [mem_keys]
    simp only [h.mem_iff]

end Keys

/-- A key that comes once picks out its row. -/
theorem filter_key_eq_singleton [DecidableEq κ] (key : α → κ) {rows : List α}
    (h : (rows.map key).Nodup) {a : α} (ha : a ∈ rows) :
    rows.filter (key · = key a) = [a] := by
  induction rows with
  | nil => exact absurd ha List.not_mem_nil
  | cons b rows ih =>
    obtain ⟨hb, hrows⟩ := List.nodup_cons.mp h
    rcases List.mem_cons.mp ha with rfl | ha
    · have hnone : rows.filter (key · = key a) = [] :=
        List.filter_eq_nil_iff.mpr fun c hc heq =>
          hb (List.mem_map.mpr ⟨c, hc, of_decide_eq_true heq⟩)
      rw [List.filter_cons, if_pos (decide_eq_true rfl), hnone]
    · have hne : key b ≠ key a := fun heq => hb (List.mem_map.mpr ⟨a, ha, heq.symm⟩)
      rw [List.filter_cons, if_neg (by simpa using hne), ih hrows ha]

/-! ## Adding up neighbours -/

section Coalesce

variable [LinearOrder κ] (key : α → κ) (combine : α → α → α)

/-- The finished rows, given the row the loop is at. -/
def coalesceFrom : α → List α → List α
  | current, [] => [current]
  | current, row :: rest =>
    if key current = key row then coalesceFrom (combine current row) rest
    else current :: coalesceFrom row rest

variable {key combine} (hkey : ∀ a b, key (combine a b) = key a)
include hkey

theorem mem_map_coalesceFrom {k : κ} : ∀ {current : α} {rows : List α},
    k ∈ (coalesceFrom key combine current rows).map key ↔ ∃ a ∈ current :: rows, key a = k := by
  intro current rows
  induction rows generalizing current with
  | nil => simp [coalesceFrom, eq_comm]
  | cons row rest ih =>
    rw [coalesceFrom]
    by_cases h : key current = key row
    · rw [if_pos h, ih]
      simp [hkey, ← h]
    · rw [if_neg h, List.map_cons, List.mem_cons, ih]
      simp [eq_comm]

/-- On a table in order every key comes out once, in order. -/
theorem pairwise_coalesceFrom : ∀ {current : α} {rows : List α},
    (current :: rows).Pairwise (key · ≤ key ·) →
      ((coalesceFrom key combine current rows).map key).Pairwise (· < ·) := by
  intro current rows
  induction rows generalizing current with
  | nil => intro _; exact List.pairwise_singleton _ _
  | cons row rest ih =>
    intro h
    obtain ⟨hcurrent, hrest⟩ := List.pairwise_cons.mp h
    rw [coalesceFrom]
    by_cases he : key current = key row
    · rw [if_pos he]
      refine ih (List.pairwise_cons.mpr ⟨fun b hb => ?_, (List.pairwise_cons.mp hrest).2⟩)
      rw [hkey]
      exact hcurrent b (List.mem_cons_of_mem _ hb)
    · rw [if_neg he, List.map_cons, List.pairwise_cons]
      refine ⟨fun k hk => ?_, ih hrest⟩
      obtain ⟨a, ha, rfl⟩ := (mem_map_coalesceFrom hkey).mp hk
      have hrow : key current < key row :=
        lt_of_le_of_ne (hcurrent row (List.mem_cons_self ..)) he
      rcases List.mem_cons.mp ha with rfl | ha
      · exact hrow
      · exact lt_of_lt_of_le hrow ((List.pairwise_cons.mp hrest).1 a ha)

variable {M : Type} [AddCommMonoid M] {weight : α → M}
  (hweight : ∀ a b, weight (combine a b) = weight a + weight b)
include hweight

/-- Nothing under a key is lost or counted twice. -/
theorem sum_coalesceFrom (k : κ) : ∀ {current : α} {rows : List α},
    (((coalesceFrom key combine current rows).filter (key · = k)).map weight).sum
      = (((current :: rows).filter (key · = k)).map weight).sum := by
  intro current rows
  induction rows generalizing current with
  | nil => rfl
  | cons row rest ih =>
    rw [coalesceFrom]
    by_cases h : key current = key row
    · rw [if_pos h, ih]
      by_cases hk : key row = k
      · simp [hkey, hweight, h, hk, add_assoc]
      · simp [hkey, h, hk]
    · rw [if_neg h]
      by_cases hk : key current = k
      · simp only [List.filter_cons, hk, decide_true, if_true, List.map_cons, List.sum_cons]
        rw [ih, List.filter_cons]
      · simp only [List.filter_cons, hk, decide_false, Bool.false_eq_true, if_false]
        rw [ih, List.filter_cons]

/-- A finished row holds everything of its key. -/
theorem weight_coalesceFrom {current : α} {rows : List α} {a : α}
    (hsorted : (current :: rows).Pairwise (key · ≤ key ·))
    (ha : a ∈ coalesceFrom key combine current rows) :
    weight a = (((current :: rows).filter (key · = key a)).map weight).sum := by
  have hnodup : ((coalesceFrom key combine current rows).map key).Nodup :=
    (pairwise_coalesceFrom hkey hsorted).imp fun h => ne_of_lt h
  have hsum : (((coalesceFrom key combine current rows).filter (key · = key a)).map weight).sum
      = (((current :: rows).filter (key · = key a)).map weight).sum :=
    sum_coalesceFrom hkey hweight (key a)
  rw [filter_key_eq_singleton key hnodup ha] at hsum
  rw [← hsum, List.map_singleton, List.sum_singleton]

end Coalesce

/-! ## Predecessors -/

/-- Hand each row the one before it. -/
def withPrevious (f : Option α → α → β) : Option α → List α → List β
  | _, [] => []
  | previous, a :: rest => f previous a :: withPrevious f (some a) rest

theorem withPrevious_append (f : Option α → α → β) (previous : Option α) (l : List α) (a : α) :
    withPrevious f previous (l ++ [a])
      = withPrevious f previous l ++ [f (l.getLast?.or previous) a] := by
  induction l generalizing previous with
  | nil => rfl
  | cons b l ih =>
    rw [List.cons_append, withPrevious, withPrevious, ih, List.cons_append]
    cases l with
    | nil => rfl
    | cons c l => simp [List.getLast?_cons]

section Lag

variable [LinearOrder κ] {key : α → κ} {below : κ → Option κ} {M : Type} [AddCommMonoid M]

/-- What the predecessor says of the key right below the row's own. -/
def lag (key : α → κ) (below : κ → Option κ) (weight : α → M) (previous : Option α) (a : α) : M :=
  match previous with
  | some p => if below (key a) = some (key p) then weight p else 0
  | none => 0

variable (hbelow : ∀ k q, below k = some q → q ⋖ k)
include hbelow

/-- Only the last row before `a` can have the key right below. -/
theorem filter_below {before after : List α} {a : α}
    (hsorted : (before ++ a :: after).Pairwise (key · < key ·)) :
    (before ++ a :: after).filter (fun b => below (key a) = some (key b))
      = before.getLast?.toList.filter fun b => below (key a) = some (key b) := by
  rw [List.pairwise_append] at hsorted
  obtain ⟨hbefore, hafter, hcross⟩ := hsorted
  have hnone : (a :: after).filter (fun b => below (key a) = some (key b)) = [] := by
    refine List.filter_eq_nil_iff.mpr fun b hb heq => ?_
    have hlt := (hbelow _ _ (of_decide_eq_true heq)).lt
    rcases List.mem_cons.mp hb with rfl | hb
    · exact lt_irrefl _ hlt
    · exact lt_asymm hlt ((List.pairwise_cons.mp hafter).1 b hb)
  rw [List.filter_append, hnone, List.append_nil]
  rcases List.eq_nil_or_concat' before with rfl | ⟨init, last, rfl⟩
  · rfl
  · have hinit : init.filter (fun b => below (key a) = some (key b)) = [] := by
      refine List.filter_eq_nil_iff.mpr fun b hb heq => ?_
      have hcov := hbelow _ _ (of_decide_eq_true heq)
      have hlast : key last < key a :=
        hcross last (List.mem_append_right _ (List.mem_singleton_self _)) a (List.mem_cons_self ..)
      have hb' : key b < key last :=
        (List.pairwise_append.mp hbefore).2.2 b hb last (List.mem_singleton_self _)
      exact hcov.2 hb' hlast
    rw [List.filter_append, hinit, List.nil_append, List.getLast?_concat]
    rfl

/-- On a strictly sorted table the predecessor is as good as a lookup. -/
theorem withPrevious_eq_map (weight : α → M) (g : α → M → β) {rows : List α}
    (hsorted : rows.Pairwise (key · < key ·)) :
    withPrevious (fun previous a => g a (lag key below weight previous a)) none rows
      = rows.map fun a =>
          g a ((rows.filter fun b => below (key a) = some (key b)).map weight).sum := by
  -- the rows handed out so far stay fixed while the rest is read
  have hgen : ∀ (after before : List α), (before ++ after).Pairwise (key · < key ·) →
      withPrevious (fun previous a => g a (lag key below weight previous a)) before.getLast? after
        = after.map fun a => g a (((before ++ after).filter fun b =>
            below (key a) = some (key b)).map weight).sum := by
    intro after
    induction after with
    | nil => intro _ _; rfl
    | cons a after ih =>
      intro before hsorted
      have hrest := ih (before ++ [a]) (by simpa using hsorted)
      rw [List.getLast?_concat] at hrest
      rw [withPrevious, List.map_cons, filter_below hbelow hsorted, hrest]
      congr 1
      · congr 1
        cases before.getLast? with
        | none => rfl
        | some p =>
          by_cases h : below (key a) = some (key p)
          · simp [lag, h]
          · simp [lag, h]
      · simp
  exact hgen rows [] hsorted

end Lag

end SortedTable
