import Mathlib.Algebra.Order.Ring.Int
import Mathlib.Algebra.Order.Ring.Nat
import Mathlib.Data.List.Dedup
import Mathlib.Data.List.Induction
import Mathlib.Data.List.Nodup
import Mathlib.Data.List.Perm.Basic
import Mathlib.Data.List.Perm.Lattice
import Mathlib.Data.Prod.Lex
import Std.Data.ExtTreeMap.Lemmas

/-!
# Folding rows into a map, key by key

An accumulator keyed by user, period or page is a loop that updates one entry
per row. `foldBy` is that loop. Its entry at a key is the fold over the rows of
that key alone (`getElem?_foldBy`), so nothing else about the order of the rows
can show in it.

`tally` counts occurrences; two tallies agree when their lists do up to order
(`tally_congr`). `toList_perm` reads a map's entries back as a list of keys, and
`toList_filterMap_perm` its values.
-/

namespace Grouping

open Std (ExtTreeMap)

variable {α κ σ : Type}

/-- Pairs compared field by field may be keys too. -/
instance lawfulEqOrd_lex {β : Type} [Ord α] [Ord β] [Std.TransOrd α] [Std.TransOrd β]
    [Std.LawfulEqOrd α] [Std.LawfulEqOrd β] : Std.LawfulEqOrd (α ×ₗ β) where
  eq_of_compare {a b} h := by
    rw [Prod.Lex.compare_def, compareLex, Ordering.then_eq_eq] at h
    have hfst : (ofLex a).1 = (ofLex b).1 := Std.compare_eq_iff_eq.mp h.1
    have hsnd : (ofLex a).2 = (ofLex b).2 := Std.compare_eq_iff_eq.mp h.2
    exact ofLex_inj.mp (Prod.ext hfst hsnd)

theorem foldl_count_some (l : List κ) (n : ℕ) :
    l.foldl (fun (entry : Option ℕ) _ => some (entry.getD 0 + 1)) (some n)
      = some (n + l.length) := by
  induction l generalizing n with
  | nil => rfl
  | cons k l ih =>
    rw [List.foldl_cons, Option.getD_some, ih, List.length_cons]
    congr 1
    omega

variable [Ord κ] [Std.TransOrd κ]

/-! ## Keyed folds -/

/-- Update the entry at the row's key, row by row. -/
def foldBy (key : α → κ) (step : Option σ → α → σ) (l : List α) : ExtTreeMap κ σ :=
  l.foldl (fun m a => m.alter (key a) fun entry => some (step entry a)) ∅

@[simp] theorem foldBy_nil (key : α → κ) (step : Option σ → α → σ) :
    foldBy key step [] = ∅ := rfl

theorem foldBy_concat (key : α → κ) (step : Option σ → α → σ) (l : List α) (a : α) :
    foldBy key step (l ++ [a])
      = (foldBy key step l).alter (key a) fun entry => some (step entry a) := by
  rw [foldBy, List.foldl_append]
  rfl

variable [Std.LawfulEqOrd κ] [DecidableEq κ]

/-- An entry is the fold over the rows of its key. -/
theorem getElem?_foldBy (key : α → κ) (step : Option σ → α → σ) (l : List α) (k : κ) :
    (foldBy key step l)[k]?
      = (l.filter (key · = k)).foldl (fun entry a => some (step entry a)) none := by
  induction l using List.reverseRecOn with
  | nil => exact Std.ExtTreeMap.getElem?_empty
  | append_singleton l a ih =>
    rw [foldBy_concat, Std.ExtTreeMap.getElem?_alter, List.filter_append]
    by_cases h : key a = k
    · simp [h, ih]
    · simp [h, ih]

/-- Updates of two entries commute; updates of one entry do if the functions do. -/
theorem alter_comm {m : ExtTreeMap κ σ} {k j : κ} {f g : Option σ → Option σ}
    (h : k = j → ∀ entry, g (f entry) = f (g entry)) :
    (m.alter k f).alter j g = (m.alter j g).alter k f := by
  apply Std.ExtTreeMap.ext_getElem?
  intro x
  simp only [Std.ExtTreeMap.getElem?_alter, Std.LawfulEqCmp.compare_eq_iff_eq]
  by_cases hk : k = x
  · by_cases hj : j = x
    · simp only [hk, hj, if_true]
      exact h (hk.trans hj.symm) _
    · have hne : ¬ j = k := fun he => hj (he.trans hk)
      simp [hk, hj]
  · by_cases hj : j = x
    · simp [hk, hj]
    · simp [hk, hj]

/-- The entries of a map whose keys are listed without repetition. -/
theorem toList_perm {m : ExtTreeMap κ σ} {keys : List κ} {value : κ → σ} (hnodup : keys.Nodup)
    (hget : ∀ k, m[k]? = if k ∈ keys then some (value k) else none) :
    m.toList.Perm (keys.map fun k => (k, value k)) := by
  refine (List.perm_ext_iff_of_nodup ?_ ?_).mpr fun entry => ?_
  · exact m.distinct_keys_toList.imp fun {x y} hne heq =>
      hne (by rw [heq]; exact Std.ReflCmp.compare_self)
  · exact hnodup.map fun _ _ heq => (Prod.mk.inj heq).1
  · rcases entry with ⟨k, v⟩
    rw [Std.ExtTreeMap.mem_toList_iff_getElem?_eq_some, hget k, List.mem_map]
    by_cases hk : k ∈ keys
    · simp only [hk, if_true, Option.some.injEq, Prod.mk.injEq]
      constructor
      · rintro rfl
        exact ⟨k, hk, rfl, rfl⟩
      · rintro ⟨_, -, rfl, rfl⟩
        rfl
    · simp only [hk, if_false, reduceCtorEq, false_iff, Prod.mk.injEq]
      rintro ⟨k', hk', rfl, -⟩
      exact hk hk'

omit [DecidableEq κ] in
/-- The values of a map whose keys are listed without repetition. -/
theorem toList_filterMap_perm {m : ExtTreeMap κ σ} {keys : List κ} (hnodup : keys.Nodup)
    (hmem : ∀ k, (m[k]?).isSome ↔ k ∈ keys) :
    (m.toList.map Prod.snd).Perm (keys.filterMap fun k => m[k]?) := by
  have hperm : m.toList.Perm (keys.filterMap fun k => m[k]?.map fun v => (k, v)) := by
    refine (List.perm_ext_iff_of_nodup ?_ ?_).mpr fun entry => ?_
    · exact m.distinct_keys_toList.imp fun {x y} hne heq =>
        hne (by rw [heq]; exact Std.ReflCmp.compare_self)
    · refine hnodup.filterMap fun k k' entry hk hk' => ?_
      obtain ⟨_, -, rfl⟩ := Option.map_eq_some_iff.mp (Option.mem_def.mp hk)
      obtain ⟨_, -, heq⟩ := Option.map_eq_some_iff.mp (Option.mem_def.mp hk')
      exact (Prod.mk.inj heq).1.symm
    · obtain ⟨k, v⟩ := entry
      rw [Std.ExtTreeMap.mem_toList_iff_getElem?_eq_some, List.mem_filterMap]
      constructor
      · intro hv
        exact ⟨k, (hmem k).mp (by rw [hv]; rfl), by rw [hv]; rfl⟩
      · rintro ⟨k', -, hk'⟩
        obtain ⟨v', hv', heq⟩ := Option.map_eq_some_iff.mp hk'
        obtain ⟨rfl, rfl⟩ := Prod.mk.inj heq
        exact hv'
  refine (hperm.map Prod.snd).trans (List.Perm.of_eq ?_)
  rw [List.map_filterMap]
  refine List.filterMap_congr fun k _ => ?_
  rw [Option.map_map]
  exact congrFun Option.map_id _

theorem isSome_getElem?_foldBy (key : α → κ) (step : Option σ → α → σ) (l : List α) (k : κ) :
    (foldBy key step l)[k]?.isSome ↔ k ∈ l.map key := by
  rw [getElem?_foldBy, List.mem_map]
  rcases List.eq_nil_or_concat' (l.filter fun a => decide (key a = k)) with hnil | ⟨init, a, heq⟩
  · rw [hnil]
    simpa using List.filter_eq_nil_iff.mp hnil
  · have ha : a ∈ l.filter fun a => decide (key a = k) := by
      rw [heq]
      exact List.mem_append_right _ (List.mem_singleton_self _)
    obtain ⟨hmem, hkey⟩ := List.mem_filter.mp ha
    rw [heq, List.foldl_append]
    exact iff_of_true rfl ⟨a, hmem, of_decide_eq_true hkey⟩

/-- A keyed fold has one entry for each key. -/
theorem toList_foldBy_perm (key : α → κ) (step : Option σ → α → σ) (l : List α) (default : σ) :
    (foldBy key step l).toList.Perm
      ((l.map key).dedup.map fun k => (k, (foldBy key step l)[k]?.getD default)) := by
  refine toList_perm (List.nodup_dedup _) fun k => ?_
  have hsome := isSome_getElem?_foldBy key step l k
  by_cases hk : k ∈ l.map key
  · obtain ⟨v, hv⟩ := Option.isSome_iff_exists.mp (hsome.mpr hk)
    rw [if_pos (List.mem_dedup.mpr hk), hv, Option.getD_some]
  · rw [if_neg fun h => hk (List.mem_dedup.mp h)]
    exact Option.not_isSome_iff_eq_none.mp fun h => hk (hsome.mp h)

/-! ## Tallies -/

/-- How often each key occurs. -/
def tally (l : List κ) : ExtTreeMap κ ℕ := foldBy id (fun entry _ => entry.getD 0 + 1) l

theorem getElem?_tally (l : List κ) (k : κ) :
    (tally l)[k]? = if k ∈ l then some (l.count k) else none := by
  rw [tally, getElem?_foldBy]
  simp only [id]
  have hfilter : l.filter (fun k' => decide (k' = k)) = List.replicate (l.count k) k := by
    rw [List.filter_congr fun x _ => (beq_eq_decide x k).symm, List.filter_beq]
  rw [hfilter]
  cases hcount : l.count k with
  | zero => simp [List.count_eq_zero.mp hcount]
  | succ n =>
    have hmem : k ∈ l := List.count_pos_iff.mp (by omega)
    rw [List.replicate_succ, List.foldl_cons, Option.getD_none, foldl_count_some, if_pos hmem,
      List.length_replicate]
    congr 1
    omega

theorem tally_congr {l l' : List κ} (h : l.Perm l') : tally l = tally l' := by
  apply Std.ExtTreeMap.ext_getElem?
  intro k
  simp only [getElem?_tally, h.count_eq, h.mem_iff]

theorem mem_tally {l : List κ} {k : κ} : k ∈ tally l ↔ k ∈ l := by
  rw [Std.ExtTreeMap.mem_iff_isSome_getElem?, getElem?_tally]
  split <;> simp [*]

theorem getD_tally (l : List κ) (k : κ) : (tally l)[k]?.getD 0 = l.count k := by
  rw [getElem?_tally]
  split
  next h => rfl
  next h => rw [List.count_eq_zero.mpr h]; rfl

end Grouping
