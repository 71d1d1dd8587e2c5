import Mathlib.Data.List.Perm.Basic
import Std.Data.ExtTreeMap.Lemmas

/-!
# Loops in any order

A loop that may stop early goes over its input in whatever order it comes, and what it was told
first decides which error is reported. `foldlM_perm`: where any two steps come to the same in
either order (`Swap`), errors aside, so does the whole loop. The steps need only swap in the
states that the loop can be in.

Steps swap that work on different parts of the state (`over_swap`), or on different entries of a
map (`alterM_swap`).
-/

namespace AnyOrder

variable {ε σ α β : Type}

/-- Two results that may have failed for different reasons. -/
def Same (x y : Except ε α) : Prop := x.toOption = y.toOption

theorem Same.refl (x : Except ε α) : Same x x := rfl

theorem Same.symm {x y : Except ε α} (h : Same x y) : Same y x := Eq.symm h

theorem Same.trans {x y z : Except ε α} (h : Same x y) (h' : Same y z) : Same x z := Eq.trans h h'

theorem same_ok {x : Except ε α} {a : α} : Same x (.ok a) ↔ x = .ok a := by
  cases x with
  | error e => exact ⟨fun h => (by cases h), fun h => (by cases h)⟩
  | ok b => exact ⟨fun h => congrArg _ (Option.some.inj h), fun h => congrArg _ h⟩

theorem same_error (e e' : ε) : Same (.error e : Except ε α) (.error e') := rfl

theorem Same.bind {x y : Except ε α} {f g : α → Except ε β} (h : Same x y)
    (hrest : ∀ a, x = .ok a → Same (f a) (g a)) : Same (x >>= f) (y >>= g) := by
  cases x with
  | error e =>
    cases y with
    | error e' => rfl
    | ok b => cases h
  | ok a =>
    obtain rfl := same_ok.mp h.symm
    exact hrest a rfl

/-- The steps of `a` and `b` come to the same in either order. -/
def Swap (step : σ → α → Except ε σ) (s : σ) (a b : α) : Prop :=
  Same (step s a >>= fun t => step t b) (step s b >>= fun t => step t a)

theorem Swap.symm {step : σ → α → Except ε σ} {s : σ} {a b : α} (h : Swap step s a b) :
    Swap step s b a := Same.symm h

/-- **A loop whose steps swap does not depend on the order.** -/
theorem foldlM_perm {step : σ → α → Except ε σ} {inv : σ → Prop} {l l' : List α}
    (hperm : l.Perm l') (hstep : ∀ a ∈ l, ∀ s t, inv s → step s a = .ok t → inv t)
    (hswap : ∀ a ∈ l, ∀ b ∈ l, ∀ s, inv s → Swap step s a b) {s : σ} (hs : inv s) :
    Same (l.foldlM step s) (l'.foldlM step s) := by
  induction hperm generalizing s with
  | nil => exact .refl _
  | cons a _ ih =>
    rw [List.foldlM_cons, List.foldlM_cons]
    refine (Same.refl (step s a)).bind fun t ht => ?_
    refine ih (fun b hb => hstep b (List.mem_cons_of_mem _ hb)) (fun b hb c hc => ?_)
      (hstep a List.mem_cons_self s t hs ht)
    exact hswap b (List.mem_cons_of_mem _ hb) c (List.mem_cons_of_mem _ hc)
  | swap a b l =>
    rw [List.foldlM_cons, List.foldlM_cons]
    have hboth : Same ((step s b >>= fun t => step t a) >>= fun t => l.foldlM step t)
        ((step s a >>= fun t => step t b) >>= fun t => l.foldlM step t) :=
      (hswap b List.mem_cons_self a (List.mem_cons_of_mem _ List.mem_cons_self) s hs).bind
        fun t _ => .refl _
    simpa only [List.foldlM_cons, bind_assoc] using hboth
  | trans hfirst _ ih ih' =>
    refine (ih hstep hswap hs).trans (ih' (fun a ha => hstep a (hfirst.mem_iff.mpr ha))
      (fun a ha b hb => hswap a (hfirst.mem_iff.mpr ha) b (hfirst.mem_iff.mpr hb)) hs)

/-- What no step can leave, the loop does not leave. -/
theorem foldlM_keeps {step : σ → α → Except ε σ} {inv : σ → Prop} {l : List α}
    (hstep : ∀ a ∈ l, ∀ s t, inv s → step s a = .ok t → inv t) {s t : σ} (hs : inv s)
    (h : l.foldlM step s = .ok t) : inv t := by
  induction l generalizing s with
  | nil => exact Except.ok.inj h ▸ hs
  | cons a l ih =>
    rw [List.foldlM_cons] at h
    cases hturn : step s a with
    | error e =>
      rw [hturn] at h
      cases h
    | ok u =>
      rw [hturn] at h
      exact ih (fun b hb => hstep b (List.mem_cons_of_mem _ hb))
        (hstep a List.mem_cons_self s u hs hturn) h

/-! ## Parts of a state -/

/-- A part of a state that can be read and replaced. -/
structure Part (σ π : Type) where
  get : σ → π
  set : σ → π → σ

variable {π ρ : Type}

/-- A step on a part. -/
def Part.over (p : Part σ π) (f : π → Except ε π) (s : σ) : Except ε σ := do
  let part ← f (p.get s)
  return p.set s part

/-- Neither part is seen from the other. -/
structure Apart (p : Part σ π) (q : Part σ ρ) : Prop where
  get : ∀ s b, p.get (q.set s b) = p.get s
  get' : ∀ s a, q.get (p.set s a) = q.get s
  set : ∀ s a b, p.set (q.set s b) a = q.set (p.set s a) b

theorem over_swap {p : Part σ π} {q : Part σ ρ} (h : Apart p q) (f : π → Except ε π)
    (g : ρ → Except ε ρ) (s : σ) :
    Same (p.over f s >>= q.over g) (q.over g s >>= p.over f) := by
  unfold Part.over
  cases hf : f (p.get s) with
  | error e =>
    cases hg : g (q.get s) with
    | error e' => exact same_error e e'
    | ok b =>
      show Same _ (f (p.get (q.set s b)) >>= _)
      rw [h.get, hf]
      exact .refl _
  | ok a =>
    show Same (g (q.get (p.set s a)) >>= _) _
    rw [h.get']
    cases hg : g (q.get s) with
    | error e' => exact .refl _
    | ok b =>
      show Same (.ok (q.set (p.set s a) b)) (f (p.get (q.set s b)) >>= _)
      rw [h.get, hf, ← h.set]
      exact .refl _

/-- Two steps on one part. -/
theorem over_same {p : Part σ π} (hget : ∀ s a, p.get (p.set s a) = a)
    (hset : ∀ s a b, p.set (p.set s a) b = p.set s b) {f g : π → Except ε π} {s : σ}
    (h : Same (f (p.get s) >>= g) (g (p.get s) >>= f)) :
    Same (p.over f s >>= p.over g) (p.over g s >>= p.over f) := by
  have hboth : ∀ f g : π → Except ε π, (p.over f s >>= p.over g)
      = (f (p.get s) >>= g) >>= fun b => .ok (p.set s b) := by
    intro f g
    unfold Part.over
    cases f (p.get s) with
    | error e => rfl
    | ok a =>
      show (g (p.get (p.set s a)) >>= fun b => .ok (p.set (p.set s a) b)) = _
      rw [hget]
      simp only [hset]
      rfl
  rw [hboth f g, hboth g f]
  exact h.bind fun b _ => .refl _

/-! ## Entries of a map -/

section Entries

open Std (ExtTreeMap)

variable {κ υ : Type} [Ord κ] [Std.TransOrd κ]

/-- A new value for one entry, if there is one. -/
def alterM (f : Option υ → Except ε υ) (map : ExtTreeMap κ υ) (key : κ) :
    Except ε (ExtTreeMap κ υ) := do
  let value ← f map[key]?
  return map.insert key value

variable [Std.LawfulEqOrd κ] [DecidableEq κ]

theorem insert_comm {map : ExtTreeMap κ υ} {k j : κ} (h : k ≠ j) (a b : υ) :
    (map.insert k a).insert j b = (map.insert j b).insert k a := by
  apply Std.ExtTreeMap.ext_getElem?
  intro x
  simp only [Std.ExtTreeMap.getElem?_insert, Std.LawfulEqCmp.compare_eq_iff_eq]
  by_cases hk : k = x
  · have hj : ¬ j = x := fun hj => h (hk.trans hj.symm)
    simp only [if_pos hk, if_neg hj]
  · simp only [if_neg hk]

theorem insert_insert (map : ExtTreeMap κ υ) (k : κ) (a b : υ) :
    (map.insert k a).insert k b = map.insert k b := by
  apply Std.ExtTreeMap.ext_getElem?
  intro x
  simp only [Std.ExtTreeMap.getElem?_insert, Std.LawfulEqCmp.compare_eq_iff_eq]
  by_cases hk : k = x
  · simp only [if_pos hk]
  · simp only [if_neg hk]

theorem alterM_swap {map : ExtTreeMap κ υ} {k j : κ} {f g : Option υ → Except ε υ}
    (h : k = j → ∀ entry, Same (f entry >>= fun a => g (some a))
      (g entry >>= fun b => f (some b))) :
    Same (alterM f map k >>= fun map => alterM g map j)
      (alterM g map j >>= fun map => alterM f map k) := by
  have hother : ∀ {i i' : κ} (a : υ), i ≠ i' → (map.insert i a)[i']? = map[i']? := by
    intro i i' a hne
    rw [Std.ExtTreeMap.getElem?_insert, if_neg fun heq => hne (Std.LawfulEqCmp.eq_of_compare heq)]
  unfold alterM
  -- The same key: the second change sees the entry of the first. Different keys do not meet.
  by_cases hkj : k = j
  · subst hkj
    have hboth : ∀ f g : Option υ → Except ε υ,
        ((f map[k]? >>= fun a => (pure (map.insert k a) : Except ε _)) >>= fun map =>
          g map[k]? >>= fun b => pure (map.insert k b))
        = (f map[k]? >>= fun a => g (some a)) >>= fun b => .ok (map.insert k b) := by
      intro f g
      cases f map[k]? with
      | error e => rfl
      | ok a =>
        show (g (map.insert k a)[k]? >>= fun b => .ok ((map.insert k a).insert k b)) = _
        rw [Std.ExtTreeMap.getElem?_insert_self]
        simp only [insert_insert]
        rfl
    rw [hboth f g, hboth g f]
    exact (h rfl _).bind fun b _ => .refl _
  · cases hf : f map[k]? with
    | error e =>
      cases hg : g map[j]? with
      | error e' => exact same_error e e'
      | ok b =>
        show Same _ (f (map.insert j b)[k]? >>= _)
        rw [hother b (Ne.symm hkj), hf]
        exact .refl _
    | ok a =>
      show Same (g (map.insert k a)[j]? >>= _) _
      rw [hother a hkj]
      cases hg : g map[j]? with
      | error e' => exact .refl _
      | ok b =>
        show Same (.ok ((map.insert k a).insert j b)) (f (map.insert j b)[k]? >>= _)
        rw [hother b (Ne.symm hkj), hf, insert_comm hkj]
        exact .refl _

end Entries

end AnyOrder
