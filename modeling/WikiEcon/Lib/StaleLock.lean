import Mathlib.Algebra.Order.Ring.Nat
import WikiEcon.Lib.Transition

/-!
# Locks that go stale

A lock is made by the process that takes it, and may be taken away from the outside
once it has not been touched for longer than a limit. A process can stop without
giving its lock back. As long as whoever goes on gives the lock back within the limit,
and what is taken away is stale at that moment, no two processes hold the lock
(`Held.unique`) and nobody takes away what another holds (`Step.keeps`). Where the
processes are a list of which one goes on at a time, its move is such a step (`Moves`).
-/

namespace StaleLock

open Transition

structure Lock (ι : Type) where
  maker : ι
  touched : ℕ

/-- The lock, and since when each process holds it. -/
structure State (ι : Type) where
  now : ℕ
  lock : Option (Lock ι)
  holding : ι → Option ℕ

variable {ι : Type} {limit : ℕ} {s t : State ι}

/-- What can happen to the lock. -/
inductive Step (limit : ℕ) (s t : State ι) : Prop
  | idle (now : t.now = s.now) (lock : t.lock = s.lock) (holding : ∀ i, t.holding i = s.holding i)
  | take (i : ι) (now : t.now = s.now) (free : s.lock = none) (lock : t.lock = some ⟨i, s.now⟩)
      (self : t.holding i = some s.now) (others : ∀ j ≠ i, t.holding j = s.holding j)
  | touch (l : Lock ι) (now : t.now = s.now) (was : s.lock = some l)
      (lock : t.lock = some ⟨l.maker, s.now⟩) (holding : ∀ i, t.holding i = s.holding i)
  | give (i : ι) (now : t.now = s.now) (held : (s.holding i).isSome = true) (lock : t.lock = none)
      (self : t.holding i = none) (others : ∀ j ≠ i, t.holding j = s.holding j)
  /-- A process stops, and its lock stays. -/
  | stop (i : ι) (now : t.now = s.now) (lock : t.lock = s.lock)
      (self : t.holding i = none) (others : ∀ j ≠ i, t.holding j = s.holding j)
  | steal (l : Lock ι) (now : t.now = s.now) (was : s.lock = some l)
      (stale : l.touched + limit < s.now) (lock : t.lock = none)
      (holding : ∀ i, t.holding i = s.holding i)
  | wait (later : s.now ≤ t.now) (lock : t.lock = s.lock)
      (holding : ∀ i, t.holding i = s.holding i)
      (prompt : ∀ i since, t.holding i = some since → t.now ≤ since + limit)

/-- The lock, whoever uses it. -/
def system (ι : Type) (limit : ℕ) : System (State ι) Unit where
  init s := s.lock = none ∧ ∀ i, s.holding i = none
  step s _ t := Step limit s t

/-- Who holds the lock has made it, and is in time. -/
structure Held (limit : ℕ) (s : State ι) : Prop where
  own : ∀ i since, s.holding i = some since → ∃ l, s.lock = some l ∧ l.maker = i ∧ since ≤ l.touched
  prompt : ∀ i since, s.holding i = some since → s.now ≤ since + limit
  past : ∀ l, s.lock = some l → l.touched ≤ s.now

theorem Held.unique (h : Held limit s) {i j : ι} (hi : (s.holding i).isSome = true)
    (hj : (s.holding j).isSome = true) : i = j := by
  obtain ⟨since, hi⟩ := Option.isSome_iff_exists.mp hi
  obtain ⟨since', hj⟩ := Option.isSome_iff_exists.mp hj
  obtain ⟨l, hl, rfl, -⟩ := h.own i since hi
  obtain ⟨l', hl', rfl, -⟩ := h.own j since' hj
  rw [Option.some.inj (hl.symm.trans hl')]

/-- Nobody holds a lock that is not there. -/
theorem Held.holding_of_none (h : Held limit s) (hfree : s.lock = none) (i : ι) :
    s.holding i = none := by
  by_contra hsome
  obtain ⟨since, hi⟩ := Option.ne_none_iff_exists'.mp hsome
  obtain ⟨l, hl, -⟩ := h.own i since hi
  rw [hfree] at hl
  exact absurd hl (by simp)

/-- Nobody holds a lock that is stale. -/
theorem Held.holding_of_stale (h : Held limit s) {l : Lock ι} (hl : s.lock = some l)
    (hstale : l.touched + limit < s.now) (i : ι) : s.holding i = none := by
  by_contra hsome
  obtain ⟨since, hi⟩ := Option.ne_none_iff_exists'.mp hsome
  obtain ⟨l', hl', -, hsince⟩ := h.own i since hi
  have hprompt := h.prompt i since hi
  obtain rfl := Option.some.inj (hl.symm.trans hl')
  omega

theorem Held.step (h : Held limit s) (hstep : Step limit s t) : Held limit t := by
  cases hstep with
  | idle hnow hlock hholding =>
    refine ⟨fun i since hi => ?_, fun i since hi => ?_, fun l hl => ?_⟩
    · rw [hlock]
      exact h.own i since ((hholding i).symm.trans hi)
    · rw [hnow]
      exact h.prompt i since ((hholding i).symm.trans hi)
    · rw [hnow]
      exact h.past l (hlock.symm.trans hl)
  | take i hnow hfree hlock hself hothers =>
    -- the lock was free, so nobody else holds it
    have hsince : ∀ j since, t.holding j = some since → j = i ∧ since = s.now := by
      intro j since hj
      by_cases heq : j = i
      · subst heq
        exact ⟨rfl, Option.some.inj (hj.symm.trans hself)⟩
      · rw [hothers j heq, h.holding_of_none hfree j] at hj
        exact absurd hj (by simp)
    refine ⟨fun j since hj => ?_, fun j since hj => ?_, fun l hl => ?_⟩
    · obtain ⟨rfl, rfl⟩ := hsince j since hj
      exact ⟨_, hlock, rfl, le_refl _⟩
    · obtain ⟨rfl, rfl⟩ := hsince j since hj
      omega
    · obtain rfl := Option.some.inj (hlock.symm.trans hl)
      exact hnow.ge
  | touch l hnow hwas hlock hholding =>
    refine ⟨fun i since hi => ?_, fun i since hi => ?_, fun l' hl' => ?_⟩
    · obtain ⟨l', hl', hmaker, hsince⟩ := h.own i since ((hholding i).symm.trans hi)
      obtain rfl := Option.some.inj (hwas.symm.trans hl')
      exact ⟨_, hlock, hmaker, hsince.trans (h.past l hwas)⟩
    · rw [hnow]
      exact h.prompt i since ((hholding i).symm.trans hi)
    · obtain rfl := Option.some.inj (hlock.symm.trans hl')
      exact hnow.ge
  | give i hnow hheld hlock hself hothers =>
    have hnone : ∀ j, t.holding j = none := by
      intro j
      by_cases heq : j = i
      · rw [heq, hself]
      · rw [hothers j heq]
        by_contra hsome
        exact heq (h.unique (Option.ne_none_iff_isSome.mp hsome) hheld)
    refine ⟨fun j since hj => ?_, fun j since hj => ?_, fun l hl => ?_⟩
    · exact absurd (hj.symm.trans (hnone j)) (by simp)
    · exact absurd (hj.symm.trans (hnone j)) (by simp)
    · exact absurd (hl.symm.trans hlock) (by simp)
  | stop i hnow hlock hself hothers =>
    have hbefore : ∀ j since, t.holding j = some since → s.holding j = some since := by
      intro j since hj
      by_cases heq : j = i
      · rw [heq, hself] at hj
        exact absurd hj (by simp)
      · exact (hothers j heq).symm.trans hj
    refine ⟨fun j since hj => ?_, fun j since hj => ?_, fun l hl => ?_⟩
    · rw [hlock]
      exact h.own j since (hbefore j since hj)
    · rw [hnow]
      exact h.prompt j since (hbefore j since hj)
    · rw [hnow]
      exact h.past l (hlock.symm.trans hl)
  | steal l hnow hwas hstale hlock hholding =>
    have hnone : ∀ j, t.holding j = none := fun j =>
      (hholding j).trans (h.holding_of_stale hwas hstale j)
    refine ⟨fun j since hj => ?_, fun j since hj => ?_, fun l hl => ?_⟩
    · exact absurd (hj.symm.trans (hnone j)) (by simp)
    · exact absurd (hj.symm.trans (hnone j)) (by simp)
    · exact absurd (hl.symm.trans hlock) (by simp)
  | wait hlater hlock hholding hprompt =>
    refine ⟨fun i since hi => ?_, hprompt, fun l hl => ?_⟩
    · rw [hlock]
      exact h.own i since ((hholding i).symm.trans hi)
    · exact (h.past l (hlock.symm.trans hl)).trans hlater

theorem held_inductive : (system ι limit).Inductive (Held limit) where
  init s hs := by
    obtain ⟨hlock, hholding⟩ := hs
    refine ⟨fun i since hi => ?_, fun i since hi => ?_, fun l hl => ?_⟩
    · exact absurd (hi.symm.trans (hholding i)) (by simp)
    · exact absurd (hi.symm.trans (hholding i)) (by simp)
    · exact absurd (hl.symm.trans hlock) (by simp)
  step _ _ _ h hstep := h.step hstep

/-- A lock that goes was held by nobody, or its holder gave it back. -/
theorem Step.keeps (hstep : Step limit s t) (h : Held limit s) {l : Lock ι}
    (hl : s.lock = some l) (hgone : t.lock = none) :
    s.holding l.maker = none ∨ t.holding l.maker = none := by
  cases hstep with
  | idle _ hlock _ => exact absurd (hl.symm.trans (hlock.symm.trans hgone)) (by simp)
  | take _ _ hfree _ _ _ => exact absurd (hl.symm.trans hfree) (by simp)
  | touch _ _ _ hlock _ => exact absurd (hlock.symm.trans hgone) (by simp)
  | give i _ hheld _ hself _ =>
    obtain ⟨since, hi⟩ := Option.isSome_iff_exists.mp hheld
    obtain ⟨l', hl', hmaker, -⟩ := h.own i since hi
    obtain rfl := Option.some.inj (hl.symm.trans hl')
    rw [hmaker]
    exact Or.inr hself
  | stop _ _ hlock _ _ => exact absurd (hl.symm.trans (hlock.symm.trans hgone)) (by simp)
  | steal l' _ hwas hstale _ _ =>
    obtain rfl := Option.some.inj (hl.symm.trans hwas)
    exact Or.inl (h.holding_of_stale hwas hstale _)
  | wait _ hlock _ _ => exact absurd (hl.symm.trans (hlock.symm.trans hgone)) (by simp)

/-! ## Processes in a list -/

section Processes

variable {P : Type} {since : P → Option ℕ} {processes : List P} {i j : ℕ} {p q : P}
  {s t : State ℕ}

/-- Since when each process of a list holds the lock. -/
def heldBy (since : P → Option ℕ) (processes : List P) (i : ℕ) : Option ℕ :=
  processes[i]?.bind since

theorem heldBy_of_getElem (hp : processes[i]? = some p) : heldBy since processes i = since p := by
  unfold heldBy
  rw [hp]
  rfl

theorem heldBy_set_self (hp : processes[i]? = some p) :
    heldBy since (processes.set i q) i = since q := by
  unfold heldBy
  rw [List.getElem?_set_self (List.getElem?_eq_some_iff.mp hp).1]
  rfl

theorem heldBy_set_of_ne (hne : j ≠ i) :
    heldBy since (processes.set i q) j = heldBy since processes j := by
  unfold heldBy
  rw [List.getElem?_set_ne hne.symm]

/-- A process that is new to the list, and does not hold the lock. -/
theorem heldBy_append (hq : since q = none) (i : ℕ) :
    heldBy since (processes ++ [q]) i = heldBy since processes i := by
  unfold heldBy
  rcases Nat.lt_trichotomy i processes.length with hlt | rfl | hgt
  · rw [List.getElem?_append_left hlt]
  · rw [List.getElem?_concat_length, List.getElem?_eq_none (le_refl _)]
    exact hq
  · rw [List.getElem?_eq_none (by simp; omega), List.getElem?_eq_none (by omega)]

/-- Whoever holds the lock is in time, checked process by process. -/
theorem all_heldBy_iff {now limit : ℕ} :
    (processes.all fun p => (since p).all fun start => now ≤ start + limit) = true ↔
      ∀ i start, heldBy since processes i = some start → now ≤ start + limit := by
  rw [List.all_eq_true]
  constructor
  · intro h i start hi
    obtain ⟨p, hp, hstart⟩ := Option.bind_eq_some_iff.mp hi
    have hall := h p (List.mem_of_getElem? hp)
    rw [hstart] at hall
    exact of_decide_eq_true hall
  · intro h p hp
    obtain ⟨i, hi⟩ := List.getElem?_of_mem hp
    cases hstart : since p with
    | none => rfl
    | some start => exact decide_eq_true (h i start ((heldBy_of_getElem hi).trans hstart))

/-- One process of the list goes on, from `p` to `q`, while the clock stands still. -/
structure Moves (since : P → Option ℕ) (processes : List P) (i : ℕ) (p q : P) (s t : State ℕ) :
    Prop where
  now : t.now = s.now
  was : processes[i]? = some p
  before : s.holding = heldBy since processes
  after : t.holding = heldBy since (processes.set i q)

namespace Moves

theorem holding_before (h : Moves since processes i p q s t) : s.holding i = since p :=
  (congrFun h.before i).trans (heldBy_of_getElem h.was)

theorem holding_self (h : Moves since processes i p q s t) : t.holding i = since q :=
  (congrFun h.after i).trans (heldBy_set_self h.was)

theorem holding_of_ne (h : Moves since processes i p q s t) (hne : j ≠ i) :
    t.holding j = s.holding j := by
  rw [h.after, h.before]
  exact heldBy_set_of_ne hne

theorem holding_eq (h : Moves since processes i p q s t) (hsame : since q = since p) (j : ℕ) :
    t.holding j = s.holding j := by
  by_cases hj : j = i
  · subst hj
    exact h.holding_self.trans (hsame.trans h.holding_before.symm)
  · exact h.holding_of_ne hj

/-- It changes neither the lock nor whether it holds it. -/
theorem idle (h : Moves since processes i p q s t) (hlock : t.lock = s.lock)
    (hsame : since q = since p) : Step limit s t :=
  .idle h.now hlock (h.holding_eq hsame)

/-- It stops where it is. -/
theorem stop (h : Moves since processes i p q s t) (hlock : t.lock = s.lock)
    (hnone : since q = none) : Step limit s t :=
  .stop i h.now hlock (h.holding_self.trans hnone) fun _ hj => h.holding_of_ne hj

/-- It takes the lock. -/
theorem take (h : Moves since processes i p q s t) (hfree : s.lock = none)
    (hlock : t.lock = some ⟨i, s.now⟩) (hsince : since q = some s.now) : Step limit s t :=
  .take i h.now hfree hlock (h.holding_self.trans hsince) fun _ hj => h.holding_of_ne hj

/-- It gives up what it holds. -/
theorem give (h : Moves since processes i p q s t) (hheld : (since p).isSome = true)
    (hlock : t.lock = none) (hnone : since q = none) : Step limit s t :=
  .give i h.now ((congrArg Option.isSome h.holding_before).trans hheld) hlock
    (h.holding_self.trans hnone) fun _ hj => h.holding_of_ne hj

/-- It touches the lock. -/
theorem touch (h : Moves since processes i p q s t) {l : Lock ℕ} (hwas : s.lock = some l)
    (hlock : t.lock = some ⟨l.maker, s.now⟩) (hsame : since q = since p) : Step limit s t :=
  .touch l h.now hwas hlock (h.holding_eq hsame)

/-- It takes a stale lock away. -/
theorem steal (h : Moves since processes i p q s t) {l : Lock ℕ} (hwas : s.lock = some l)
    (hstale : l.touched + limit < s.now) (hlock : t.lock = none) (hsame : since q = since p) :
    Step limit s t :=
  .steal l h.now hwas hstale hlock (h.holding_eq hsame)

end Moves

end Processes

end StaleLock
