import Mathlib.Data.List.Induction

/-!
# Labelled transition systems

A system is its initial states and a step relation with labelled steps. A label
carries what a run should remember of a step: who moved, what they asked for and
what they got back, so that properties of runs are properties of label lists.

`System.Inductive.reachable` is the rule every safety result goes through: what
holds at the start and survives each step holds in every reachable state.
`Reachable.map` carries reachability to the system another is read as.
-/

namespace Transition

structure System (σ α : Type) where
  init : σ → Prop
  step : σ → α → σ → Prop

variable {σ α : Type} {sys : System σ α}

/-- The steps labelled `labels` lead from the first state to the second. -/
inductive System.Run (sys : System σ α) : σ → List α → σ → Prop
  | nil (s : σ) : Run sys s [] s
  | snoc {s t u : σ} {labels : List α} {a : α} :
      Run sys s labels t → sys.step t a u → Run sys s (labels ++ [a]) u

/-- A state some run from an initial state ends in. -/
def System.Reachable (sys : System σ α) (s : σ) : Prop :=
  ∃ s₀ labels, sys.init s₀ ∧ sys.Run s₀ labels s

/-- Established at the start, preserved by every step. -/
structure System.Inductive (sys : System σ α) (inv : σ → Prop) : Prop where
  init : ∀ s, sys.init s → inv s
  step : ∀ s a t, inv s → sys.step s a t → inv t

/-- What a step preserves, a run preserves. -/
theorem System.Run.preserves {inv : σ → Prop}
    (hstep : ∀ s a t, inv s → sys.step s a t → inv t) {s t : σ} {labels : List α}
    (hrun : sys.Run s labels t) (hs : inv s) : inv t := by
  induction hrun with
  | nil => exact hs
  | snoc _ hlast ih => exact hstep _ _ _ ih hlast

/-- A run is no longer than what each of its steps takes from. -/
theorem System.Run.length_add_le (left : σ → ℕ) (hless : ∀ s a t, sys.step s a t → left t < left s)
    {s t : σ} {labels : List α} (hrun : sys.Run s labels t) :
    labels.length + left t ≤ left s := by
  induction hrun with
  | nil => simp
  | snoc _ hlast ih =>
    have hstep := hless _ _ _ hlast
    rw [List.length_append, List.length_singleton]
    omega

theorem System.Inductive.reachable {inv : σ → Prop} (h : sys.Inductive inv) {s : σ}
    (hs : sys.Reachable s) : inv s := by
  obtain ⟨s₀, labels, hinit, hrun⟩ := hs
  exact hrun.preserves h.step (h.init s₀ hinit)

/-- A system whose states and steps are read as those of another refines it. -/
theorem System.Reachable.map {τ β : Type} (sys' : System τ β) (f : σ → τ)
    (hinit : ∀ s, sys.init s → sys'.init (f s))
    (hstep : ∀ s a t, sys.step s a t → ∃ b, sys'.step (f s) b (f t)) {s : σ}
    (hs : sys.Reachable s) : sys'.Reachable (f s) := by
  obtain ⟨s₀, labels, hs₀, hrun⟩ := hs
  induction hrun with
  | nil => exact ⟨f s₀, [], hinit s₀ hs₀, .nil _⟩
  | snoc _ hlast ih =>
    obtain ⟨t₀, labels', ht₀, hrun'⟩ := ih
    obtain ⟨b, hb⟩ := hstep _ _ _ hlast
    exact ⟨t₀, _, ht₀, hrun'.snoc hb⟩

/-- Following a partial step function is a run. -/
theorem System.run_of_foldlM {next : σ → α → Option σ}
    (hnext : ∀ s a t, next s a = some t → sys.step s a t) {s t : σ} {labels : List α}
    (h : labels.foldlM next s = some t) : sys.Run s labels t := by
  induction labels using List.reverseRecOn generalizing t with
  | nil =>
    obtain rfl := Option.some.inj h
    exact .nil s
  | append_singleton labels a ih =>
    rw [List.foldlM_append] at h
    obtain ⟨u, hu, h⟩ := Option.bind_eq_some_iff.mp h
    refine .snoc (ih hu) (hnext u a t ?_)
    simpa using h

/-- The system whose steps are those of a function. -/
def System.ofFun (start : σ) (next : σ → α → σ) : System σ α where
  init s := s = start
  step s a t := t = next s a

/-- Running a function's system is folding the function. -/
theorem System.ofFun_run {start : σ} {next : σ → α → σ} {s t : σ} {labels : List α} :
    (System.ofFun start next).Run s labels t ↔ t = labels.foldl next s := by
  constructor
  · intro hrun
    induction hrun with
    | nil => rfl
    | snoc _ hstep ih =>
      rw [List.foldl_append, ← ih]
      exact hstep
  · rintro rfl
    induction labels using List.reverseRecOn with
    | nil => exact .nil s
    | append_singleton labels a ih =>
      rw [List.foldl_append]
      exact .snoc ih rfl

end Transition
