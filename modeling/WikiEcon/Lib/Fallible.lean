import Mathlib.Control.Monad.Basic

/-!
# Fallible operations on a state

An operation that mutates its receiver and can return early with an error keeps
whatever it had already written. `Fallible ε σ` is that monad: the state comes
back beside the result, error or not.

The rule for reading one is `bind_cases`: either the first part failed and the
rest never ran, or it returned and the rest ran from the state it left. `lift`
embeds a check that does not write.
-/

abbrev Fallible (ε σ : Type) := ExceptT ε (StateM σ)

namespace Fallible

variable {ε σ α β : Type}

/-- The result and the state left behind. -/
def exec (x : Fallible ε σ α) (s : σ) : Except ε α × σ := x s

/-- A check that reads nothing and writes nothing. -/
def lift (x : Except ε α) : Fallible ε σ α := ExceptT.mk (pure x)

/-- Update the state. -/
def update (f : σ → σ) : Fallible ε σ Unit := ExceptT.mk fun s => (.ok (), f s)

/-- Read the state. -/
def read : Fallible ε σ σ := ExceptT.mk fun s => (.ok s, s)

@[simp] theorem exec_pure (a : α) (s : σ) :
    (pure a : Fallible ε σ α).exec s = (.ok a, s) := rfl

@[simp] theorem exec_lift (x : Except ε α) (s : σ) :
    (lift x : Fallible ε σ α).exec s = (x, s) := rfl

@[simp] theorem exec_update (f : σ → σ) (s : σ) :
    (update f : Fallible ε σ Unit).exec s = (.ok (), f s) := rfl

@[simp] theorem exec_read (s : σ) : (read : Fallible ε σ σ).exec s = (.ok s, s) := rfl

theorem exec_bind (x : Fallible ε σ α) (f : α → Fallible ε σ β) (s : σ) :
    (x >>= f).exec s = match x.exec s with
      | (.ok a, t) => (f a).exec t
      | (.error e, t) => (.error e, t) := by
  show (ExceptT.bindCont f (x s).1) (x s).2 = _
  unfold exec
  rcases x s with ⟨_ | _, _⟩ <;> rfl

@[simp] theorem exec_read_bind (f : σ → Fallible ε σ β) (s : σ) :
    (read >>= f).exec s = (f s).exec s := rfl

@[simp] theorem exec_update_bind (g : σ → σ) (f : Unit → Fallible ε σ β) (s : σ) :
    (update g >>= f).exec s = (f ()).exec (g s) := rfl

/-- A check that fails leaves the state alone; one that passes goes on from it. -/
theorem exec_lift_bind (x : Except ε α) (f : α → Fallible ε σ β) (s : σ) :
    (lift x >>= f).exec s = match x with
      | .ok a => (f a).exec s
      | .error e => (.error e, s) := by
  rw [exec_bind]
  cases x <;> rfl

/-- How a sequence of two operations can end. -/
theorem bind_cases {x : Fallible ε σ α} {f : α → Fallible ε σ β} {s t : σ} {r : Except ε β}
    (h : (x >>= f).exec s = (r, t)) :
    (∃ e, r = .error e ∧ x.exec s = (.error e, t)) ∨
      ∃ a u, x.exec s = (.ok a, u) ∧ (f a).exec u = (r, t) := by
  rw [exec_bind] at h
  split at h
  next a u hx => exact Or.inr ⟨a, u, hx, h⟩
  next e u hx =>
    obtain ⟨rfl, rfl⟩ := Prod.mk.inj h
    exact Or.inl ⟨e, rfl, hx⟩

/-- How a check followed by an operation can end. -/
theorem lift_bind_cases {x : Except ε α} {f : α → Fallible ε σ β} {s t : σ} {r : Except ε β}
    (h : (lift x >>= f).exec s = (r, t)) :
    (∃ e, r = .error e ∧ t = s ∧ x = .error e) ∨
      ∃ a, x = .ok a ∧ (f a).exec s = (r, t) := by
  rw [exec_lift_bind] at h
  cases x with
  | error e =>
    obtain ⟨rfl, rfl⟩ := Prod.mk.inj h
    exact Or.inl ⟨e, rfl, rfl, rfl⟩
  | ok a => exact Or.inr ⟨a, rfl, h⟩

end Fallible
