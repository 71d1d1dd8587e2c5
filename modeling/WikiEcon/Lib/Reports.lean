import Mathlib.Data.List.Basic

/-!
# Loops that only report

A streaming reducer changes its state and, now and then, renders a report from
it. Rendering may fail; nothing else does, and no report is read back. Such a
loop can be studied without its failures: `Emits render f g` says that `f` runs
the pure step `g` and renders the reports that `g` makes.

The rules compose: a step without a report (`emits_state`), one report
(`emits_report`), one step after another (`Emits.bind`) and a loop
(`Emits.foldlM`).
-/

namespace Reports

variable {α σ ρ τ ε : Type} {render : ρ → Except ε τ}
  {f f' : σ × List τ → Except ε (σ × List τ)} {g g' : σ → σ × List ρ}

/-- `f` is the step `g`, its reports rendered in turn and appended to the output. -/
def Emits (render : ρ → Except ε τ) (f : σ × List τ → Except ε (σ × List τ))
    (g : σ → σ × List ρ) : Prop :=
  ∀ s output, f (s, output) = ((g s).2.mapM render).map fun frames => ((g s).1, output ++ frames)

theorem mapM_append_except (l l' : List ρ) :
    (l ++ l').mapM render
      = (l.mapM render) >>= fun frames =>
        (l'.mapM render).map fun frames' => frames ++ frames' := by
  rw [List.mapM_append]
  cases l.mapM render with
  | error e => rfl
  | ok frames => cases l'.mapM render <;> rfl

/-- A step that reports nothing. -/
theorem emits_state (render : ρ → Except ε τ) (next : σ → σ) :
    Emits render (fun st => .ok (next st.1, st.2)) fun s => (next s, []) := by
  intro s output
  show _ = Except.ok (next s, output ++ [])
  rw [List.append_nil]

/-- A step that reports once. -/
theorem emits_report (render : ρ → Except ε τ) (report : σ → ρ) (next : σ → σ) :
    Emits render (fun st => (render (report st.1)).map fun t => (next st.1, st.2 ++ [t]))
      fun s => (next s, [report s]) := by
  intro s output
  show (render (report s)).map _ = ([report s].mapM render).map _
  rw [List.mapM_cons, List.mapM_nil]
  cases render (report s) <;> rfl

/-- One step after another. -/
def andThen (g g' : σ → σ × List ρ) (s : σ) : σ × List ρ :=
  ((g' (g s).1).1, (g s).2 ++ (g' (g s).1).2)

theorem Emits.bind (h : Emits render f g) (h' : Emits render f' g') :
    Emits render (fun st => f st >>= f') (andThen g g') := by
  intro s output
  show f (s, output) >>= f' = _
  rw [h, andThen, mapM_append_except]
  cases (g s).2.mapM render with
  | error e => rfl
  | ok frames =>
    show f' ((g s).1, output ++ frames) = _
    rw [h']
    show _ = Except.map _ (Except.map _ ((g' (g s).1).2.mapM render))
    cases (g' (g s).1).2.mapM render with
    | error e => rfl
    | ok frames' =>
      exact congrArg (fun output => Except.ok ((g' (g s).1).1, output)) (List.append_assoc ..)

/-- A loop of steps. -/
def sweep (g : α → σ → σ × List ρ) : List α → σ → σ × List ρ
  | [], s => (s, [])
  | a :: l, s => andThen (g a) (sweep g l) s

theorem Emits.foldlM {f : σ × List τ → α → Except ε (σ × List τ)} {g : α → σ → σ × List ρ}
    {l : List α} (h : ∀ a ∈ l, Emits render (fun st => f st a) (g a)) :
    Emits render (fun st => l.foldlM f st) (sweep g l) := by
  induction l with
  | nil =>
    intro s output
    show Except.ok (s, output) = Except.ok (s, output ++ [])
    rw [List.append_nil]
  | cons a l ih =>
    simp only [List.foldlM_cons]
    exact (h a (List.mem_cons_self ..)).bind (ih fun b hb => h b (List.mem_cons_of_mem _ hb))

/-- Reading the output at the end. -/
theorem Emits.output (h : Emits render f g) (s : σ) :
    (f (s, [])).map Prod.snd = (g s).2.mapM render := by
  rw [h]
  cases (g s).2.mapM render <;> rfl

end Reports
