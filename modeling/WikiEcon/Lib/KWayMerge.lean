import Mathlib.Algebra.BigOperators.Fin
import Mathlib.Algebra.Order.BigOperators.Group.Finset
import Mathlib.Algebra.Order.Ring.Int
import Mathlib.Algebra.Order.Ring.Nat
import Mathlib.Data.Fintype.Fin
import Mathlib.Data.Multiset.Sort
import Mathlib.Data.Prod.Lex
import Mathlib.Order.WithBot

/-!
# k-way merge of sorted runs

The external reducers all read their input the same way: one cursor per run, a
min-heap that holds the next row of every run that still has one, and a loop
that pops the least row, refills the heap from the run it came from and hands
the row to a consumer. This file develops that loop over an arbitrary linear
order and an arbitrary consumer.

- `Cursor.next` hands out the rows of one run and checks each against the row
  before it, so an out-of-order run is an error and never a wrong answer.
- `drain` is the loop. `early` says whether the heap is refilled before or
  after the popped row is consumed; that only decides which error wins.

The payoff is `drain_eq_foldlM`: over runs whose rows are in order the loop is
the consumer folded over the sorted list of all rows, whatever the runs are and
however the rows are spread over them. `drain_unordered` is the other half:
with one run out of order the loop never succeeds. `drain_unchecked` is for a
reader that trusts its runs.
-/

namespace KWayMerge

variable {α β ε σ : Type}

/-! ## Row keys -/

/-- A nullable field as part of a lexicographic key: null sorts below every value. -/
def nullFirst (o : Option α) : WithBot α := o

@[simp] theorem nullFirst_inj {a b : Option α} : nullFirst a = nullFirst b ↔ a = b := Iff.rfl

/-! ## The heap -/

/-- Remove the least element of a heap, kept as a plain list. -/
def popMin [LinearOrder β] : List β → Option (β × List β)
  | [] => none
  | x :: xs =>
    match popMin xs with
    | none => some (x, [])
    | some (m, rest) => if x ≤ m then some (x, xs) else some (m, x :: rest)

theorem popMin_eq_none [LinearOrder β] {l : List β} (h : popMin l = none) : l = [] := by
  cases l with
  | nil => rfl
  | cons x xs =>
    rw [popMin] at h
    split at h
    · exact absurd h (by simp)
    · split at h <;> exact absurd h (by simp)

/-- What `popMin` returns is a lower bound, and nothing else leaves the heap. -/
theorem popMin_spec [LinearOrder β] :
    ∀ {l : List β} {m : β} {rest : List β}, popMin l = some (m, rest) →
      l.Perm (m :: rest) ∧ ∀ b ∈ rest, m ≤ b := by
  intro l
  induction l with
  | nil => intro m rest h; exact absurd h (by simp [popMin])
  | cons x xs ih =>
    intro m rest h
    rw [popMin] at h
    split at h
    next hnone =>
      obtain ⟨rfl, rfl⟩ : x = m ∧ [] = rest := by simpa using h
      rw [popMin_eq_none hnone]
      exact ⟨List.Perm.refl _, by simp⟩
    next m' rest' hsome =>
      obtain ⟨hperm, hmin⟩ := ih hsome
      split at h
      next hle =>
        obtain ⟨rfl, rfl⟩ : x = m ∧ xs = rest := by simpa using h
        refine ⟨List.Perm.refl _, fun b hb => ?_⟩
        rcases List.mem_cons.mp (hperm.mem_iff.mp hb) with rfl | hb'
        · exact hle
        · exact le_trans hle (hmin b hb')
      next hgt =>
        obtain ⟨rfl, rfl⟩ : m' = m ∧ x :: rest' = rest := by simpa using h
        refine ⟨(hperm.cons x).trans (List.Perm.swap m' x rest'), fun b hb => ?_⟩
        rcases List.mem_cons.mp hb with rfl | hb'
        · exact le_of_lt (not_le.mp hgt)
        · exact hmin b hb'

/-! ## Cursors -/

/-- A run being read: the rows not handed out yet and the last one that was. -/
structure Cursor (α : Type) where
  rows : List α
  previous : Option α := none

/-- Hand out the next row of the run, checked against the previous one. -/
def Cursor.next (inOrder : α → α → Bool) (unordered : ε) (c : Cursor α) :
    Except ε (Option α × Cursor α) :=
  match c.rows with
  | [] => .ok (none, c)
  | row :: rest =>
    if c.previous.all (inOrder · row) then .ok (some row, { rows := rest, previous := some row })
    else .error unordered

/-- The rows of a cursor, read on from its previous one, are in order. -/
def Cursor.Ordered (inOrder : α → α → Bool) (c : Cursor α) : Prop :=
  (c.previous.toList ++ c.rows).IsChain (fun a b => inOrder a b = true)

theorem Cursor.ordered_cons {inOrder : α → α → Bool} {previous : Option α} {row : α}
    {rest : List α} :
    Cursor.Ordered inOrder ⟨row :: rest, previous⟩ ↔
      previous.all (inOrder · row) = true ∧ Cursor.Ordered inOrder ⟨rest, some row⟩ := by
  cases previous with
  | none => simp [Cursor.Ordered]
  | some p => simp [Cursor.Ordered]

/-- Every row still to come is at least the row handed out last. -/
theorem Cursor.Ordered.le [LinearOrder α] {inOrder : α → α → Bool} {row : α} {rest : List α}
    (hle : ∀ a b, inOrder a b = true → a ≤ b) (h : Cursor.Ordered inOrder ⟨rest, some row⟩) :
    ∀ y ∈ rest, row ≤ y := by
  have hchain : (row :: rest).IsChain (· ≤ ·) := List.IsChain.imp hle h
  exact fun y hy => List.rel_of_pairwise_cons hchain.pairwise hy

/-! ## The loop -/

/-- One cursor per run and the heap of rows read ahead, each with its run. -/
structure State (α : Type) (n : Nat) where
  cursors : Fin n → Cursor α
  heap : List (α ×ₗ Fin n)

section Loop

variable {n : Nat} (inOrder : α → α → Bool) (unordered : ε)

/-- Read one row ahead from a run and push it on the heap. -/
def refill (run : Fin n) (st : State α n) : Except ε (State α n) :=
  match (st.cursors run).next inOrder unordered with
  | .error e => .error e
  | .ok (none, _) => .ok st
  | .ok (some row, cursor) =>
    .ok { cursors := Function.update st.cursors run cursor
          heap := toLex (row, run) :: st.heap }

/-- Read the first row of every run. -/
def fill : List (Fin n) → State α n → Except ε (State α n)
  | [], st => .ok st
  | run :: rest, st => (refill inOrder unordered run st).bind (fill rest)

/-- Pop, refill and consume until the heap is empty. The number of rows left
bounds the passes, so it is the fuel. -/
def loop [LinearOrder α] (early : Bool) (step : σ → α → Except ε σ) :
    Nat → State α n → σ → Except ε σ
  | 0, _, acc => .ok acc
  | fuel + 1, st, acc =>
    match popMin st.heap with
    | none => .ok acc
    | some (top, heap) =>
      let row := (ofLex top).1
      let run := (ofLex top).2
      if early then
        (refill inOrder unordered run { st with heap := heap }).bind fun st =>
          (step acc row).bind fun acc => loop early step fuel st acc
      else
        (step acc row).bind fun acc =>
          (refill inOrder unordered run { st with heap := heap }).bind fun st =>
            loop early step fuel st acc

/-- Merge the runs into the consumer `step`. -/
def drain [LinearOrder α] (early : Bool) (step : σ → α → Except ε σ)
    (runs : List (List α)) (acc : σ) :
    Except ε σ :=
  (fill inOrder unordered (List.finRange runs.length)
      { cursors := fun run => { rows := runs[run] }, heap := [] }).bind fun st =>
    loop inOrder unordered early step runs.flatten.length st acc

end Loop

/-- All rows of the runs, in order. -/
def merged [LinearOrder α] (runs : List (List α)) : List α :=
  (runs.flatten : Multiset α).sort (· ≤ ·)

theorem merged_perm [LinearOrder α] (runs : List (List α)) : (merged runs).Perm runs.flatten :=
  Multiset.coe_eq_coe.mp (Multiset.sort_eq _ _)

theorem merged_pairwise [LinearOrder α] (runs : List (List α)) :
    (merged runs).Pairwise (· ≤ ·) :=
  Multiset.pairwise_sort _ _

/-- Only the multiset of rows decides what a merge sees. -/
theorem merged_eq_of_perm [LinearOrder α] {runs runs' : List (List α)}
    (h : runs.flatten.Perm runs'.flatten) : merged runs = merged runs' := by
  rw [merged, merged, Multiset.coe_eq_coe.mpr h]

/-! ## The state invariant -/

section Invariant

variable {n : Nat}

/-- The rows that have not been popped: the heap and what the cursors hold. -/
def State.remaining (st : State α n) : Multiset α :=
  (st.heap.map fun e => (ofLex e).1 : List α) + ∑ run, ((st.cursors run).rows : Multiset α)

/-- A run with unread rows has a row on the heap that is no greater than any of them. -/
def State.Covered [LE α] (st : State α n) (run : Fin n) : Prop :=
  ∀ y ∈ (st.cursors run).rows, ∃ x, toLex (x, run) ∈ st.heap ∧ x ≤ y

/-- A run with unread rows has a row on the heap. -/
def State.Headed (st : State α n) (run : Fin n) : Prop :=
  (st.cursors run).rows ≠ [] → ∃ x, toLex (x, run) ∈ st.heap

theorem State.Covered.headed [LE α] {st : State α n} {run : Fin n} (h : st.Covered run) :
    st.Headed run := by
  intro hne
  obtain ⟨y, hy⟩ := List.exists_mem_of_ne_nil _ hne
  obtain ⟨x, hx, -⟩ := h y hy
  exact ⟨x, hx⟩

/-- Every run is in order from where it has been read to. -/
def State.Ordered (inOrder : α → α → Bool) (st : State α n) : Prop :=
  ∀ run, (st.cursors run).Ordered inOrder

variable {inOrder : α → α → Bool} {unordered : ε}

/-- Refilling moves a row from a cursor to the heap and changes nothing else. -/
theorem refill_cases {run : Fin n} {st st' : State α n}
    (h : refill inOrder unordered run st = .ok st') :
    ((st.cursors run).rows = [] ∧ st' = st) ∨
    ∃ row rest, (st.cursors run).rows = row :: rest ∧
      (st.cursors run).previous.all (inOrder · row) = true ∧
      st' = { cursors := Function.update st.cursors run ⟨rest, some row⟩
              heap := toLex (row, run) :: st.heap } := by
  unfold refill Cursor.next at h
  cases hrows : (st.cursors run).rows with
  | nil =>
    simp only [hrows] at h
    exact Or.inl ⟨rfl, (Except.ok.inj h).symm⟩
  | cons row rest =>
    simp only [hrows] at h
    by_cases hcheck : (st.cursors run).previous.all (inOrder · row) = true
    · rw [if_pos hcheck] at h
      exact Or.inr ⟨row, rest, rfl, hcheck, (Except.ok.inj h).symm⟩
    · rw [if_neg hcheck] at h
      exact absurd h (by simp)

theorem refill_remaining {run : Fin n} {st st' : State α n}
    (h : refill inOrder unordered run st = .ok st') : st'.remaining = st.remaining := by
  rcases refill_cases h with ⟨-, rfl⟩ | ⟨row, rest, hrows, -, rfl⟩
  · rfl
  · have hsum : ∑ r, ((st.cursors r).rows : Multiset α)
        = {row} + ∑ r, ((Function.update st.cursors run ⟨rest, some row⟩ r).rows : Multiset α) := by
      rw [← Finset.add_sum_erase _ _ (Finset.mem_univ run),
        ← Finset.add_sum_erase (Finset.univ) (fun r =>
          ((Function.update st.cursors run ⟨rest, some row⟩ r).rows : Multiset α))
          (Finset.mem_univ run), hrows, Function.update_self, ← add_assoc]
      congr 1
      apply Finset.sum_congr rfl
      intro r hr
      rw [Function.update_of_ne (Finset.ne_of_mem_erase hr)]
    simp only [State.remaining, List.map_cons, ← Multiset.cons_coe]
    rw [hsum, Multiset.singleton_add, Multiset.cons_add, Multiset.add_cons]
    rfl

theorem refill_ordered {run : Fin n} {st st' : State α n}
    (h : refill inOrder unordered run st = .ok st') :
    st'.Ordered inOrder ↔ st.Ordered inOrder := by
  rcases refill_cases h with ⟨-, rfl⟩ | ⟨row, rest, hrows, hcheck, rfl⟩
  · rfl
  · have hrun : (st.cursors run).Ordered inOrder ↔ Cursor.Ordered inOrder ⟨rest, some row⟩ := by
      have hc : st.cursors run = ⟨row :: rest, (st.cursors run).previous⟩ := by
        rw [← hrows]
      rw [hc, Cursor.ordered_cons]
      exact ⟨fun h => h.2, fun h => ⟨hcheck, h⟩⟩
    constructor
    · intro hord r
      by_cases hr : r = run
      · subst hr
        have := hord r
        simp only [Function.update_self] at this
        exact hrun.mpr this
      · have := hord r
        simpa only [Function.update_of_ne hr] using this
    · intro hord r
      by_cases hr : r = run
      · subst hr
        simp only [Function.update_self]
        exact hrun.mp (hord r)
      · simp only [Function.update_of_ne hr]
        exact hord r

/-- A refilled run is covered; the others keep their cover. -/
theorem refill_covered [LinearOrder α] (hle : ∀ a b, inOrder a b = true → a ≤ b) {run : Fin n}
    {st st' : State α n} (hord : st.Ordered inOrder)
    (h : refill inOrder unordered run st = .ok st') {r : Fin n}
    (hr : r = run ∨ st.Covered r) : st'.Covered r := by
  have hord' := (refill_ordered h).mpr hord
  rcases refill_cases h with ⟨hrows, rfl⟩ | ⟨row, rest, hrows, hcheck, rfl⟩
  · rcases hr with rfl | hcov
    · intro y hy
      rw [hrows] at hy
      exact absurd hy (by simp)
    · exact hcov
  · intro y hy
    by_cases he : r = run
    · subst he
      simp only [Function.update_self] at hy
      have hrest := hord' r
      simp only [Function.update_self] at hrest
      exact ⟨row, List.mem_cons_self .., Cursor.Ordered.le hle hrest y hy⟩
    · simp only [Function.update_of_ne he] at hy
      rcases hr with hr | hcov
      · exact absurd hr he
      · obtain ⟨x, hx, hxy⟩ := hcov y hy
        exact ⟨x, List.mem_cons_of_mem _ hx, hxy⟩

variable (unordered) in
/-- Refilling an ordered state succeeds. -/
theorem refill_ok (run : Fin n) {st : State α n} (hord : st.Ordered inOrder) :
    ∃ st', refill inOrder unordered run st = .ok st' := by
  unfold refill Cursor.next
  cases hrows : (st.cursors run).rows with
  | nil => exact ⟨st, rfl⟩
  | cons row rest =>
    have hc : st.cursors run = ⟨row :: rest, (st.cursors run).previous⟩ := by
      rw [← hrows]
    have hrun := hord run
    rw [hc, Cursor.ordered_cons] at hrun
    simp only [if_pos hrun.1]
    exact ⟨_, rfl⟩

variable (unordered) in
/-- Reading the first rows leaves every listed run covered. -/
theorem fill_spec [LinearOrder α] (hle : ∀ a b, inOrder a b = true → a ≤ b) :
    ∀ (pending : List (Fin n)) {st : State α n}, st.Ordered inOrder →
      ∃ st', fill inOrder unordered pending st = .ok st' ∧ st'.Ordered inOrder ∧
        st'.remaining = st.remaining ∧
        ∀ r, r ∈ pending ∨ st.Covered r → st'.Covered r := by
  intro pending
  induction pending with
  | nil =>
    intro st hord
    exact ⟨st, rfl, hord, rfl, fun r hr => hr.resolve_left (by simp)⟩
  | cons run rest ih =>
    intro st hord
    obtain ⟨st₁, h₁⟩ := refill_ok unordered run hord
    have hord₁ := (refill_ordered h₁).mpr hord
    obtain ⟨st', h', hord', hrem', hcov'⟩ := ih hord₁
    refine ⟨st', ?_, hord', hrem'.trans (refill_remaining h₁), fun r hr => hcov' r ?_⟩
    · rw [fill, h₁]; exact h'
    · rcases hr with hr | hr
      · rcases List.mem_cons.mp hr with rfl | hr
        · exact Or.inr (refill_covered hle hord h₁ (Or.inl rfl))
        · exact Or.inl hr
      · exact Or.inr (refill_covered hle hord h₁ (Or.inr hr))

/-- Refilling a run keeps every run with unread rows on the heap. -/
theorem refill_headed {run : Fin n} {st st' : State α n}
    (h : refill inOrder unordered run st = .ok st') {r : Fin n}
    (hr : r = run ∨ st.Headed r) : st'.Headed r := by
  rcases refill_cases h with ⟨hrows, rfl⟩ | ⟨row, rest, hrows, -, rfl⟩
  · rcases hr with rfl | hhead
    · exact fun hne => absurd hrows hne
    · exact hhead
  · intro hne
    by_cases he : r = run
    · subst he
      exact ⟨row, List.mem_cons_self ..⟩
    · simp only [Function.update_of_ne he] at hne
      obtain ⟨x, hx⟩ := hr.resolve_left he hne
      exact ⟨x, List.mem_cons_of_mem _ hx⟩

theorem fill_cases :
    ∀ (pending : List (Fin n)) {st st' : State α n},
      fill inOrder unordered pending st = .ok st' →
      (st'.Ordered inOrder ↔ st.Ordered inOrder) ∧ st'.remaining = st.remaining ∧
        ∀ r, r ∈ pending ∨ st.Headed r → st'.Headed r := by
  intro pending
  induction pending with
  | nil =>
    intro st st' h
    obtain rfl := Except.ok.inj h
    exact ⟨Iff.rfl, rfl, fun r hr => hr.resolve_left (by simp)⟩
  | cons run rest ih =>
    intro st st' h
    rw [fill] at h
    cases h₁ : refill inOrder unordered run st with
    | error e => rw [h₁] at h; exact absurd h (by simp [Except.bind])
    | ok st₁ =>
      rw [h₁] at h
      obtain ⟨hord, hrem, hhead⟩ := ih h
      refine ⟨hord.trans (refill_ordered h₁), hrem.trans (refill_remaining h₁), fun r hr => ?_⟩
      apply hhead
      rcases hr with hr | hr
      · rcases List.mem_cons.mp hr with rfl | hr
        · exact Or.inr (refill_headed h₁ (Or.inl rfl))
        · exact Or.inl hr
      · exact Or.inr (refill_headed h₁ (Or.inr hr))

/-- With no rows left every cursor is at its end, and that is in order. -/
theorem ordered_of_remaining_eq_zero {st : State α n} (h : st.remaining = 0) :
    st.Ordered inOrder := by
  intro r
  have hsum := (add_eq_zero.mp h).2
  have hrows : (st.cursors r).rows = [] :=
    (Multiset.coe_eq_zero _).mp (Finset.sum_eq_zero_iff.mp hsum r (Finset.mem_univ r))
  rw [Cursor.Ordered, hrows]
  cases (st.cursors r).previous with
  | none => simp
  | some p => simp

/-- With an empty heap there are no rows left. -/
theorem remaining_eq_zero {st : State α n} (hhead : ∀ r, st.Headed r) (hheap : st.heap = []) :
    st.remaining = 0 := by
  have hrows : ∀ r, (st.cursors r).rows = [] := by
    intro r
    by_contra hne
    obtain ⟨x, hx⟩ := hhead r hne
    rw [hheap] at hx
    exact absurd hx (by simp)
  simp [State.remaining, hheap, hrows]

/-- The popped row is a least row of the whole state, and popping it leaves
every other run covered. -/
theorem pop_spec [LinearOrder α] {st : State α n} {top : α ×ₗ Fin n} {heap : List (α ×ₗ Fin n)}
    (hcov : ∀ r, st.Covered r) (hpop : popMin st.heap = some (top, heap)) :
    st.remaining = (ofLex top).1 ::ₘ State.remaining { st with heap := heap } ∧
    (∀ y ∈ State.remaining { st with heap := heap }, (ofLex top).1 ≤ y) ∧
    ∀ r, r = (ofLex top).2 ∨ State.Covered { st with heap := heap } r := by
  obtain ⟨hperm, hmin⟩ := popMin_spec hpop
  have hfst : ∀ e ∈ st.heap, (ofLex top).1 ≤ (ofLex e).1 := by
    intro e he
    rcases List.mem_cons.mp (hperm.mem_iff.mp he) with rfl | he'
    · exact le_refl _
    · rcases Prod.Lex.le_iff.mp (hmin e he') with hlt | ⟨heq, -⟩
      · exact le_of_lt hlt
      · exact le_of_eq heq
  refine ⟨?_, ?_, ?_⟩
  · simp only [State.remaining]
    rw [Multiset.coe_eq_coe.mpr (hperm.map fun e => (ofLex e).1), List.map_cons,
      ← Multiset.cons_coe, Multiset.cons_add]
  · intro y hy
    rcases Multiset.mem_add.mp hy with hy | hy
    · obtain ⟨e, he, rfl⟩ := List.mem_map.mp (Multiset.mem_coe.mp hy)
      exact hfst e (hperm.mem_iff.mpr (List.mem_cons_of_mem _ he))
    · obtain ⟨r, -, hr⟩ := Multiset.mem_sum.mp hy
      obtain ⟨x, hx, hxy⟩ := hcov r y (Multiset.mem_coe.mp hr)
      exact le_trans (hfst _ hx) hxy
  · intro r
    by_cases hr : r = (ofLex top).2
    · exact Or.inl hr
    · refine Or.inr fun y hy => ?_
      obtain ⟨x, hx, hxy⟩ := hcov r y hy
      rcases List.mem_cons.mp (hperm.mem_iff.mp hx) with he | hx'
      · exact absurd (congrArg (fun e => (ofLex e).2) he) hr
      · exact ⟨x, hx', hxy⟩

/-- The rows of the start state are the rows of the runs. -/
theorem start_remaining (runs : List (List α)) :
    State.remaining (n := runs.length)
        { cursors := fun run => { rows := runs[run] }, heap := [] }
      = (runs.flatten : Multiset α) := by
  simp only [State.remaining, List.map_nil, Multiset.coe_nil, zero_add]
  induction runs with
  | nil => simp
  | cons run rest ih =>
    rw [List.flatten_cons, ← Multiset.coe_add, ← ih]
    exact Fin.sum_univ_succ (fun r : Fin (rest.length + 1) =>
      (((run :: rest)[r] : List α) : Multiset α))

end Invariant

/-! ## What the loop computes -/

section Correct

variable [LinearOrder α] {n : Nat} {inOrder : α → α → Bool} (unordered : ε)

/-- The loop is the consumer folded over the sorted remaining rows. -/
theorem loop_eq_foldlM (hle : ∀ a b, inOrder a b = true → a ≤ b) (early : Bool)
    (step : σ → α → Except ε σ) :
    ∀ (fuel : Nat) {st : State α n} (acc : σ), st.Ordered inOrder → (∀ r, st.Covered r) →
      st.remaining.card ≤ fuel →
      loop inOrder unordered early step fuel st acc
        = (st.remaining.sort (· ≤ ·)).foldlM step acc := by
  intro fuel
  induction fuel with
  | zero =>
    intro st acc _ _ hfuel
    rw [Multiset.card_eq_zero.mp (Nat.le_zero.mp hfuel), Multiset.sort_zero]
    rfl
  | succ fuel ih =>
    intro st acc hord hcov hfuel
    rw [loop]
    split
    next hnone =>
      rw [remaining_eq_zero (fun r => (hcov r).headed) (popMin_eq_none hnone), Multiset.sort_zero]
      rfl
    next top heap hpop =>
      obtain ⟨hrem, hmin, hcov'⟩ := pop_spec hcov hpop
      have hord' : State.Ordered inOrder { st with heap := heap } := hord
      obtain ⟨st', hst'⟩ := refill_ok unordered (ofLex top).2 hord'
      have hord'' := (refill_ordered hst').mpr hord'
      have hcov'' : ∀ r, st'.Covered r := fun r => refill_covered hle hord' hst' (hcov' r)
      have hrem' := refill_remaining hst'
      have hcard : st'.remaining.card ≤ fuel := by
        rw [hrem, Multiset.card_cons] at hfuel
        rw [hrem']
        omega
      -- both orders of refill and step come to the same once the refill is known to succeed
      have hsort : st.remaining.sort (· ≤ ·)
          = (ofLex top).1 :: st'.remaining.sort (· ≤ ·) := by
        rw [hrem, hrem']
        exact Multiset.sort_cons _ _ _ hmin
      have htail : ∀ acc', loop inOrder unordered early step fuel st' acc'
          = (st'.remaining.sort (· ≤ ·)).foldlM step acc' :=
        fun acc' => ih acc' hord'' hcov'' hcard
      rw [hsort, List.foldlM_cons]
      cases early with
      | true =>
        simp only [if_true, hst', Except.bind, htail]
        rfl
      | false =>
        simp only [Bool.false_eq_true, if_false, hst', Except.bind, htail]
        rfl

/-- **Merge correctness.** Over runs in order, the loop folds the consumer over
the sorted list of all rows. -/
theorem drain_eq_foldlM (hle : ∀ a b, inOrder a b = true → a ≤ b) (early : Bool)
    (step : σ → α → Except ε σ) (runs : List (List α)) (acc : σ)
    (hruns : ∀ run ∈ runs, run.IsChain (fun a b => inOrder a b = true)) :
    drain inOrder unordered early step runs acc = (merged runs).foldlM step acc := by
  have hord : State.Ordered inOrder (n := runs.length)
      { cursors := fun run => { rows := runs[run] }, heap := [] } := by
    intro r
    exact hruns _ (List.getElem_mem r.isLt)
  obtain ⟨st, hst, hord', hrem, hcov⟩ :=
    fill_spec unordered hle (List.finRange runs.length) hord
  rw [start_remaining] at hrem
  rw [drain, hst]
  show loop inOrder unordered early step runs.flatten.length st acc = _
  rw [loop_eq_foldlM unordered hle early step _ acc hord'
    (fun r => hcov r (Or.inl (List.mem_finRange r))) (by rw [hrem]; exact le_refl _), hrem]
  rfl

/-! ## Merging without a check -/

omit [LinearOrder α] in
/-- Reading on in an ordered state is the same with and without the check. -/
theorem refill_unchecked (run : Fin n) {st : State α n} (hord : st.Ordered inOrder) :
    refill (fun _ _ => true) unordered run st = refill inOrder unordered run st := by
  unfold refill Cursor.next
  cases hrows : (st.cursors run).rows with
  | nil => rfl
  | cons row rest =>
    have hc : st.cursors run = ⟨row :: rest, (st.cursors run).previous⟩ := by
      rw [← hrows]
    have hrun := hord run
    rw [hc, Cursor.ordered_cons] at hrun
    have htrue : (st.cursors run).previous.all (fun _ => true) = true := by
      cases (st.cursors run).previous <;> rfl
    simp only [htrue, hrun.1, if_true]

omit [LinearOrder α] in
theorem fill_unchecked (pending : List (Fin n)) {st : State α n} (hord : st.Ordered inOrder) :
    fill (fun _ _ => true) unordered pending st = fill inOrder unordered pending st := by
  induction pending generalizing st with
  | nil => rfl
  | cons run rest ih =>
    obtain ⟨st', hst'⟩ := refill_ok unordered run hord
    rw [fill, fill, refill_unchecked unordered run hord, hst']
    exact ih ((refill_ordered hst').mpr hord)

theorem loop_unchecked (early : Bool) (step : σ → α → Except ε σ) (fuel : Nat) {st : State α n}
    (acc : σ) (hord : st.Ordered inOrder) :
    loop (fun _ _ => true) unordered early step fuel st acc
      = loop inOrder unordered early step fuel st acc := by
  induction fuel generalizing st acc with
  | zero => rfl
  | succ fuel ih =>
    rw [loop, loop]
    split
    next => rfl
    next top heap hpop =>
      have hord' : State.Ordered inOrder { st with heap := heap } := hord
      obtain ⟨st', hst'⟩ := refill_ok unordered (ofLex top).2 hord'
      have hord'' := (refill_ordered hst').mpr hord'
      simp only [refill_unchecked unordered _ hord', hst', Except.bind]
      cases early with
      | true =>
        cases step acc (ofLex top).1 with
        | error e => rfl
        | ok acc' => exact ih acc' hord''
      | false =>
        cases step acc (ofLex top).1 with
        | error e => rfl
        | ok acc' => exact ih acc' hord''

/-- **Merge correctness** for a reader that trusts its runs: over runs that are in order. -/
theorem drain_unchecked (early : Bool) (step : σ → α → Except ε σ) (runs : List (List α)) (acc : σ)
    (hruns : ∀ run ∈ runs, run.Pairwise (· ≤ ·)) :
    drain (fun _ _ => true) unordered early step runs acc = (merged runs).foldlM step acc := by
  have hchain : ∀ run ∈ runs, run.IsChain (fun a b => decide (a ≤ b) = true) := by
    intro run hrun
    simpa using (hruns run hrun).isChain
  have hord : State.Ordered (fun a b => decide (a ≤ b)) (n := runs.length)
      { cursors := fun run => { rows := runs[run] }, heap := [] } := by
    intro r
    exact hchain _ (List.getElem_mem r.isLt)
  rw [← drain_eq_foldlM unordered (fun a b h => of_decide_eq_true h) early step runs acc hchain]
  obtain ⟨st, hst, hord', -, -⟩ :=
    fill_spec unordered (fun a b h => of_decide_eq_true h) (List.finRange runs.length) hord
  rw [drain, drain, fill_unchecked unordered _ hord, hst]
  exact loop_unchecked unordered early step _ acc hord'

/-! ## A run out of order -/

/-- Popping leaves every other run on the heap, and takes one row. -/
theorem pop_headed {st : State α n} {top : α ×ₗ Fin n} {heap : List (α ×ₗ Fin n)}
    (hhead : ∀ r, st.Headed r) (hpop : popMin st.heap = some (top, heap)) :
    st.remaining.card = (State.remaining { st with heap := heap }).card + 1 ∧
    ∀ r, r = (ofLex top).2 ∨ State.Headed { st with heap := heap } r := by
  obtain ⟨hperm, -⟩ := popMin_spec hpop
  constructor
  · simp only [State.remaining, Multiset.card_add, Multiset.coe_card, List.length_map,
      hperm.length_eq, List.length_cons]
    omega
  · intro r
    by_cases hr : r = (ofLex top).2
    · exact Or.inl hr
    · refine Or.inr fun hne => ?_
      obtain ⟨x, hx⟩ := hhead r hne
      rcases List.mem_cons.mp (hperm.mem_iff.mp hx) with he | hx'
      · exact absurd (congrArg (fun e => (ofLex e).2) he) hr
      · exact ⟨x, hx'⟩

/-- Once some run is out of order every way through the loop ends in an error. -/
theorem loop_unordered (early : Bool) (step : σ → α → Except ε σ) :
    ∀ (fuel : Nat) {st : State α n} (acc : σ), ¬ st.Ordered inOrder → (∀ r, st.Headed r) →
      st.remaining.card ≤ fuel →
      ∃ e, loop inOrder unordered early step fuel st acc = .error e := by
  intro fuel
  induction fuel with
  | zero =>
    intro st acc hord _ hfuel
    have hzero := Multiset.card_eq_zero.mp (Nat.le_zero.mp hfuel)
    exact absurd (ordered_of_remaining_eq_zero hzero) hord
  | succ fuel ih =>
    intro st acc hord hhead hfuel
    rw [loop]
    split
    next hnone =>
      have hzero := remaining_eq_zero hhead (popMin_eq_none hnone)
      exact absurd (ordered_of_remaining_eq_zero hzero) hord
    next top heap hpop =>
      obtain ⟨hcard, hhead'⟩ := pop_headed hhead hpop
      cases hst : refill inOrder unordered (ofLex top).2 { st with heap := heap } with
      | error e =>
        cases hs : step acc (ofLex top).1 with
        | error e' => cases early <;> simp [hst, hs, Except.bind]
        | ok acc' => cases early <;> simp [hst, hs, Except.bind]
      | ok st' =>
        cases hs : step acc (ofLex top).1 with
        | error e' => cases early <;> simp [hst, hs, Except.bind]
        | ok acc' =>
          have hord' : ¬ st'.Ordered inOrder := fun h => hord ((refill_ordered hst).mp h)
          obtain ⟨e, he⟩ := ih acc' hord' (fun r => refill_headed hst (hhead' r))
            (by rw [refill_remaining hst]; omega)
          exact ⟨e, by cases early <;> simp [hst, hs, he, Except.bind]⟩

/-- **An out-of-order run is an error**, whatever the consumer does. -/
theorem drain_unordered (early : Bool) (step : σ → α → Except ε σ) {runs : List (List α)}
    (acc : σ) {run : List α} (hmem : run ∈ runs)
    (hrun : ¬ run.IsChain (fun a b => inOrder a b = true)) :
    ∃ e, drain inOrder unordered early step runs acc = .error e := by
  have hord : ¬ State.Ordered inOrder (n := runs.length)
      { cursors := fun run => { rows := runs[run] }, heap := [] } := by
    intro h
    obtain ⟨i, hi, rfl⟩ := List.mem_iff_getElem.mp hmem
    exact hrun (h ⟨i, hi⟩)
  rw [drain]
  cases hst : fill inOrder unordered (List.finRange runs.length)
      { cursors := fun run => { rows := runs[run] }, heap := [] } with
  | error e => exact ⟨e, rfl⟩
  | ok st =>
    obtain ⟨hord', hrem, hhead⟩ := fill_cases _ hst
    rw [start_remaining] at hrem
    exact loop_unordered unordered early step _ acc (fun h => hord (hord'.mp h))
      (fun r => hhead r (Or.inl (List.mem_finRange r))) (by rw [hrem]; exact le_refl _)

end Correct

end KWayMerge
