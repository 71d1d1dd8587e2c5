import Mathlib.Data.List.Pairwise
import Mathlib.Order.Lattice

/-!
# The spans of a switch

A switch is turned on and off at given times, in order, and the times at which it is
on are kept as spans: a start, and an end where there is one yet. `layOut` reads the
changes once, with the span that is open in hand.

`covered_layOut` says what the spans are for: a time is covered exactly when the
switch is on then. `separate_layOut` says that they are in order and do not overlap.
Both hold from any open span, so a part of the changes can be read by itself as long
as it is told whether the switch was on.
-/

namespace Spans

variable {T : Type}

/-- The switch after these changes. -/
def stateAfter (on : Bool) (changes : List (T × Bool)) : Bool :=
  (changes.getLast?.map Prod.snd).getD on

/-- One change: a span is opened, or the open one is closed. -/
def turn (state : Option T × List (T × Option T)) (change : T × Bool) :
    Option T × List (T × Option T) :=
  match state.1, change.2 with
  | none, true => (some change.1, state.2)
  | some start, false => (none, state.2 ++ [(start, some change.1)])
  | _, _ => state

/-- The closed spans, and the open one without an end. -/
def finish (state : Option T × List (T × Option T)) : List (T × Option T) :=
  state.2 ++ (state.1.map fun start => (start, none)).toList

def layOut (opened : Option T) (changes : List (T × Bool)) : List (T × Option T) :=
  finish (changes.foldl turn (opened, []))

theorem stateAfter_cons (on : Bool) (change : T × Bool) (changes : List (T × Bool)) :
    stateAfter on (change :: changes) = stateAfter change.2 changes := by
  unfold stateAfter
  cases changes with
  | nil => rfl
  | cons next rest =>
    rw [List.getLast?_cons_cons]
    rw [List.getLast?_cons]
    rfl

theorem stateAfter_append (on : Bool) (earlier later : List (T × Bool)) :
    stateAfter on (earlier ++ later) = stateAfter (stateAfter on earlier) later := by
  induction earlier generalizing on with
  | nil => rfl
  | cons change rest ih => rw [List.cons_append, stateAfter_cons, stateAfter_cons, ih]

/-- The switch is on at the end if a span is open. -/
theorem isSome_foldl_turn (changes : List (T × Bool)) (opened : Option T)
    (closed : List (T × Option T)) :
    (changes.foldl turn (opened, closed)).1.isSome = stateAfter opened.isSome changes := by
  induction changes generalizing opened closed with
  | nil => rfl
  | cons change rest ih =>
    rw [List.foldl_cons, stateAfter_cons]
    obtain ⟨time, on⟩ := change
    cases opened <;> cases on <;> exact ih _ _

/-! ## What is covered -/

variable [LinearOrder T]

/-- From its start on, and before its end if it has one. -/
def covers (span : T × Option T) (t : T) : Bool := span.1 ≤ t && span.2.all fun stop => t < stop

def covered (spans : List (T × Option T)) (t : T) : Bool := spans.any fun span => covers span t

/-- The switch at a time: after the changes up to then. -/
def stateAt (on : Bool) (changes : List (T × Bool)) (t : T) : Bool :=
  stateAfter on (changes.filter fun change => change.1 ≤ t)

/-- Changes in the order of their times. -/
def InOrder (changes : List (T × Bool)) : Prop := changes.Pairwise fun a b => a.1 ≤ b.1

theorem stateAt_cons (on : Bool) {change : T × Bool} {changes : List (T × Bool)}
    (h : InOrder (change :: changes)) (t : T) :
    stateAt on (change :: changes) t = if change.1 ≤ t then stateAt change.2 changes t else on := by
  unfold stateAt
  split
  next hle => rw [List.filter_cons_of_pos (by simpa using hle), stateAfter_cons]
  next hlt =>
    have hlater : (change :: changes).filter (fun change => decide (change.1 ≤ t)) = [] := by
      refine List.filter_eq_nil_iff.mpr fun other hother hle => hlt ?_
      rcases List.mem_cons.mp hother with rfl | hother
      · exact of_decide_eq_true hle
      · exact ((List.pairwise_cons.mp h).1 other hother).trans (of_decide_eq_true hle)
    rw [hlater]
    rfl

/-- Before the first change the switch is as it was. -/
theorem stateAt_of_lt (on : Bool) {changes : List (T × Bool)} {t : T}
    (h : ∀ change ∈ changes, t < change.1) : stateAt on changes t = on := by
  unfold stateAt
  rw [List.filter_eq_nil_iff.mpr fun change hchange hle =>
    absurd (of_decide_eq_true hle) (not_le.mpr (h change hchange))]
  rfl

theorem covered_append (a b : List (T × Option T)) (t : T) :
    covered (a ++ b) t = (covered a t || covered b t) := List.any_append

theorem covered_finish (opened : Option T) (closed : List (T × Option T)) (t : T) :
    covered (finish (opened, closed)) t
      = (covered closed t || opened.any fun start => decide (start ≤ t)) := by
  unfold finish
  rw [covered_append]
  cases opened with
  | none => rfl
  | some start => simp [covered, covers]

theorem covered_foldl_turn {changes : List (T × Bool)} {opened : Option T} (h : InOrder changes)
    (hopened : ∀ start ∈ opened, ∀ change ∈ changes, start ≤ change.1)
    (closed : List (T × Option T)) (t : T) :
    covered (finish (changes.foldl turn (opened, closed))) t
      = (covered closed t || stateAt (opened.any fun start => decide (start ≤ t)) changes t) := by
  induction changes generalizing opened closed with
  | nil => exact covered_finish opened closed t
  | cons change rest ih =>
    obtain ⟨hfirst, hrest⟩ := List.pairwise_cons.mp h
    rw [List.foldl_cons, stateAt_cons _ h]
    -- Before the first change nothing has changed yet.
    have hlater : ¬ change.1 ≤ t → ∀ next ∈ rest, t < next.1 := fun hlt next hnext =>
      (not_le.mp hlt).trans_le (hfirst next hnext)
    obtain ⟨time, on⟩ := change
    have hstart : ∀ start ∈ opened, start ≤ time :=
      fun start hstart => hopened start hstart _ List.mem_cons_self
    have hstill : ∀ start ∈ opened, ∀ change ∈ rest, start ≤ change.1 :=
      fun start hstart next hnext => hopened start hstart next (List.mem_cons_of_mem _ hnext)
    -- A change closes the open span, opens one, or repeats what is the case.
    cases opened with
    | none =>
      cases on with
      | false =>
        show covered (finish (rest.foldl turn (none, closed))) t = _
        rw [ih hrest hstill]
        split
        · rfl
        next hlt => rw [stateAt_of_lt _ (hlater hlt)]
      | true =>
        show covered (finish (rest.foldl turn (some time, closed))) t = _
        rw [ih hrest (fun start hsome next hnext => Option.some.inj hsome ▸ hfirst next hnext)]
        by_cases hle : time ≤ t
        · simp [hle]
        · rw [if_neg hle, stateAt_of_lt _ (hlater hle)]
          simp [hle]
    | some start =>
      have hle := hstart start rfl
      cases on with
      | false =>
        show covered (finish (rest.foldl turn (none, closed ++ [(start, some time)]))) t = _
        rw [ih hrest (fun _ hnone => absurd hnone (by simp)), covered_append]
        by_cases hpast : time ≤ t
        · have hover : covered [(start, some time)] t = false := by simp [covered, covers, hpast]
          rw [hover, if_pos hpast, Bool.or_false]
          rfl
        · rw [if_neg hpast, stateAt_of_lt _ (hlater hpast)]
          simp [covered, covers, not_le.mp hpast]
      | true =>
        show covered (finish (rest.foldl turn (some start, closed))) t = _
        rw [ih hrest hstill]
        by_cases hpast : time ≤ t
        · rw [if_pos hpast]
          simp [hle.trans hpast]
        · rw [if_neg hpast, stateAt_of_lt _ (hlater hpast)]

/-- **The spans cover the times at which the switch is on**, from the time the open
span was opened. -/
theorem covered_layOut {changes : List (T × Bool)} {opened : Option T} (h : InOrder changes)
    (hopened : ∀ start ∈ opened, ∀ change ∈ changes, start ≤ change.1) {t : T}
    (ht : ∀ start ∈ opened, start ≤ t) :
    covered (layOut opened changes) t = stateAt opened.isSome changes t := by
  unfold layOut
  rw [covered_foldl_turn h hopened]
  cases opened with
  | none => rfl
  | some start => simp [covered, ht start rfl]

/-- Each span ends before the next one starts. -/
def Separate (spans : List (T × Option T)) : Prop :=
  spans.Pairwise fun a b => ∃ stop, a.2 = some stop ∧ stop ≤ b.1

/-- No time is covered by two spans. -/
theorem Separate.disjoint {spans : List (T × Option T)} (h : Separate spans) (t : T) :
    spans.Pairwise fun a b => ¬ (covers a t = true ∧ covers b t = true) := by
  refine h.imp ?_
  rintro a b ⟨stop, hstop, hle⟩ ⟨ha, hb⟩
  simp only [covers, Bool.and_eq_true, decide_eq_true_eq, hstop, Option.all_some] at ha hb
  exact absurd (hle.trans hb.1) (not_le.mpr ha.2)

theorem separate_foldl_turn {changes : List (T × Bool)} {opened : Option T}
    {closed : List (T × Option T)} (h : InOrder changes)
    (hopened : ∀ start ∈ opened, ∀ change ∈ changes, start ≤ change.1) (hclosed : Separate closed)
    (hbefore : ∀ span ∈ closed, ∃ stop, span.2 = some stop ∧ (∀ start ∈ opened, stop ≤ start) ∧
      ∀ change ∈ changes, stop ≤ change.1) :
    Separate (finish (changes.foldl turn (opened, closed))) := by
  induction changes generalizing opened closed with
  | nil =>
    refine List.pairwise_append.mpr ⟨hclosed, ?_, fun a ha b hb => ?_⟩
    · cases opened <;> simp
    · obtain ⟨stop, hstop, hstart, -⟩ := hbefore a ha
      obtain ⟨start, hsome, rfl⟩ : ∃ start, opened = some start ∧ (start, none) = b := by
        simpa using hb
      exact ⟨stop, hstop, hstart start hsome⟩
  | cons change rest ih =>
    obtain ⟨hfirst, hrest⟩ := List.pairwise_cons.mp h
    obtain ⟨time, on⟩ := change
    rw [List.foldl_cons]
    have hstart : ∀ start ∈ opened, start ≤ time :=
      fun start hstart => hopened start hstart _ List.mem_cons_self
    have hstill : ∀ start ∈ opened, ∀ change ∈ rest, start ≤ change.1 :=
      fun start hstart next hnext => hopened start hstart next (List.mem_cons_of_mem _ hnext)
    -- Every closed span ends before the open one starts and before what is still to come.
    have hsame : ∀ span ∈ closed, ∃ stop, span.2 = some stop ∧ (∀ start ∈ opened, stop ≤ start) ∧
        ∀ change ∈ rest, stop ≤ change.1 := fun span hspan => by
      obtain ⟨stop, hstop, hopen, hnext⟩ := hbefore span hspan
      exact ⟨stop, hstop, hopen, fun next hmem => hnext next (List.mem_cons_of_mem _ hmem)⟩
    cases opened with
    | none =>
      cases on with
      | false => exact ih hrest hstill hclosed hsame
      | true =>
        refine ih hrest (fun start hsome next hnext => Option.some.inj hsome ▸ hfirst next hnext)
          hclosed fun span hspan => ?_
        obtain ⟨stop, hstop, -, hnext⟩ := hbefore span hspan
        exact ⟨stop, hstop, fun start hsome => Option.some.inj hsome ▸ hnext _ List.mem_cons_self,
          fun next hmem => hnext next (List.mem_cons_of_mem _ hmem)⟩
    | some start =>
      cases on with
      | true => exact ih hrest hstill hclosed hsame
      | false =>
        refine ih hrest (fun _ hnone => absurd hnone (by simp)) ?_ fun span hspan => ?_
        · refine List.pairwise_append.mpr ⟨hclosed, List.pairwise_singleton .., fun a ha b hb => ?_⟩
          obtain ⟨stop, hstop, hopen, -⟩ := hbefore a ha
          rw [List.mem_singleton.mp hb]
          exact ⟨stop, hstop, hopen start rfl⟩
        · rcases List.mem_append.mp hspan with hspan | hspan
          · obtain ⟨stop, hstop, -, hnext⟩ := hsame span hspan
            exact ⟨stop, hstop, fun _ hnone => absurd hnone (by simp), hnext⟩
          · rw [List.mem_singleton.mp hspan]
            exact ⟨time, rfl, fun _ hnone => absurd hnone (by simp), hfirst⟩

theorem separate_layOut {changes : List (T × Bool)} {opened : Option T} (h : InOrder changes)
    (hopened : ∀ start ∈ opened, ∀ change ∈ changes, start ≤ change.1) :
    Separate (layOut opened changes) :=
  separate_foldl_turn h hopened List.Pairwise.nil fun _ hspan => absurd hspan List.not_mem_nil

/-- Dropping spans that cover no time of interest changes nothing there. -/
theorem covered_filter {spans : List (T × Option T)} {keep : T × Option T → Bool} {t : T}
    (h : ∀ span, covers span t = true → keep span = true) :
    covered (spans.filter keep) t = covered spans t := by
  unfold covered
  rw [Bool.eq_iff_iff, List.any_eq_true, List.any_eq_true]
  constructor
  · rintro ⟨span, hspan, hcovers⟩
    exact ⟨span, (List.mem_filter.mp hspan).1, hcovers⟩
  · rintro ⟨span, hspan, hcovers⟩
    exact ⟨span, List.mem_filter.mpr ⟨hspan, h span hcovers⟩, hcovers⟩

end Spans
