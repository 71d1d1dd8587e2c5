import Mathlib.Algebra.Order.Ring.Nat
import Mathlib.Data.Char
import Mathlib.Data.List.Lex
import Mathlib.Data.Nat.Notation

/-!
# Numbers of fixed width

Texts that spell numbers with leading zeros, all in the same width, are ordered as the
numbers are. Together with `append_lt_append_iff` this orders any format of fixed
fields: dates, versions, counters in file names.
-/

namespace FixedWidth

/-! ## Fields side by side -/

section Fields

variable {T : Type} [LinearOrder T]

/-- Fields of one length are compared first, and what follows them only if they agree. -/
theorem append_lt_append_iff {p q r s : List T} (h : p.length = q.length) :
    p ++ r < q ++ s ↔ p < q ∨ (p = q ∧ r < s) := by
  induction p generalizing q with
  | nil =>
    obtain rfl := List.length_eq_zero_iff.mp h.symm
    simp
  | cons a p ih =>
    cases q with
    | nil => exact absurd h (by simp)
    | cons b q =>
      rw [List.cons_append, List.cons_append, List.cons_lt_cons_iff, List.cons_lt_cons_iff,
        ih (by simpa using h), List.cons.injEq]
      tauto

theorem append_le_append_iff {p q r s : List T} (h : p.length = q.length) :
    p ++ r ≤ q ++ s ↔ p < q ∨ (p = q ∧ r ≤ s) := by
  rw [le_iff_lt_or_eq, append_lt_append_iff h, le_iff_lt_or_eq]
  constructor
  · rintro ((hlt | ⟨heq, hlt⟩) | heq)
    · exact Or.inl hlt
    · exact Or.inr ⟨heq, Or.inl hlt⟩
    · obtain ⟨hleft, hright⟩ := List.append_inj heq h
      exact Or.inr ⟨hleft, Or.inr hright⟩
  · rintro (hlt | ⟨rfl, hlt | rfl⟩)
    · exact Or.inl (Or.inl hlt)
    · exact Or.inl (Or.inr ⟨rfl, hlt⟩)
    · exact Or.inr rfl

end Fields

/-! ## Digits -/

/-- The value of a digit. -/
def digitValue (c : Char) : ℕ := c.toNat - '0'.toNat

theorem digitValue_lt {c : Char} (h : c.isDigit = true) : digitValue c < 10 := by
  have h9 : '9'.toNat = 57 := rfl
  have h0 : '0'.toNat = 48 := rfl
  have hle : c.toNat ≤ 57 := by
    have h := (Bool.and_eq_true_iff.mp h).2
    exact of_decide_eq_true h
  unfold digitValue
  omega

theorem lt_iff_digitValue_lt {c d : Char} (hc : c.isDigit = true) (hd : d.isDigit = true) :
    c < d ↔ digitValue c < digitValue d := by
  have hc0 : 48 ≤ c.toNat := of_decide_eq_true (Bool.and_eq_true_iff.mp hc).1
  have hd0 : 48 ≤ d.toNat := of_decide_eq_true (Bool.and_eq_true_iff.mp hd).1
  have h0 : '0'.toNat = 48 := rfl
  unfold digitValue
  show c.toNat < d.toNat ↔ _
  omega

theorem eq_of_digitValue_eq {c d : Char} (hc : c.isDigit = true) (hd : d.isDigit = true)
    (h : digitValue c = digitValue d) : c = d := by
  rcases lt_trichotomy c d with hlt | heq | hlt
  · have hlt := (lt_iff_digitValue_lt hc hd).mp hlt
    omega
  · exact heq
  · have hlt := (lt_iff_digitValue_lt hd hc).mp hlt
    omega

/-! ## Numerals -/

/-- The number that digits spell. -/
def value (digits : List Char) : ℕ := Nat.ofDigitChars 10 digits 0

theorem value_cons (c : Char) (digits : List Char) :
    value (c :: digits) = digitValue c * 10 ^ digits.length + value digits := by
  unfold value
  rw [Nat.ofDigitChars_cons, Nat.ofDigitChars_eq_ofDigitChars_zero, Nat.mul_zero, Nat.zero_add,
    Nat.mul_comm]
  rfl

theorem value_lt {digits : List Char} (h : digits.all Char.isDigit = true) :
    value digits < 10 ^ digits.length := by
  induction digits with
  | nil => exact Nat.one_pos
  | cons c digits ih =>
    obtain ⟨hc, hdigits⟩ := Bool.and_eq_true_iff.mp h
    have hvalue := ih hdigits
    have hdigit := digitValue_lt hc
    have hmul : digitValue c * 10 ^ digits.length ≤ 9 * 10 ^ digits.length :=
      Nat.mul_le_mul_right _ (by omega)
    rw [value_cons, List.length_cons, Nat.pow_succ]
    omega

/-- **Texts of one width are ordered as the numbers they spell.** -/
theorem lt_iff_value_lt {a b : List Char} (hlen : a.length = b.length)
    (ha : a.all Char.isDigit = true) (hb : b.all Char.isDigit = true) :
    a < b ↔ value a < value b := by
  induction a generalizing b with
  | nil =>
    obtain rfl := List.length_eq_zero_iff.mp hlen.symm
    simp
  | cons c a ih =>
    cases b with
    | nil => exact absurd hlen (by simp)
    | cons d b =>
      obtain ⟨hc, ha⟩ := Bool.and_eq_true_iff.mp ha
      obtain ⟨hd, hb⟩ := Bool.and_eq_true_iff.mp hb
      have hlen : a.length = b.length := by simpa using hlen
      have hva := value_lt ha
      have hvb := value_lt hb
      rw [List.cons_lt_cons_iff, ih hlen ha hb, lt_iff_digitValue_lt hc hd, value_cons, value_cons,
        hlen]
      rw [hlen] at hva
      generalize 10 ^ b.length = scale at *
      -- The first digits decide, or are equal and leave it to the rest.
      rcases lt_trichotomy (digitValue c) (digitValue d) with hlt | heq | hlt
      · have hmul := Nat.mul_le_mul_right scale (Nat.succ_le_of_lt hlt)
        rw [Nat.succ_mul] at hmul
        exact ⟨fun _ => by omega, fun _ => Or.inl hlt⟩
      · have hcd := eq_of_digitValue_eq hc hd heq
        rw [heq]
        constructor
        · rintro (hlt | ⟨-, hlt⟩)
          · exact absurd hlt (lt_irrefl _)
          · omega
        · intro hlt
          exact Or.inr ⟨hcd, by omega⟩
      · have hmul := Nat.mul_le_mul_right scale (Nat.succ_le_of_lt hlt)
        rw [Nat.succ_mul] at hmul
        constructor
        · rintro (hlt' | ⟨rfl, -⟩)
          · omega
          · exact absurd hlt (lt_irrefl _)
        · intro _
          omega

theorem eq_of_value_eq {a b : List Char} (hlen : a.length = b.length)
    (ha : a.all Char.isDigit = true) (hb : b.all Char.isDigit = true) (h : value a = value b) :
    a = b := by
  rcases lt_trichotomy a b with hlt | heq | hlt
  · have hlt := (lt_iff_value_lt hlen ha hb).mp hlt
    omega
  · exact heq
  · have hlt := (lt_iff_value_lt hlen.symm hb ha).mp hlt
    omega

end FixedWidth
