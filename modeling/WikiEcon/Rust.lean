import Mathlib.Algebra.Order.Ring.Int
import Mathlib.Algebra.Order.Ring.Nat
import Mathlib.Data.List.DropRight
import Mathlib.Data.Nat.Notation
import Mathlib.Order.Basic
import Mathlib.Order.Lattice

/-!
# Rust integers, texts and `anyhow` results

Unsigned machine integers are naturals; the operations that can leave their
range say what they do there, as the Rust methods of the same names do. A
fallible function returns the text of its error, and white space is what
Unicode calls so.
-/

namespace WikiEcon

def u32Max : ℕ := 2 ^ 32 - 1
def u64Max : ℕ := 2 ^ 64 - 1
def i64Max : ℤ := 2 ^ 63 - 1
def i64Min : ℤ := -2 ^ 63

/-- `checked_add` on a type whose largest value is `max`. -/
def checkedAdd (max a b : ℕ) : Option ℕ := if a + b ≤ max then some (a + b) else none

/-- `+` in a release build. -/
def wrappingAdd (max a b : ℕ) : ℕ := (a + b) % (max + 1)

/-- `checked_add` on an `i64`. -/
def checkedAddI64 (a b : ℤ) : Option ℤ :=
  if i64Min ≤ a + b ∧ a + b ≤ i64Max then some (a + b) else none

/-- What an `i64` keeps of a number. -/
def wrapI64 (n : ℤ) : ℤ := n.bmod (2 ^ 64)

/-- `saturating_add`. -/
def saturatingAdd (max a b : ℕ) : ℕ := min (a + b) max

/-- `saturating_mul`. -/
def saturatingMul (max a b : ℕ) : ℕ := min (a * b) max

/-- `char::is_whitespace`. -/
def isWhitespace (c : Char) : Bool :=
  let n := c.toNat
  (9 ≤ n && n ≤ 13) || n == 0x20 || n == 0x85 || n == 0xA0 || n == 0x1680
    || (0x2000 ≤ n && n ≤ 0x200A) || n == 0x2028 || n == 0x2029 || n == 0x202F || n == 0x205F
    || n == 0x3000

/-- `str::trim`. -/
def trim (text : List Char) : List Char := (text.dropWhile isWhitespace).rdropWhile isWhitespace

theorem checkedAdd_eq_some {max a b c : ℕ} :
    checkedAdd max a b = some c ↔ a + b ≤ max ∧ c = a + b := by
  unfold checkedAdd
  split
  next h => simp [h, eq_comm]
  next h => simp [h]

theorem checkedAddI64_eq_some {a b c : ℤ} :
    checkedAddI64 a b = some c ↔ (i64Min ≤ a + b ∧ a + b ≤ i64Max) ∧ c = a + b := by
  unfold checkedAddI64
  split
  next h => simp [h, eq_comm]
  next h => simp [h]

theorem wrapI64_of_le {n : ℤ} (hmin : i64Min ≤ n) (hmax : n ≤ i64Max) : wrapI64 n = n := by
  unfold wrapI64 i64Min i64Max at *
  rw [Int.bmod_eq_of_le] <;> omega

/-- Two numbers an `i64` confuses are `2 ^ 64` apart. -/
theorem eq_of_wrapI64_eq {a b : ℕ} (h : wrapI64 a = wrapI64 b) (ha : a < 2 ^ 64)
    (hb : b < 2 ^ 64) : a = b := by
  have hmod := Int.bmod_eq_bmod_iff_bmod_sub_eq_zero.mp h
  have hdvd := Int.dvd_of_bmod_eq_zero hmod
  omega

theorem wrappingAdd_of_le {max a b : ℕ} (h : a + b ≤ max) : wrappingAdd max a b = a + b :=
  Nat.mod_eq_of_lt (by omega)

variable {α β : Type}

/-- `anyhow::ensure!`. -/
def ensure (condition : Prop) [Decidable condition] (message : String) : Except String Unit :=
  if condition then .ok () else .error message

/-- `Option::context`. -/
def context (value : Option α) (message : String) : Except String α :=
  match value with
  | some a => .ok a
  | none => .error message

theorem ensure_eq_ok {condition : Prop} [Decidable condition] {message : String} {u : Unit} :
    ensure condition message = .ok u ↔ condition := by
  unfold ensure
  split
  next h => simp [h]
  next h => simp [h]

theorem context_eq_ok {value : Option α} {message : String} {a : α} :
    context value message = .ok a ↔ value = some a := by
  cases value <;> simp [context]

/-- `?`: the second step runs on what the first returned. -/
theorem bind_eq_ok {x : Except String α} {f : α → Except String β} {b : β} :
    (x >>= f) = .ok b ↔ ∃ a, x = .ok a ∧ f a = .ok b := by
  cases x <;> simp [bind, Except.bind]

/-- A loop none of whose steps fails. -/
theorem mapM_eq_ok {f : α → Except String β} {g : α → β} {l : List α}
    (h : ∀ a ∈ l, f a = .ok (g a)) : l.mapM f = .ok (l.map g) := by
  induction l with
  | nil => rfl
  | cons a l ih =>
    rw [List.mapM_cons, h a (List.mem_cons_self ..),
      ih fun b hb => h b (List.mem_cons_of_mem _ hb)]
    rfl

end WikiEcon
