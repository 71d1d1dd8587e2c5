import Mathlib.Algebra.Order.Ring.Int
import Mathlib.Algebra.Order.Ring.Nat
import Mathlib.Data.List.Basic
import Mathlib.Data.Nat.Notation
import Mathlib.Logic.Function.Basic

/-!
# Self-delimiting byte encodings

A digest over a sequence of records is only as good as the byte stream it is
fed: with no separator between fields or records, two different sequences could
in principle spell the same bytes. `SelfDelimiting enc` is the property that
rules this out: whatever follows, the bytes of a value end where they must, so
both the value and what follows are determined.

Fixed-width encodings have it (`of_length`), a presence marker and a length
prefix give it to optional and variable-length values (`marked`,
`lengthPrefixed`), fields compose (`append`), and `flatMap_injective` lifts it
from one record to whole sequences.
-/

namespace PrefixCode

variable {α β γ : Type}

/-- No value's bytes can be read as another value's, whatever follows. -/
def SelfDelimiting (enc : α → List UInt8) : Prop :=
  ∀ a b s t, enc a ++ s = enc b ++ t → a = b ∧ s = t

/-- A fixed width and injectivity are enough. -/
theorem SelfDelimiting.of_length {enc : α → List UInt8} {w : ℕ} (hlen : ∀ a, (enc a).length = w)
    (hinj : Function.Injective enc) : SelfDelimiting enc := by
  intro a b s t h
  obtain ⟨henc, htail⟩ := List.append_inj h ((hlen a).trans (hlen b).symm)
  exact ⟨hinj henc, htail⟩

/-- Encoding an injective image of the value keeps the property. -/
theorem SelfDelimiting.comp {enc : β → List UInt8} {f : α → β} (h : SelfDelimiting enc)
    (hf : Function.Injective f) : SelfDelimiting (fun a => enc (f a)) := by
  intro a b s t hab
  obtain ⟨hfab, hst⟩ := h _ _ _ _ hab
  exact ⟨hf hfab, hst⟩

/-- One field after another. -/
theorem SelfDelimiting.append {enc₁ : α → List UInt8} {enc₂ : β → List UInt8}
    (h₁ : SelfDelimiting enc₁) (h₂ : SelfDelimiting enc₂) :
    SelfDelimiting (fun p : α × β => enc₁ p.1 ++ enc₂ p.2) := by
  intro p q s t h
  simp only [List.append_assoc] at h
  obtain ⟨hfst, h⟩ := h₁ _ _ _ _ h
  obtain ⟨hsnd, hst⟩ := h₂ _ _ _ _ h
  exact ⟨Prod.ext hfst hsnd, hst⟩

/-- Records of nonempty self-delimiting encodings spell each sequence once. -/
theorem SelfDelimiting.flatMap_injective {enc : α → List UInt8} (h : SelfDelimiting enc)
    (hne : ∀ a, enc a ≠ []) : Function.Injective (List.flatMap enc) := by
  intro xs
  induction xs with
  | nil =>
    intro ys hys
    cases ys with
    | nil => rfl
    | cons y ys =>
      rw [List.flatMap_nil, List.flatMap_cons] at hys
      exact absurd (List.append_eq_nil_iff.mp hys.symm).1 (hne y)
  | cons x xs ih =>
    intro ys hys
    cases ys with
    | nil =>
      rw [List.flatMap_nil, List.flatMap_cons] at hys
      exact absurd (List.append_eq_nil_iff.mp hys).1 (hne x)
    | cons y ys =>
      rw [List.flatMap_cons, List.flatMap_cons] at hys
      obtain ⟨rfl, htail⟩ := h _ _ _ _ hys
      rw [ih htail]

/-! ## Big-endian integers -/

/-- The `w` low bytes of `n`, most significant first. -/
def beBytes : ℕ → ℕ → List UInt8
  | 0, _ => []
  | w + 1, n => beBytes w (n / 256) ++ [UInt8.ofNat (n % 256)]

@[simp] theorem beBytes_length (w n : ℕ) : (beBytes w n).length = w := by
  induction w generalizing n with
  | zero => rfl
  | succ w ih => rw [beBytes, List.length_append, ih]; rfl

theorem beBytes_inj : ∀ (w : ℕ) {m n : ℕ}, m < 256 ^ w → n < 256 ^ w →
    beBytes w m = beBytes w n → m = n := by
  intro w
  induction w with
  | zero => intro m n hm hn _; rw [Nat.pow_zero] at hm hn; omega
  | succ w ih =>
    intro m n hm hn h
    rw [beBytes, beBytes] at h
    obtain ⟨hhigh, hlow⟩ := List.append_inj h (by simp)
    rw [Nat.pow_succ] at hm hn
    have hdiv : m / 256 = n / 256 := ih (by omega) (by omega) hhigh
    have hmod : m % 256 = n % 256 := by
      have hbyte := congrArg UInt8.toNat (List.head_eq_of_cons_eq hlow)
      simp only [UInt8.toNat_ofNat'] at hbyte
      omega
    omega

/-! ## Presence markers and length prefixes -/

/-- A marker byte, then the value when there is one. -/
def marked (enc : α → List UInt8) : Option α → List UInt8
  | none => [0]
  | some a => 1 :: enc a

theorem marked_ne_nil (enc : α → List UInt8) (o : Option α) : marked enc o ≠ [] := by
  cases o <;> exact List.cons_ne_nil _ _

theorem SelfDelimiting.marked {enc : α → List UInt8} (h : SelfDelimiting enc) :
    SelfDelimiting (PrefixCode.marked enc) := by
  intro a b s t hab
  cases a with
  | none =>
    cases b with
    | none => exact ⟨rfl, List.tail_eq_of_cons_eq hab⟩
    | some b => exact absurd (List.head_eq_of_cons_eq hab) (by decide)
  | some a =>
    cases b with
    | none => exact absurd (List.head_eq_of_cons_eq hab) (by decide)
    | some b =>
      obtain ⟨rfl, hst⟩ := h _ _ _ _ (List.tail_eq_of_cons_eq hab)
      exact ⟨rfl, hst⟩

/-- The length in eight bytes, then the bytes. -/
def lengthPrefixed (bytes : List UInt8) : List UInt8 :=
  beBytes 8 bytes.length ++ bytes

/-- Byte strings whose length fits eight bytes, given through `f`. -/
theorem selfDelimiting_lengthPrefixed {f : α → List UInt8} (hf : Function.Injective f)
    (hlen : ∀ a, (f a).length < 256 ^ 8) : SelfDelimiting (fun a => lengthPrefixed (f a)) := by
  intro a b s t h
  simp only [lengthPrefixed, List.append_assoc] at h
  obtain ⟨hlength, h⟩ := List.append_inj h (by simp)
  have heq : (f a).length = (f b).length := beBytes_inj 8 (hlen a) (hlen b) hlength
  obtain ⟨hbytes, hst⟩ := List.append_inj h heq
  exact ⟨hf hbytes, hst⟩

end PrefixCode
