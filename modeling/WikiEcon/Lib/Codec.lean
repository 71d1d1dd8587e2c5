import Mathlib.Data.Nat.Digits.Defs
import Mathlib.Data.Nat.Notation

/-!
# Encodings that are read back

A `Codec` writes values as bytes and reads them back from a stream, whatever follows. Its law
is a field, so a codec that is built from others has it (`pair`, `list`, `option`), and one for
a structure needs its fields in some order and nothing more (`map`). A whole file is read with
`read`, which is the inverse of `encode` (`read_encode`).
-/

/-- An encoding that is read back, whatever bytes follow it. -/
structure Codec (α : Type) where
  encode : α → List UInt8
  decode : List UInt8 → Option (α × List UInt8)
  decode_encode : ∀ a rest, decode (encode a ++ rest) = some (a, rest)

namespace Codec

variable {α β : Type}

/-- The bytes of one value and nothing else. -/
def read (c : Codec α) (bytes : List UInt8) : Option α :=
  match c.decode bytes with
  | some (a, []) => some a
  | _ => none

theorem read_encode (c : Codec α) (a : α) : c.read (c.encode a) = some a := by
  unfold read
  rw [← List.append_nil (c.encode a), c.decode_encode]

theorem encode_injective (c : Codec α) : Function.Injective c.encode := by
  intro a b h
  have hread := congrArg c.read h
  rw [c.read_encode, c.read_encode] at hread
  exact Option.some.inj hread

/-- A value by another one that it can be made of. -/
def map (c : Codec α) (make : α → β) (parts : β → α) (h : ∀ b, make (parts b) = b) : Codec β where
  encode b := c.encode (parts b)
  decode bytes := (c.decode bytes).map fun (a, rest) => (make a, rest)
  decode_encode b rest := by
    rw [c.decode_encode]
    exact congrArg (fun b => some (b, rest)) (h b)

/-- One value after another. -/
def pair (c : Codec α) (d : Codec β) : Codec (α × β) where
  encode p := c.encode p.1 ++ d.encode p.2
  decode bytes := (c.decode bytes).bind fun (a, rest) =>
    (d.decode rest).map fun (b, rest) => ((a, b), rest)
  decode_encode p rest := by
    rw [List.append_assoc, c.decode_encode]
    show (d.decode _).map _ = _
    rw [d.decode_encode]
    rfl

/-- A byte comes after a one; a zero is the end. -/
def decodeBytes : List UInt8 → Option (List UInt8 × List UInt8)
  | 0 :: rest => some ([], rest)
  | 1 :: b :: rest => (decodeBytes rest).map fun (l, rest) => (b :: l, rest)
  | _ => none

/-- Bytes, each marked, and a mark of the end. -/
def bytes : Codec (List UInt8) where
  encode l := l.foldr (fun b rest => 1 :: b :: rest) [0]
  decode := decodeBytes
  decode_encode l rest := by
    induction l with
    | nil => simp [decodeBytes]
    | cons b l ih => simp [decodeBytes, ih]

/-- A number by its bytes, least significant first. -/
def nat : Codec ℕ :=
  bytes.map (fun l => Nat.ofDigits 256 (l.map UInt8.toNat))
    (fun n => (Nat.digits 256 n).map UInt8.ofNat) fun n => by
      rw [List.map_map, List.map_congr_left (g := id), List.map_id, Nat.ofDigits_digits]
      intro d hd
      have hlt := Nat.digits_lt_base (by omega : 1 < 256) hd
      show (UInt8.ofNat d).toNat = d
      rw [UInt8.toNat_ofNat']
      omega

/-- As many values as there are said to be. -/
def decodeMany (c : Codec α) : ℕ → List UInt8 → Option (List α × List UInt8)
  | 0, rest => some ([], rest)
  | n + 1, rest => (c.decode rest).bind fun (a, rest) =>
    (decodeMany c n rest).map fun (l, rest) => (a :: l, rest)

/-- The values of a list, after their number. -/
def list (c : Codec α) : Codec (List α) where
  encode l := nat.encode l.length ++ l.flatMap c.encode
  decode bytes := (nat.decode bytes).bind fun (n, rest) => decodeMany c n rest
  decode_encode l rest := by
    rw [List.append_assoc, nat.decode_encode]
    show decodeMany c l.length (l.flatMap c.encode ++ rest) = _
    induction l with
    | nil => rfl
    | cons a l ih =>
      rw [List.flatMap_cons, List.append_assoc]
      show (c.decode _).bind _ = _
      rw [c.decode_encode]
      show (decodeMany c l.length _).map _ = _
      rw [ih]
      rfl

/-- A list of one value or none. -/
def option (c : Codec α) : Codec (Option α) :=
  c.list.map List.head? Option.toList fun o => by cases o <;> rfl

/-- A text by the numbers of its characters. -/
def string : Codec String :=
  (nat.map Char.ofNat Char.toNat Char.ofNat_toNat).list.map String.ofList String.toList
    fun _ => String.ofList_toList

/-- A number by how much it is above and below zero. -/
def int : Codec ℤ :=
  (pair nat nat).map (fun p => (p.1 : ℤ) - p.2) (fun n => (n.toNat, (-n).toNat)) fun n => by
    dsimp only
    omega

end Codec
