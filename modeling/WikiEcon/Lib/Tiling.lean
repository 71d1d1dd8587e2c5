import Mathlib.Algebra.Order.Ring.Nat
import Mathlib.Data.List.Flatten
import Mathlib.Data.Nat.Notation

/-!
# Pieces laid end to end

A piece is an offset and a length. `Tiles first pieces last` says that the pieces, in
order, cover the numbers from `first` up to `last` without gap or overlap, and that
none of them is empty. Reading a list piece by piece is then reading it once
(`Tiles.flatMap_slice`), and every number in between lies in exactly one piece
(`Tiles.existsUnique`).
-/

namespace Tiling

variable {α : Type}

def Tiles : ℕ → List (ℕ × ℕ) → ℕ → Prop
  | first, [], last => first = last
  | first, piece :: rest, last =>
    piece.1 = first ∧ 0 < piece.2 ∧ Tiles (first + piece.2) rest last

theorem Tiles.le : ∀ {pieces : List (ℕ × ℕ)} {first last : ℕ}, Tiles first pieces last →
    first ≤ last
  | [], _, _, h => le_of_eq h
  | piece :: _, first, _, h => le_trans (Nat.le_add_right first piece.2) h.2.2.le

theorem Tiles.append : ∀ {earlier later : List (ℕ × ℕ)} {first middle last : ℕ},
    Tiles first earlier middle → Tiles middle later last → Tiles first (earlier ++ later) last
  | [], _, _, _, _, hearlier, hlater => by
    cases hearlier
    exact hlater
  | _ :: _, _, _, _, _, ⟨hoffset, hpos, hrest⟩, hlater => ⟨hoffset, hpos, hrest.append hlater⟩

theorem Tiles.mem : ∀ {pieces : List (ℕ × ℕ)} {first last : ℕ} {piece : ℕ × ℕ},
    Tiles first pieces last → piece ∈ pieces →
      first ≤ piece.1 ∧ 0 < piece.2 ∧ piece.1 + piece.2 ≤ last
  | head :: rest, first, last, piece, ⟨hoffset, hpos, hrest⟩, hmem => by
    rcases List.mem_cons.mp hmem with rfl | hlater
    · exact ⟨le_of_eq hoffset.symm, hpos, hoffset ▸ hrest.le⟩
    · obtain ⟨hfirst, hlength, hlast⟩ := hrest.mem hlater
      exact ⟨by omega, hlength, hlast⟩

/-- Every number between the ends lies in exactly one piece. -/
theorem Tiles.existsUnique : ∀ {pieces : List (ℕ × ℕ)} {first last i : ℕ},
    Tiles first pieces last → first ≤ i → i < last →
      ∃! piece, piece ∈ pieces ∧ piece.1 ≤ i ∧ i < piece.1 + piece.2
  | [], _, _, _, h, hfirst, hlast => by
    cases h
    omega
  | head :: rest, first, last, i, ⟨hoffset, hpos, hrest⟩, hfirst, hlast => by
    by_cases hin : i < first + head.2
    · refine ⟨head, ⟨List.mem_cons_self, by omega, by omega⟩, ?_⟩
      rintro piece ⟨hmem, hle, -⟩
      rcases List.mem_cons.mp hmem with rfl | hlater
      · rfl
      · have hstart := (hrest.mem hlater).1
        omega
    · obtain ⟨piece, ⟨hmem, hle, hlt⟩, hunique⟩ := hrest.existsUnique (by omega) hlast
      refine ⟨piece, ⟨List.mem_cons_of_mem _ hmem, hle, hlt⟩, ?_⟩
      rintro other ⟨hother, hole, holt⟩
      rcases List.mem_cons.mp hother with rfl | hlater
      · omega
      · exact hunique other ⟨hlater, hole, holt⟩

/-- **Reading piece by piece reads the list once**, in order. -/
theorem Tiles.flatMap_slice (l : List α) : ∀ {pieces : List (ℕ × ℕ)} {first last : ℕ},
    Tiles first pieces last →
      pieces.flatMap (fun piece => (l.drop piece.1).take piece.2)
        = (l.drop first).take (last - first)
  | [], first, _, h => by
    cases h
    rw [List.flatMap_nil, Nat.sub_self, List.take_zero]
  | piece :: rest, first, last, ⟨hoffset, _, hrest⟩ => by
    have hle := hrest.le
    rw [List.flatMap_cons, hrest.flatMap_slice l, hoffset, ← List.drop_drop, ← List.take_add]
    congr 1
    omega

end Tiling
