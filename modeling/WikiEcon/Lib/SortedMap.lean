import Mathlib.Algebra.Order.Ring.Int
import Mathlib.Algebra.Order.Ring.Nat
import Mathlib.Data.List.Pairwise

/-!
# Maps in key order

A finite map as the list of its entries, strictly ascending in their keys: the order in
which it is walked is part of it, and a key comes once.
-/

/-- A map, with its entries in the order of the keys. -/
structure SortedMap (K V : Type) [LinearOrder K] where
  entries : List (K × V)
  sorted : entries.Pairwise fun a b => a.1 < b.1

namespace SortedMap

variable {K V : Type} [LinearOrder K]

instance [DecidableEq V] : DecidableEq (SortedMap K V) := fun a b =>
  decidable_of_iff (a.entries = b.entries) ⟨fun h => by cases a; cases b; cases h; rfl, congrArg _⟩

def empty : SortedMap K V := ⟨[], List.Pairwise.nil⟩

def keys (m : SortedMap K V) : List K := m.entries.map Prod.fst

def get (m : SortedMap K V) (k : K) : Option V :=
  (m.entries.find? fun entry => entry.1 = k).map Prod.snd

/-- The entries below a key, the key's own and those above it. -/
def insert (m : SortedMap K V) (k : K) (v : V) : SortedMap K V where
  entries := m.entries.filter (fun entry => entry.1 < k) ++ (k, v)
    :: m.entries.filter (fun entry => k < entry.1)
  sorted := by
    have hbelow : ∀ a ∈ m.entries.filter (fun entry => entry.1 < k), a.1 < k := fun a ha =>
      of_decide_eq_true (List.mem_filter.mp ha).2
    have habove : ∀ b ∈ m.entries.filter (fun entry => k < entry.1), k < b.1 := fun b hb =>
      of_decide_eq_true (List.mem_filter.mp hb).2
    refine List.pairwise_append.mpr ⟨m.sorted.filter _, ?_, fun a ha b hb => ?_⟩
    · exact List.pairwise_cons.mpr ⟨habove, m.sorted.filter _⟩
    · rcases List.mem_cons.mp hb with rfl | hb
      · exact hbelow a ha
      · exact (hbelow a ha).trans (habove b hb)

/-- A map with one entry. -/
def single (k : K) (v : V) : SortedMap K V := ⟨[(k, v)], List.pairwise_singleton ..⟩

theorem keys_sorted (m : SortedMap K V) : m.keys.Pairwise fun a b => a < b :=
  List.pairwise_map.mpr m.sorted

theorem keys_nodup (m : SortedMap K V) : m.keys.Nodup := m.keys_sorted.imp fun h => ne_of_lt h

end SortedMap
