import Mathlib.Data.List.Induction
import Mathlib.Data.List.Nodup
import Mathlib.Data.List.Perm.Subperm
import Mathlib.Data.Nat.Notation

/-!
# Ancestry along edges

An edge leads from a `source` to a `target`. A chain of edges from one node to another is
`Links`; where each of its edges is the only one into its target (`Sole`), the chain is
determined by its ends (`Links.unique`), passes no node twice (`Links.nodup`), and is no
longer than the list of all edges (`length_le_of_nodup`). So following the only edge back
from a node reaches the start of the chain, and nothing else, after finitely many steps.
-/

namespace Ancestry

variable {E N : Type} (source target : E → N)

/-- A chain from the first node to the last, the oldest edge first. -/
def Links : N → List E → N → Prop
  | a, [], b => a = b
  | a, e :: rest, b => source e = a ∧ Links (target e) rest b

variable {source target} {a b : N} {e : E} {chain rest : List E}

theorem links_append {other : List E} : Links source target a (chain ++ other) b ↔
    ∃ c, Links source target a chain c ∧ Links source target c other b := by
  induction chain generalizing a with
  | nil => exact ⟨fun h => ⟨a, rfl, h⟩, fun ⟨_, hc, h⟩ => by obtain rfl := hc; exact h⟩
  | cons e chain ih =>
    show (source e = a ∧ Links source target (target e) (chain ++ other) b) ↔ _
    rw [ih]
    constructor
    · rintro ⟨ha, c, hchain, hother⟩
      exact ⟨c, ⟨ha, hchain⟩, hother⟩
    · rintro ⟨c, ⟨ha, hchain⟩, hother⟩
      exact ⟨ha, c, hchain, hother⟩

theorem links_snoc : Links source target a (chain ++ [e]) b ↔
    Links source target a chain (source e) ∧ target e = b := by
  rw [links_append]
  constructor
  · rintro ⟨c, hchain, hsource, htarget⟩
    obtain rfl : source e = c := hsource
    exact ⟨hchain, htarget⟩
  · rintro ⟨hchain, htarget⟩
    exact ⟨source e, hchain, rfl, htarget⟩

/-- No other edge of the list leads where an edge of the chain leads. -/
def Sole (target : E → N) (edges chain : List E) : Prop :=
  ∀ e ∈ chain, e ∈ edges ∧ ∀ other ∈ edges, target other = target e → other = e

variable {edges other : List E}

theorem Sole.mono (h : Sole target edges chain) (hsub : ∀ e ∈ rest, e ∈ chain) :
    Sole target edges rest := fun e he => h e (hsub e he)

/-- **A chain is determined by its ends**, if it does not come back to its start. -/
theorem Links.unique (hchain : Links source target a chain b)
    (hother : Links source target a other b)
    (hsole : Sole target edges chain) (hsole' : Sole target edges other)
    (hstart : a ∉ chain.map target) (hstart' : a ∉ other.map target) : chain = other := by
  induction chain using List.reverseRecOn generalizing other b with
  | nil =>
    obtain rfl : a = b := hchain
    cases other using List.reverseRecOn with
    | nil => rfl
    | append_singleton other e' =>
      obtain ⟨-, htarget⟩ := links_snoc.mp hother
      exact absurd (List.mem_map.mpr ⟨e', by simp, htarget⟩) hstart'
  | append_singleton chain e ih =>
    obtain ⟨hchain, htarget⟩ := links_snoc.mp hchain
    cases other using List.reverseRecOn with
    | nil =>
      obtain rfl : a = b := hother
      exact absurd (List.mem_map.mpr ⟨e, by simp, htarget⟩) hstart
    | append_singleton other e' =>
      obtain ⟨hother, htarget'⟩ := links_snoc.mp hother
      -- both last edges lead to the end, so they are one edge
      obtain rfl : e' = e := (hsole e (by simp)).2 e' (hsole' e' (by simp)).1
        (htarget'.trans htarget.symm)
      rw [List.map_append, List.mem_append, not_or] at hstart hstart'
      rw [ih hchain hother (hsole.mono fun d hd => List.mem_append_left _ hd)
        (hsole'.mono fun d hd => List.mem_append_left _ hd) hstart.1 hstart'.1]

/-- **A chain passes no node twice.** -/
theorem Links.nodup (hchain : Links source target a chain b) (hsole : Sole target edges chain)
    (hstart : a ∉ chain.map target) : (chain.map target).Nodup := by
  induction chain using List.reverseRecOn generalizing b with
  | nil => exact List.nodup_nil
  | append_singleton chain e ih =>
    have hwhole := hchain
    have hstart' := hstart
    obtain ⟨hchain, htarget⟩ := links_snoc.mp hchain
    rw [List.map_append, List.mem_append, not_or] at hstart
    have hfirst : Sole target edges chain := hsole.mono fun d hd => List.mem_append_left _ hd
    rw [List.map_append]
    refine List.nodup_append.mpr ⟨ih hchain hfirst hstart.1, by simp, ?_⟩
    rintro n hn m hm rfl
    obtain rfl : target e = n := by simpa [eq_comm] using hm
    obtain ⟨e', he', hsame⟩ := List.mem_map.mp hn
    obtain ⟨before, after, rfl⟩ := List.append_of_mem he'
    -- the part of the chain that ends with the earlier edge would be all of it
    have hpart : Links source target a (before ++ [e']) b := by
      obtain ⟨c, hbefore, hsource, -⟩ := links_append.mp hchain
      obtain rfl : source e' = c := hsource
      exact links_snoc.mpr ⟨hbefore, hsame.trans htarget⟩
    have hsub : ∀ d ∈ before ++ [e'], d ∈ (before ++ e' :: after) ++ [e] := by
      intro d hd
      rcases List.mem_append.mp hd with hd | hd
      · simp [hd]
      · simp [List.mem_singleton.mp hd]
    have hlen := congrArg List.length (hpart.unique hwhole (hsole.mono hsub) hsole
      (fun h => hstart' (by
        obtain ⟨d, hd, hda⟩ := List.mem_map.mp h
        exact List.mem_map.mpr ⟨d, hsub d hd, hda⟩)) hstart')
    simp only [List.length_append, List.length_cons, List.length_nil] at hlen
    omega

theorem length_le_of_nodup (hnodup : (chain.map target).Nodup) (hsub : ∀ e ∈ chain, e ∈ edges) :
    chain.length ≤ edges.length := by
  have hsubset : chain.map target ⊆ edges.map target := fun n hn => by
    obtain ⟨e, he, rfl⟩ := List.mem_map.mp hn
    exact List.mem_map.mpr ⟨e, hsub e he, rfl⟩
  have hlen := (List.subperm_of_subset hnodup hsubset).length_le
  rwa [List.length_map, List.length_map] at hlen

/-- A chain that comes back to its start has a shorter one at its end. -/
theorem Links.shorter (hchain : Links source target a chain b) (hstart : a ∈ chain.map target) :
    ∃ later, Links source target a later b ∧ later.length < chain.length ∧
      ∀ e ∈ later, e ∈ chain := by
  obtain ⟨e, he, htarget⟩ := List.mem_map.mp hstart
  obtain ⟨before, later, rfl⟩ := List.append_of_mem he
  obtain ⟨c, -, -, hlater⟩ := links_append.mp hchain
  refine ⟨later, htarget ▸ hlater, ?_, fun d hd => by simp [hd]⟩
  simp only [List.length_append, List.length_cons]
  omega

end Ancestry
