import WikiEcon.Lib.FixedWidth
import WikiEcon.Lib.Grouping
import WikiEcon.Lib.SortedTable
import WikiEcon.Rust
import Mathlib.Algebra.BigOperators.Group.List.Basic
import Mathlib.Data.List.Perm.Lattice
import Mathlib.Data.List.Sort
import Mathlib.Data.Prod.Lex

/-!
# Frames, months and period keys

What the metric families share. A frame is the list of its rows. Polars leaves
the row order of a `group_by` open, as the standard library does for a hash map,
so every such place takes a `RowOrder`: some rearrangement of what was computed.

Months are keyed by `year * 100 + month`, quarters by `year * 10 + quarter` and
years by the year itself.
-/

namespace WikiEcon.Compute

open Std (ExtTreeMap)
open Grouping
open SortedTable (filter_key_eq_singleton)

/-! ## Sums of `i64` columns -/

/-- Sums of `i64` columns wrap, and so are in a group: their order and bracketing do not matter. -/
instance int64AddCommGroup : AddCommGroup Int64 where
  add_assoc := Int64.add_assoc
  zero_add := Int64.zero_add
  add_zero := Int64.add_zero
  add_comm := Int64.add_comm
  neg_add_cancel := Int64.add_left_neg
  sub_eq_add_neg := Int64.sub_eq_add_neg
  nsmul := nsmulRec
  zsmul := zsmulRec

/-! ## Unspecified orders -/

/-- A rearrangement of rows the libraries are free to make. -/
structure RowOrder where
  arrange : {α : Type} → List α → List α
  perm : ∀ {α : Type} (l : List α), (arrange l).Perm l

/-- The rearrangement that leaves rows as they are. -/
def RowOrder.asComputed : RowOrder where
  arrange l := l
  perm _ := List.Perm.refl _

/-- The rearrangement that turns rows round. -/
def RowOrder.reversed : RowOrder where
  arrange l := l.reverse
  perm l := l.reverse_perm

/-- `group_by(key).agg(agg)`: one row for each key, computed from the key's rows. -/
def groupBy {α κ β : Type} [DecidableEq κ] (order : RowOrder) (key : α → κ)
    (agg : κ → List α → β) (rows : List α) : List β :=
  order.arrange ((rows.map key).dedup.map fun k => agg k (rows.filter (key · = k)))

theorem groupBy_perm {α κ β : Type} [DecidableEq κ] (order : RowOrder) (key : α → κ)
    (agg : κ → List α → β) (rows : List α) :
    (groupBy order key agg rows).Perm
      ((rows.map key).dedup.map fun k => agg k (rows.filter (key · = k))) :=
  order.perm _

/-- `concat_frames` starts from the last frame and stacks the others behind it. -/
def concatFrames {α : Type} (frames : List (List α)) : List α :=
  (frames.getLast?.getD []) ++ frames.dropLast.flatten

theorem concatFrames_perm {α : Type} (frames : List (List α)) :
    (concatFrames frames).Perm frames.flatten := by
  rcases List.eq_nil_or_concat' frames with rfl | ⟨init, last, rfl⟩
  · exact List.Perm.refl _
  · rw [concatFrames, List.getLast?_concat, List.dropLast_concat, List.flatten_append,
      List.flatten_singleton]
    exact List.perm_append_comm

section GroupBy

variable {α κ β : Type} [DecidableEq κ] {key : α → κ} {agg : κ → List α → β}

/-- Rearranged rows make the same groups, if no aggregate shows their order. -/
theorem groupBy_congr (order order' : RowOrder) {rows rows' : List α} (h : rows.Perm rows')
    (hagg : ∀ k {l l' : List α}, l.Perm l' → agg k l = agg k l') :
    (groupBy order key agg rows).Perm (groupBy order' key agg rows') := by
  refine (groupBy_perm order key agg rows).trans (List.Perm.trans ?_
    (groupBy_perm order' key agg rows').symm)
  have hfilter : ∀ k, agg k (rows.filter (key · = k)) = agg k (rows'.filter (key · = k)) :=
    fun k => hagg k (h.filter _)
  simp only [hfilter]
  exact ((h.map key).dedup).map _

/-- Groups with different keys keep apart. -/
theorem groupBy_append (order : RowOrder) {rows rows' : List α}
    (h : ∀ a ∈ rows, ∀ b ∈ rows', key a ≠ key b) :
    (groupBy order key agg (rows ++ rows')).Perm
      (groupBy order key agg rows ++ groupBy order key agg rows') := by
  refine (groupBy_perm order key agg _).trans (List.Perm.trans ?_
    ((groupBy_perm order key agg rows).append (groupBy_perm order key agg rows')).symm)
  have hdisj : (rows.map key).Disjoint (rows'.map key) := by
    intro k hk hk'
    obtain ⟨a, ha, rfl⟩ := List.mem_map.mp hk
    obtain ⟨b, hb, heq⟩ := List.mem_map.mp hk'
    exact h a ha b hb heq.symm
  rw [List.map_append, hdisj.dedup_append, List.map_append]
  refine List.Perm.append (List.Perm.of_eq ?_) (List.Perm.of_eq ?_)
  · refine List.map_congr_left fun k hk => ?_
    have hnone : rows'.filter (key · = k) = [] := by
      refine List.filter_eq_nil_iff.mpr fun b hb heq => hdisj (List.mem_dedup.mp hk) ?_
      exact List.mem_map.mpr ⟨b, hb, of_decide_eq_true heq⟩
    rw [List.filter_append, hnone, List.append_nil]
  · refine List.map_congr_left fun k hk => ?_
    have hnone : rows.filter (key · = k) = [] := by
      refine List.filter_eq_nil_iff.mpr fun a ha heq => hdisj ?_ (List.mem_dedup.mp hk)
      exact List.mem_map.mpr ⟨a, ha, of_decide_eq_true heq⟩
    rw [List.filter_append, hnone, List.nil_append]

/-- Where no key comes twice every row is its own group. -/
theorem groupBy_of_nodup (order : RowOrder) {rows : List α} (h : (rows.map key).Nodup) :
    (groupBy order key agg rows).Perm (rows.map fun a => agg (key a) [a]) := by
  refine (groupBy_perm order key agg rows).trans (List.Perm.of_eq ?_)
  rw [h.dedup, List.map_map]
  exact List.map_congr_left fun a ha => congrArg (agg (key a)) (filter_key_eq_singleton key h ha)

/-- A sum over all rows, taken group by group. -/
theorem sum_filter_key {M : Type} [AddCommMonoid M] (key : α → κ) (v : α → M) {keys : List κ}
    (hnodup : keys.Nodup) : ∀ {rows : List α}, (∀ a ∈ rows, key a ∈ keys) →
      (keys.map fun k => ((rows.filter (key · = k)).map v).sum).sum = (rows.map v).sum := by
  intro rows
  induction rows with
  | nil => intro _; simp
  | cons a rows ih =>
    intro hmem
    have hcons : ∀ k, (((a :: rows).filter (key · = k)).map v).sum
        = (if k = key a then v a else 0) + ((rows.filter (key · = k)).map v).sum := by
      intro k
      by_cases hk : key a = k
      · simp [hk]
      · have hk' : ¬ k = key a := fun h => hk h.symm
        simp [hk, hk']
    simp only [hcons, List.sum_map_add]
    rw [ih fun b hb => hmem b (List.mem_cons_of_mem _ hb), List.map_cons, List.sum_cons]
    congr 1
    have hmem' := hmem a (List.mem_cons_self ..)
    have hzero : ((keys.erase (key a)).map fun k => if k = key a then v a else 0).sum = 0 := by
      refine List.sum_eq_zero fun x hx => ?_
      obtain ⟨k, hk, rfl⟩ := List.mem_map.mp hx
      exact if_neg (hnodup.mem_erase_iff.mp hk).1
    rw [((List.perm_cons_erase hmem').map _).sum_eq, List.map_cons, List.sum_cons,
      if_pos rfl, hzero,
      add_zero]

theorem sum_groups {M : Type} [AddCommMonoid M] (key : α → κ) (v : α → M) (rows : List α) :
    ((rows.map key).dedup.map fun k => ((rows.filter (key · = k)).map v).sum).sum
      = (rows.map v).sum :=
  sum_filter_key key v (List.nodup_dedup _) fun _ ha => List.mem_dedup.mpr (List.mem_map_of_mem ha)

end GroupBy

/-! ## Months and periods -/

/-- A partition's `YYYY-MM`: four digits, a dash and a month. -/
structure YearMonth where
  year : ℕ
  month : ℕ
  year_lt : year < 10000
  month_pos : 1 ≤ month
  month_le : month ≤ 12
  deriving DecidableEq

/-- The month after `monthsBefore` others of its year, for a year of four digits. -/
def YearMonth.ofYear (year monthsBefore : ℕ) : YearMonth where
  year := year % 10000
  month := monthsBefore % 12 + 1
  year_lt := Nat.mod_lt _ (by omega)
  month_pos := Nat.succ_pos _
  month_le := Nat.mod_lt _ (by omega)

/-- `year * 100 + month`. With every text four digits, a dash and two digits,
comparing keys is comparing texts. -/
def YearMonth.key (m : YearMonth) : ℤ := m.year * 100 + m.month

theorem YearMonth.key_injective : Function.Injective YearMonth.key := by
  rintro ⟨y, m, hy, hm, hm'⟩ ⟨y', m', hy', hn, hn'⟩ h
  simp only [YearMonth.key] at h
  obtain rfl : y = y' := by omega
  obtain rfl : m = m' := by omega
  rfl

instance : LinearOrder YearMonth := LinearOrder.lift' YearMonth.key YearMonth.key_injective

theorem YearMonth.lt_iff {a b : YearMonth} : a < b ↔ a.key < b.key := Iff.rfl

/-- `ends_with("-12")`. -/
def YearMonth.isDecember (m : YearMonth) : Bool := m.month == 12

inductive PeriodType
  | month
  | quarter
  | year
  deriving DecidableEq

def PeriodType.label : PeriodType → String
  | .month => "month"
  | .quarter => "quarter"
  | .year => "year"

def normalizePeriodKey (yearMonthKey : ℤ) : PeriodType → ℤ
  | .month => yearMonthKey
  | .quarter => yearMonthKey.tdiv 100 * 10 + (yearMonthKey.tmod 100 - 1).tdiv 3 + 1
  | .year => yearMonthKey.tdiv 100

/-- `{:02}`. -/
def twoDigits (n : ℤ) : String :=
  if 0 ≤ n ∧ n < 10 then "0" ++ toString n else toString n

def formatPeriodKey (periodKey : ℤ) : PeriodType → String
  | .month => toString (periodKey.tdiv 100) ++ "-" ++ twoDigits (periodKey.tmod 100)
  | .quarter => toString (periodKey.tdiv 10) ++ "-Q" ++ toString (periodKey.tmod 10)
  | .year => toString periodKey

/-- `{n:0width}`. -/
def zeroPad (width : ℕ) (n : ℤ) : String :=
  if 0 ≤ n then String.ofList ((Nat.toDigits 10 n.toNat).leftpad width '0')
  else "-" ++ String.ofList ((Nat.toDigits 10 n.natAbs).leftpad (width - 1) '0')

def periodMonthsForType : PeriodType → ℕ
  | .month => 1
  | .quarter => 3
  | .year => 12

/-- The digits of a padded natural. -/
theorem toList_zeroPad (width n : ℕ) :
    (zeroPad width n).toList
      = List.replicate (width - (Nat.toDigits 10 n).length) '0' ++ Nat.toDigits 10 n := by
  rw [zeroPad, if_pos (Int.natCast_nonneg n), String.toList_ofList]
  rfl

theorem isDigit_of_mem_zeroPad {width n : ℕ} {c : Char} (h : c ∈ (zeroPad width n).toList) :
    c.isDigit = true := by
  rw [toList_zeroPad] at h
  rcases List.mem_append.mp h with h | h
  · rw [List.eq_of_mem_replicate h]
    rfl
  · exact Nat.isDigit_of_mem_toDigits (by omega) (by omega) h

theorem length_zeroPad {width n : ℕ} (hwidth : 0 < width) (h : n < 10 ^ width) :
    (zeroPad width n).toList.length = width := by
  have hlen := (Nat.length_toDigits_le_iff (b := 10) (by omega) hwidth).mpr h
  rw [toList_zeroPad, List.length_append, List.length_replicate]
  omega

theorem value_zeroPad {width n : ℕ} : FixedWidth.value (zeroPad width n).toList = n := by
  unfold FixedWidth.value
  rw [toList_zeroPad, Nat.ofDigitChars_append, Nat.ofDigitChars_replicate_zero, Nat.mul_zero,
    Nat.ofDigitChars_toDigits (by omega) (by omega)]

theorem all_isDigit_zeroPad {width n : ℕ} :
    (zeroPad width n).toList.all Char.isDigit = true :=
  List.all_eq_true.mpr fun _ hc => isDigit_of_mem_zeroPad hc

theorem zeroPad_inj {width a b : ℕ} (h : zeroPad width a = zeroPad width b) : a = b := by
  have hvalue : ∀ n : ℕ, Nat.ofDigitChars 10 (zeroPad width n).toList 0 = n := by
    intro n
    rw [toList_zeroPad, Nat.ofDigitChars_append, Nat.ofDigitChars_replicate_zero, Nat.mul_zero,
      Nat.ofDigitChars_toDigits (by omega) (by omega)]
  rw [← hvalue a, ← hvalue b]
  exact congrArg (fun s => Nat.ofDigitChars 10 (String.toList s) 0) h

theorem dash_notMem_zeroPad (width n : ℕ) : '-' ∉ (zeroPad width n).toList := by
  rw [toList_zeroPad, List.mem_append]
  rintro (h | h)
  · exact absurd (List.eq_of_mem_replicate h) (by decide)
  · have hdigit := Nat.isDigit_of_mem_toDigits (by omega) (by omega) h
    exact absurd hdigit (by decide)

/-- Texts with one dash between two numbers name both. -/
theorem zeroPad_dash_inj {width width' a a' b b' : ℕ} {mark : String} (hmark : '-' ∉ mark.toList)
    (h : zeroPad width a ++ "-" ++ mark ++ zeroPad width' b
      = zeroPad width a' ++ "-" ++ mark ++ zeroPad width' b') : a = a' ∧ b = b' := by
  have hlist := congrArg String.toList h
  simp only [String.toList_append, List.append_assoc] at hlist
  have hdash : "-".toList = ['-'] := rfl
  have hrest : '-' ∉ mark.toList ++ (zeroPad width' b).toList := by
    rw [List.mem_append, not_or]
    exact ⟨hmark, dash_notMem_zeroPad width' b⟩
  rw [hdash, List.singleton_append, List.singleton_append,
    List.append_cons_inj_of_notMem (dash_notMem_zeroPad width a) hrest] at hlist
  obtain ⟨hleft, -, hright⟩ := hlist
  rw [List.append_cancel_left_eq] at hright
  exact ⟨zeroPad_inj (String.toList_inj.mp hleft), zeroPad_inj (String.toList_inj.mp hright)⟩

theorem normalizePeriodKey_key (m : YearMonth) :
    normalizePeriodKey m.key .quarter = m.year * 10 + ((m.month : ℤ) - 1) / 3 + 1 ∧
      normalizePeriodKey m.key .year = m.year := by
  have h1 := m.month_pos
  have h2 := m.month_le
  have hdiv : m.key.tdiv 100 = m.year := by
    rw [Int.tdiv_eq_ediv_of_nonneg (by simp only [YearMonth.key]; omega)]
    simp only [YearMonth.key]
    omega
  have hmod : m.key.tmod 100 = m.month := by
    rw [Int.tmod_eq_emod_of_nonneg (by simp only [YearMonth.key]; omega)]
    simp only [YearMonth.key]
    omega
  constructor
  · rw [normalizePeriodKey, hdiv, hmod, Int.tdiv_eq_ediv_of_nonneg (by omega)]
  · rw [normalizePeriodKey, hdiv]

/-- Later months never fall into an earlier period. -/
theorem normalizePeriodKey_mono {a b : YearMonth} (h : a ≤ b) (p : PeriodType) :
    normalizePeriodKey a.key p ≤ normalizePeriodKey b.key p := by
  have hkey : a.key ≤ b.key := h
  have ha := a.month_pos
  have ha' := a.month_le
  have hb := b.month_pos
  have hb' := b.month_le
  have hq := (normalizePeriodKey_key a).1
  have hq' := (normalizePeriodKey_key b).1
  have hy := (normalizePeriodKey_key a).2
  have hy' := (normalizePeriodKey_key b).2
  simp only [YearMonth.key] at hkey
  cases p with
  | month => exact h
  | quarter => rw [hq, hq']; omega
  | year => rw [hy, hy']; omega

/-- A December closes its month, its quarter and its year. -/
theorem normalizePeriodKey_lt_of_december {a b : YearMonth} (ha : a.isDecember = true)
    (h : a < b) (p : PeriodType) :
    normalizePeriodKey a.key p < normalizePeriodKey b.key p := by
  have hkey : a.key < b.key := h
  have hmonth : a.month = 12 := by simpa [YearMonth.isDecember] using ha
  have hb := b.month_pos
  have hb' := b.month_le
  have hq := (normalizePeriodKey_key a).1
  have hq' := (normalizePeriodKey_key b).1
  have hy := (normalizePeriodKey_key a).2
  have hy' := (normalizePeriodKey_key b).2
  simp only [YearMonth.key, hmonth] at hkey
  cases p with
  | month => exact h
  | quarter => rw [hq, hq', hmonth]; omega
  | year => rw [hy, hy']; omega

/-! ## Counters -/

section Counters

variable {κ : Type} [Ord κ] [Std.TransOrd κ]

/-- `*map.entry(key).or_insert(0) += 1` on a `u32`. -/
def addOne (map : ExtTreeMap κ ℕ) (key : κ) : ExtTreeMap κ ℕ :=
  map.alter key fun entry => some (wrappingAdd u32Max (entry.getD 0) 1)

/-- The same with `checked_add`, whose overflow is an error. -/
def addCount (message : String) (map : ExtTreeMap κ ℕ) (key : κ) :
    Except String (ExtTreeMap κ ℕ) := do
  let value ← context (checkedAdd u32Max (map[key]?.getD 0) 1) message
  return map.insert key value

theorem tally_concat (l : List κ) (k : κ) :
    tally (l ++ [k]) = (tally l).alter k fun entry => some (entry.getD 0 + 1) :=
  foldBy_concat ..

variable [Std.LawfulEqOrd κ] [DecidableEq κ]

theorem count_lt_of_concat_le {l : List κ} {k : κ} {n : ℕ} (h : (l ++ [k]).count k ≤ n) :
    (tally l)[k]?.getD 0 + 1 ≤ n := by
  rw [getD_tally]
  simpa using h

/-- While the count stays in range, counting with wrapping is counting. -/
theorem addOne_tally {l : List κ} {k : κ} (h : (l ++ [k]).count k ≤ u32Max) :
    addOne (tally l) k = tally (l ++ [k]) := by
  have hlt := count_lt_of_concat_le h
  apply Std.ExtTreeMap.ext_getElem?
  intro k'
  rw [addOne, tally_concat, Std.ExtTreeMap.getElem?_alter, Std.ExtTreeMap.getElem?_alter,
    wrappingAdd_of_le hlt]

/-- While the count stays in range, checked counting succeeds. -/
theorem addCount_tally {message : String} {l : List κ} {k : κ}
    (h : (l ++ [k]).count k ≤ u32Max) :
    addCount message (tally l) k = .ok (tally (l ++ [k])) := by
  have hlt := count_lt_of_concat_le h
  have hvalue : checkedAdd u32Max ((tally l)[k]?.getD 0) 1 = some ((tally l)[k]?.getD 0 + 1) :=
    checkedAdd_eq_some.mpr ⟨hlt, rfl⟩
  rw [addCount, hvalue]
  show Except.ok ((tally l).insert k _) = _
  congr 1
  apply Std.ExtTreeMap.ext_getElem?
  intro k'
  rw [tally_concat, Std.ExtTreeMap.getElem?_alter, Std.ExtTreeMap.getElem?_insert]

/-- A whole loop of wrapping increments is a tally. -/
theorem foldl_addOne {l : List κ} (h : ∀ k, l.count k ≤ u32Max) :
    l.foldl addOne ∅ = tally l := by
  induction l using List.reverseRecOn with
  | nil => rfl
  | append_singleton l k ih =>
    have hl : ∀ k', l.count k' ≤ u32Max := fun k' =>
      le_trans (List.Sublist.count_le _ (List.sublist_append_left _ _)) (h k')
    rw [List.foldl_append, ih hl]
    exact addOne_tally (h k)

end Counters

end WikiEcon.Compute
