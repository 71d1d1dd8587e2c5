import Mathlib.Data.Prod.Lex
import WikiEcon.Lib.FixedWidth
import WikiEcon.Patrol.ExternalSort
import WikiEcon.Patrol.Logging
import WikiEcon.Patrol.RightsWalk

/-!
# The rights log in monthly files

`MonthlyRightsWriter` spools the rights log by month, sorts each spool and writes it down;
`advanceRightsMonth` then reads the files month by month. A row carries no log id, so rows
of one second are sorted by their groups, and it is the last of the sorted rows that
decides who holds the right after a month.

`rights_keep_log_order` says for which logs that is what the log says: `LastSecondAgrees`.
-/

namespace WikiEcon.Patrol

open Compute

/-! ## Rows -/

/-- The fields in declaration order. -/
def RightsEvent.sortKey (r : RightsEvent) : String ×ₗ String ×ₗ String ×ₗ String :=
  toLex (r.timestamp, toLex (r.targetUser, toLex (r.oldGroups, r.newGroups)))

theorem RightsEvent.sortKey_injective : Function.Injective RightsEvent.sortKey := by
  intro a b h
  simp only [sortKey, toLex_inj, Prod.mk.injEq] at h
  cases a
  cases b
  simpa using h

instance : LinearOrder RightsEvent :=
  LinearOrder.lift' RightsEvent.sortKey RightsEvent.sortKey_injective

/-- The row as the Parquet file gives it back. -/
def RightsEvent.row (r : RightsEvent) : RightsRow :=
  ⟨some r.timestamp, some r.targetUser, some r.oldGroups, some r.newGroups⟩

/-! ## The months of rows -/

/-- `get(..count)` on bytes: nothing where a character would be cut. -/
def takeBytes : ℕ → List Char → Option (List Char)
  | 0, _ => some []
  | _ + 1, [] => none
  | count + 1, c :: rest =>
    if c.utf8Size ≤ count + 1 then (takeBytes (count + 1 - c.utf8Size) rest).map (c :: ·) else none

def splitOnce (mark : Char) (text : List Char) : Option (List Char × List Char) :=
  if mark ∈ text then
    some (text.takeWhile fun c => c ≠ mark, (text.dropWhile fun c => c ≠ mark).drop 1)
  else none

theorem fourDigits_lt {digits : List Char} (hlen : digits.length = 4)
    (h : digits.all Char.isDigit = true) : FixedWidth.value digits < 10000 := by
  have hlt := FixedWidth.value_lt h
  rw [hlen] at hlt
  exact hlt

/-- The checks of `month_path`; a month it accepts has a path of its own. -/
def monthPath (month : List Char) : Except String YearMonth := do
  let parts ← context (splitOnce '-' month) "event month is not YYYY-MM"
  if h : (parts.1.length = 4 ∧ parts.1.all Char.isDigit = true) ∧
      (parts.2.length = 2 ∧ parts.2.all Char.isDigit = true) ∧
      1 ≤ FixedWidth.value parts.2 ∧ FixedWidth.value parts.2 ≤ 12 then
    return {
      year := FixedWidth.value parts.1
      month := FixedWidth.value parts.2
      year_lt := fourDigits_lt h.1.1 h.1.2
      month_pos := h.2.2.1
      month_le := h.2.2.2 }
  else throw "event month is not YYYY-MM"

def eventMonth (timestamp : String) : Except String YearMonth := do
  let month ← context (takeBytes 7 timestamp.toList) "logging event timestamp has no event month"
  monthPath month

/-! ## The writer -/

section Writer

variable {T : Type}

/-- The spool files, the month whose file is open and the months that have one. -/
structure MonthlySpool (T : Type) where
  files : YearMonth → List T
  active : Option YearMonth
  months : Finset YearMonth

def MonthlySpool.new : MonthlySpool T := ⟨fun _ => [], none, ∅⟩

def MonthlySpool.write (spool : MonthlySpool T) (row : T) : Except String (MonthlySpool T) := do
  let month ← context spool.active "monthly spool was not initialized"
  return { spool with files := Function.update spool.files month (spool.files month ++ [row]) }

/-- The file of another month is opened to append to it. -/
def MonthlySpool.add (spool : MonthlySpool T) (month : YearMonth) (row : T) :
    Except String (MonthlySpool T) :=
  if spool.active.any (fun active => active = month) then spool.write row
  else { spool with active := some month, months := insert month spool.months }.write row

/-- `add_rights`. -/
def addRights (spool : MonthlySpool RightsEvent) (row : RightsEvent) :
    Except String (MonthlySpool RightsEvent) := do
  let month ← eventMonth row.timestamp
  spool.add month row

/-- The loop of `finish`: each month's spool is sorted into the month's file. -/
def finishMonths (batchRows fanIn fuel : ℕ) (files : YearMonth → List RightsEvent) :
    List YearMonth → (YearMonth → Option (List RightsRow)) →
      Option (Except String (YearMonth → Option (List RightsRow)))
  | [], artifacts => some (.ok artifacts)
  | month :: rest, artifacts => do
    match ← externalSortSpool batchRows fanIn fuel (files month)
      (fun written row => .ok (written ++ [row.row])) [] with
    | .error e => some (.error e)
    | .ok written =>
      finishMonths batchRows fanIn fuel files rest (Function.update artifacts month (some written))

/-- The monthly files of a rights log. -/
def monthlyRights (batchRows fanIn fuel : ℕ) (rows : List RightsEvent) :
    Option (Except String (YearMonth → Option (List RightsRow))) :=
  match rows.foldlM addRights .new with
  | .error e => some (.error e)
  | .ok spool =>
    finishMonths batchRows fanIn fuel spool.files (spool.months.sort (· ≤ ·)) fun _ => none

end Writer

/-- The users in hand after each of these months. -/
def replay (chrono : Chrono) (artifacts : YearMonth → Option (List RightsRow))
    (autopatrolGroups : List String) (months : List YearMonth) : Except String (Finset String) :=
  months.foldlM (fun activeUsers month => do
    let advanced ← advanceRightsMonth chrono (artifacts month) month autopatrolGroups activeUsers
    return advanced.2) ∅

/-! ## Months as texts -/

section Months

variable {width n : ℕ} {text : String} {m : YearMonth}

/-- Digits are the padded number they spell. -/
theorem zeroPad_value {digits : List Char} (hlen : digits.length = width) (hwidth : 0 < width)
    (h : digits.all Char.isDigit = true) :
    (zeroPad width (FixedWidth.value digits)).toList = digits := by
  have hlt := FixedWidth.value_lt h
  rw [hlen] at hlt
  exact FixedWidth.eq_of_value_eq ((length_zeroPad hwidth hlt).trans hlen.symm)
    all_isDigit_zeroPad h value_zeroPad

theorem length_monthText (m : YearMonth) : (monthText m).toList.length = 7 := by
  have hmonth := m.month_le
  rw [toList_monthText, List.length_append, List.length_cons,
    length_zeroPad (by omega) (by have := m.year_lt; omega), length_zeroPad (by omega) (by omega)]

/-- Months are ordered as their texts. -/
theorem monthText_lt {a b : YearMonth} (h : a < b) :
    (monthText a).toList < (monthText b).toList := by
  have hkey : a.key < b.key := h
  have hmonthA := a.month_le
  have hmonthB := b.month_le
  have hyearA := @length_zeroPad 4 a.year (by omega) (by have := a.year_lt; omega)
  have hyearB := @length_zeroPad 4 b.year (by omega) (by have := b.year_lt; omega)
  have hlenA := @length_zeroPad 2 a.month (by omega) (by omega)
  have hlenB := @length_zeroPad 2 b.month (by omega) (by omega)
  rw [toList_monthText, toList_monthText,
    FixedWidth.append_lt_append_iff (hyearA.trans hyearB.symm), List.cons_lt_cons_iff,
    FixedWidth.lt_iff_value_lt (hyearA.trans hyearB.symm) all_isDigit_zeroPad all_isDigit_zeroPad,
    FixedWidth.lt_iff_value_lt (hlenA.trans hlenB.symm) all_isDigit_zeroPad all_isDigit_zeroPad,
    value_zeroPad, value_zeroPad, value_zeroPad, value_zeroPad]
  unfold YearMonth.key at hkey
  by_cases hyear : a.year = b.year
  · exact Or.inr ⟨by rw [hyear], Or.inr ⟨rfl, by omega⟩⟩
  · exact Or.inl (by omega)

theorem takeBytes_prefix {count : ℕ} {l p : List Char} (h : takeBytes count l = some p) :
    p <+: l := by
  fun_induction takeBytes count l generalizing p with
  | case1 l =>
    obtain rfl := Option.some.inj h
    exact List.nil_prefix
  | case2 => exact absurd h (by simp)
  | case3 count c rest hsize ih =>
    obtain ⟨q, hq, rfl⟩ := Option.map_eq_some_iff.mp h
    exact List.cons_prefix_cons.mpr ⟨rfl, ih hq⟩
  | case4 => exact absurd h (by simp)

theorem takeBytes_append {p : List Char} (h : ∀ c ∈ p, c.utf8Size = 1) (rest : List Char) :
    takeBytes p.length (p ++ rest) = some p := by
  induction p with
  | nil =>
    unfold takeBytes
    rfl
  | cons c p ih =>
    have hsize := h c List.mem_cons_self
    have hrest := ih fun d hd => h d (List.mem_cons_of_mem _ hd)
    rw [List.length_cons, List.cons_append]
    unfold takeBytes
    rw [if_pos (by omega), hsize, Nat.add_sub_cancel, hrest]
    rfl

theorem utf8Size_of_mem_monthText {c : Char} (h : c ∈ (monthText m).toList) : c.utf8Size = 1 := by
  rcases isDigit_or_dash_of_mem h with hdigit | rfl
  · have hle : c.toNat ≤ 57 := of_decide_eq_true (Bool.and_eq_true_iff.mp hdigit).2
    have hval : c.val.toNat ≤ 127 := by
      show c.toNat ≤ 127
      omega
    unfold Char.utf8Size
    exact if_pos hval
  · rfl

theorem splitOnce_eq_some {mark : Char} {l a b : List Char} (h : splitOnce mark l = some (a, b)) :
    l = a ++ mark :: b := by
  unfold splitOnce at h
  split at h
  next hmem =>
    obtain ⟨rfl, rfl⟩ := Prod.mk.inj (Option.some.inj h)
    have hne : l.dropWhile (fun c => c ≠ mark) ≠ [] := by
      intro hnil
      have hall := List.dropWhile_eq_nil_iff.mp hnil mark hmem
      exact absurd hall (by simp)
    obtain ⟨first, rest, hcons⟩ := List.exists_cons_of_ne_nil hne
    have hfirst : first = mark := by
      have hhead := List.head_dropWhile_not (fun c => c ≠ mark) hne
      simp only [hcons, List.head_cons] at hhead
      simpa using hhead
    have hsplit := List.takeWhile_append_dropWhile (p := fun c => decide (c ≠ mark)) (l := l)
    rw [hcons, hfirst] at hsplit
    rw [hcons]
    exact hsplit.symm
  next => exact absurd h (by simp)

theorem splitOnce_append {mark : Char} {a b : List Char} (h : mark ∉ a) :
    splitOnce mark (a ++ mark :: b) = some (a, b) := by
  have hall : ∀ c ∈ a, decide (c ≠ mark) = true := fun c hc =>
    decide_eq_true fun heq => h (heq ▸ hc)
  unfold splitOnce
  rw [if_pos (by simp), List.takeWhile_append_of_pos hall, List.dropWhile_append_of_pos hall,
    List.takeWhile_cons_of_neg (by simp), List.dropWhile_cons_of_neg (by simp), List.append_nil]
  rfl

theorem monthPath_eq_ok {month : List Char} : monthPath month = .ok m ↔
    month = (monthText m).toList := by
  unfold monthPath
  rw [bind_eq_ok]
  constructor
  · rintro ⟨parts, hparts, h⟩
    have hsplit := splitOnce_eq_some (context_eq_ok.mp hparts)
    split at h
    next hdigits =>
      obtain rfl := Except.ok.inj h
      rw [toList_monthText, hsplit]
      dsimp only
      rw [zeroPad_value hdigits.1.1 (by omega) hdigits.1.2,
        zeroPad_value hdigits.2.1.1 (by omega) hdigits.2.1.2]
    next => exact absurd h (by simp [throw, throwThe, MonadExceptOf.throw])
  · rintro rfl
    have hmonth := m.month_le
    have hyearLen := @length_zeroPad 4 m.year (by omega)
      (by have := m.year_lt; omega)
    have hmonthLen := @length_zeroPad 2 m.month (by omega) (by omega)
    refine ⟨((zeroPad 4 m.year).toList, (zeroPad 2 m.month).toList), context_eq_ok.mpr ?_, ?_⟩
    · rw [toList_monthText]
      exact splitOnce_append (dash_notMem_zeroPad _ _)
    · dsimp only
      rw [dif_pos ⟨⟨hyearLen, all_isDigit_zeroPad⟩, ⟨hmonthLen, all_isDigit_zeroPad⟩, by
        rw [value_zeroPad]
        exact ⟨m.month_pos, m.month_le⟩⟩]
      refine congrArg Except.ok (YearMonth.key_injective ?_)
      unfold YearMonth.key
      dsimp only
      rw [value_zeroPad, value_zeroPad]

/-- A row's month is the one its timestamp starts with. -/
theorem eventMonth_eq_ok : eventMonth text = .ok m ↔ startsWith text (monthText m) = true := by
  unfold eventMonth startsWith
  rw [bind_eq_ok, List.isPrefixOf_iff_prefix]
  constructor
  · rintro ⟨month, hmonth, h⟩
    rw [← monthPath_eq_ok.mp h]
    exact takeBytes_prefix (context_eq_ok.mp hmonth)
  · rintro ⟨rest, hrest⟩
    refine ⟨(monthText m).toList, context_eq_ok.mpr ?_, monthPath_eq_ok.mpr rfl⟩
    rw [← hrest, ← length_monthText m]
    exact takeBytes_append (fun _ hc => utf8Size_of_mem_monthText hc) rest

end Months

/-! ## The files that are written -/

def RightsEvent.isIn (m : YearMonth) (r : RightsEvent) : Bool :=
  startsWith r.timestamp (monthText m)

/-- Each month's rows, sorted; no file without rows. -/
def sortedMonths (rows : List RightsEvent) (m : YearMonth) : Option (List RightsRow) :=
  if rows.filter (RightsEvent.isIn m) = [] then none
  else some ((sortRows (rows.filter (RightsEvent.isIn m))).map RightsEvent.row)

/-- The spool after these rows. -/
structure Spooled (rows : List RightsEvent) (spool : MonthlySpool RightsEvent) : Prop where
  files : ∀ m, spool.files m = rows.filter (RightsEvent.isIn m)
  active : ∀ m ∈ spool.active, m ∈ spool.months
  months : ∀ m, m ∈ spool.months ↔ rows.filter (RightsEvent.isIn m) ≠ []

section Spool

variable {rows : List RightsEvent} {r : RightsEvent}

theorem isIn_unique {a b : YearMonth} (ha : r.isIn a = true) (hb : r.isIn b = true) : a = b := by
  have ha := eventMonth_eq_ok.mpr ha
  have hb := eventMonth_eq_ok.mpr hb
  exact Except.ok.inj (ha.symm.trans hb)

theorem filter_isIn_snoc {m : YearMonth} (h : r.isIn m = true) (n : YearMonth) :
    (rows ++ [r]).filter (RightsEvent.isIn n)
      = if n = m then rows.filter (RightsEvent.isIn m) ++ [r]
        else rows.filter (RightsEvent.isIn n) := by
  rw [List.filter_append]
  by_cases hn : n = m
  · subst hn
    rw [if_pos rfl, List.filter_cons_of_pos h, List.filter_nil]
  · have hnot : ¬ r.isIn n = true := fun hin => hn (isIn_unique hin h)
    rw [if_neg hn, List.filter_cons_of_neg hnot, List.filter_nil, List.append_nil]

/-- A row goes to the end of its month's spool, whichever file was open. -/
theorem Spooled.addRights {spool : MonthlySpool RightsEvent} (h : Spooled rows spool)
    {m : YearMonth}
    (hm : eventMonth r.timestamp = .ok m) :
    ∃ spool', Patrol.addRights spool r = .ok spool' ∧ Spooled (rows ++ [r]) spool' := by
  have hin : r.isIn m = true := eventMonth_eq_ok.mp hm
  have hnonempty : ∀ n, (rows ++ [r]).filter (RightsEvent.isIn n) ≠ [] ↔
      n = m ∨ rows.filter (RightsEvent.isIn n) ≠ [] := by
    intro n
    rw [filter_isIn_snoc hin]
    by_cases hn : n = m
    · simp [hn]
    · simp [hn]
  have hfiles : ∀ n, Function.update spool.files m (spool.files m ++ [r]) n
      = (rows ++ [r]).filter (RightsEvent.isIn n) := by
    intro n
    rw [filter_isIn_snoc hin, Function.update_apply]
    by_cases hn : n = m
    · rw [if_pos hn, if_pos hn, h.files]
    · rw [if_neg hn, if_neg hn, h.files]
  have hbind : Patrol.addRights spool r = spool.add m r := by
    unfold Patrol.addRights
    rw [hm]
    rfl
  rw [hbind]
  unfold MonthlySpool.add
  by_cases hactive : spool.active = some m
  · rw [if_pos (by simp [hactive])]
    have hmember := h.active m (by simp [hactive])
    refine ⟨_, bind_eq_ok.mpr ⟨m, context_eq_ok.mpr hactive, rfl⟩, hfiles, h.active, fun n => ?_⟩
    rw [hnonempty, ← h.months]
    exact ⟨Or.inr, fun hn => hn.elim (fun heq => heq ▸ hmember) id⟩
  · rw [if_neg (by simpa [Option.any_eq_true] using hactive)]
    refine ⟨_, bind_eq_ok.mpr ⟨m, context_eq_ok.mpr rfl, rfl⟩, hfiles, fun n hn => ?_, fun n => ?_⟩
    · obtain rfl := Option.some.inj hn
      exact Finset.mem_insert_self ..
    · rw [hnonempty, ← h.months]
      exact Finset.mem_insert

theorem foldlM_addRights (hrows : ∀ r ∈ rows, ∃ m, eventMonth r.timestamp = .ok m) :
    ∃ spool, rows.foldlM addRights .new = .ok spool ∧ Spooled rows spool := by
  induction rows using List.reverseRecOn with
  | nil => exact ⟨_, rfl, fun _ => rfl, fun _ hnone => absurd hnone (by simp [MonthlySpool.new]),
      fun _ => by simp [MonthlySpool.new]⟩
  | append_singleton rows r ih =>
    obtain ⟨spool, hfold, hspool⟩ := ih fun r hr => hrows r (List.mem_append_left _ hr)
    obtain ⟨m, hm⟩ := hrows r (by simp)
    obtain ⟨spool', hadd, hspool'⟩ := hspool.addRights hm
    refine ⟨spool', ?_, hspool'⟩
    rw [List.foldlM_append]
    refine bind_eq_ok.mpr ⟨spool, hfold, ?_⟩
    rw [List.foldlM_cons, hadd]
    rfl

theorem foldlM_written (written : List RightsRow) :
    rows.foldlM (fun written row => (.ok (written ++ [row.row]) : Except String _)) written
      = .ok (written ++ rows.map RightsEvent.row) := by
  induction rows generalizing written with
  | nil => rw [List.map_nil, List.append_nil]; rfl
  | cons r rest ih =>
    rw [List.foldlM_cons]
    show List.foldlM _ (written ++ [r.row]) rest = _
    rw [ih, List.append_assoc]
    rfl

theorem finishMonths_eq (batchRows : ℕ) {fanIn : ℕ} (hfan : 2 ≤ fanIn)
    {files : YearMonth → List RightsEvent} {months : List YearMonth}
    (hfiles : ∀ m ∈ months, files m ≠ []) :
    ∃ rounds, ∀ fuel ≥ rounds, ∀ artifacts, finishMonths batchRows fanIn fuel files months artifacts
      = some (.ok fun m => if m ∈ months then some ((sortRows (files m)).map RightsEvent.row)
        else artifacts m) := by
  induction months with
  | nil => exact ⟨0, fun _ _ artifacts => by simp [finishMonths]⟩
  | cons month rest ih =>
    obtain ⟨first, hfirst⟩ := externalSortSpool_eq (σ := List RightsRow) batchRows hfan
      (hfiles month List.mem_cons_self)
    obtain ⟨others, hothers⟩ := ih fun m hm => hfiles m (List.mem_cons_of_mem _ hm)
    refine ⟨max first others, fun fuel hfuel artifacts => ?_⟩
    have hsort := hfirst fuel (le_trans (le_max_left _ _) hfuel)
      (fun written row => .ok (written ++ [row.row])) []
    rw [foldlM_written, List.nil_append] at hsort
    unfold finishMonths
    rw [hsort]
    refine (hothers fuel (le_trans (le_max_right _ _) hfuel) _).trans ?_
    refine congrArg (fun artifacts => some (Except.ok artifacts)) (funext fun m => ?_)
    rw [Function.update_apply]
    by_cases hrest : m ∈ rest
    · rw [if_pos hrest, if_pos (List.mem_cons_of_mem _ hrest)]
    · rw [if_neg hrest]
      by_cases hm : m = month
      · rw [if_pos hm, if_pos (by rw [hm]; exact List.mem_cons_self), hm]
      · rw [if_neg hm, if_neg fun h => (List.mem_cons.mp h).elim hm hrest]

/-- **The writer**: every month's file has the month's rows, sorted. -/
theorem monthlyRights_eq (batchRows : ℕ) {fanIn : ℕ} (hfan : 2 ≤ fanIn)
    (hrows : ∀ r ∈ rows, ∃ m, eventMonth r.timestamp = .ok m) :
    ∃ rounds, ∀ fuel ≥ rounds,
      monthlyRights batchRows fanIn fuel rows = some (.ok (sortedMonths rows)) := by
  obtain ⟨spool, hfold, hspool⟩ := foldlM_addRights hrows
  have hfiles : ∀ m ∈ spool.months.sort (· ≤ ·), spool.files m ≠ [] := by
    intro m hm
    rw [hspool.files]
    exact (hspool.months m).mp ((Finset.mem_sort _).mp hm)
  obtain ⟨rounds, hrounds⟩ := finishMonths_eq batchRows hfan hfiles
  refine ⟨rounds, fun fuel hfuel => ?_⟩
  unfold monthlyRights
  rw [hfold]
  refine (hrounds fuel hfuel _).trans ?_
  refine congrArg (fun artifacts => some (Except.ok artifacts)) (funext fun m => ?_)
  have hmem := (Finset.mem_sort (· ≤ ·) (a := m)).trans (hspool.months m)
  unfold sortedMonths
  by_cases hnil : rows.filter (RightsEvent.isIn m) = []
  · rw [if_neg fun h => hmem.mp h hnil, if_pos hnil]
  · rw [if_pos (hmem.mpr hnil), if_neg hnil, hspool.files]

end Spool

/-! ## Timestamps -/

/-- A date of a four-digit year as the log writes it. -/
def IsLogTime (text : String) (t : Civil.NaiveDateTime) : Prop :=
  ∃ year : ℕ, year < 10000 ∧ t.year = year ∧
    text = zeroPad 4 year ++ "-" ++ zeroPad 2 t.month ++ "-" ++ zeroPad 2 t.day ++ " "
      ++ zeroPad 2 t.hour ++ ":" ++ zeroPad 2 t.minute ++ ":" ++ zeroPad 2 t.second

/-- `%Y-%m-%d %H:%M:%S` reads what it writes. -/
def ReadsLogTimes (chrono : Chrono) : Prop :=
  ∀ text t, IsLogTime text t → chrono.parseFromStr text = some t

section Times

variable {chrono : Chrono} {text text' : String} {t t' : Civil.NaiveDateTime}

/-- Fields of one width, each with the same mark after it. -/
theorem field_le_iff {width n n' : ℕ} (hwidth : 0 < width) (h : n < 10 ^ width)
    (h' : n' < 10 ^ width) (mark : Char) (r s : List Char) :
    (zeroPad width n).toList ++ mark :: r ≤ (zeroPad width n').toList ++ mark :: s ↔
      n < n' ∨ (n = n' ∧ r ≤ s) := by
  have hlen := (length_zeroPad hwidth h).trans (length_zeroPad hwidth h').symm
  have hmark : mark :: r ≤ mark :: s ↔ r ≤ s :=
    (FixedWidth.append_le_append_iff (show [mark].length = [mark].length from rfl)).trans (by simp)
  rw [FixedWidth.append_le_append_iff hlen, hmark,
    FixedWidth.lt_iff_value_lt hlen all_isDigit_zeroPad all_isDigit_zeroPad, value_zeroPad,
    value_zeroPad]
  constructor
  · rintro (hlt | ⟨heq, hrest⟩)
    · exact Or.inl hlt
    · refine Or.inr ⟨?_, hrest⟩
      have hvalue := congrArg FixedWidth.value heq
      rwa [value_zeroPad, value_zeroPad] at hvalue
  · rintro (hlt | ⟨rfl, hrest⟩)
    · exact Or.inl hlt
    · exact Or.inr ⟨rfl, hrest⟩

theorem day_lt (t : Civil.NaiveDateTime) : t.day < 10 ^ 2 := by
  have hday := t.day_le
  unfold Civil.daysInMonth at hday
  split_ifs at hday <;> omega

theorem toList_of_isLogTime (h : IsLogTime text t) : ∃ year : ℕ, year < 10000 ∧ t.year = year ∧
    text.toList = (zeroPad 4 year).toList ++ '-' :: ((zeroPad 2 t.month).toList ++ '-' ::
      ((zeroPad 2 t.day).toList ++ ' ' :: ((zeroPad 2 t.hour).toList ++ ':' ::
        ((zeroPad 2 t.minute).toList ++ ':' :: (zeroPad 2 t.second).toList)))) := by
  obtain ⟨year, hlt, hyear, rfl⟩ := h
  refine ⟨year, hlt, hyear, ?_⟩
  simp only [String.toList_append, List.append_assoc]
  rfl

/-- The order of the texts is that of the dates. -/
theorem notAfter_of_le (h : IsLogTime text t) (h' : IsLogTime text' t') (hle : text ≤ text') :
    t.NotAfter t' := by
  obtain ⟨year, hlt, hyear, htext⟩ := toList_of_isLogTime h
  obtain ⟨year', hlt', hyear', htext'⟩ := toList_of_isLogTime h'
  have hmonth := t.month_le
  have hmonth' := t'.month_le
  have hhour := t.hour_lt
  have hhour' := t'.hour_lt
  have hminute := t.minute_lt
  have hminute' := t'.minute_lt
  have hsecond := t.second_lt
  have hsecond' := t'.second_lt
  have hsecondLen := (@length_zeroPad 2 t.second (by omega) (by omega)).trans
    (@length_zeroPad 2 t'.second (by omega) (by omega)).symm
  rw [String.le_iff_toList_le, htext, htext', field_le_iff (by omega) (by omega) (by omega),
    field_le_iff (by omega) (by omega) (by omega),
    field_le_iff (by omega) (day_lt t) (day_lt t'), field_le_iff (by omega) (by omega) (by omega),
    field_le_iff (by omega) (by omega) (by omega), ← not_lt,
    FixedWidth.lt_iff_value_lt hsecondLen.symm all_isDigit_zeroPad all_isDigit_zeroPad,
    value_zeroPad, value_zeroPad, not_lt] at hle
  unfold Civil.NaiveDateTime.NotAfter
  rw [hyear, hyear']
  exact_mod_cast hle

theorem plain_of_isLogTime (h : IsLogTime text t) : ∀ c ∈ text.toList, plain c = true := by
  obtain ⟨year, -, -, htext⟩ := toList_of_isLogTime h
  have hpad : ∀ width n : ℕ, (zeroPad width n).toList.all plain = true := by
    intro width n
    refine List.all_eq_true.mpr fun c hc => ?_
    have hdigit := isDigit_of_mem_zeroPad hc
    unfold plain
    have hne : ∀ d : Char, d.isDigit = false → c ≠ d := fun d hd heq => by
      rw [heq, hd] at hdigit
      exact absurd hdigit (by decide)
    simp [hne 'T' (by decide), hne 'Z' (by decide), hne '.' (by decide)]
  have hdash : plain '-' = true := by decide
  have hblank : plain ' ' = true := by decide
  have hcolon : plain ':' = true := by decide
  refine List.all_eq_true.mp ?_
  rw [htext]
  simp only [List.all_append, List.all_cons, hpad, hdash, hblank, hcolon, Bool.and_true]

theorem parseTimestampSeconds_of_isLogTime (hchrono : ReadsLogTimes chrono) (h : IsLogTime text t) :
    parseTimestampSeconds chrono text = some t.timestamp := by
  unfold parseTimestampSeconds
  rw [normalizeTimestamp_of_plain (plain_of_isLogTime h), hchrono text t h]
  rfl

/-- A row of the log has a month. -/
theorem exists_month_of_isLogTime (h : IsLogTime text t) :
    ∃ m : YearMonth, startsWith text (monthText m) = true := by
  obtain ⟨year, hlt, -, htext⟩ := toList_of_isLogTime h
  refine ⟨⟨year, t.month, hlt, t.month_pos, t.month_le⟩, List.isPrefixOf_iff_prefix.mpr ?_⟩
  rw [htext, toList_monthText, ← List.cons_append, ← List.append_assoc]
  exact List.prefix_append ..

end Times

/-! ## Who holds the right -/

section Held

variable (autopatrolGroups : List String)

def RightsEvent.oldHas (r : RightsEvent) : Bool := hasAny autopatrolGroups (some r.oldGroups)
def RightsEvent.newHas (r : RightsEvent) : Bool := hasAny autopatrolGroups (some r.newGroups)

def RightsEvent.changes (r : RightsEvent) : Bool :=
  r.oldHas autopatrolGroups ≠ r.newHas autopatrolGroups

/-- Whether the last of these events leaves the right. -/
def lastHas (held : Bool) (events : List RightsEvent) : Bool :=
  (events.getLast?.map (RightsEvent.newHas autopatrolGroups)).getD held

/-- The row as the month's reader sees it. -/
def RightsEvent.event (chrono : Chrono) (r : RightsEvent) : MonthEvent :=
  ⟨(parseTimestampSeconds chrono r.timestamp).getD 0, r.oldHas autopatrolGroups,
    r.newHas autopatrolGroups⟩

/-- An event of a user that changes the right. -/
def RightsEvent.isChangeOf (user : String) (r : RightsEvent) : Bool :=
  r.targetUser = user && r.changes autopatrolGroups

end Held

/-- A rights log: dated rows, in the order of their timestamps, in which the events of each
user chain. -/
structure RightsHistory (rows : List RightsEvent) : Prop where
  dated : ∀ r ∈ rows, ∃ t, IsLogTime r.timestamp t
  ordered : rows.Pairwise fun a b => a.timestamp ≤ b.timestamp
  chained : ∀ user, (rows.filter fun r => r.targetUser = user).IsChain
    fun a b => b.oldGroups = a.newGroups

/-- Months in order, with every month of the log up to the last of them. -/
structure ReplayMonths (rows : List RightsEvent) (months : List YearMonth) : Prop where
  sorted : months.Pairwise (· < ·)
  covers : ∀ r ∈ rows, ∀ m, r.isIn m = true → ∀ last ∈ months, m ≤ last → m ∈ months
  bounded : ∀ m ∈ months, ¬ (m.year = 9999 ∧ m.month = 12)

def RightsEvent.isThrough (m : YearMonth) (r : RightsEvent) : Bool :=
  (eventMonth r.timestamp).toOption.any fun own => own ≤ m

/-- The events of a user up to the end of a month, in the order of the log. -/
def eventsThrough (rows : List RightsEvent) (m : YearMonth) (user : String) : List RightsEvent :=
  rows.filter fun r => r.isThrough m && r.targetUser = user

/-- After every month the users in hand are those whose last event leaves the right. -/
def KeepsLogOrder (chrono : Chrono) (autopatrolGroups : List String) (rows : List RightsEvent)
    (months : List YearMonth) (artifacts : YearMonth → Option (List RightsRow)) : Prop :=
  ∀ earlier m later, months = earlier ++ m :: later →
    ∃ active, replay chrono artifacts autopatrolGroups (earlier ++ [m]) = .ok active ∧
      ∀ user, user ∈ active ↔ lastHas autopatrolGroups false (eventsThrough rows m user) = true

/-- What the events of a user must be like for their order within a second not to matter. -/
structure LastSecondAgrees (autopatrolGroups : List String) (events : List RightsEvent) : Prop where
  /-- Of the changes in the second of the last one, that with the greatest groups leaves what
  the last one leaves. -/
  greatest : ∀ a ∈ (events.filter (RightsEvent.changes autopatrolGroups)).getLast?,
    ∀ b ∈ events, b.changes autopatrolGroups = true → b.timestamp = a.timestamp →
      (∀ c ∈ events, c.changes autopatrolGroups = true → c.timestamp = a.timestamp →
        toLex (c.oldGroups, c.newGroups) ≤ toLex (b.oldGroups, b.newGroups)) →
      b.newHas autopatrolGroups = a.newHas autopatrolGroups
  /-- Without a change, the first event does not find the right. -/
  first : (∀ e ∈ events, e.changes autopatrolGroups = false) →
    ∀ e ∈ events.head?, e.oldHas autopatrolGroups = false

/-! ### The last event -/

section Last

variable {groups : List String} {held : Bool} {events : List RightsEvent}

theorem lastHas_cons (e : RightsEvent) :
    lastHas groups held (e :: events) = lastHas groups (e.newHas groups) events := by
  unfold lastHas
  rw [List.getLast?_cons]
  cases events.getLast? <;> rfl

theorem lastHas_append (later : List RightsEvent) :
    lastHas groups held (events ++ later) = lastHas groups (lastHas groups held events) later := by
  induction events generalizing held with
  | nil => rfl
  | cons e events ih => rw [List.cons_append, lastHas_cons, ih, lastHas_cons]

/-- In a chain, events that leave the right as it was can be passed over. -/
theorem lastHas_filter_changes (hchain : events.IsChain fun a b => b.oldGroups = a.newGroups)
    (hfirst : ∀ e ∈ events.head?, e.oldHas groups = held) :
    lastHas groups held (events.filter (RightsEvent.changes groups)) =
      lastHas groups held events := by
  induction events generalizing held with
  | nil => rfl
  | cons e events ih =>
    obtain ⟨hnext, hrest⟩ := List.isChain_cons.mp hchain
    have hnext : ∀ e' ∈ events.head?, e'.oldHas groups = e.newHas groups := by
      intro e' he'
      unfold RightsEvent.oldHas RightsEvent.newHas
      rw [hnext e' he']
    have hheld : e.oldHas groups = held := hfirst e rfl
    rw [lastHas_cons, ← ih hrest hnext]
    by_cases hchange : e.changes groups = true
    · rw [List.filter_cons_of_pos hchange, lastHas_cons]
    · have hsame : e.newHas groups = held := by
        rw [← hheld]
        by_contra hne
        exact hchange (decide_eq_true (Ne.symm hne))
      rw [List.filter_cons_of_neg hchange, hsame]

theorem sortRows_filter (p : RightsEvent → Bool) (rows : List RightsEvent) :
    (sortRows rows).filter p = sortRows (rows.filter p) := by
  refine List.Perm.eq_of_pairwise (fun a b _ _ hab hba => le_antisymm hab hba)
    ((sortRows_pairwise rows).filter p) (sortRows_pairwise _) ?_
  exact ((sortRows_perm rows).filter p).trans (sortRows_perm _).symm

/-- Rows that sort before others are sorted by themselves. -/
theorem sortRows_append {a b rows : List RightsEvent} (hperm : rows.Perm (a ++ b))
    (hle : ∀ x ∈ a, ∀ y ∈ b, x ≤ y) : sortRows rows = sortRows a ++ sortRows b := by
  refine List.Perm.eq_of_pairwise (fun a b _ _ hab hba => le_antisymm hab hba)
    (sortRows_pairwise _) ?_ ?_
  · refine List.pairwise_append.mpr ⟨sortRows_pairwise a, sortRows_pairwise b, fun x hx y hy => ?_⟩
    exact hle x ((sortRows_perm a).mem_iff.mp hx) y ((sortRows_perm b).mem_iff.mp hy)
  · exact (sortRows_perm rows).trans (hperm.trans
      ((sortRows_perm a).append (sortRows_perm b)).symm)

theorem timestamp_le_of_le {a b : RightsEvent} (h : a ≤ b) : a.timestamp ≤ b.timestamp := by
  have h : a.sortKey ≤ b.sortKey := h
  rcases Prod.Lex.le_iff.mp h with hlt | ⟨heq, -⟩
  · exact le_of_lt hlt
  · exact le_of_eq heq

/-- Among the events of a user in one second the groups decide. -/
theorem le_iff_groups {a b : RightsEvent} (htime : a.timestamp = b.timestamp)
    (huser : a.targetUser = b.targetUser) :
    a ≤ b ↔ toLex (a.oldGroups, a.newGroups) ≤ toLex (b.oldGroups, b.newGroups) := by
  show a.sortKey ≤ b.sortKey ↔ _
  unfold RightsEvent.sortKey
  rw [htime, huser, Prod.Lex.toLex_le_toLex, Prod.Lex.toLex_le_toLex]
  simp

/-- The last of ordered rows is the greatest. -/
theorem le_of_getLast? {T : Type} {R : T → T → Prop} {l : List T} {last : T}
    (hrefl : R last last) (h : l.Pairwise R) (hlast : l.getLast? = some last) :
    ∀ x ∈ l, R x last := by
  obtain ⟨before, rfl⟩ := List.getLast?_eq_some_iff.mp hlast
  intro x hx
  rcases List.mem_append.mp hx with hx | hx
  · exact (List.pairwise_append.mp h).2.2 x hx last (by simp)
  · obtain rfl := List.mem_singleton.mp hx
    exact hrefl

theorem lastHas_of_getLast? {last : RightsEvent} (h : events.getLast? = some last) :
    lastHas groups held events = last.newHas groups := by
  unfold lastHas
  rw [h]
  rfl

/-- **Which logs the sorted rows agree with**: the last of the sorted changes leaves what the
last event of the log leaves. -/
theorem lastHas_sortRows_iff {user : String} (huser : ∀ e ∈ events, e.targetUser = user)
    (hordered : events.Pairwise fun a b => a.timestamp ≤ b.timestamp)
    (hchain : events.IsChain fun a b => b.oldGroups = a.newGroups) :
    lastHas groups false (sortRows (events.filter (RightsEvent.changes groups)))
      = lastHas groups false events ↔ LastSecondAgrees groups events := by
  cases events with
  | nil => exact ⟨fun _ => ⟨fun _ ha => absurd ha (by simp), fun _ _ he => absurd he (by simp)⟩,
      fun _ => rfl⟩
  | cons e rest =>
    have hlog : lastHas groups false (e :: rest)
        = lastHas groups (e.oldHas groups) ((e :: rest).filter (RightsEvent.changes groups)) := by
      rw [lastHas_filter_changes hchain fun e' he' => by rw [← Option.some.inj he'], lastHas_cons,
        lastHas_cons]
    rw [hlog]
    cases hlast : ((e :: rest).filter (RightsEvent.changes groups)).getLast? with
    | none =>
      have hnil := List.getLast?_eq_none_iff.mp hlast
      have hnone : ∀ e' ∈ e :: rest, e'.changes groups = false := fun e' he' =>
        Bool.eq_false_iff.mpr (List.filter_eq_nil_iff.mp hnil e' he')
      rw [hnil]
      show false = e.oldHas groups ↔ _
      constructor
      · intro hold
        refine ⟨fun a ha => absurd (hlast.symm.trans ha) (by simp), fun _ e' he' => ?_⟩
        rw [← Option.some.inj he']
        exact hold.symm
      · intro hagrees
        exact (hagrees.first hnone e rfl).symm
    | some a =>
      generalize hD : (e :: rest).filter (RightsEvent.changes groups) = changing at hlast
      have hmem : ∀ c, c ∈ changing ↔ c ∈ e :: rest ∧ c.changes groups = true := fun c => by
        rw [← hD]
        exact List.mem_filter
      have ha : a ∈ changing := List.mem_of_getLast? hlast
      have htimes : ∀ c ∈ changing, c.timestamp ≤ a.timestamp :=
        le_of_getLast? (R := fun x y : RightsEvent => x.timestamp ≤ y.timestamp) le_rfl
          (hD ▸ hordered.filter _) hlast
      obtain ⟨b, hb⟩ : ∃ b, (sortRows changing).getLast? = some b := by
        refine Option.isSome_iff_exists.mp (List.getLast?_isSome.mpr fun hnil => ?_)
        exact absurd ((sortRows_perm changing).mem_iff.mpr ha) (by simp [hnil])
      have hbmem : b ∈ changing := (sortRows_perm changing).mem_iff.mp (List.mem_of_getLast? hb)
      have hgreatest : ∀ c ∈ changing, c ≤ b := fun c hc =>
        le_of_getLast? le_rfl (sortRows_pairwise changing) hb c
          ((sortRows_perm changing).mem_iff.mpr hc)
      -- the greatest row has the last timestamp
      have htime : b.timestamp = a.timestamp :=
        le_antisymm (htimes b hbmem) (timestamp_le_of_le (hgreatest a ha))
      have hsame : ∀ c ∈ changing, c.targetUser = b.targetUser := fun c hc =>
        (huser c ((hmem c).mp hc).1).trans (huser b ((hmem b).mp hbmem).1).symm
      rw [lastHas_of_getLast? hb, lastHas_of_getLast? hlast]
      constructor
      · intro hnew
        refine ⟨fun a' ha' b' hb' hchange htime' hmax => ?_, fun hnone => ?_⟩
        · obtain rfl : a = a' := Option.some.inj (hlast.symm.trans (hD ▸ ha'))
          have hb'mem : b' ∈ changing := (hmem b').mpr ⟨hb', hchange⟩
          have hle : b ≤ b' := (le_iff_groups (htime.trans htime'.symm) (hsame b' hb'mem).symm).mpr
            (hmax b ((hmem b).mp hbmem).1 ((hmem b).mp hbmem).2 htime)
          rw [le_antisymm (hgreatest b' hb'mem) hle, hnew]
        · exact absurd ((hmem a).mp ha).2 (by rw [hnone a ((hmem a).mp ha).1]; simp)
      · intro hagrees
        refine hagrees.greatest a (by rw [hD]; exact hlast) b ((hmem b).mp hbmem).1
          ((hmem b).mp hbmem).2 htime fun c hc hchange hctime => ?_
        have hcmem : c ∈ changing := (hmem c).mpr ⟨hc, hchange⟩
        exact (le_iff_groups (hctime.trans htime.symm) (hsame c hcmem)).mp (hgreatest c hcmem)

end Last

/-! ### A month of sorted rows -/

section Month

variable {chrono : Chrono} {groups : List String} {rows : List RightsEvent}

theorem readEvent_row (hchrono : ReadsLogTimes chrono) {r : RightsEvent}
    (h : ∃ t, IsLogTime r.timestamp t) :
    readEvent chrono groups r.row = some (r.targetUser, r.event groups chrono) := by
  obtain ⟨t, ht⟩ := h
  have hparse := parseTimestampSeconds_of_isLogTime hchrono ht
  unfold readEvent RightsEvent.event RightsEvent.row
  dsimp only
  rw [Option.bind_some, hparse]
  rfl

theorem filterMap_readEvent (hchrono : ReadsLogTimes chrono)
    (hdated : ∀ r ∈ rows, ∃ t, IsLogTime r.timestamp t) :
    (rows.map RightsEvent.row).filterMap (readEvent chrono groups)
      = rows.map fun r => (r.targetUser, r.event groups chrono) := by
  induction rows with
  | nil => rfl
  | cons r rest ih =>
    rw [List.map_cons, List.filterMap_cons_some
      (readEvent_row hchrono (hdated r List.mem_cons_self)),
      ih fun r hr => hdated r (List.mem_cons_of_mem _ hr), List.map_cons]

theorem eventsOf_changes (user : String) :
    eventsOf ((rows.map fun r => (r.targetUser, r.event groups chrono)).filter fun e =>
      changes e.2) user
      = (rows.filter (RightsEvent.isChangeOf groups user)).map
        (RightsEvent.event groups chrono) := by
  unfold eventsOf
  rw [List.filter_map, List.filter_map, List.filter_filter, List.map_map]
  rfl

theorem heldAfter_map (held : Bool) : heldAfter held (rows.map (RightsEvent.event groups chrono))
    = lastHas groups held rows := by
  unfold heldAfter Spans.stateAfter lastHas
  rw [List.map_map, List.getLast?_map, Option.map_map]
  rfl

/-- Whatever an event finds, it leaves an open interval exactly if the right is held. -/
theorem isSome_foldl_advanceEvent (start : ℤ) (events : List MonthEvent)
    (state : Option ℤ × List (ℤ × Option ℤ)) :
    (events.foldl (advanceEvent start) state).1.isSome = heldAfter state.1.isSome events := by
  induction events generalizing state with
  | nil => rfl
  | cons event rest ih =>
    have hevent : (advanceEvent start state event).1.isSome = event.newHas := by
      obtain ⟨opened, closed⟩ := state
      obtain ⟨timestamp, oldHas, newHas⟩ := event
      cases opened <;> cases oldHas <;> cases newHas <;> rfl
    rw [List.foldl_cons, ih, hevent]
    unfold heldAfter
    rw [List.map_cons, Spans.stateAfter_cons]
    rfl

/-- Sorted rows are read in the order of their seconds. -/
theorem seconds_sortRows (hchrono : ReadsLogTimes chrono)
    (hdated : ∀ r ∈ rows, ∃ t, IsLogTime r.timestamp t) :
    (sortRows rows).Pairwise fun a b =>
      (a.event groups chrono).timestamp ≤ (b.event groups chrono).timestamp := by
  refine (sortRows_pairwise rows).imp_of_mem fun {a b} ha hb hle => ?_
  obtain ⟨t, ht⟩ := hdated a ((sortRows_perm rows).mem_iff.mp ha)
  obtain ⟨t', ht'⟩ := hdated b ((sortRows_perm rows).mem_iff.mp hb)
  unfold RightsEvent.event
  rw [parseTimestampSeconds_of_isLogTime hchrono ht, parseTimestampSeconds_of_isLogTime hchrono ht']
  exact Civil.timestamp_le (notAfter_of_le ht ht' (timestamp_le_of_le hle))

/-- A month's file is read, and the last of the sorted changes of a user decides. -/
theorem advanceRightsMonth_sorted (groups : List String) (hchrono : ReadsLogTimes chrono)
    (hdated : ∀ r ∈ rows, ∃ t, IsLogTime r.timestamp t) {m : YearMonth}
    (hbounded : ¬ (m.year = 9999 ∧ m.month = 12)) (active : Finset String) :
    ∃ intervals active', advanceRightsMonth chrono (sortedMonths rows m) m groups active
        = .ok (intervals, active') ∧
      ∀ user, user ∈ active' ↔ lastHas groups (user ∈ active)
        ((sortRows (rows.filter (RightsEvent.isIn m))).filter (RightsEvent.isChangeOf groups user))
          = true := by
  have hbounds : monthBounds chrono m = .ok (monthStart m, monthEnd m) :=
    (monthBounds_eq chrono m).resolve_right fun hlast => hbounded ⟨hlast.1, hlast.2.1⟩
  generalize hmonth : rows.filter (RightsEvent.isIn m) = own
  have hown : ∀ r ∈ own, r.isIn m = true ∧ ∃ t, IsLogTime r.timestamp t := by
    intro r hr
    obtain ⟨hmem, hin⟩ := List.mem_filter.mp (hmonth ▸ hr)
    exact ⟨hin, hdated r hmem⟩
  have hsorted : ∀ r ∈ sortRows own, r.isIn m = true ∧ ∃ t, IsLogTime r.timestamp t := fun r hr =>
    hown r ((sortRows_perm own).mem_iff.mp hr)
  -- A month without rows has no file, which reads as no rows.
  have hfile : (sortedMonths rows m).getD [] = (sortRows own).map RightsEvent.row := by
    unfold sortedMonths
    rw [hmonth]
    by_cases hnil : own = []
    · rw [if_pos hnil, hnil]
      rfl
    · rw [if_neg hnil]
      rfl
  have hevents : ((sortRows own).map RightsEvent.row).filterMap (readEvent chrono groups)
      = (sortRows own).map fun r => (r.targetUser, r.event groups chrono) :=
    filterMap_readEvent hchrono fun r hr => (hsorted r hr).2
  have hrows : ∀ row ∈ (sortRows own).map RightsEvent.row, rowIn m row = true ∧
      (readEvent chrono groups row).isSome = true := by
    intro row hrow
    obtain ⟨r, hr, rfl⟩ := List.mem_map.mp hrow
    obtain ⟨hin, ht⟩ := hsorted r hr
    exact ⟨hin, by rw [readEvent_row hchrono ht]; rfl⟩
  -- The rows of a sorted file ascend in time, so reading them cannot stop.
  obtain ⟨previous, hread⟩ := foldlM_readRow ⟨none, []⟩ hrows (by
      rw [hevents]
      exact List.pairwise_map.mpr (seconds_sortRows hchrono fun r hr => (hown r hr).2))
    fun _ hnone => absurd hnone (by simp)
  rw [List.nil_append, hevents, ← hfile] at hread
  obtain ⟨intervals, active', hok, hwalk⟩ := advanceRightsMonth_of_read hbounds hread active
  refine ⟨intervals, active', hok, fun user => (hwalk user).1.trans ?_⟩
  unfold userWalk
  rw [isSome_foldl_advanceEvent, eventsOf_changes, heldAfter_map]
  by_cases hmem : user ∈ active <;> simp [hmem]

end Month

/-! ### The months of a replay -/

section Replay

variable {chrono : Chrono} {groups : List String} {rows : List RightsEvent}

/-- The rows of these months. -/
def within (months : List YearMonth) (r : RightsEvent) : Bool := months.any fun m => r.isIn m

/-- The rows of earlier months come before those of a month. -/
theorem timestamp_lt_of_isIn {a b : RightsEvent} {m m' : YearMonth} (ha : a.isIn m = true)
    (hb : b.isIn m' = true) (h : m < m') : a.timestamp < b.timestamp := by
  obtain ⟨restA, hrestA⟩ := List.isPrefixOf_iff_prefix.mp ha
  obtain ⟨restB, hrestB⟩ := List.isPrefixOf_iff_prefix.mp hb
  rw [String.lt_iff_toList_lt, ← hrestA, ← hrestB, FixedWidth.append_lt_append_iff
    ((length_monthText m).trans (length_monthText m').symm)]
  exact Or.inl (monthText_lt h)

theorem le_of_timestamp_lt {a b : RightsEvent} (h : a.timestamp < b.timestamp) : a ≤ b := by
  show a.sortKey ≤ b.sortKey
  exact Prod.Lex.le_iff.mpr (Or.inl h)

/-- The sorted rows of a month follow those of the months before it. -/
theorem sortRows_within_snoc {earlier : List YearMonth} {m : YearMonth}
    (hlt : ∀ m' ∈ earlier, m' < m) : sortRows (rows.filter (within (earlier ++ [m])))
      = sortRows (rows.filter (within earlier)) ++ sortRows (rows.filter (RightsEvent.isIn m)) := by
  have hor : ∀ r, within (earlier ++ [m]) r = (within earlier r || r.isIn m) := fun r => by
    unfold within
    rw [List.any_append, List.any_cons, List.any_nil, Bool.or_false]
  refine sortRows_append ?_ fun a ha b hb => ?_
  · have hsplit := List.filter_append_perm (within earlier) (rows.filter (within (earlier ++ [m])))
    rw [List.filter_filter, List.filter_filter] at hsplit
    refine hsplit.symm.trans (List.Perm.of_eq ?_)
    congr 1
    · exact List.filter_congr fun r _ => by
        rw [hor]
        cases within earlier r <;> rfl
    · refine List.filter_congr fun r _ => ?_
      rw [hor]
      cases hwithin : within earlier r with
      | false => rfl
      | true =>
        -- a row has one month
        obtain ⟨m', hm', hin⟩ := List.any_eq_true.mp hwithin
        cases hown : r.isIn m with
        | false => rfl
        | true => exact absurd (isIn_unique hin hown) (ne_of_lt (hlt m' hm'))
  · obtain ⟨m', hm', hin⟩ := List.any_eq_true.mp (List.mem_filter.mp ha).2
    exact le_of_timestamp_lt (timestamp_lt_of_isIn hin (List.mem_filter.mp hb).2 (hlt m' hm'))

/-- **The replay**: after the months the last of the sorted changes decides. -/
theorem replay_eq (groups : List String) (hchrono : ReadsLogTimes chrono)
    (hdated : ∀ r ∈ rows, ∃ t, IsLogTime r.timestamp t)
    {months : List YearMonth} (hsorted : months.Pairwise (· < ·))
    (hbounded : ∀ m ∈ months, ¬ (m.year = 9999 ∧ m.month = 12)) :
    ∃ active, replay chrono (sortedMonths rows) groups months = .ok active ∧
      ∀ user, user ∈ active ↔ lastHas groups false
        ((sortRows (rows.filter (within months))).filter (RightsEvent.isChangeOf groups user)) =
        true := by
  induction months using List.reverseRecOn with
  | nil =>
    refine ⟨∅, rfl, fun user => ?_⟩
    have hnone : rows.filter (within []) = [] := List.filter_eq_nil_iff.mpr fun _ _ h => by
      exact absurd h (by simp [within])
    rw [hnone]
    exact ⟨fun h => absurd h (Finset.notMem_empty _), fun h => absurd h Bool.false_ne_true⟩
  | append_singleton earlier m ih =>
    obtain ⟨hearlier, -, hlt⟩ := List.pairwise_append.mp hsorted
    obtain ⟨active, hreplay, hactive⟩ := ih hearlier fun m' hm' =>
      hbounded m' (List.mem_append_left _ hm')
    obtain ⟨intervals, active', hmonth, hactive'⟩ := advanceRightsMonth_sorted groups hchrono
      hdated (hbounded m (by simp)) active
    refine ⟨active', ?_, fun user => (hactive' user).trans ?_⟩
    · unfold replay at hreplay ⊢
      rw [List.foldlM_append]
      refine bind_eq_ok.mpr ⟨active, hreplay, ?_⟩
      rw [List.foldlM_cons, hmonth]
      rfl
    · rw [sortRows_within_snoc fun m' hm' => hlt m' hm' m (by simp), List.filter_append,
        lastHas_append]
      have hheld : decide (user ∈ active) = lastHas groups false
          ((sortRows (rows.filter (within earlier))).filter
            (RightsEvent.isChangeOf groups user)) := by
        rw [Bool.eq_iff_iff, decide_eq_true_eq]
        exact hactive user
      rw [hheld]

theorem isThrough_eq {r : RightsEvent} {own : YearMonth} (h : r.isIn own = true) (m : YearMonth) :
    r.isThrough m = decide (own ≤ m) := by
  unfold RightsEvent.isThrough
  rw [eventMonth_eq_ok.mpr h]
  rfl

/-- What is kept of ordered rows together with everything before it is a first part of them. -/
theorem filter_prefix {T : Type} {p : T → Bool} {l : List T}
    (h : l.Pairwise fun a b => p b = true → p a = true) : l.filter p <+: l := by
  induction l with
  | nil => exact List.prefix_refl []
  | cons a l ih =>
    obtain ⟨hfirst, hrest⟩ := List.pairwise_cons.mp h
    by_cases ha : p a = true
    · rw [List.filter_cons_of_pos ha]
      exact List.cons_prefix_cons.mpr ⟨rfl, ih hrest⟩
    · rw [List.filter_cons_of_neg ha, List.filter_eq_nil_iff.mpr fun b hb hpb =>
        ha (hfirst b hb hpb)]
      exact List.nil_prefix

/-- The events of a user up to a month are the first ones of the user. -/
theorem eventsThrough_prefix (hlog : RightsHistory rows) (m : YearMonth) (user : String) :
    eventsThrough rows m user <+: rows.filter fun r => r.targetUser = user := by
  unfold eventsThrough
  rw [← List.filter_filter]
  refine filter_prefix ((hlog.ordered.filter _).imp_of_mem fun {a b} ha hb hle hthrough => ?_)
  obtain ⟨t, ht⟩ := hlog.dated a (List.mem_filter.mp ha).1
  obtain ⟨t', ht'⟩ := hlog.dated b (List.mem_filter.mp hb).1
  obtain ⟨ownA, hownA⟩ := exists_month_of_isLogTime ht
  obtain ⟨ownB, hownB⟩ := exists_month_of_isLogTime ht'
  rw [isThrough_eq hownB, decide_eq_true_eq] at hthrough
  rw [isThrough_eq hownA, decide_eq_true_eq]
  by_contra hlater
  exact absurd hle (not_le.mpr (timestamp_lt_of_isIn hownB hownA
    (lt_of_le_of_lt hthrough (not_le.mp hlater))))

/-- The rows of the months up to one are the rows of the log up to its end. -/
theorem within_eq_isThrough {months earlier later : List YearMonth} {m : YearMonth}
    (h : ReplayMonths rows months) (hmonths : months = earlier ++ m :: later) {r : RightsEvent}
    (hr : r ∈ rows) (hdated : ∃ t, IsLogTime r.timestamp t) :
    within (earlier ++ [m]) r = r.isThrough m := by
  obtain ⟨t, ht⟩ := hdated
  obtain ⟨own, hown⟩ := exists_month_of_isLogTime ht
  have hm : m ∈ months := hmonths ▸ List.mem_append_right _ List.mem_cons_self
  obtain ⟨-, hrest, hlt⟩ := List.pairwise_append.mp (hmonths ▸ h.sorted)
  have hafter := (List.pairwise_cons.mp hrest).1
  rw [isThrough_eq hown, Bool.eq_iff_iff, decide_eq_true_eq]
  unfold within
  rw [List.any_eq_true]
  constructor
  · rintro ⟨m', hm', hin⟩
    obtain rfl := isIn_unique hin hown
    rcases List.mem_append.mp hm' with hm' | hm'
    · exact le_of_lt (hlt m' hm' m List.mem_cons_self)
    · exact le_of_eq (List.mem_singleton.mp hm')
  · intro hle
    refine ⟨own, ?_, hown⟩
    have hmem := h.covers r hr own hown m hm hle
    rw [hmonths] at hmem
    rcases List.mem_append.mp hmem with hmem | hmem
    · exact List.mem_append_left _ hmem
    · rcases List.mem_cons.mp hmem with rfl | hmem
      · simp
      · exact absurd hle (not_le.mpr (hafter own hmem))

end Replay

/-! ## The log and its files -/

/-- **When the monthly files keep the order of the log**: exactly if for every user, after
every month, the last second with a change agrees with the log. -/
theorem rights_keep_log_order {chrono : Chrono} {groups : List String} {rows : List RightsEvent}
    {months : List YearMonth} {fanIn : ℕ} (batchRows : ℕ) (hfan : 2 ≤ fanIn)
    (hchrono : ReadsLogTimes chrono) (hlog : RightsHistory rows)
    (hmonths : ReplayMonths rows months) :
    ∃ rounds, ∀ fuel ≥ rounds, ∃ artifacts,
      monthlyRights batchRows fanIn fuel rows = some (.ok artifacts) ∧
        (KeepsLogOrder chrono groups rows months artifacts ↔
          ∀ m ∈ months, ∀ user, LastSecondAgrees groups (eventsThrough rows m user)) := by
  obtain ⟨rounds, hrounds⟩ := monthlyRights_eq batchRows hfan fun r hr => by
    obtain ⟨t, ht⟩ := hlog.dated r hr
    obtain ⟨m, hm⟩ := exists_month_of_isLogTime ht
    exact ⟨m, eventMonth_eq_ok.mpr hm⟩
  refine ⟨rounds, fun fuel hfuel => ⟨sortedMonths rows, hrounds fuel hfuel, ?_⟩⟩
  -- at every month the replay is compared with the log user by user
  have hmonth : ∀ earlier m later, months = earlier ++ m :: later → ∃ active,
      replay chrono (sortedMonths rows) groups (earlier ++ [m]) = .ok active ∧
        ∀ user, (user ∈ active ↔ lastHas groups false (eventsThrough rows m user) = true) ↔
          LastSecondAgrees groups (eventsThrough rows m user) := by
    intro earlier m later hsplit
    have hparts : months = (earlier ++ [m]) ++ later := by rw [hsplit, List.append_assoc]; rfl
    have hpre : (earlier ++ [m]).Pairwise (· < ·) :=
      (List.pairwise_append.mp (hparts ▸ hmonths.sorted)).1
    obtain ⟨active, hreplay, hactive⟩ := replay_eq groups hchrono hlog.dated hpre
      fun m' hm' => hmonths.bounded m' (hparts ▸ List.mem_append_left _ hm')
    refine ⟨active, hreplay, fun user => ?_⟩
    have hsame : (rows.filter (within (earlier ++ [m]))).filter (RightsEvent.isChangeOf groups user)
        = (eventsThrough rows m user).filter (RightsEvent.changes groups) := by
      unfold eventsThrough
      rw [List.filter_filter, List.filter_filter]
      refine List.filter_congr fun r hr => ?_
      rw [within_eq_isThrough hmonths hsplit hr (hlog.dated r hr)]
      unfold RightsEvent.isChangeOf
      rw [Bool.and_comm, ← Bool.and_assoc, Bool.and_comm]
    have hearlier := eventsThrough_prefix hlog m user
    have huser : ∀ e ∈ eventsThrough rows m user, e.targetUser = user := fun e he =>
      of_decide_eq_true (List.mem_filter.mp (hearlier.subset he)).2
    have hordered := (hlog.ordered.filter fun r => r.targetUser = user).sublist hearlier.sublist
    obtain ⟨rest, hrest⟩ := hearlier
    have hchain := (hrest ▸ hlog.chained user).left_of_append
    rw [hactive user, sortRows_filter, hsame, ← Bool.eq_iff_iff]
    exact lastHas_sortRows_iff huser hordered hchain
  constructor
  · intro hkeeps m hm user
    obtain ⟨earlier, later, hsplit⟩ := List.append_of_mem hm
    obtain ⟨active, hreplay, hactive⟩ := hkeeps earlier m later hsplit
    obtain ⟨active', hreplay', hiff⟩ := hmonth earlier m later hsplit
    obtain rfl := Except.ok.inj (hreplay.symm.trans hreplay')
    exact (hiff user).mp (hactive user)
  · intro hagrees earlier m later hsplit
    obtain ⟨active, hreplay, hiff⟩ := hmonth earlier m later hsplit
    refine ⟨active, hreplay, fun user => (hiff user).mpr (hagrees m ?_ user)⟩
    rw [hsplit]
    exact List.mem_append_right _ List.mem_cons_self

/-! ## A right withdrawn and given back in one second -/

theorem strictChrono_readsLogTimes : ReadsLogTimes strictChrono := by
  intro text t h
  obtain ⟨year, hlt, hyear, htext⟩ := toList_of_isLogTime h
  obtain ⟨year', -, hyear', hformat⟩ := h
  obtain rfl : year = year' := by omega
  have hyearField := congrArg (field '-') htext
  rw [field_zeroPad (by decide)] at hyearField
  have hsecond : Nat.ofDigitChars 10 (zeroPad 2 t.second).toList 0 = t.second := value_zeroPad
  exact strictParse_of_fields t hyear hlt hyearField (field_zeroPad (by decide) _ _ _)
    (field_zeroPad (by decide) _ _ _) (field_zeroPad (by decide) _ _ _)
    (field_zeroPad (by decide) _ _ _) hsecond hformat

/-- The right is given, and later withdrawn and given back within one second. -/
def sameSecond : List RightsEvent := [
  ⟨"2024-01-09 07:00:00", "Alice", "", "autopatrolled"⟩,
  ⟨"2024-01-09 08:00:00", "Alice", "autopatrolled", ""⟩,
  ⟨"2024-01-09 08:00:00", "Alice", "", "autopatrolled"⟩]

theorem sameSecond_history : RightsHistory sameSecond where
  dated r hr := by
    have hseven : ∃ t, IsLogTime "2024-01-09 07:00:00" t :=
      ⟨⟨2024, 1, 9, 7, 0, 0, by omega, by omega, by omega, by decide, by omega, by omega, by omega⟩,
        2024, by omega, rfl, by decide +kernel⟩
    have height : ∃ t, IsLogTime "2024-01-09 08:00:00" t :=
      ⟨⟨2024, 1, 9, 8, 0, 0, by omega, by omega, by omega, by decide, by omega, by omega, by omega⟩,
        2024, by omega, rfl, by decide +kernel⟩
    unfold sameSecond at hr
    rcases List.mem_cons.mp hr with rfl | hr
    · exact hseven
    · rcases List.mem_cons.mp hr with rfl | hr
      · exact height
      · obtain rfl := List.mem_singleton.mp hr
        exact height
  ordered := by decide +kernel
  chained user := by
    by_cases huser : "Alice" = user
    · subst huser
      decide +kernel
    · unfold sameSecond
      simp [huser]

theorem sameSecond_months : ReplayMonths sameSecond [january] where
  sorted := List.pairwise_singleton ..
  covers r hr m hin _ _ _ := by
    have hjanuary : ∀ r ∈ sameSecond, r.isIn january = true := by decide +kernel
    exact List.mem_singleton.mpr (isIn_unique hin (hjanuary r hr))
  bounded m hm := by
    rw [List.mem_singleton.mp hm]
    decide

/-- The files of the log, and when they keep its order. -/
theorem rights_keep_log_order_sameSecond : ∃ rounds, ∀ fuel ≥ rounds, ∃ artifacts,
    monthlyRights 50000 16 fuel sameSecond = some (.ok artifacts) ∧
      (KeepsLogOrder strictChrono ["autopatrolled"] sameSecond [january] artifacts ↔
        ∀ m ∈ [january], ∀ user,
          LastSecondAgrees ["autopatrolled"] (eventsThrough sameSecond m user)) :=
  rights_keep_log_order 50000 (by omega) strictChrono_readsLogTimes sameSecond_history
    sameSecond_months

/-- The log ends with the right, and the replay of its files without it. -/
theorem same_second_reordered : RightsHistory sameSecond ∧ ReplayMonths sameSecond [january] ∧
    ∃ rounds, ∀ fuel ≥ rounds, ∃ artifacts,
      monthlyRights 50000 16 fuel sameSecond = some (.ok artifacts) ∧
        ¬ KeepsLogOrder strictChrono ["autopatrolled"] sameSecond [january] artifacts := by
  have hjanuary : ∀ r ∈ sameSecond, r.isIn january = true := by decide +kernel
  obtain ⟨rounds, hrounds⟩ := monthlyRights_eq 50000 (show 2 ≤ 16 by omega)
    fun r (hr : r ∈ sameSecond) => ⟨january, eventMonth_eq_ok.mpr (hjanuary r hr)⟩
  refine ⟨sameSecond_history, sameSecond_months, rounds, fun fuel hfuel =>
    ⟨_, hrounds fuel hfuel, ?_⟩⟩
  intro hkeeps
  obtain ⟨active, hreplay, hactive⟩ := hkeeps [] january [] rfl
  obtain ⟨active', hreplay', hactive'⟩ := replay_eq ["autopatrolled"] strictChrono_readsLogTimes
    sameSecond_history.dated sameSecond_months.sorted sameSecond_months.bounded
  obtain rfl := Except.ok.inj (hreplay.symm.trans hreplay')
  have hlog : lastHas ["autopatrolled"] false
    (eventsThrough sameSecond january "Alice") = true := by
    decide +kernel
  have hsorted := ( hactive' "Alice").mp ((hactive "Alice").mpr hlog)
  exact absurd hsorted (by decide +kernel)

end WikiEcon.Patrol
