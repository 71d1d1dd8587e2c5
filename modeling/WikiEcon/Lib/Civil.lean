import Mathlib.Algebra.Order.Ring.Int
import Mathlib.Algebra.Order.Ring.Nat
import Mathlib.Data.Nat.Notation
import Mathlib.Order.Monotone.Basic
import Mathlib.Order.Interval.Set.Basic

/-!
# Civil time

The proleptic Gregorian calendar, as far as seconds and months go: a date with a time
of day is a number of seconds since 1970, and a month is a range of such numbers.

Months are numbered by `monthIndex`, so that the month after a month is the number
after it. `monthStart` is the first second of a month; `timestamp_mem` says that the
seconds of a date lie between the start of its month and the start of the next.
-/

namespace Civil

def isLeap (year : ℤ) : Bool := year % 4 = 0 && (year % 100 ≠ 0 || year % 400 = 0)

def daysInMonth (year : ℤ) (month : ℕ) : ℕ :=
  if month = 2 then if isLeap year then 29 else 28
  else if month = 4 ∨ month = 6 ∨ month = 9 ∨ month = 11 then 30
  else 31

/-- Days from the first of January of the year 1 to that of this year. -/
def daysBeforeYear (year : ℤ) : ℤ :=
  365 * (year - 1) + (year - 1) / 4 - (year - 1) / 100 + (year - 1) / 400

/-- Days of the year before this month. -/
def daysBeforeMonth (year : ℤ) : ℕ → ℕ
  | 0 => 0
  | 1 => 0
  | month + 2 => daysBeforeMonth year (month + 1) + daysInMonth year (month + 1)

/-- A date and a time of day. -/
structure NaiveDateTime where
  year : ℤ
  month : ℕ
  day : ℕ
  hour : ℕ
  minute : ℕ
  second : ℕ
  month_pos : 1 ≤ month
  month_le : month ≤ 12
  day_pos : 1 ≤ day
  day_le : day ≤ daysInMonth year month
  hour_lt : hour < 24
  minute_lt : minute < 60
  second_lt : second < 60

/-- Days from the year 1 to 1970. -/
def epochDay : ℤ := 719162

/-- Seconds since the start of 1970. -/
def NaiveDateTime.timestamp (t : NaiveDateTime) : ℤ :=
  (daysBeforeYear t.year + daysBeforeMonth t.year t.month + (t.day - 1) - epochDay) * 86400
    + t.hour * 3600 + t.minute * 60 + t.second

def monthIndex (year : ℤ) (month : ℕ) : ℤ := year * 12 + (month - 1)

/-- The first second of a month. -/
def monthStart (index : ℤ) : ℤ :=
  (daysBeforeYear (index / 12) + daysBeforeMonth (index / 12) ((index % 12).toNat + 1) - epochDay)
    * 86400

/-- Midnight at the start of a month. -/
def NaiveDateTime.firstOf (year : ℤ) (month : ℕ) (hpos : 1 ≤ month) (hle : month ≤ 12) :
    NaiveDateTime where
  year := year
  month := month
  day := 1
  hour := 0
  minute := 0
  second := 0
  month_pos := hpos
  month_le := hle
  day_pos := le_refl 1
  day_le := by
    unfold daysInMonth
    split_ifs <;> omega
  hour_lt := by omega
  minute_lt := by omega
  second_lt := by omega

theorem daysInMonth_pos (year : ℤ) (month : ℕ) : 0 < daysInMonth year month := by
  unfold daysInMonth
  split_ifs <;> omega

theorem daysBeforeYear_succ (year : ℤ) :
    daysBeforeYear (year + 1) = daysBeforeYear year + if isLeap year then 366 else 365 := by
  unfold daysBeforeYear isLeap
  split
  next h =>
    simp only [Bool.and_eq_true, Bool.or_eq_true, decide_eq_true_eq] at h
    omega
  next h =>
    simp only [Bool.and_eq_true, Bool.or_eq_true, decide_eq_true_eq] at h
    omega

theorem daysBeforeMonth_succ (year : ℤ) {month : ℕ} (h : 1 ≤ month) :
    daysBeforeMonth year (month + 1) = daysBeforeMonth year month + daysInMonth year month := by
  obtain ⟨month, rfl⟩ : ∃ n, month = n + 1 := ⟨month - 1, by omega⟩
  rfl

theorem daysBeforeMonth_december (year : ℤ) :
    daysBeforeMonth year 12 + 31 = if isLeap year then 366 else 365 := by
  cases h : isLeap year <;> simp [daysBeforeMonth, daysInMonth, h]

/-- A month is as long as its days. -/
theorem monthStart_succ (index : ℤ) : monthStart (index + 1)
    = monthStart index + daysInMonth (index / 12) ((index % 12).toNat + 1) * 86400 := by
  unfold monthStart
  by_cases hdecember : index % 12 = 11
  · have hyear : (index + 1) / 12 = index / 12 + 1 := by omega
    have hmonth : (index + 1) % 12 = 0 := by omega
    have hdays := daysBeforeMonth_december (index / 12)
    rw [hyear, hmonth, daysBeforeYear_succ, hdecember]
    show (daysBeforeYear (index / 12) + (if isLeap (index / 12) then 366 else 365) +
      (0 : ℕ) - epochDay)
        * 86400
      = (daysBeforeYear (index / 12) + (daysBeforeMonth (index / 12) 12 : ℕ) - epochDay) * 86400
        + (31 : ℕ) * 86400
    split at hdays <;> simp_all <;> omega
  · have hyear : (index + 1) / 12 = index / 12 := by omega
    have hmonth : ((index + 1) % 12).toNat = (index % 12).toNat + 1 := by omega
    rw [hyear, hmonth, daysBeforeMonth_succ _ (Nat.le_add_left 1 _)]
    push_cast
    omega

theorem monthStart_lt {i j : ℤ} (h : i < j) : monthStart i < monthStart j := by
  refine strictMono_int_of_lt_succ (fun index => ?_) h
  have hpos := daysInMonth_pos (index / 12) ((index % 12).toNat + 1)
  rw [monthStart_succ]
  omega

theorem monthStart_le {i j : ℤ} (h : i ≤ j) : monthStart i ≤ monthStart j := by
  rcases Int.lt_or_eq_of_le h with hlt | rfl
  · exact Int.le_of_lt (monthStart_lt hlt)
  · exact Int.le_refl _

theorem monthStart_monthIndex {year : ℤ} {month : ℕ} (hpos : 1 ≤ month) (hle : month ≤ 12) :
    monthStart (monthIndex year month)
      = (daysBeforeYear year + daysBeforeMonth year month - epochDay) * 86400 := by
  have hyear : monthIndex year month / 12 = year := by
    unfold monthIndex
    omega
  have hmonth : (monthIndex year month % 12).toNat + 1 = month := by
    unfold monthIndex
    omega
  unfold monthStart
  rw [hyear, hmonth]

theorem timestamp_firstOf {year : ℤ} {month : ℕ} (hpos : 1 ≤ month) (hle : month ≤ 12) :
    (NaiveDateTime.firstOf year month hpos hle).timestamp = monthStart (monthIndex year month) := by
  rw [monthStart_monthIndex hpos hle]
  show (daysBeforeYear year + daysBeforeMonth year month + ((1 : ℕ) - 1 : ℤ) - epochDay) * 86400
    + ((0 : ℕ) : ℤ) * 3600 + ((0 : ℕ) : ℤ) * 60 + ((0 : ℕ) : ℤ) = _
  omega

/-- **A date lies in its month.** -/
theorem timestamp_mem (t : NaiveDateTime) :
    monthStart (monthIndex t.year t.month) ≤ t.timestamp ∧
      t.timestamp < monthStart (monthIndex t.year t.month + 1) := by
  obtain ⟨year, month, day, hour, minute, second, hpos, hle, hday, hdays, hhour, hminute,
    hsecond⟩ := t
  have hyear : monthIndex year month / 12 = year := by
    unfold monthIndex
    omega
  have hmonth : (monthIndex year month % 12).toNat + 1 = month := by
    unfold monthIndex
    omega
  rw [monthStart_succ, hyear, hmonth, monthStart_monthIndex hpos hle]
  unfold NaiveDateTime.timestamp
  dsimp only
  constructor <;> omega

/-- A date before another in the reading of a calendar, or the same date. -/
def NaiveDateTime.NotAfter (a b : NaiveDateTime) : Prop :=
  a.year < b.year ∨ (a.year = b.year ∧ (a.month < b.month ∨ (a.month = b.month ∧
    (a.day < b.day ∨ (a.day = b.day ∧ (a.hour < b.hour ∨ (a.hour = b.hour ∧
      (a.minute < b.minute ∨ (a.minute = b.minute ∧ a.second ≤ b.second)))))))))

/-- **Seconds grow with dates.** -/
theorem timestamp_le {a b : NaiveDateTime} (h : a.NotAfter b) : a.timestamp ≤ b.timestamp := by
  obtain ⟨-, ha⟩ := timestamp_mem a
  obtain ⟨hb, -⟩ := timestamp_mem b
  have hmonths : monthIndex a.year a.month < monthIndex b.year b.month →
      a.timestamp ≤ b.timestamp := by
    intro hlt
    have hstart := monthStart_le (Int.add_one_le_of_lt hlt)
    omega
  have hposA := a.month_pos
  have hposB := b.month_pos
  have hleA := a.month_le
  have hleB := b.month_le
  rcases h with hyear | ⟨hyear, hmonth | ⟨hmonth, hrest⟩⟩
  · refine hmonths ?_
    unfold monthIndex
    omega
  · refine hmonths ?_
    unfold monthIndex
    omega
  · have hhour := a.hour_lt
    have hminute := a.minute_lt
    have hsecond := a.second_lt
    unfold NaiveDateTime.timestamp
    rw [hyear, hmonth]
    omega

end Civil
