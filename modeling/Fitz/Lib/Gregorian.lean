import Mathlib.Algebra.BigOperators.Intervals
import Mathlib.Algebra.Order.BigOperators.Group.Finset
import Mathlib.Tactic.IntervalCases

/-!
# The Gregorian calendar

A date is a year, a month from one to twelve and a day of that month; dates and day numbers determine each other and
are ordered alike, and the calendar repeats, weekdays included, after four hundred years.
-/

namespace Fitz.Lib.Gregorian

open Finset Nat

/-- Whether a year has a leap day. -/
def isLeapYear (year : ℕ) : Bool := (year % 4 == 0 && year % 100 != 0) || year % 400 == 0

/-- The days of a year. -/
def daysInYear (year : ℕ) : ℕ := if isLeapYear year then 366 else 365

/-- The days of a month, counted from one. -/
def daysInMonth (year month : ℕ) : ℕ :=
  match month with
  | 1 | 3 | 5 | 7 | 8 | 10 | 12 => 31
  | 2 => if isLeapYear year then 29 else 28
  | 4 | 6 | 9 | 11 => 30
  | _ => 0

/-- The epoch year. -/
def epochYear : ℕ := 1970

/-- The days from the epoch to the start of a year. -/
def yearStart (year : ℕ) : ℕ := ∑ y ∈ Ico epochYear year, daysInYear y

/-- The days from the start of a year to the start of a month. -/
def monthOffset (year month : ℕ) : ℕ := ∑ m ∈ Ico 1 month, daysInMonth year m

/-- The days from the epoch to a date. -/
def dayNumber (year month day : ℕ) : ℕ := yearStart year + monthOffset year month + (day - 1)

/-- A date of the calendar, from the epoch on. -/
structure IsDate (y m d : ℕ) : Prop where
  year : epochYear ≤ y
  month : 1 ≤ m ∧ m ≤ 12
  day : 1 ≤ d ∧ d ≤ daysInMonth y m

/-- The months that lie before a month, counted over all years. -/
def monthIndex (year month : ℕ) : ℕ := 12 * year + (month - 1)

variable {year : ℕ}

theorem yearStart_succ (h : epochYear ≤ year) : yearStart (year + 1) = yearStart year + daysInYear year :=
  sum_Ico_succ_top h _

theorem monthOffset_succ (year : ℕ) {month : ℕ} (h : 1 ≤ month) :
    monthOffset year (month + 1) = monthOffset year month + daysInMonth year month :=
  sum_Ico_succ_top h _

theorem monthOffset_thirteen (year : ℕ) : monthOffset year 13 = daysInYear year := by
  unfold monthOffset daysInYear
  cases hleap : isLeapYear year with
  | false | true => simp [sum_Ico_succ_top, daysInMonth, hleap]

theorem daysInMonth_pos (year : ℕ) {month : ℕ} (h : 1 ≤ month ∧ month ≤ 12) : 28 ≤ daysInMonth year month := by
  obtain ⟨hlow, hhigh⟩ := h
  interval_cases month <;> simp only [daysInMonth] <;> try omega
  split <;> omega

theorem daysInMonth_le (year month : ℕ) : daysInMonth year month ≤ 31 := by
  unfold daysInMonth
  split <;> try omega
  split <;> omega

variable {a b : ℕ}

theorem yearStart_mono (h : a ≤ b) : yearStart a ≤ yearStart b :=
  sum_le_sum_of_subset (Ico_subset_Ico_right h)

theorem monthOffset_mono (year : ℕ) (h : a ≤ b) : monthOffset year a ≤ monthOffset year b :=
  sum_le_sum_of_subset (Ico_subset_Ico_right h)

theorem daysInYear_le (year : ℕ) : daysInYear year ≤ 366 := by
  unfold daysInYear
  split <;> omega

theorem le_daysInYear (year : ℕ) : 365 ≤ daysInYear year := by
  unfold daysInYear
  split <;> omega

theorem yearStart_lt (ha : epochYear ≤ a) (h : a < b) : yearStart a < yearStart b := by
  have hnext := yearStart_mono (succ_le_of_lt h)
  have hlength := le_daysInYear a
  rw [succ_eq_add_one, yearStart_succ ha] at hnext
  omega

theorem yearStart_le (h : epochYear ≤ year) : yearStart year ≤ 366 * (year - epochYear) := by
  induction year, h using le_induction with
  | base => exact zero_le _
  | succ year h ih =>
    have hlength := daysInYear_le year
    rw [yearStart_succ h]
    omega

theorem le_yearStart (h : epochYear ≤ year) : year ≤ epochYear + yearStart year := by
  induction year, h using le_induction with
  | base => exact le_add_right _ _
  | succ year h ih =>
    have hlength := le_daysInYear year
    rw [yearStart_succ h]
    omega

theorem dayNumber_lt_monthEnd {month day : ℕ} (h : IsDate year month day) :
    dayNumber year month day < yearStart year + monthOffset year (month + 1) := by
  rw [dayNumber, monthOffset_succ year h.month.1]
  have := h.day
  omega

theorem monthEnd_le {month : ℕ} (hyear : epochYear ≤ year) (hmonth : month ≤ 12) :
    yearStart year + monthOffset year (month + 1) ≤ yearStart (year + 1) := by
  have hle := monthOffset_mono year (show month + 1 ≤ 13 by omega)
  rw [monthOffset_thirteen] at hle
  rw [yearStart_succ hyear]
  omega

theorem dayNumber_lt_yearStart_iff {y m d : ℕ} (h : IsDate y m d) : dayNumber y m d < yearStart year ↔
    y < year := by
  have hend := (dayNumber_lt_monthEnd h).trans_le (monthEnd_le h.year h.month.2)
  refine ⟨fun hlt => ?_, fun hlt => hend.trans_le (yearStart_mono hlt)⟩
  by_contra hge
  have hstart := yearStart_mono (not_lt.1 hge)
  unfold dayNumber at hlt
  omega

theorem dayNumber_lt_of_monthIndex {y m d y' m' d' : ℕ} (h : IsDate y m d) (h' : IsDate y' m' d')
    (hlt : monthIndex y m < monthIndex y' m') : dayNumber y m d < dayNumber y' m' d' := by
  have hend := dayNumber_lt_monthEnd h
  have hm := h.month
  have hm' := h'.month
  unfold monthIndex at hlt
  have hstart : yearStart y' + monthOffset y' m' ≤ dayNumber y' m' d' := by
    unfold dayNumber
    omega
  rcases lt_or_ge y y' with hyear | hyear
  · have hle := monthEnd_le h.year hm.2
    have hmono := yearStart_mono hyear
    rw [succ_eq_add_one] at hmono
    omega
  · obtain rfl : y = y' := by omega
    have hle := monthOffset_mono y (show m + 1 ≤ m' by omega)
    omega

theorem monthIndex_le_of_dayNumber_le {y m d y' m' d' : ℕ} (h : IsDate y m d) (h' : IsDate y' m' d')
    (hle : dayNumber y m d ≤ dayNumber y' m' d') : monthIndex y m ≤ monthIndex y' m' := by
  by_contra hlt
  exact absurd (dayNumber_lt_of_monthIndex h' h (Nat.lt_of_not_le hlt)) (Nat.not_lt.2 hle)

theorem monthIndex_inj {y m y' m' : ℕ} (hm : 1 ≤ m ∧ m ≤ 12) (hm' : 1 ≤ m' ∧ m' ≤ 12)
    (h : monthIndex y m = monthIndex y' m') : y = y' ∧ m = m' := by
  unfold monthIndex at h
  omega

theorem isLeapYear_add (year : ℕ) : isLeapYear (year + 400) = isLeapYear year := by
  unfold isLeapYear
  have h4 : (year + 400) % 4 = year % 4 := by omega
  have h100 : (year + 400) % 100 = year % 100 := by omega
  have h400 : (year + 400) % 400 = year % 400 := by omega
  rw [h4, h100, h400]

theorem daysInMonth_add (year month : ℕ) : daysInMonth (year + 400) month = daysInMonth year month := by
  unfold daysInMonth
  rw [isLeapYear_add]

theorem daysInYear_add (year : ℕ) : daysInYear (year + 400) = daysInYear year := by
  unfold daysInYear
  rw [isLeapYear_add]

theorem yearStart_add (h : epochYear ≤ year) : yearStart (year + 400) = yearStart year + 146097 := by
  induction year, h using le_induction with
  | base => decide +kernel
  | succ year h ih =>
    rw [add_right_comm, yearStart_succ (le_add_right_of_le h), yearStart_succ h, ih, daysInYear_add]
    omega

theorem dayNumber_add (h : epochYear ≤ year) (month day : ℕ) :
    dayNumber (year + 400) month day = dayNumber year month day + 146097 := by
  have hoffset : monthOffset (year + 400) month = monthOffset year month :=
    sum_congr rfl fun m _ => daysInMonth_add year m
  unfold dayNumber
  rw [yearStart_add h, hoffset]
  omega

theorem exists_year_in_cycle (year cycle : ℕ) : ∃ y, (cycle ≤ y ∧ y < cycle + 400) ∧ y % 400 = year % 400 :=
  ⟨cycle + (year % 400 + 400 - cycle % 400) % 400, by omega, by omega⟩

theorem congr_of_periodic {P : ℕ → Prop} (hperiodic : ∀ y, epochYear ≤ y → (P (y + 400) ↔ P y)) {y y' : ℕ}
    (hy : epochYear ≤ y) (hy' : epochYear ≤ y') (hmod : y % 400 = y' % 400) : P y ↔ P y' := by
  have hcycles : ∀ count y, epochYear ≤ y → (P (y + 400 * count) ↔ P y) := by
    intro count
    induction count with
    | zero => exact fun y _ => Iff.rfl
    | succ count ih =>
      intro y h
      rw [← hperiodic y h, ← ih (y + 400) (by omega)]
      have heq : y + 400 * (count + 1) = y + 400 + 400 * count := by omega
      rw [heq]
  rcases le_total y y' with hle | hle
  · obtain ⟨count, rfl⟩ : ∃ count, y' = y + 400 * count := ⟨(y' - y) / 400, by omega⟩
    exact (hcycles count y hy).symm
  · obtain ⟨count, rfl⟩ : ∃ count, y = y' + 400 * count := ⟨(y - y') / 400, by omega⟩
    exact hcycles count y' hy'

end Fitz.Lib.Gregorian
