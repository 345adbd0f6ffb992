import Fitz.Schedule.Cron

/-!
# Occurrences of a cron expression

What an expression is for: the whole minutes of the calendar that its five fields select. The two day fields
select a day together; where both are restricted, either is enough. The calendar of the code is the Gregorian
one, and the matchers it compiles select the same values as the fields they come from.
-/

namespace Fitz.Schedule

open Lib Lib.Gregorian

theorem yearLoop_spec (fuel year days : ℕ) (hyear : epochYear ≤ year) (hfuel : days / 365 < fuel) :
    epochYear ≤ (yearLoop fuel year days).1 ∧
      yearStart (yearLoop fuel year days).1 + (yearLoop fuel year days).2 = yearStart year + days ∧
      (yearLoop fuel year days).2 < daysInYear (yearLoop fuel year days).1 := by
  induction fuel generalizing year days with
  | zero => omega
  | succ fuel ih =>
    simp only [yearLoop]
    have hlength : (if isLeapYear year = true then 366 else 365) = daysInYear year := rfl
    rw [hlength]
    by_cases hlt : days < daysInYear year
    · rw [if_pos hlt]
      exact ⟨hyear, rfl, hlt⟩
    rw [if_neg hlt]
    have hlow := le_daysInYear year
    have h := ih (year + 1) (days - daysInYear year) (by omega) (by omega)
    rw [yearStart_succ hyear] at h
    exact ⟨h.1, by omega, h.2.2⟩

theorem monthLoop_spec (year count month days : ℕ) (hmonth : 1 ≤ month)
    (hdays : monthOffset year month + days < monthOffset year (month + count)) :
    let r := monthLoop ((List.range' month count).map (daysInMonth year)) month days
    (month ≤ r.1 ∧ r.1 < month + count) ∧
      monthOffset year r.1 + r.2 = monthOffset year month + days ∧ r.2 < daysInMonth year r.1 := by
  induction count generalizing month days with
  | zero =>
    rw [Nat.add_zero] at hdays
    omega
  | succ count ih =>
    simp only [List.range'_succ, List.map_cons, monthLoop]
    by_cases hlt : days < daysInMonth year month
    · rw [if_pos hlt]
      exact ⟨⟨le_rfl, by omega⟩, rfl, hlt⟩
    rw [if_neg hlt]
    have hnext := monthOffset_succ year hmonth
    have hend : month + (count + 1) = month + 1 + count := by omega
    rw [hend] at hdays
    have h := ih (month + 1) (days - daysInMonth year month) (by omega) (by omega)
    dsimp only at h ⊢
    exact ⟨⟨by omega, by omega⟩, by omega, h.2.2⟩

theorem monthLengths_eq (year : ℕ) : monthLengths year = (List.range' 1 12).map (daysInMonth year) := rfl

theorem secondsToDatetime_spec {seconds : ℕ} (h : seconds / 86400 ≤ i32Max) : let t := secondsToDatetime seconds
    IsDate t.year t.month t.day ∧ dayNumber t.year t.month t.day = seconds / 86400 := by
  have hdays : min (seconds / 86400) i32Max = seconds / 86400 := Nat.min_eq_left h
  simp only [secondsToDatetime, hdays]
  have hyears := yearLoop_spec (seconds / 86400 / 365 + 1) 1970 (seconds / 86400) le_rfl (by omega)
  have hepoch : yearStart 1970 = 0 := rfl
  generalize yearLoop (seconds / 86400 / 365 + 1) 1970 (seconds / 86400) = years at hyears
  obtain ⟨hyear, hsum, hrest⟩ := hyears
  have hmonths := monthLoop_spec years.1 12 1 years.2 le_rfl (by
    rw [show 1 + 12 = 13 from rfl, monthOffset_thirteen, show monthOffset years.1 1 = 0 from rfl]
    omega)
  rw [← monthLengths_eq] at hmonths
  generalize monthLoop (monthLengths years.1) 1 years.2 = months at hmonths
  rw [show monthOffset years.1 1 = 0 from rfl] at hmonths
  obtain ⟨hmonth, hoffset, hday⟩ := hmonths
  refine ⟨⟨hyear, ⟨hmonth.1, by omega⟩, by omega, by omega⟩, ?_⟩
  unfold dayNumber
  omega

/-- The day of a time. -/
def dayOf (seconds : ℕ) : ℕ := seconds / 86400

/-- The hour of a time. -/
def hourOf (seconds : ℕ) : ℕ := seconds % 86400 / 3600

/-- The minute of a time. -/
def minuteOf (seconds : ℕ) : ℕ := seconds % 86400 % 3600 / 60

/-- The weekday of a day number; the first of January 1970 was a Thursday. -/
def weekday (day : ℕ) : ℕ := (day + 4) % 7

theorem datetimeToSeconds_eq (year month day hour minute : ℕ) : datetimeToSeconds year month day hour minute =
      dayNumber year month day * 86400 + hour * 3600 + minute * 60 := by
  have hyears : ((List.range' 1970 (year - 1970)).map fun y => if isLeapYear y = true then 366 else 365).sum =
      yearStart year := rfl
  have hmonths : ((List.range' 1 (month - 1)).map (daysInMonth year)).sum = monthOffset year month := rfl
  simp only [datetimeToSeconds, hyears, hmonths, dayNumber]

theorem dayOfWeekForDate_eq {year month day : ℕ} (h : dayNumber year month day ≤ i32Max) :
    dayOfWeekForDate year month day = weekday (dayNumber year month day) := by
  unfold dayOfWeekForDate
  rw [datetimeToSeconds_eq]
  have hday : (dayNumber year month day * 86400 + 0 * 3600 + 0 * 60) / 86400 = dayNumber year month day := by
    omega
  simp only [secondsToDatetime, hday, Nat.min_eq_left h, weekday]

open List CronSchedule

/-- The day rule: a field written as a wildcard does not restrict the day. -/
def DayRule (s : CronSchedule) (day dayOfWeek : ℕ) : Prop :=
  match s.dayOfMonth.isAny, s.dayOfWeek.isAny with
  | true, true => True
  | true, false => matchesField s.dayOfWeek dayOfWeek
  | false, true => matchesField s.dayOfMonth day
  | false, false => matchesField s.dayOfMonth day ∨ matchesField s.dayOfWeek dayOfWeek

/-- The dates an expression selects. -/
structure SelectsDate (s : CronSchedule) (y m d : ℕ) : Prop where
  date : IsDate y m d
  month : matchesField s.month m
  day : DayRule s d (weekday (dayNumber y m d))

/-- The times an expression selects. -/
structure Occurs (s : CronSchedule) (seconds : ℕ) : Prop where
  whole : seconds % 60 = 0
  minute : matchesField s.minute (minuteOf seconds)
  hour : matchesField s.hour (hourOf seconds)
  date : ∃ y m d, SelectsDate s y m d ∧ dayNumber y m d = dayOf seconds

/-- A schedule compiled from fields that each match some value of their range. -/
structure Compiled (s : CronSchedule) : Prop where
  eq : s = compile s.minute s.hour s.dayOfMonth s.month s.dayOfWeek
  minute : ∃ v ≤ 59, matchesField s.minute v
  hour : ∃ v ≤ 23, matchesField s.hour v

theorem SelectsDate.occurs {s : CronSchedule} {y m d hour minute : ℕ} (h : SelectsDate s y m d)
    (hhour : hour ≤ 23) (hminute : minute ≤ 59) (hfieldHour : matchesField s.hour hour = true)
    (hfieldMinute : matchesField s.minute minute = true) :
    Occurs s (dayNumber y m d * 86400 + hour * 3600 + minute * 60) where
  whole := by omega
  minute := by
    rw [show minuteOf (dayNumber y m d * 86400 + hour * 3600 + minute * 60) = minute by unfold minuteOf; omega]
    exact hfieldMinute
  hour := by
    rw [show hourOf (dayNumber y m d * 86400 + hour * 3600 + minute * 60) = hour by unfold hourOf; omega]
    exact hfieldHour
  date := ⟨y, m, d, h, by unfold dayOf; omega⟩

theorem selectsDate_add (s : CronSchedule) (m d : ℕ) {y : ℕ} (h : epochYear ≤ y) :
    SelectsDate s (y + 400) m d ↔ SelectsDate s y m d := by
  have hdate : IsDate (y + 400) m d ↔ IsDate y m d := by
    refine ⟨fun hd => ⟨h, hd.month, ?_⟩, fun hd => ⟨h.trans (Nat.le_add_right _ _), hd.month, ?_⟩⟩
    · rw [← daysInMonth_add]
      exact hd.day
    · rw [daysInMonth_add]
      exact hd.day
  have hweekday : weekday (dayNumber (y + 400) m d) = weekday (dayNumber y m d) := by
    rw [dayNumber_add h]
    unfold weekday
    omega
  refine ⟨fun hs => ⟨hdate.1 hs.date, hs.month, ?_⟩, fun hs => ⟨hdate.2 hs.date, hs.month, ?_⟩⟩
  · rw [← hweekday]
    exact hs.day
  · rw [hweekday]
    exact hs.day

theorem SelectsDate.inCycle {s : CronSchedule} {y m d cycle : ℕ} (h : SelectsDate s y m d)
    (hcycle : epochYear ≤ cycle) : ∃ y', (cycle ≤ y' ∧ y' < cycle + 400) ∧ SelectsDate s y' m d := by
  obtain ⟨y', hrange, hmod⟩ := exists_year_in_cycle y cycle
  refine ⟨y', hrange, ?_⟩
  rwa [congr_of_periodic (P := fun y => SelectsDate s y m d) (fun _ => selectsDate_add s m d)
    (hcycle.trans hrange.1) h.date.year hmod]

section Matcher

variable {field : CronField} {min max current value : ℕ}

theorem mem_fieldRange : value ∈ fieldRange min max ↔ min ≤ value ∧ value ≤ max := by
  unfold fieldRange
  rw [mem_range'_1]
  omega

theorem matches_fromField : (FieldMatcher.fromField field min max).matches value = true ↔
      (min ≤ value ∧ value ≤ max) ∧ matchesField field value = true := by
  unfold FieldMatcher.matches FieldMatcher.fromField
  rw [contains_iff_mem, mem_filter, mem_fieldRange]

theorem find?_fieldRange {test : ℕ → Bool} : (fieldRange min max).find? test = some value ↔
      test value = true ∧ (min ≤ value ∧ value ≤ max) ∧ ∀ x, min ≤ x → x < value → test x = false := by
  rw [← mem_fieldRange]
  unfold fieldRange
  rw [find?_range'_eq_some]
  simp only [Bool.not_eq_eq_eq_not, Bool.not_true]

theorem nextAtOrAfter_false (h : (FieldMatcher.fromField field min max).nextAtOrAfter current = some (value,
    false)) :
    (current ≤ value ∧ min ≤ value ∧ value ≤ max) ∧ matchesField field value = true ∧
      ∀ x, min ≤ x → current ≤ x → x < value → matchesField field x = false := by
  unfold FieldMatcher.nextAtOrAfter FieldMatcher.fromField at h
  split at h
  next found hfind =>
    obtain rfl : found = value := by simpa using h
    rw [find?_filter, find?_fieldRange] at hfind
    simp only [Bool.decide_and, Bool.and_eq_true, decide_eq_true_eq] at hfind
    obtain ⟨⟨hfield, hcurrent⟩, hrange, hleast⟩ := hfind
    refine ⟨⟨hcurrent, hrange⟩, hfield, fun x hmin hle hlt => ?_⟩
    simpa [hle] using hleast x hmin hlt
  · obtain ⟨_, _, heq⟩ := Option.map_eq_some_iff.1 h
    cases heq

theorem nextAtOrAfter_true (h : (FieldMatcher.fromField field min max).nextAtOrAfter current = some (value, true)) :
    (min ≤ value ∧ value ≤ max) ∧ matchesField field value = true ∧
      (∀ x, min ≤ x → x ≤ max → current ≤ x → matchesField field x = false) ∧
      ∀ x, min ≤ x → x < value → matchesField field x = false := by
  unfold FieldMatcher.nextAtOrAfter FieldMatcher.fromField at h
  split at h
  · cases h
  rename_i hfind
  obtain ⟨found, hhead, heq⟩ := Option.map_eq_some_iff.1 h
  obtain rfl : found = value := by simpa using heq
  rw [head?_filter, find?_fieldRange] at hhead
  obtain ⟨hfield, hrange, hleast⟩ := hhead
  refine ⟨hrange, hfield, fun x hmin hmax hle => ?_, hleast⟩
  rw [find?_eq_none] at hfind
  by_contra hx
  exact hfind x (mem_filter.2 ⟨mem_fieldRange.2 ⟨hmin, hmax⟩, by simpa using hx⟩) (by simpa using hle)

theorem nextAtOrAfter_ne_none (hrange : min ≤ value ∧ value ≤ max) (h : matchesField field value = true) :
    (FieldMatcher.fromField field min max).nextAtOrAfter current ≠ none := by
  have hmem : value ∈ (fieldRange min max).filter (matchesField field) :=
    mem_filter.2 ⟨mem_fieldRange.2 hrange, h⟩
  unfold FieldMatcher.nextAtOrAfter FieldMatcher.fromField
  split
  · exact Option.some_ne_none _
  cases hvalues : (fieldRange min max).filter (matchesField field) with
  | nil =>
    rw [hvalues] at hmem
    cases hmem
  | cons first rest => simp

theorem nextAtOrAfter_min (hrange : min ≤ value ∧ value ≤ max) (h : matchesField field value = true) :
    ∃ next, (FieldMatcher.fromField field min max).nextAtOrAfter min = some (next, false) := by
  cases hnext : (FieldMatcher.fromField field min max).nextAtOrAfter min with
  | none => exact absurd hnext (nextAtOrAfter_ne_none hrange h)
  | some next =>
    obtain ⟨found, wrapped⟩ := next
    cases wrapped with
    | false => exact ⟨found, rfl⟩
    | true =>
      have hnone := (nextAtOrAfter_true hnext).2.2.1 value hrange.1 hrange.2 hrange.1
      rw [h] at hnone
      cases hnone

theorem nextAtOrAfter_self (hrange : min ≤ value ∧ value ≤ max) (h : matchesField field value = true) :
    (FieldMatcher.fromField field min max).nextAtOrAfter value = some (value, false) := by
  have hfind : ((fieldRange min max).filter (matchesField field)).find? (value ≤ ·) = some value := by
    rw [find?_filter, find?_fieldRange]
    refine ⟨by simp [h], hrange, fun x _ hlt => ?_⟩
    simp [Nat.not_le.2 hlt]
  unfold FieldMatcher.nextAtOrAfter FieldMatcher.fromField
  rw [hfind]

end Matcher

section Compiled

variable {s : CronSchedule}

theorem Compiled.matchesDay_iff (hs : Compiled s) {day dayOfWeek : ℕ} (hday : 1 ≤ day ∧ day ≤ 31)
    (hweekday : dayOfWeek ≤ 6) : s.matchesDay day dayOfWeek = true ↔ DayRule s day dayOfWeek := by
  have hmonth : s.dayOfMonthMatcher.matches day = true ↔ matchesField s.dayOfMonth day = true := by
    rw [hs.eq]
    exact matches_fromField.trans (and_iff_right hday)
  have hweek : s.dayOfWeekMatcher.matches dayOfWeek = true ↔ matchesField s.dayOfWeek dayOfWeek = true := by
    rw [hs.eq]
    exact matches_fromField.trans (and_iff_right ⟨Nat.zero_le _, hweekday⟩)
  unfold matchesDay DayRule
  cases s.dayOfMonth.isAny <;> cases s.dayOfWeek.isAny <;> simp [hmonth, hweek]

theorem weekday_le (day : ℕ) : weekday day ≤ 6 := by
  unfold weekday
  omega

theorem day_le {y m d : ℕ} (h : IsDate y m d) : 1 ≤ d ∧ d ≤ 31 :=
  ⟨h.day.1, h.day.2.trans (daysInMonth_le y m)⟩

theorem Compiled.nextMatchingDay_some (hs : Compiled s) {y m d target : ℕ} (hdate : IsDate y m d)
    (hbound : dayNumber y m d + 31 ≤ i32Max) (h : s.nextMatchingDay y m d = some target) :
    (d ≤ target ∧ target ≤ daysInMonth y m) ∧ DayRule s target (weekday (dayNumber y m target)) ∧
      ∀ x, d ≤ x → x < target → ¬DayRule s x (weekday (dayNumber y m x)) := by
  unfold nextMatchingDay at h
  rw [find?_fieldRange] at h
  obtain ⟨hmatch, hrange, hleast⟩ := h
  have htest : ∀ x, d ≤ x → x ≤ daysInMonth y m →
      (s.matchesDay x (dayOfWeekForDate y m x) = true ↔ DayRule s x (weekday (dayNumber y m x))) := by
    intro x hlow hhigh
    have hx : IsDate y m x := ⟨hdate.year, hdate.month, hdate.day.1.trans hlow, hhigh⟩
    have hle := (day_le hx).2
    rw [dayOfWeekForDate_eq (by unfold dayNumber at hbound ⊢; omega)]
    exact hs.matchesDay_iff (day_le hx) (weekday_le _)
  refine ⟨hrange, (htest target hrange.1 hrange.2).1 hmatch, fun x hlow hlt hx => ?_⟩
  have hmiss := hleast x hlow hlt
  rw [(htest x hlow (hlt.le.trans hrange.2)).2 hx] at hmiss
  cases hmiss

theorem Compiled.nextMatchingDay_none (hs : Compiled s) {y m d : ℕ} (hdate : IsDate y m d)
    (hbound : dayNumber y m d + 31 ≤ i32Max) (h : s.nextMatchingDay y m d = none) :
    ∀ x, d ≤ x → x ≤ daysInMonth y m → ¬DayRule s x (weekday (dayNumber y m x)) := by
  intro x hlow hhigh hrule
  have hx : IsDate y m x := ⟨hdate.year, hdate.month, hdate.day.1.trans hlow, hhigh⟩
  have hle := (day_le hx).2
  unfold nextMatchingDay at h
  rw [find?_eq_none] at h
  refine h x (mem_fieldRange.2 ⟨hlow, hhigh⟩) ?_
  rw [dayOfWeekForDate_eq (by unfold dayNumber at hbound ⊢; omega)]
  exact (hs.matchesDay_iff (day_le hx) (weekday_le _)).2 hrule

theorem Compiled.isSatisfiable_iff (hs : Compiled s) : s.isSatisfiable = true ↔ ∃ y m d, SelectsDate s y m d := by
  have hmonth : ∀ m, s.monthMatcher.matches m = true ↔ (1 ≤ m ∧ m ≤ 12) ∧ matchesField s.month m = true := by
    intro m
    rw [hs.eq]
    exact matches_fromField
  have hday : ∀ y m d, IsDate y m d → y < 2400 →
      (s.matchesDay d (dayOfWeekForDate y m d) = true ↔ DayRule s d (weekday (dayNumber y m d))) := by
    intro y m d hdate hyear
    have hle : dayNumber y m d < yearStart 2400 := (dayNumber_lt_yearStart_iff hdate).2 hyear
    have hlast : yearStart 2400 ≤ 366 * (2400 - epochYear) := yearStart_le (by decide)
    rw [dayOfWeekForDate_eq (by unfold epochYear at hlast; unfold i32Max; omega)]
    exact hs.matchesDay_iff (day_le hdate) (weekday_le _)
  unfold isSatisfiable
  simp only [any_eq_true, Bool.and_eq_true, mem_fieldRange, mem_range'_1, hmonth]
  constructor
  · rintro ⟨y, hy, m, hm, ⟨_, hfield⟩, d, hd, hmatch⟩
    have hdate : IsDate y m d := ⟨le_trans (by decide) hy.1, hm, hd⟩
    exact ⟨y, m, d, hdate, hfield, (hday y m d hdate hy.2).1 hmatch⟩
  · rintro ⟨y, m, d, hselects⟩
    obtain ⟨y', hrange, h⟩ := hselects.inCycle (show epochYear ≤ 2000 by decide)
    exact ⟨y', hrange, m, h.date.month, ⟨h.date.month, h.month⟩, d, h.date.day,
      (hday y' m d h.date hrange.2).2 h.day⟩

theorem Compiled.exists_occurs (hs : Compiled s) (h : s.isSatisfiable = true) {cycle : ℕ}
    (hcycle : epochYear ≤ cycle) :
    ∃ x, (yearStart cycle ≤ dayOf x ∧ dayOf x < yearStart (cycle + 400)) ∧ Occurs s x := by
  obtain ⟨y, m, d, hselects⟩ := hs.isSatisfiable_iff.1 h
  obtain ⟨y', hrange, hselects'⟩ := hselects.inCycle hcycle
  obtain ⟨hour, hhour, hfieldHour⟩ := hs.hour
  obtain ⟨minute, hminute, hfieldMinute⟩ := hs.minute
  have hday : dayOf (dayNumber y' m d * 86400 + hour * 3600 + minute * 60) = dayNumber y' m d := by
    unfold dayOf
    omega
  refine ⟨_, ?_, hselects'.occurs hhour hminute hfieldHour hfieldMinute⟩
  rw [hday, dayNumber_lt_yearStart_iff hselects'.date, ← Nat.not_lt,
    dayNumber_lt_yearStart_iff hselects'.date, Nat.not_lt]
  exact hrange

end Compiled

end Fitz.Schedule
