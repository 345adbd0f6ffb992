import Fitz.Schedule.CronSearch

/-!
# The fast paths agree with the search

Expressions that restrict only the time of day, or one day of every month at one time, are answered by arithmetic.
What a fast path answers is the first occurrence as well.
-/

namespace Fitz.Schedule

open Lib Lib.Gregorian Option CronSchedule

theorem eq_any_of_isAny {field : CronField} (h : field.isAny = true) : field = .any := by
  cases field <;> simp_all [CronField.isAny]

theorem eq_single_of_asSingle {field : CronField} {value : ℕ} (h : field.asSingle = some value) :
    field = .single value := by
  cases field <;> simp_all [CronField.asSingle]

theorem matchesField_single {value x : ℕ} : matchesField (.single value) x = true ↔ x = value := by
  simp [matchesField]

section EveryDay

variable {s : CronSchedule} {seconds : ℕ}

theorem occurs_iff_of_everyDay (hmonth : s.month = .any) (hdom : s.dayOfMonth = .any)
    (hdow : s.dayOfWeek = .any) {x : ℕ} (hbound : dayOf x ≤ i32Max) :
    Occurs s x ↔ x % 60 = 0 ∧ matchesField s.minute (minuteOf x) = true ∧ matchesField s.hour
    (hourOf x) = true := by
  refine ⟨fun h => ⟨h.whole, h.minute, h.hour⟩, fun ⟨hwhole, hminute, hhour⟩ => ⟨hwhole, hminute, hhour, ?_⟩⟩
  obtain ⟨hdate, hnumber⟩ := secondsToDatetime_spec hbound
  refine ⟨_, _, _, ⟨hdate, ?_, ?_⟩, hnumber⟩
  · rw [hmonth]
    rfl
  · unfold DayRule
    rw [hdom, hdow]
    trivial

theorem isNext_hourly (hmonth : s.month = .any) (hdom : s.dayOfMonth = .any) (hdow : s.dayOfWeek = .any)
    (hhour : s.hour = .any) {minute next : ℕ} (hminute : s.minute = .single minute) (hle : minute ≤ 59)
    (hbound : dayOf next ≤ i32Max) (hnext : next = if seconds - seconds % 3600 + minute * 60 > seconds
      then seconds - seconds % 3600 + minute * 60 else seconds - seconds % 3600 + minute * 60 + 3600) :
    IsNext s seconds next := by
  refine ⟨⟨by split at hnext <;> omega, (occurs_iff_of_everyDay hmonth hdom hdow hbound).2 ?_⟩, ?_⟩
  · rw [hhour, hminute, matchesField_single]
    unfold minuteOf
    refine ⟨by split at hnext <;> omega, by split at hnext <;> omega, rfl⟩
  · rintro x ⟨hlater, hx⟩
    have hwhole := hx.whole
    have hmatch := hx.minute
    rw [hminute, matchesField_single] at hmatch
    unfold minuteOf at hmatch
    split at hnext <;> omega

theorem isNext_daily (hmonth : s.month = .any) (hdom : s.dayOfMonth = .any) (hdow : s.dayOfWeek = .any)
    {hour minute next : ℕ} (hhour : s.hour = .single hour) (hminute : s.minute = .single minute)
    (hleHour : hour ≤ 23) (hleMinute : minute ≤ 59) (hbound : dayOf next ≤ i32Max)
    (hnext : next = if seconds - seconds % 86400 + hour * 3600 + minute * 60 > seconds
      then seconds - seconds % 86400 + hour * 3600 + minute * 60
      else seconds - seconds % 86400 + hour * 3600 + minute * 60 + 86400) : IsNext s seconds next := by
  refine ⟨⟨by split at hnext <;> omega, (occurs_iff_of_everyDay hmonth hdom hdow hbound).2 ?_⟩, ?_⟩
  · rw [hhour, hminute, matchesField_single, matchesField_single]
    unfold minuteOf hourOf
    refine ⟨by split at hnext <;> omega, by split at hnext <;> omega, by split at hnext <;> omega⟩
  rintro x ⟨hlater, hx⟩
  have hwhole := hx.whole
  have hmatchMinute := hx.minute
  have hmatchHour := hx.hour
  rw [hminute, matchesField_single] at hmatchMinute
  rw [hhour, matchesField_single] at hmatchHour
  unfold minuteOf at hmatchMinute
  unfold hourOf at hmatchHour
  split at hnext <;> omega

theorem isNext_everyMinute (hmonth : s.month = .any) (hdom : s.dayOfMonth = .any) (hdow : s.dayOfWeek = .any)
    (hhour : s.hour = .any) (hminute : s.minute = .any)
    (hbound : dayOf ((seconds / 60 + 1) * 60) ≤ i32Max) : IsNext s seconds ((seconds / 60 + 1) * 60) := by
  refine ⟨⟨by omega, (occurs_iff_of_everyDay hmonth hdom hdow hbound).2 ⟨by omega, ?_, ?_⟩⟩, ?_⟩
  · rw [hminute]
    rfl
  · rw [hhour]
    rfl
  · rintro x ⟨hlater, hx⟩
    have hwhole := hx.whole
    omega

end EveryDay

/-- An expression that selects one time of one day of every month. -/
structure Monthly (s : CronSchedule) (day hour minute : ℕ) : Prop where
  anyMonth : s.month = .any
  anyWeekday : s.dayOfWeek = .any
  onDay : s.dayOfMonth = .single day
  atHour : s.hour = .single hour
  atMinute : s.minute = .single minute
  bounds : 1 ≤ day ∧ day ≤ 31 ∧ hour ≤ 23 ∧ minute ≤ 59

/-- The time such an expression selects in a month. -/
def monthlyTime (day hour minute y m : ℕ) : ℕ := dayNumber y m day * 86400 + hour * 3600 + minute * 60

section Monthly

variable {s : CronSchedule} {day hour minute y m seconds : ℕ}

theorem Monthly.occurs_iff (hs : Monthly s day hour minute) {x : ℕ} :
    Occurs s x ↔ ∃ y m, IsDate y m day ∧ x = monthlyTime day hour minute y m := by
  have hrule : ∀ d w, DayRule s d w ↔ d = day := by
    intro d w
    unfold DayRule
    rw [hs.onDay, hs.anyWeekday]
    exact matchesField_single
  obtain ⟨_, _, hhour, hminute⟩ := hs.bounds
  constructor
  · intro h
    obtain ⟨y, m, d, hselects, hnumber⟩ := h.date
    obtain rfl : d = day := (hrule _ _).1 hselects.day
    have hwhole := h.whole
    have hmatchHour := h.hour
    have hmatchMinute := h.minute
    rw [hs.atHour, matchesField_single] at hmatchHour
    rw [hs.atMinute, matchesField_single] at hmatchMinute
    refine ⟨y, m, hselects.date, ?_⟩
    unfold monthlyTime
    unfold dayOf at hnumber
    unfold hourOf at hmatchHour
    unfold minuteOf at hmatchMinute
    omega
  · rintro ⟨y, m, hdate, rfl⟩
    refine SelectsDate.occurs ⟨hdate, ?_, (hrule _ _).2 rfl⟩ hhour hminute ?_ ?_
    · rw [hs.anyMonth]
      rfl
    · rw [hs.atHour]
      exact matchesField_single.2 rfl
    · rw [hs.atMinute]
      exact matchesField_single.2 rfl

theorem candidateInMonth_eq (hday : 1 ≤ day ∧ day ≤ 31)
    (hhour : hour ≤ 23) (hminute : minute ≤ 59) (hbound : dayNumber y m 1 ≤ i32Max) :
    candidateInMonth (dayNumber y m 1 * 86400) y m day hour minute =
      if day > daysInMonth y m then none else some (monthlyTime day hour minute y m) := by
  unfold i32Max dayNumber at hbound
  unfold candidateInMonth monthlyTime saturatingMul saturatingAdd u64Max dayNumber
  refine if_congr Iff.rfl rfl (congrArg some ?_)
  omega

theorem dayNumber_incrementMonth (hdate : IsDate y m 1) (hyear : y + 1 ≤ u32Max) :
    dayNumber (incrementMonth y m).1 (incrementMonth y m).2 1 = dayNumber y m 1 + daysInMonth y m := by
  have hnext := monthOffset_succ y hdate.month.1
  unfold incrementMonth
  by_cases hlast : m = 12
  · subst hlast
    have hfull : monthOffset y (12 + 1) = daysInYear y := monthOffset_thirteen y
    have hstart : monthOffset (y + 1) 1 = 0 := rfl
    simp only [BEq.rfl, if_true, saturatingAdd_eq hyear, dayNumber, yearStart_succ hdate.year, hstart]
    omega
  · simp only [beq_iff_eq, hlast, if_false, dayNumber, hnext]
    omega

theorem monthlyTime_lt {a b : ℕ} (h : IsDate y m day) (h' : IsDate a b day)
    (hlt : monthIndex y m < monthIndex a b) :
    monthlyTime day hour minute y m < monthlyTime day hour minute a b := by
  have hnumber := dayNumber_lt_of_monthIndex h h' hlt
  unfold monthlyTime
  omega

theorem Monthly.isNext_of_first (hs : Monthly s day hour minute) (hdate : IsDate y m day)
    (hlater : seconds < monthlyTime day hour minute y m)
    (hnone : ∀ a b, IsDate a b day → seconds < monthlyTime day hour minute a b →
      monthIndex y m ≤ monthIndex a b) : IsNext s seconds (monthlyTime day hour minute y m) := by
  refine ⟨⟨hlater, hs.occurs_iff.2 ⟨y, m, hdate, rfl⟩⟩, ?_⟩
  rintro x ⟨hx, hoccurs⟩
  obtain ⟨a, b, hdate', rfl⟩ := hs.occurs_iff.1 hoccurs
  rcases Nat.lt_or_eq_of_le (hnone a b hdate' hx) with hlt | heq
  · exact (monthlyTime_lt hdate hdate' hlt).le
  · obtain ⟨rfl, rfl⟩ := monthIndex_inj hdate.month hdate'.month heq
    exact le_rfl

theorem Monthly.isNext_of_monthlySearch (hs : Monthly s day hour minute) {y₀ m₀ d₀ : ℕ}
    (hnow : IsDate y₀ m₀ d₀) (hnumber : dayNumber y₀ m₀ d₀ = dayOf seconds) (limit : ℕ) {next : ℕ}
    (hdate : IsDate y m 1) (hbound : dayNumber y m 1 + 31 * limit ≤ i32Max)
    (hlater : monthIndex y₀ m₀ ≤ monthIndex y m)
    (hnone : ∀ a b, IsDate a b day → seconds < monthlyTime day hour minute a b → monthIndex y m < monthIndex a b)
    (h : monthlySearch day hour minute limit (dayNumber y m 1 * 86400) y m = some next) :
    IsNext s seconds next := by
  induction limit generalizing y m with
  | zero => exact absurd h (by simp [monthlySearch])
  | succ limit ih =>
    have hyear : y + 1 ≤ u32Max := by
      have hle := le_yearStart hdate.year
      unfold dayNumber i32Max at hbound
      unfold epochYear at hle
      unfold u32Max
      omega
    have hlength := daysInMonth_le y m
    have hstart : saturatingAdd u64Max (dayNumber y m 1 * 86400) (saturatingMul u64Max (daysInMonth y m) 86400) =
        dayNumber (incrementMonth y m).1 (incrementMonth y m).2 1 * 86400 := by
      rw [dayNumber_incrementMonth hdate hyear]
      unfold saturatingAdd saturatingMul u64Max
      unfold i32Max at hbound
      omega
    obtain ⟨hindex, hle, hmonth⟩ := incrementMonth_spec hyear hdate.month
    have hnext := dayNumber_incrementMonth hdate hyear
    simp only [monthlySearch, hstart] at h
    generalize incrementMonth y m = later at h hindex hle hmonth hnext
    have hfirst : IsDate later.1 later.2 1 := isDate_first (hdate.year.trans hle) hmonth
    rw [candidateInMonth_eq ⟨hs.bounds.1, hs.bounds.2.1⟩ hs.bounds.2.2.1 hs.bounds.2.2.2 (by omega)] at h
    by_cases hshort : day > daysInMonth later.1 later.2
    · rw [if_pos hshort] at h
      refine ih hfirst (by omega) (by omega) (fun a b hd ha => ?_) h
      refine lt_of_le_of_ne (by have := hnone a b hd ha; omega) fun heq => ?_
      obtain ⟨hya, hmb⟩ := monthIndex_inj hmonth hd.month heq
      rw [hya, hmb] at hshort
      exact absurd hd.day.2 (Nat.not_le.2 hshort)
    · rw [if_neg hshort] at h
      obtain rfl : monthlyTime day hour minute later.1 later.2 = next := by simpa using h
      have hd : IsDate later.1 later.2 day :=
        ⟨hfirst.year, hmonth, hs.bounds.1, Nat.not_lt.1 hshort⟩
      refine hs.isNext_of_first hd ?_ fun a b hd' ha => by have := hnone a b hd' ha; omega
      have hlt := dayNumber_lt_of_monthIndex hnow hd (by omega)
      rw [hnumber] at hlt
      unfold monthlyTime
      unfold dayOf at hlt
      omega

/-- What the monthly fast path answers is the first occurrence. -/
theorem Monthly.isNext_of_candidate (hs : Monthly s day hour minute) {next : ℕ}
    (hlimit : dayOf seconds + 31 * 48 ≤ i32Max) (h : s.monthlyCandidateSeconds seconds = some next) :
    IsNext s seconds next := by
  obtain ⟨hnow, hnumber⟩ := secondsToDatetime_spec (show dayOf seconds ≤ i32Max by omega)
  have hfirst : IsDate (secondsToDatetime seconds).year (secondsToDatetime seconds).month 1 :=
    isDate_first hnow.year hnow.month
  have hstart : seconds - seconds % 86400 -
      saturatingMul u64Max ((secondsToDatetime seconds).day - 1) 86400 =
        dayNumber (secondsToDatetime seconds).year (secondsToDatetime seconds).month 1 * 86400 := by
    have hday := day_le hnow
    unfold saturatingMul u64Max
    unfold dayNumber at hnumber ⊢
    omega
  have hle : dayNumber (secondsToDatetime seconds).year (secondsToDatetime seconds).month 1 ≤ dayOf seconds := by
    unfold dayOf
    rw [← hnumber]
    unfold dayNumber
    omega
  unfold monthlyCandidateSeconds at h
  simp only [hs.onDay, hs.atHour, hs.atMinute, CronField.asSingle, bind_eq_bind, bind_some, hstart] at h
  rw [candidateInMonth_eq ⟨hs.bounds.1, hs.bounds.2.1⟩ hs.bounds.2.2.1 hs.bounds.2.2.2 (by omega)] at h
  generalize secondsToDatetime seconds = now at *
  have hbefore : ∀ a b, IsDate a b day → seconds < monthlyTime day hour minute a b →
      monthIndex now.year now.month ≤ monthIndex a b := by
    intro a b hd ha
    refine monthIndex_le_of_dayNumber_le hnow hd ?_
    rw [hnumber]
    unfold monthlyTime at ha
    have := hs.bounds
    omega
  split at h
  next candidate hcandidate =>
    rw [filter_eq_some_iff] at hcandidate
    obtain ⟨hsome, hlater⟩ := hcandidate
    split at hsome
    · cases hsome
    rename_i hlong
    obtain rfl : monthlyTime day hour minute now.year now.month = candidate := by simpa using hsome
    obtain rfl : monthlyTime day hour minute now.year now.month = next := by simpa using h
    exact hs.isNext_of_first ⟨hnow.year, hnow.month, hs.bounds.1, Nat.not_lt.1 hlong⟩
      (by simpa using hlater) hbefore
  next hcandidate =>
    refine hs.isNext_of_monthlySearch hnow hnumber 48 hfirst (by omega) le_rfl (fun a b hd ha => ?_) h
    refine lt_of_le_of_ne (hbefore a b hd ha) fun heq => ?_
    obtain ⟨hya, hmb⟩ := monthIndex_inj hnow.month hd.month heq
    rw [hya, hmb, if_neg (Nat.not_lt.2 hd.day.2), filter_eq_none_iff] at hcandidate
    exact absurd ha (by simpa using hcandidate)

end Monthly

section Paths

variable {s : CronSchedule} {seconds : ℕ}

theorem Compiled.hour_le (hs : Compiled s) {hour : ℕ} (h : s.hour = .single hour) : hour ≤ 23 := by
  obtain ⟨v, hv, hfield⟩ := hs.hour
  rw [h, matchesField_single] at hfield
  omega

theorem Compiled.minute_le (hs : Compiled s) {minute : ℕ} (h : s.minute = .single minute) : minute ≤ 59 := by
  obtain ⟨v, hv, hfield⟩ := hs.minute
  rw [h, matchesField_single] at hfield
  omega

theorem Compiled.day_le (hs : Compiled s) (h : s.isSatisfiable = true) (hdow : s.dayOfWeek = .any) {day : ℕ}
    (hdom : s.dayOfMonth = .single day) : 1 ≤ day ∧ day ≤ 31 := by
  obtain ⟨y, m, d, hselects⟩ := hs.isSatisfiable_iff.1 h
  have hrule := hselects.day
  unfold DayRule at hrule
  rw [hdom, hdow] at hrule
  obtain rfl : d = day := matchesField_single.1 hrule
  exact Schedule.day_le hselects.date

theorem BeforeLimit.dayOf_le (h : BeforeLimit seconds) : dayOf seconds + 31 * 48 ≤ i32Max := by
  have hlast := yearStart_limit
  unfold BeforeLimit at h
  unfold dayOf i32Max
  omega

theorem Compiled.isNext_of_simple (hs : Compiled s) (h : s.isSatisfiable = true) (hlimit : BeforeLimit seconds)
    {next : ℕ} (hsimple : s.simpleCandidateSeconds seconds = some next) : IsNext s seconds next := by
  have hbound := hlimit.dayOf_le
  unfold simpleCandidateSeconds at hsimple
  by_cases hdays : (!s.month.isAny || !s.dayOfWeek.isAny) = true
  · rw [if_pos hdays] at hsimple
    cases hsimple
  rw [if_neg hdays] at hsimple
  simp only [Bool.or_eq_true, Bool.not_eq_true', not_or, Bool.not_eq_false] at hdays
  have hmonth := eq_any_of_isAny hdays.1
  have hdow := eq_any_of_isAny hdays.2
  by_cases hmonthly : (!s.dayOfMonth.isAny) = true
  · rw [if_pos hmonthly] at hsimple
    have hsingle := hsimple
    unfold monthlyCandidateSeconds at hsingle
    simp only [bind_eq_bind, bind_eq_some_iff] at hsingle
    obtain ⟨day, hday, hour, hhour, minute, hminute, _⟩ := hsingle
    have hdom := eq_single_of_asSingle hday
    have hhour := eq_single_of_asSingle hhour
    have hminute := eq_single_of_asSingle hminute
    have hrange := hs.day_le h hdow hdom
    exact Monthly.isNext_of_candidate ⟨hmonth, hdow, hdom, hhour, hminute, hrange.1, hrange.2,
      hs.hour_le hhour, hs.minute_le hminute⟩ hbound hsimple
  rw [if_neg hmonthly] at hsimple
  have hdom := eq_any_of_isAny (by simpa using hmonthly)
  by_cases hboth : (s.hour.isAny && s.minute.isAny) = true
  · rw [if_pos hboth] at hsimple
    simp only [Bool.and_eq_true] at hboth
    have hnext : nextMinuteStartSeconds seconds = (seconds / 60 + 1) * 60 := by
      have hlast := yearStart_limit
      unfold BeforeLimit at hlimit
      unfold nextMinuteStartSeconds checkedAdd checkedMul u64Max
      rw [if_pos (by omega), bind_some, if_pos (by omega), getD_some]
    obtain rfl : (seconds / 60 + 1) * 60 = next := by simpa [hnext] using hsimple
    refine isNext_everyMinute hmonth hdom hdow (eq_any_of_isAny hboth.1) (eq_any_of_isAny hboth.2) ?_
    unfold dayOf at hbound ⊢
    omega
  rw [if_neg hboth] at hsimple
  by_cases hhour : s.hour.isAny = true
  · rw [if_pos hhour] at hsimple
    simp only [bind_eq_bind, bind_eq_some_iff, pure_def, some.injEq] at hsimple
    obtain ⟨minute, hminute, hnext⟩ := hsimple
    have hminute := eq_single_of_asSingle hminute
    have hle := hs.minute_le hminute
    refine isNext_hourly hmonth hdom hdow (eq_any_of_isAny hhour) hminute hle ?_ hnext.symm
    unfold dayOf at hbound ⊢
    split at hnext <;> omega
  · rw [if_neg hhour] at hsimple
    simp only [bind_eq_bind, bind_eq_some_iff, pure_def, some.injEq] at hsimple
    obtain ⟨hour, hhour, minute, hminute, hnext⟩ := hsimple
    have hhour := eq_single_of_asSingle hhour
    have hminute := eq_single_of_asSingle hminute
    have hleHour := hs.hour_le hhour
    have hleMinute := hs.minute_le hminute
    refine isNext_daily hmonth hdom hdow hhour hminute hleHour hleMinute ?_ hnext.symm
    unfold dayOf at hbound ⊢
    split at hnext <;> omega

/-- Whichever path is taken, the answer is the first occurrence. -/
theorem Compiled.nextSeconds_eq (hs : Compiled s) (h : s.isSatisfiable = true) (hlimit : BeforeLimit seconds) :
    ∃ next, (IsNext s seconds next ∧ dayOf next ≤ i32Max) ∧ s.nextSeconds seconds = .ok next ∧
      s.generalSearch seconds = .ok next := by
  obtain ⟨next, hnext, hbound, hgeneral⟩ := hs.generalSearch_eq h hlimit
  refine ⟨next, ⟨hnext, hbound⟩, ?_, hgeneral⟩
  unfold nextSeconds
  split
  next candidate hcandidate =>
    rw [filter_eq_some_iff] at hcandidate
    have hsame := hs.isNext_of_simple h hlimit hcandidate.1
    rw [hsame.unique hnext]
  · exact hgeneral

end Paths

end Fitz.Schedule
