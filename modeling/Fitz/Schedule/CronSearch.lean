import Fitz.Schedule.Occurrence
import Mathlib.Order.Lattice.Nat

/-!
# The search finds the first occurrence

Every turn of the loop either stands on an occurrence or jumps over times that are none. Within a day at most three
jumps follow one another, so the first occurrence is reached within four turns a day.
-/

namespace Fitz.Schedule

open Lib Lib.Gregorian CronSchedule Nat

/-- The jumps the loop may still make within the day of a candidate. -/
def rank (s : CronSchedule) (candidate : ℕ) : ℕ :=
  match s.hourMatcher.nextAtOrAfter (hourOf candidate) with
  | some (hour, false) =>
    if hour = hourOf candidate then
      match s.minuteMatcher.nextAtOrAfter (minuteOf candidate) with
      | some (minute, false) => if minute = minuteOf candidate then 0 else 1
      | _ => 3
    else 2
  | _ => 2

theorem rank_le (s : CronSchedule) (candidate : ℕ) : rank s candidate ≤ 3 := by
  unfold rank
  split
  · split
    · split
      · split <;> omega
      · omega
    · omega
  · omega

/-- A jump over times that are no occurrences, to a later day or nearer to a time of the same day. -/
structure Jumps (s : CronSchedule) (candidate next : ℕ) : Prop where
  whole : next % 60 = 0
  empty : ∀ x, candidate ≤ x → x < next → ¬Occurs s x
  nearer : dayOf candidate < dayOf next ∨
    (candidate < next ∧ dayOf candidate = dayOf next) ∧ rank s next < rank s candidate

theorem Jumps.later {s : CronSchedule} {candidate next : ℕ} (h : Jumps s candidate next) : candidate < next := by
  rcases h.nearer with hday | ⟨⟨hlt, _⟩, _⟩
  · unfold dayOf at hday
    omega
  · exact hlt

section Step

variable {s : CronSchedule} {candidate y m d : ℕ}

theorem monthIndex_lt_of_lt_first {y' m' : ℕ} (hdate : IsDate y m d) (hfirst : IsDate y' m' 1)
    (hlt : dayNumber y m d < dayNumber y' m' 1) : monthIndex y m < monthIndex y' m' := by
  have hle := monthIndex_le_of_dayNumber_le hdate hfirst hlt.le
  rcases lt_or_eq_of_le hle with hindex | hindex
  · exact hindex
  · obtain ⟨rfl, rfl⟩ := monthIndex_inj hdate.month hfirst.month hindex
    have hd := hdate.day
    unfold dayNumber at hlt
    omega

theorem isDate_first (hyear : epochYear ≤ y) (hmonth : 1 ≤ m ∧ m ≤ 12) : IsDate y m 1 :=
  ⟨hyear, hmonth, le_rfl, le_trans (by omega) (daysInMonth_pos y hmonth)⟩

theorem dayOf_dayStart (day : ℕ) : dayOf (day * 86400 + 0 * 3600 + 0 * 60) = day := by
  unfold dayOf
  omega

theorem jumps_first {y' m' : ℕ} (hdate : IsDate y m d) (hday : dayNumber y m d = dayOf candidate)
    (hfirst : IsDate y' m' 1) (hlater : monthIndex y m < monthIndex y' m')
    (hempty : ∀ a b c, SelectsDate s a b c → dayNumber y m d ≤ dayNumber a b c →
      monthIndex y m ≤ monthIndex a b → monthIndex a b < monthIndex y' m' → False) :
    Jumps s candidate (datetimeToSeconds y' m' 1 0 0) := by
  rw [datetimeToSeconds_eq]
  refine ⟨by omega, fun x hlow hhigh hx => ?_, .inl ?_⟩
  · obtain ⟨a, b, c, hselects, hnumber⟩ := hx.date
    have hle : dayNumber y m d ≤ dayNumber a b c := by
      rw [hday, hnumber]
      exact Nat.div_le_div_right hlow
    have hlt : dayNumber a b c < dayNumber y' m' 1 := by
      rw [hnumber]
      unfold dayOf
      omega
    exact hempty a b c hselects hle (monthIndex_le_of_dayNumber_le hdate hselects.date hle)
      (monthIndex_lt_of_lt_first hselects.date hfirst hlt)
  · rw [← hday, dayOf_dayStart]
    exact dayNumber_lt_of_monthIndex hdate hfirst hlater

/-- What a turn of the loop must do at a candidate. -/
def StepOk (s : CronSchedule) (candidate : ℕ) : SearchStep → Prop
  | .found => Occurs s candidate
  | .jump next => Jumps s candidate next
  | .stop => False

theorem Compiled.hourMatcher (hs : Compiled s) : s.hourMatcher = .fromField s.hour 0 23 :=
  congrArg CronSchedule.hourMatcher hs.eq

theorem Compiled.minuteMatcher (hs : Compiled s) : s.minuteMatcher = .fromField s.minute 0 59 :=
  congrArg CronSchedule.minuteMatcher hs.eq

theorem Compiled.monthMatcher (hs : Compiled s) : s.monthMatcher = .fromField s.month 1 12 :=
  congrArg CronSchedule.monthMatcher hs.eq

theorem hourOf_le (seconds : ℕ) : hourOf seconds ≤ 23 := by
  unfold hourOf
  omega

theorem minuteOf_le (seconds : ℕ) : minuteOf seconds ≤ 59 := by
  unfold minuteOf
  omega

theorem Compiled.rank_le_two (hs : Compiled s) (hminute : minuteOf candidate = 0) : rank s candidate ≤ 2 := by
  obtain ⟨v, hv, hfield⟩ := hs.minute
  obtain ⟨next, hnext⟩ := nextAtOrAfter_min (show 0 ≤ v ∧ v ≤ 59 from ⟨zero_le v, hv⟩) hfield
  unfold rank
  rw [hminute, hs.minuteMatcher, hnext]
  split
  · split
    · dsimp only
      split <;> omega
    · exact le_rfl
  · exact le_rfl

theorem Compiled.rank_le_one (hs : Compiled s) (hminute : minuteOf candidate = 0)
    (hhour : matchesField s.hour (hourOf candidate) = true) : rank s candidate ≤ 1 := by
  obtain ⟨v, hv, hfield⟩ := hs.minute
  obtain ⟨next, hnext⟩ := nextAtOrAfter_min (show 0 ≤ v ∧ v ≤ 59 from ⟨zero_le v, hv⟩) hfield
  unfold rank
  rw [hminute, hs.minuteMatcher, hnext, hs.hourMatcher, nextAtOrAfter_self ⟨zero_le _, hourOf_le _⟩ hhour]
  dsimp only
  rw [if_pos rfl]
  split <;> omega

theorem Compiled.rank_eq_zero (hs : Compiled s) (hminute : matchesField s.minute (minuteOf candidate) = true)
    (hhour : matchesField s.hour (hourOf candidate) = true) : rank s candidate = 0 := by
  unfold rank
  rw [hs.minuteMatcher, hs.hourMatcher, nextAtOrAfter_self ⟨zero_le _, hourOf_le _⟩ hhour,
    nextAtOrAfter_self ⟨zero_le _, minuteOf_le _⟩ hminute]
  simp

theorem jumps_within {next : ℕ} (hwhole : next % 60 = 0)
    (hempty : ∀ x, candidate ≤ x → x < next → x % 60 = 0 → matchesField s.hour (hourOf x) = true →
      matchesField s.minute (minuteOf x) = true → False) (hnearer : dayOf candidate < dayOf next ∨
      (candidate < next ∧ dayOf candidate = dayOf next) ∧ rank s next < rank s candidate) :
      Jumps s candidate next :=
  ⟨hwhole, fun x hlow hhigh hx => hempty x hlow hhigh hx.whole hx.hour hx.minute, hnearer⟩

theorem Compiled.jumps_nextDay {hour : ℕ}
    (hnext : (FieldMatcher.fromField s.hour 0 23).nextAtOrAfter (hourOf candidate) = some (hour, true)) :
    Jumps s candidate (dayOf candidate * 86400 + 0 * 3600 + 0 * 60 + 86400) := by
  have hnone := (nextAtOrAfter_true hnext).2.2.1
  refine jumps_within (by omega) (fun x hlow hhigh _ hx _ => ?_) (.inl ?_)
  · have hle : hourOf candidate ≤ hourOf x := by
      unfold hourOf dayOf at *
      omega
    rw [hnone _ (zero_le _) (hourOf_le x) hle] at hx
    cases hx
  · unfold dayOf
    omega

theorem Compiled.jumps_hour (hs : Compiled s) {hour : ℕ}
    (hnext : (FieldMatcher.fromField s.hour 0 23).nextAtOrAfter (hourOf candidate) = some (hour, false))
    (hne : hour ≠ hourOf candidate) : Jumps s candidate (dayOf candidate * 86400 + hour * 3600 + 0 * 60) := by
  obtain ⟨⟨hle, _, hhigh⟩, hfield, hleast⟩ := nextAtOrAfter_false hnext
  have hhour : hourOf (dayOf candidate * 86400 + hour * 3600 + 0 * 60) = hour := by
    unfold hourOf
    omega
  have hminute : minuteOf (dayOf candidate * 86400 + hour * 3600 + 0 * 60) = 0 := by
    unfold minuteOf
    omega
  have hday : dayOf (dayOf candidate * 86400 + hour * 3600 + 0 * 60) = dayOf candidate := by
    unfold dayOf
    omega
  refine jumps_within (by omega) (fun x hlow hlt _ hx _ => ?_)
    (.inr ⟨⟨by unfold hourOf dayOf at *; omega, hday.symm⟩, ?_⟩)
  · have hbetween : hourOf candidate ≤ hourOf x ∧ hourOf x < hour := by
      unfold hourOf dayOf at *
      omega
    rw [hleast _ (zero_le _) hbetween.1 hbetween.2] at hx
    cases hx
  · have hlow := hs.rank_le_one hminute (by rw [hhour]; exact hfield)
    have hhere : rank s candidate = 2 := by
      unfold rank
      rw [hs.hourMatcher, hnext]
      exact if_neg hne
    omega

theorem Compiled.jumps_nextHour (hs : Compiled s) {minute : ℕ}
    (hhour : (FieldMatcher.fromField s.hour 0 23).nextAtOrAfter (hourOf candidate) = some (hourOf candidate, false))
    (hnext : (FieldMatcher.fromField s.minute 0 59).nextAtOrAfter (minuteOf candidate) = some (minute, true)) :
    Jumps s candidate (dayOf candidate * 86400 + hourOf candidate * 3600 + 0 * 60 + 3600) := by
  have hnone := (nextAtOrAfter_true hnext).2.2.1
  have hlast := hourOf_le candidate
  refine jumps_within (by omega) (fun x hlow hlt _ _ hx => ?_) ?_
  · have hle : minuteOf candidate ≤ minuteOf x := by
      unfold minuteOf hourOf dayOf at *
      omega
    rw [hnone _ (zero_le _) (minuteOf_le x) hle] at hx
    cases hx
  · have hminute : minuteOf (dayOf candidate * 86400 + hourOf candidate * 3600 + 0 * 60 + 3600) = 0 := by
      unfold minuteOf
      omega
    have hlow := hs.rank_le_two hminute
    have hhere : rank s candidate = 3 := by
      unfold rank
      rw [hs.hourMatcher, hhour, hs.minuteMatcher, hnext]
      exact if_pos rfl
    have hday : dayOf candidate ≤ dayOf (dayOf candidate * 86400 + hourOf candidate * 3600 + 0 * 60 + 3600) := by
      unfold dayOf
      omega
    have hlater : candidate < dayOf candidate * 86400 + hourOf candidate * 3600 + 0 * 60 + 3600 := by
      unfold hourOf dayOf
      omega
    omega

theorem Compiled.jumps_minute (hs : Compiled s) {minute : ℕ} (hwhole : candidate % 60 = 0)
    (hhour : (FieldMatcher.fromField s.hour 0 23).nextAtOrAfter (hourOf candidate) = some (hourOf candidate, false))
    (hnext : (FieldMatcher.fromField s.minute 0 59).nextAtOrAfter (minuteOf candidate) =
      some (minute, false)) (hne : minute ≠ minuteOf candidate) :
    Jumps s candidate (dayOf candidate * 86400 + hourOf candidate * 3600 + minute * 60) := by
  obtain ⟨⟨hle, _, hhigh⟩, hfield, hleast⟩ := nextAtOrAfter_false hnext
  have hlast := hourOf_le candidate
  have hhourOf : hourOf (dayOf candidate * 86400 + hourOf candidate * 3600 + minute * 60) =
      hourOf candidate := by
    unfold hourOf at *
    omega
  have hminuteOf : minuteOf (dayOf candidate * 86400 + hourOf candidate * 3600 + minute * 60) = minute := by
    unfold minuteOf at *
    omega
  have hday : dayOf (dayOf candidate * 86400 + hourOf candidate * 3600 + minute * 60) = dayOf candidate := by
    unfold dayOf at *
    omega
  refine jumps_within (by omega) (fun x hlow hlt _ _ hx => ?_)
    (.inr ⟨⟨by unfold minuteOf hourOf dayOf at *; omega, hday.symm⟩, ?_⟩)
  · have hbetween : minuteOf candidate ≤ minuteOf x ∧ minuteOf x < minute := by
      unfold minuteOf hourOf dayOf at *
      omega
    rw [hleast _ (zero_le _) hbetween.1 hbetween.2] at hx
    cases hx
  · have hzero : rank s (dayOf candidate * 86400 + hourOf candidate * 3600 + minute * 60) = 0 :=
      hs.rank_eq_zero (by rw [hminuteOf]; exact hfield)
        (by rw [hhourOf]; exact (nextAtOrAfter_false hhour).2.1)
    have hhere : rank s candidate = 1 := by
      unfold rank
      rw [hs.hourMatcher, hhour, hs.minuteMatcher, hnext]
      dsimp only
      rw [if_pos rfl, if_neg hne]
    omega

theorem Compiled.stepOk_timeStep (hs : Compiled s) {now : DateTime} (hwhole : candidate % 60 = 0)
    (hhour : now.hour = hourOf candidate) (hminute : now.minute = minuteOf candidate)
    (hselects : SelectsDate s now.year now.month now.day)
    (hday : dayNumber now.year now.month now.day = dayOf candidate) : StepOk s candidate (s.timeStep now) := by
  obtain ⟨v, hv, hvhour⟩ := hs.hour
  obtain ⟨w, hw, hwminute⟩ := hs.minute
  unfold timeStep
  simp only [datetimeToSeconds_eq, hday, hhour, hminute, hs.hourMatcher, hs.minuteMatcher]
  cases hnext : (FieldMatcher.fromField s.hour 0 23).nextAtOrAfter (hourOf candidate) with
  | none => exact absurd hnext (nextAtOrAfter_ne_none ⟨zero_le v, hv⟩ hvhour)
  | some next =>
    obtain ⟨hour, wrapped⟩ := next
    cases wrapped with
    | true => exact jumps_nextDay hnext
    | false =>
      by_cases hne : hour = hourOf candidate
      · subst hne
        simp only [bne_self_eq_false, Bool.false_eq_true, if_false]
        cases hnextMinute : (FieldMatcher.fromField s.minute 0 59).nextAtOrAfter (minuteOf candidate) with
        | none => exact absurd hnextMinute (nextAtOrAfter_ne_none ⟨zero_le w, hw⟩ hwminute)
        | some next =>
          obtain ⟨minute, wrapped⟩ := next
          cases wrapped with
          | true => exact hs.jumps_nextHour hnext hnextMinute
          | false =>
            by_cases hne : minute = minuteOf candidate
            · subst hne
              simp only [bne_self_eq_false, Bool.false_eq_true, if_false]
              exact ⟨hwhole, (nextAtOrAfter_false hnextMinute).2.1, (nextAtOrAfter_false hnext).2.1,
                _, _, _, hselects, hday⟩
            · simp only [bne_iff_ne.2 hne, if_true]
              exact hs.jumps_minute hwhole hnext hnextMinute hne
      · simp only [bne_iff_ne.2 hne, if_true]
        exact hs.jumps_hour hnext hne

theorem incrementMonth_spec (hyear : y + 1 ≤ u32Max) (hmonth : 1 ≤ m ∧ m ≤ 12) :
    monthIndex (incrementMonth y m).1 (incrementMonth y m).2 = monthIndex y m + 1 ∧
      y ≤ (incrementMonth y m).1 ∧ 1 ≤ (incrementMonth y m).2 ∧ (incrementMonth y m).2 ≤ 12 := by
  unfold incrementMonth
  by_cases hlast : m = 12
  · simp only [hlast, BEq.rfl, if_true, saturatingAdd_eq hyear]
    unfold monthIndex
    omega
  · simp only [beq_iff_eq, hlast, if_false]
    unfold monthIndex
    omega

theorem dayNumber_le_iff {d' : ℕ} (hd : 1 ≤ d) (hd' : 1 ≤ d') : dayNumber y m d ≤ dayNumber y m d' ↔ d ≤ d' := by
  unfold dayNumber
  omega

theorem Compiled.stepOk_dayStep (hs : Compiled s) {now : DateTime} (hwhole : candidate % 60 = 0)
    (hhour : now.hour = hourOf candidate) (hminute : now.minute = minuteOf candidate)
    (hdate : IsDate now.year now.month now.day) (hmonth : matchesField s.month now.month = true)
    (hday : dayNumber now.year now.month now.day = dayOf candidate)
    (hbound : dayOf candidate + 31 ≤ i32Max) (hyear : now.year + 1 ≤ u32Max) : StepOk s candidate
    (s.dayStep now) := by
  unfold dayStep
  rw [← hday] at hbound
  cases hnext : s.nextMatchingDay now.year now.month now.day with
  | none =>
    have hnone := hs.nextMatchingDay_none hdate hbound hnext
    obtain ⟨hindex, hle, hnew⟩ := incrementMonth_spec hyear hdate.month
    refine jumps_first hdate hday (isDate_first (hdate.year.trans hle) hnew) (by omega) ?_
    intro a b c hselects hafter hlow hhigh
    have hsame : monthIndex now.year now.month = monthIndex a b := by omega
    obtain ⟨rfl, rfl⟩ := monthIndex_inj hdate.month hselects.date.month hsame
    exact hnone c ((dayNumber_le_iff hdate.day.1 hselects.date.day.1).1 hafter) hselects.date.day.2 hselects.day
  | some target =>
    obtain ⟨hrange, hrule, hleast⟩ := hs.nextMatchingDay_some hdate hbound hnext
    by_cases hne : target = now.day
    · subst hne
      simp only [bne_self_eq_false, Bool.false_eq_true, if_false]
      exact hs.stepOk_timeStep hwhole hhour hminute ⟨hdate, hmonth, hrule⟩ hday
    simp only [bne_iff_ne.2 hne, if_true]
    have hlater : now.day < target := lt_of_le_of_ne hrange.1 (Ne.symm hne)
    have htarget : IsDate now.year now.month target :=
      ⟨hdate.year, hdate.month, hdate.day.1.trans hrange.1, hrange.2⟩
    unfold StepOk
    rw [datetimeToSeconds_eq]
    refine ⟨by omega, fun x hlow hhigh hx => ?_, .inl ?_⟩
    · obtain ⟨a, b, c, hselects, hnumber⟩ := hx.date
      have hafter : dayNumber now.year now.month now.day ≤ dayNumber a b c := by
        rw [hday, hnumber]
        exact Nat.div_le_div_right hlow
      have hbefore : dayNumber a b c < dayNumber now.year now.month target := by
        rw [hnumber]
        unfold dayOf
        omega
      have hindex := le_antisymm (monthIndex_le_of_dayNumber_le hdate hselects.date hafter)
        (monthIndex_le_of_dayNumber_le hselects.date htarget hbefore.le)
      obtain ⟨rfl, rfl⟩ := monthIndex_inj hdate.month hselects.date.month hindex
      refine hleast c ((dayNumber_le_iff hdate.day.1 hselects.date.day.1).1 hafter) ?_ hselects.day
      by_contra hge
      exact absurd ((dayNumber_le_iff htarget.day.1 hselects.date.day.1).2 (not_lt.1 hge))
        (not_le.2 hbefore)
    · rw [← hday, dayOf_dayStart]
      unfold dayNumber
      have := hdate.day.1
      omega

theorem Compiled.stepOk_searchStep (hs : Compiled s) {endYear : ℕ} (hwhole : candidate % 60 = 0)
    (hmonths : ∃ v, (1 ≤ v ∧ v ≤ 12) ∧ matchesField s.month v = true)
    (hbound : dayOf candidate + 31 ≤ i32Max) (hend : (secondsToDatetime candidate).year ≤ endYear) :
    StepOk s candidate (s.searchStep endYear candidate) := by
  obtain ⟨hdate, hday⟩ := secondsToDatetime_spec (show candidate / 86400 ≤ i32Max by unfold dayOf at hbound; omega)
  have hhour : (secondsToDatetime candidate).hour = hourOf candidate := rfl
  have hminute : (secondsToDatetime candidate).minute = minuteOf candidate := rfl
  unfold searchStep
  generalize secondsToDatetime candidate = now at hdate hday hhour hminute hend
  have hyear : now.year + 1 ≤ u32Max := by
    have hle := le_yearStart hdate.year
    unfold dayNumber at hday
    unfold dayOf i32Max at hbound
    unfold epochYear at hle
    unfold u32Max
    omega
  rw [if_neg (not_lt.2 hend), hs.monthMatcher]
  obtain ⟨v, hv, hfield⟩ := hmonths
  cases hnext : (FieldMatcher.fromField s.month 1 12).nextAtOrAfter now.month with
  | none => exact absurd hnext (nextAtOrAfter_ne_none hv hfield)
  | some next =>
    obtain ⟨month, wrapped⟩ := next
    cases wrapped with
    | true =>
      obtain ⟨hrange, _, hafter, hbefore⟩ := nextAtOrAfter_true hnext
      simp only [Bool.true_or, if_true, saturatingAdd_eq hyear]
      refine jumps_first hdate hday (isDate_first (by have := hdate.year; omega) hrange) ?_ ?_
      · unfold monthIndex
        have := hdate.month
        omega
      · intro a b c hselects _ hlow hhigh
        have hmonth := hselects.date.month
        have hmatch := hselects.month
        have hnow := hdate.month
        unfold monthIndex at hlow hhigh
        rcases lt_or_ge a (now.year + 1) with hyear | hyear
        · rw [hafter b hmonth.1 hmonth.2 (by omega)] at hmatch
          cases hmatch
        · rw [hbefore b hmonth.1 (by omega)] at hmatch
          cases hmatch
    | false =>
      obtain ⟨⟨hle, hrange⟩, hmatches, hleast⟩ := nextAtOrAfter_false hnext
      by_cases hne : month = now.month
      · subst hne
        simp only [bne_self_eq_false, Bool.or_false, Bool.false_eq_true, if_false]
        exact hs.stepOk_dayStep hwhole hhour hminute hdate hmatches hday hbound hyear
      simp only [bne_iff_ne.2 hne, Bool.or_true, if_true, Bool.false_eq_true, if_false]
      refine jumps_first hdate hday (isDate_first hdate.year hrange) ?_ ?_
      · unfold monthIndex
        have := hdate.month
        omega
      · intro a b c hselects _ hlow hhigh
        have hmonth := hselects.date.month
        have hmatch := hselects.month
        have hnow := hdate.month
        unfold monthIndex at hlow hhigh
        rw [hleast b hmonth.1 (by omega) (by omega)] at hmatch
        cases hmatch

end Step

section Loop

variable {s : CronSchedule} {first : ℕ}

/-- The loop finds the first occurrence from the candidate on, given four turns for each day before it. -/
theorem Compiled.search_eq (hs : Compiled s) {endYear : ℕ}
    (hmonths : ∃ v, (1 ≤ v ∧ v ≤ 12) ∧ matchesField s.month v = true) (hfirst : Occurs s first)
    (hbound : dayOf first + 31 ≤ i32Max)
    (hend : ∀ x ≤ first, (secondsToDatetime x).year ≤ endYear) (turns candidate : ℕ)
    (hwhole : candidate % 60 = 0) (hle : candidate ≤ first) (hleast : ∀ x, candidate ≤ x → Occurs s x → first ≤ x)
    (hturns : 4 * (dayOf first - dayOf candidate) + rank s candidate < turns) :
    s.search endYear turns candidate = some first := by
  induction turns generalizing candidate with
  | zero => omega
  | succ turns ih =>
    have hday : dayOf candidate ≤ dayOf first := Nat.div_le_div_right hle
    have hstep := hs.stepOk_searchStep hwhole hmonths (show dayOf candidate + 31 ≤ i32Max by omega)
      (hend candidate hle)
    unfold search
    cases hnext : s.searchStep endYear candidate with
    | stop =>
      rw [hnext] at hstep
      exact hstep.elim
    | found =>
      rw [hnext] at hstep
      exact congrArg some (le_antisymm hle (hleast candidate le_rfl hstep))
    | jump next =>
      rw [hnext] at hstep
      have hnextLe : next ≤ first := by
        by_contra hlt
        exact hstep.empty first hle (not_le.1 hlt) hfirst
      have hnextDay : dayOf next ≤ dayOf first := Nat.div_le_div_right hnextLe
      have hrank := rank_le s next
      refine ih next hstep.whole hnextLe (fun x hx => hleast x (hstep.later.le.trans hx)) ?_
      rcases hstep.nearer with hlater | ⟨⟨_, hsame⟩, hlower⟩
      · omega
      · omega

/-- The first occurrence after a time. -/
def IsNext (s : CronSchedule) (seconds next : ℕ) : Prop := IsLeast {x | seconds < x ∧ Occurs s x} next

/-- The seconds of a start before the year one million. -/
def BeforeLimit (seconds : ℕ) : Prop := seconds < yearStart 1000000 * 86400

theorem yearStart_limit : yearStart 1000000 ≤ 366 * 998030 := yearStart_le (by decide)

theorem year_mono {a b : ℕ} (hle : a ≤ b) (hbound : dayOf b ≤ i32Max) :
    (secondsToDatetime a).year ≤ (secondsToDatetime b).year := by
  have hday : dayOf a ≤ dayOf b := Nat.div_le_div_right hle
  obtain ⟨hdate, hnumber⟩ := secondsToDatetime_spec (hday.trans hbound)
  obtain ⟨hdate', hnumber'⟩ := secondsToDatetime_spec hbound
  have hindex := monthIndex_le_of_dayNumber_le hdate hdate' (by rw [hnumber, hnumber']; exact hday)
  have hmonth := hdate.month
  have hmonth' := hdate'.month
  unfold monthIndex at hindex
  omega

theorem Compiled.exists_month (hs : Compiled s) (h : s.isSatisfiable = true) :
    ∃ v, (1 ≤ v ∧ v ≤ 12) ∧ matchesField s.month v = true := by
  obtain ⟨y, m, d, hselects⟩ := hs.isSatisfiable_iff.1 h
  exact ⟨m, hselects.date.month, hselects.month⟩

theorem Compiled.exists_isNext (hs : Compiled s) (h : s.isSatisfiable = true) {seconds candidate : ℕ}
    (hle : seconds ≤ candidate) (hbound : dayOf candidate ≤ i32Max) :
    ∃ next, IsNext s seconds next ∧ dayOf next < yearStart ((secondsToDatetime candidate).year + 401) := by
  obtain ⟨hdate, hnumber⟩ := secondsToDatetime_spec hbound
  generalize (secondsToDatetime candidate).year = year at hdate hnumber
  have hyear := hdate.year
  obtain ⟨x, hrange, hoccurs⟩ := hs.exists_occurs h (show epochYear ≤ year + 1 by omega)
  have hlater : seconds < x := by
    have hday := (dayNumber_lt_yearStart_iff hdate).2 (lt_succ_self year)
    have hlt : candidate / 86400 < x / 86400 := by
      rw [← hnumber]
      exact hday.trans_le hrange.1
    omega
  have hne : {x | seconds < x ∧ Occurs s x}.Nonempty := ⟨x, hlater, hoccurs⟩
  have hnext : sInf {x | seconds < x ∧ Occurs s x} ≤ x := Nat.sInf_le ⟨hlater, hoccurs⟩
  refine ⟨_, ⟨Nat.sInf_mem hne, fun _ hx => Nat.sInf_le hx⟩, ?_⟩
  exact (Nat.div_le_div_right hnext).trans_lt hrange.2

/-- The general search finds the first occurrence, before the last day of the code's calendar. -/
theorem Compiled.generalSearch_eq (hs : Compiled s) (h : s.isSatisfiable = true) {seconds : ℕ}
    (hlimit : BeforeLimit seconds) :
    ∃ next, IsNext s seconds next ∧ dayOf next ≤ i32Max ∧ s.generalSearch seconds = .ok next := by
  have hlast := yearStart_limit
  unfold BeforeLimit at hlimit
  -- the search starts at the next whole minute
  obtain ⟨candidate, hcandidate⟩ : ∃ candidate, candidate = (seconds / 60 + 1) * 60 := ⟨_, rfl⟩
  have hday : dayOf candidate ≤ yearStart 1000000 := by
    unfold dayOf
    omega
  have hsmall : dayOf candidate ≤ i32Max := hday.trans (hlast.trans (by decide))
  obtain ⟨next, hnext, hcycle⟩ := hs.exists_isNext h (show seconds ≤ candidate by omega) hsmall
  obtain ⟨hdate, hnumber⟩ := secondsToDatetime_spec hsmall
  have hstart : (checkedAdd u64Max (seconds / 60) 1).bind (checkedMul u64Max · 60) = some candidate := by
    have hmax : (seconds / 60 + 1) * 60 ≤ u64Max := by
      unfold u64Max
      omega
    unfold checkedAdd checkedMul
    rw [if_pos (by omega), Option.bind_some, if_pos hmax, hcandidate]
  have hyear : (secondsToDatetime candidate).year ≤ 1000000 := by
    by_contra hlt
    have hlater := yearStart_lt (show epochYear ≤ 1000000 by decide) (not_le.1 hlt)
    unfold dayNumber at hnumber
    unfold dayOf at hday
    omega
  have hend := yearStart_le (hdate.year.trans (le_add_right _ 401))
  have hspan := yearStart_add (hdate.year.trans (le_add_right _ 1))
  have hfirst := yearStart_succ hdate.year
  have hlength := daysInYear_le (secondsToDatetime candidate).year
  have hbound : dayOf next + 31 ≤ i32Max := by
    unfold epochYear at hend
    unfold i32Max
    omega
  have hfound : s.search ((secondsToDatetime candidate).year + 400) (401 * 366 * 4) candidate = some next := by
    refine hs.search_eq (hs.exists_month h) hnext.1.2 hbound (fun x hx => ?_) _ _ (by omega) ?_ ?_ ?_
    · refine (year_mono hx (by omega)).trans (Nat.lt_succ_iff.1 ?_)
      obtain ⟨hdate', hnumber'⟩ := secondsToDatetime_spec (show dayOf next ≤ i32Max by omega)
      rw [← dayNumber_lt_yearStart_iff hdate', hnumber']
      exact hcycle
    · have hlater := hnext.1.1
      have hwhole := hnext.1.2.whole
      omega
    · exact fun x hx hoccurs => hnext.2 ⟨by omega, hoccurs⟩
    · have hrank := rank_le s candidate
      unfold dayNumber at hnumber
      have hcandidateDay : dayOf candidate = candidate / 86400 := rfl
      rw [show (secondsToDatetime candidate).year + 1 + 400 = (secondsToDatetime candidate).year + 401
        from rfl] at hspan
      omega
  refine ⟨next, hnext, by omega, ?_⟩
  unfold generalSearch
  rw [hstart]
  dsimp only
  rw [saturatingAdd_eq (show (secondsToDatetime candidate).year + 400 ≤ u32Max by unfold u32Max; omega), hfound]

end Loop

end Fitz.Schedule
