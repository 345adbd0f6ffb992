import Fitz.Lib.Fallible
import Fitz.Schedule.CronFastPaths

/-!
# What a cron expression promises

The next fire time of an accepted expression is the first occurrence after the start; an expression that is well
formed is refused exactly when it has no occurrence.
-/

namespace Fitz.Schedule

open Lib Lib.Gregorian Fitz.Runtime List CronSchedule

section Parsing

variable {min max : ℕ} {text : Text} {field : CronField}

theorem parseCronRange_ok (h : parseCronRange text min max = .ok field) :
    ∃ first last, field = .range first last ∧ min ≤ first ∧ first ≤ last ∧ last ≤ max := by
  unfold parseCronRange at h
  split at h
  · cases h
  split at h
  · cases h
  split at h
  next first last _ _ =>
    split at h
    · cases h
    next hbounds =>
      simp only [Bool.or_eq_true, decide_eq_true_eq, not_or, not_lt] at hbounds
      exact ⟨first, last, by simpa using h.symm, hbounds.1.2, hbounds.1.1, hbounds.2⟩
  · cases h

theorem parseStepBase_ok (hle : min ≤ max) (h : parseStepBase text min max = .ok field) :
    ∃ first last, field = .range first last ∧ min ≤ first ∧ first ≤ last ∧ last ≤ max := by
  unfold parseStepBase at h
  split at h
  · exact ⟨min, max, by simpa using h.symm, le_rfl, hle, le_rfl⟩
  · split at h
    · exact parseCronRange_ok h
    · cases h

/-- A field that matches some value of its bounds. -/
def MatchesSome (field : CronField) (min max : ℕ) : Prop :=
  ∃ v, (min ≤ v ∧ v ≤ max) ∧ matchesField field v = true

theorem parseCronComponent_ok (hle : min ≤ max) (h : parseCronComponent text min max = .ok field) :
    field.isAny = false ∧ MatchesSome field min max := by
  unfold parseCronComponent at h
  split at h
  · split at h
    · cases h
    · split at h
      · cases h
      next step _ =>
        split at h
        · cases h
        · obtain ⟨base, hbase, rfl⟩ := exists_of_map_eq_ok h
          obtain ⟨first, last, rfl, hmin, hrange, hmax⟩ := parseStepBase_ok hle hbase
          exact ⟨rfl, first, ⟨hmin, hrange.trans hmax⟩, by simp [matchesField, hrange]⟩
  · split at h
    · obtain ⟨first, last, rfl, hmin, hrange, hmax⟩ := parseCronRange_ok h
      exact ⟨rfl, first, ⟨hmin, hrange.trans hmax⟩, by simp [matchesField, hrange]⟩
    · split at h
      · cases h
      next value _ =>
        split at h
        next hbounds =>
          obtain rfl : CronField.single value = field := by simpa using h
          exact ⟨rfl, value, by simpa using hbounds, by simp [matchesField]⟩
        · cases h

theorem addMatching_bounds {values : List ℕ} (h : ∀ v ∈ values, min ≤ v ∧ v ≤ max) :
    ∀ v ∈ addMatching field min max values, min ≤ v ∧ v ≤ max := by
  have hall : ∀ candidates : List ℕ, (∀ v ∈ candidates, min ≤ v ∧ v ≤ max) →
      ∀ values : List ℕ, (∀ v ∈ values, min ≤ v ∧ v ≤ max) → ∀ v ∈ candidates.foldl (fun values value =>
          if matchesField field value && !values.contains value then values ++ [value] else values) values,
          min ≤ v ∧ v ≤ max := by
    intro candidates
    induction candidates with
    | nil => exact fun _ values hvalues => hvalues
    | cons candidate rest ih =>
      intro hcandidates values hvalues
      rw [foldl_cons]
      refine ih (fun v hv => hcandidates v (mem_cons_of_mem _ hv)) _ ?_
      split
      · intro v hv
        rcases mem_append.1 hv with hv | hv
        · exact hvalues v hv
        · exact hcandidates v (by simp_all)
      · exact hvalues
  exact hall _ (fun v hv => mem_fieldRange.1 hv) values h

theorem collectListValues_bounds (components : List Text) (values result : List ℕ)
    (hvalues : ∀ v ∈ values, min ≤ v ∧ v ≤ max)
    (h : collectListValues text min max components values = .ok result) : ∀ v ∈ result, min ≤ v ∧ v ≤ max := by
  induction components generalizing values with
  | nil =>
    obtain rfl : values = result := by simpa [collectListValues] using h
    exact hvalues
  | cons component rest ih =>
    unfold collectListValues at h
    split at h
    · cases h
    · split at h
      · cases h
      · exact ih _ (addMatching_bounds hvalues) h

theorem parseCronField_ok (hle : min ≤ max) (h : parseCronField text min max = .ok field) :
    (field.isAny = true ↔ text = ['*']) ∧ MatchesSome field min max := by
  unfold parseCronField at h
  split at h
  next hwild =>
    obtain rfl : CronField.any = field := by simpa using h
    exact ⟨by simpa [CronField.isAny] using hwild, min, ⟨le_rfl, hle⟩, rfl⟩
  rename_i hwild
  have hwild : text ≠ ['*'] := by simpa using hwild
  split at h
  · split at h
    · cases h
    next values hvalues =>
      split at h
      · cases h
      rename_i hnonempty
      obtain rfl : CronField.list (values.insertionSort (· ≤ ·)) = field := by simpa using h
      obtain ⟨v, hv⟩ := exists_mem_of_ne_nil values (by simpa using hnonempty)
      refine ⟨by simpa [CronField.isAny] using hwild, v,
        collectListValues_bounds _ [] values (by simp) hvalues v hv, ?_⟩
      unfold matchesField
      rw [contains_iff_mem, mem_insertionSort]
      exact hv
  · have hcomponent := parseCronComponent_ok hle h
    exact ⟨by simpa [hcomponent.1] using hwild, hcomponent.2⟩

variable {s : CronSchedule} {expr : Text}

theorem parseFields_ok (h : parseFields expr = .ok s) :
    Compiled s ∧ (s.dayOfMonth.isAny = true ↔ (splitWhitespace expr)[2]? = some ['*']) ∧
      (s.dayOfWeek.isAny = true ↔ (splitWhitespace expr)[4]? = some ['*']) := by
  unfold parseFields at h
  split at h
  next minute hour dayOfMonth month dayOfWeek hfields =>
    obtain ⟨minute, hminute, h⟩ := exists_of_bind_eq_ok h
    obtain ⟨hour, hhour, h⟩ := exists_of_bind_eq_ok h
    obtain ⟨dayOfMonth, hdom, h⟩ := exists_of_bind_eq_ok h
    obtain ⟨month, hmonth, h⟩ := exists_of_bind_eq_ok h
    obtain ⟨dayOfWeek, hdow, h⟩ := exists_of_bind_eq_ok h
    obtain rfl : compile minute hour dayOfMonth month dayOfWeek = s := by simpa [pure, Except.pure] using h
    obtain ⟨v, hv, hfieldMinute⟩ := (parseCronField_ok (by decide) hminute).2
    obtain ⟨w, hw, hfieldHour⟩ := (parseCronField_ok (by decide) hhour).2
    refine ⟨⟨rfl, ⟨v, hv.2, hfieldMinute⟩, ⟨w, hw.2, hfieldHour⟩⟩, ?_, ?_⟩
    · rw [hfields]
      exact (parseCronField_ok (by decide) hdom).1.trans (by simp)
    · rw [hfields]
      exact (parseCronField_ok (by decide) hdow).1.trans (by simp)
  · cases h

theorem parse_ok (h : CronSchedule.parse expr = .ok s) : parseFields expr = .ok s ∧ s.isSatisfiable = true := by
  obtain ⟨schedule, hfields, h⟩ := exists_of_bind_eq_ok h
  cases hsatisfiable : schedule.isSatisfiable with
  | false => exact absurd h (by simp [hsatisfiable])
  | true =>
    obtain rfl : schedule = s := by simpa [hsatisfiable] using h
    exact ⟨hfields, hsatisfiable⟩

theorem parse_error_iff (h : parseFields expr = .ok s) :
    (∃ e, CronSchedule.parse expr = .error e) ↔ s.isSatisfiable = false := by
  unfold parse
  rw [h]
  cases hsatisfiable : s.isSatisfiable <;> simp [bind, Except.bind, hsatisfiable]

end Parsing

/-- The nanoseconds of a second. -/
def nanosPerSecond : ℕ := 10 ^ 9

/-- The reading of the clock is exact: it puts the start at so many nanoseconds since the Unix epoch. -/
structure ExactReading (clock : Clock) (start epochNanos : ℕ) : Prop where
  exact : start + clock.nowEpochMs * nanosPerMs = clock.nowInstant + epochNanos
  bound : clock.nowEpochMs ≤ u64Max

variable {s : CronSchedule}

theorem Compiled.isSatisfiable_iff_occurs (hs : Compiled s) {cycle : ℕ} (hcycle : epochYear ≤ cycle) :
    s.isSatisfiable = true ↔ ∃ x, (yearStart cycle ≤ dayOf x ∧ dayOf x < yearStart (cycle + 400)) ∧ Occurs s x := by
  refine ⟨fun h => hs.exists_occurs h hcycle, fun ⟨x, _, hx⟩ => ?_⟩
  obtain ⟨y, m, d, hselects, _⟩ := hx.date
  exact hs.isSatisfiable_iff.2 ⟨y, m, d, hselects⟩

/-- The instant returned is as far after the start as the occurrence is after the wall-clock time of the start. -/
theorem Compiled.tryNextFireTime_of_read (hs : Compiled s) (h : s.isSatisfiable = true)
    {clock : Clock} {start epochMs : ℕ} (hread : instantToEpochMsWithReference start clock = epochMs)
    (hlimit : BeforeLimit (epochMs / 1000)) : ∃ next instant, (IsNext s (epochMs / 1000) next ∧
    dayOf next ≤ i32Max) ∧
      s.tryNextFireTimeWithClock start clock = .ok instant ∧
      (start + (next * 1000 - epochMs) * nanosPerMs ≤ clock.lastInstant →
        instant = start + (next * 1000 - epochMs) * nanosPerMs) ∧
      s.nextSeconds (epochMs / 1000) = .ok next ∧ s.generalSearch (epochMs / 1000) = .ok next := by
  obtain ⟨next, ⟨hnext, hbound⟩, hseconds, hgeneral⟩ := hs.nextSeconds_eq h hlimit
  refine ⟨next, instantFromEpochSeconds next start epochMs clock.lastInstant, ⟨hnext, hbound⟩, ?_, fun hfits => ?_,
    hseconds, hgeneral⟩
  · unfold tryNextFireTimeWithClock
    simp only [hread, hseconds]
    rfl
  · have hlater := hnext.1.1
    have hms : saturatingMul u64Max next 1000 = next * 1000 := by
      unfold dayOf i32Max at hbound
      unfold saturatingMul u64Max
      omega
    unfold instantFromEpochSeconds
    rw [hms]
    exact epochMsToInstant_of_le (by omega) hfits

/-- An instant found by a conversion to milliseconds is the anchor or whole milliseconds away from it. -/
theorem mod_of_epochMsToInstant {timestampMs anchor anchorMs lastInstant distance : ℕ}
    (h : epochMsToInstantWithReference timestampMs anchor anchorMs lastInstant = anchor + distance) :
    distance % nanosPerMs = 0 := by
  unfold epochMsToInstantWithReference checkedAdd at h
  split at h
  · by_cases hfits : anchor + (timestampMs - anchorMs) * nanosPerMs ≤ lastInstant
    · rw [if_pos hfits, Option.getD_some] at h
      rw [← Nat.add_left_cancel h, Nat.mul_mod_left]
    · rw [if_neg hfits, Option.getD_none] at h
      rw [Nat.left_eq_add.mp h, Nat.zero_mod]
  · have hzero : distance = 0 := by
      dsimp only at h
      split at h <;> omega
    rw [hzero, Nat.zero_mod]

/-- The occurrence is returned only from a start that is at a whole millisecond. -/
theorem whole_of_tryNextFireTime {clock : Clock} {start epochNanos next : ℕ}
    (hlater : epochNanos / nanosPerSecond < next)
    (h : s.tryNextFireTimeWithClock start clock = .ok (start + (next * nanosPerSecond - epochNanos))) :
    epochNanos % nanosPerMs = 0 := by
  unfold tryNextFireTimeWithClock at h
  obtain ⟨found, -, hfound⟩ := exists_of_bind_eq_ok h
  have hwhole := mod_of_epochMsToInstant (Except.ok.inj hfound)
  simp only [nanosPerMs, nanosPerSecond] at hlater hwhole ⊢
  omega

/-- For every accepted expression and every start before the year one million, the instant returned is the first
occurrence after the whole second of the start exactly when the start is at a whole millisecond; the general search
gives the same occurrence. A day field is unrestricted exactly when it is written as a wildcard. A well-formed
expression is refused exactly when no cycle of four hundred years has an occurrence. -/
theorem next_fire_time_is_first (expr : Text) :
    (∀ s clock start epochNanos, CronSchedule.parse expr = .ok s → ExactReading clock start epochNanos →
      BeforeLimit (epochNanos / nanosPerSecond) → ∃ next, IsNext s (epochNanos / nanosPerSecond) next ∧
        (epochNanos % nanosPerMs = 0 → ∃ instant, s.tryNextFireTimeWithClock start clock = .ok instant ∧
          (start + (next * nanosPerSecond - epochNanos) ≤ clock.lastInstant →
            instant = start + (next * nanosPerSecond - epochNanos))) ∧
        (s.tryNextFireTimeWithClock start clock = .ok (start + (next * nanosPerSecond - epochNanos)) →
          epochNanos % nanosPerMs = 0) ∧
        s.nextSeconds (epochNanos / nanosPerSecond) = .ok next ∧
        s.generalSearch (epochNanos / nanosPerSecond) = .ok next) ∧
    ∀ s, parseFields expr = .ok s → ((s.dayOfMonth.isAny = true ↔ (splitWhitespace expr)[2]? = some ['*']) ∧
        (s.dayOfWeek.isAny = true ↔ (splitWhitespace expr)[4]? = some ['*'])) ∧ ∀ cycle, epochYear ≤ cycle →
        ((∃ e, CronSchedule.parse expr = .error e) ↔
          ∀ x, yearStart cycle ≤ dayOf x → dayOf x < yearStart (cycle + 400) → ¬Occurs s x) := by
  constructor
  · intro s clock start epochNanos hparse hexact hlimit
    obtain ⟨hfields, hsatisfiable⟩ := parse_ok hparse
    have hs := (parseFields_ok hfields).1
    obtain ⟨next, ⟨hnext, -⟩, hseconds, hgeneral⟩ := hs.nextSeconds_eq hsatisfiable hlimit
    refine ⟨next, hnext, fun hwhole => ?_, whole_of_tryNextFireTime hnext.1.1, hseconds, hgeneral⟩
    obtain ⟨epochMs, rfl⟩ := Nat.dvd_of_mod_eq_zero hwhole
    have hsecond : nanosPerMs * epochMs / nanosPerSecond = epochMs / 1000 := by
      unfold nanosPerMs nanosPerSecond
      omega
    rw [hsecond] at hlimit hseconds
    have hepoch : epochMs ≤ u64Max := by
      have hlast := yearStart_limit
      unfold BeforeLimit at hlimit
      unfold u64Max
      omega
    have hread := instantToEpochMs_of_exact hepoch hexact.bound (by rw [hexact.exact, mul_comm])
    obtain ⟨found, instant, -, hinstant, hfits, hfound, -⟩ := hs.tryNextFireTime_of_read hsatisfiable hread hlimit
    obtain rfl : found = next := Except.ok.inj (hfound.symm.trans hseconds)
    have hdistance : found * nanosPerSecond - nanosPerMs * epochMs = (found * 1000 - epochMs) * nanosPerMs := by
      unfold nanosPerMs nanosPerSecond
      omega
    rw [hdistance]
    exact ⟨instant, hinstant, hfits⟩
  · intro s hfields
    obtain ⟨hs, hdom, hdow⟩ := parseFields_ok hfields
    refine ⟨⟨hdom, hdow⟩, fun cycle hcycle => ?_⟩
    rw [parse_error_iff hfields, Bool.eq_false_iff, Ne, hs.isSatisfiable_iff_occurs hcycle]
    exact ⟨fun hnone x hlow hhigh hx => hnone ⟨x, ⟨hlow, hhigh⟩, hx⟩,
      fun hnone ⟨x, hrange, hx⟩ => hnone x hrange.1 hrange.2 hx⟩

/-- The expression of midnight on the leap day. -/
def leapDay : Text := "0 0 29 2 *".toList

/-- The clock of a start in November 2023. -/
def clock2023 : Clock := ⟨5000000000, 1700000000000, 9000000000000000000000000000⟩

theorem beforeLimit_of_le {seconds : ℕ} (h : seconds ≤ 1800000000) : BeforeLimit seconds := by
  have hyears : 1000000 - epochYear ≤ yearStart 1000000 :=
    Nat.sub_le_iff_le_add'.2 (le_yearStart (by decide))
  have hstart : (1800000000 : ℕ) < (1000000 - epochYear) * 86400 := by decide
  exact lt_of_le_of_lt h (lt_of_lt_of_le hstart (Nat.mul_le_mul_right 86400 hyears))

/-- Read then, the expression next fires at the start of the leap day of 2024. -/
theorem next_fire_time_is_first_leapDay :
    ∃ s next instant, CronSchedule.parse leapDay = .ok s ∧
      ExactReading clock2023 5000000000 (1700000000 * nanosPerSecond) ∧ IsNext s 1700000000 next ∧
      s.tryNextFireTimeWithClock 5000000000 clock2023 = .ok instant ∧ next = 1709164800 := by
  obtain ⟨s, hs⟩ : ∃ s, s = compile (.single 0) (.single 0) (.single 29) (.single 2) .any := ⟨_, rfl⟩
  have hparse : parse leapDay = .ok s := by
    rw [hs]
    decide +kernel
  have hexact : ExactReading clock2023 5000000000 (1700000000 * nanosPerSecond) :=
    ⟨by decide +kernel, by decide +kernel⟩
  have hstart : 1700000000 * nanosPerSecond / nanosPerSecond = 1700000000 := by decide +kernel
  obtain ⟨next, hnext, hreturned, -, hseconds, -⟩ :=
    (next_fire_time_is_first leapDay).1 s clock2023 5000000000 (1700000000 * nanosPerSecond) hparse hexact
      (beforeLimit_of_le (by decide +kernel))
  rw [hstart] at hnext hseconds
  obtain ⟨instant, hinstant, -⟩ := hreturned (by decide +kernel)
  refine ⟨s, next, instant, hparse, hexact, hnext, hinstant, ?_⟩
  have hfound : s.nextSeconds 1700000000 = .ok 1709164800 := by
    rw [hs]
    decide +kernel
  rw [hfound] at hseconds
  simpa using hseconds.symm

/-- From half a millisecond before a minute that the clock has reached, the expression of every minute is given the
minute after it: the occurrence at the minute is skipped. -/
theorem next_fire_time_skips_minute : ∃ s, CronSchedule.parse "* * * * *".toList = .ok s ∧
    ExactReading ⟨60000000000, 60000, 9000000000000000000⟩ 59999500000 59999500000 ∧ IsNext s 59 60 ∧
    s.tryNextFireTimeWithClock 59999500000 ⟨60000000000, 60000, 9000000000000000000⟩ =
      .ok (59999500000 + 60 * nanosPerSecond) := by
  obtain ⟨s, hs⟩ : ∃ s, s = compile .any .any .any .any .any := ⟨_, rfl⟩
  have hparse : parse "* * * * *".toList = .ok s := by
    rw [hs]
    decide +kernel
  obtain ⟨hfields, hsatisfiable⟩ := parse_ok hparse
  obtain ⟨next, ⟨hnext, -⟩, hseconds, -⟩ :=
    (parseFields_ok hfields).1.nextSeconds_eq hsatisfiable (beforeLimit_of_le (by decide : 59 ≤ 1800000000))
  have hfound : s.nextSeconds 59 = .ok 60 := by
    rw [hs]
    decide +kernel
  obtain rfl : next = 60 := Except.ok.inj (hseconds.symm.trans hfound)
  refine ⟨s, hparse, ⟨by decide +kernel, by decide +kernel⟩, hnext, ?_⟩
  rw [hs]
  decide +kernel

/-- Fire times that follow a start, each the next one after the one before. -/
inductive Fires (s : CronSchedule) : ℕ → List ℕ → Prop
  | none {seconds} : Fires s seconds []
  | next {seconds next times} (hlimit : BeforeLimit seconds) (hnext : s.nextSeconds seconds = .ok next)
    (h : Fires s next times) : Fires s seconds (next :: times)

/-- Fire times skip nothing. Asked again and again from its last answer, an accepted expression gives its
occurrences after the start in order, every one up to the last. -/
theorem fire_times_skip_nothing {expr : Text} {s : CronSchedule} (hparse : CronSchedule.parse expr = .ok s)
    {seconds : ℕ} {times : List ℕ} (h : Fires s seconds times) : times.Pairwise (· < ·) ∧
      ∀ x, x ∈ times ↔ seconds < x ∧ x ≤ times.getLastD seconds ∧ Occurs s x := by
  obtain ⟨hfields, hsatisfiable⟩ := parse_ok hparse
  induction h with
  | none => simpa using fun x hlt hle => absurd hlt (not_lt.mpr hle)
  | @next seconds next times hlimit hnext _ ih =>
    obtain ⟨found, ⟨hfirst, -⟩, hfound, -⟩ := (parseFields_ok hfields).1.nextSeconds_eq hsatisfiable hlimit
    obtain rfl : found = next := Except.ok.inj (hfound.symm.trans hnext)
    have hlast : found ≤ times.getLastD found := by
      cases times with
      | nil => exact le_rfl
      | cons x times =>
        have hx := (ih.2 x).mp List.mem_cons_self
        exact hx.1.le.trans hx.2.1
    rw [List.getLastD_cons]
    refine ⟨List.pairwise_cons.mpr ⟨fun x hx => ((ih.2 x).mp hx).1, ih.1⟩, fun x => ?_⟩
    rw [List.mem_cons, ih.2]
    constructor
    · rintro (rfl | ⟨hlt, hle, hx⟩)
      · exact ⟨hfirst.1.1, hlast, hfirst.1.2⟩
      · exact ⟨hfirst.1.1.trans hlt, hle, hx⟩
    · rintro ⟨hlt, hle, hx⟩
      rcases (hfirst.2 ⟨hlt, hx⟩).eq_or_lt with heq | hlater
      · exact .inl heq.symm
      · exact .inr ⟨hlater, hle, hx⟩

/-- The two leap days after the start of 2023 are the only ones up to the second. -/
theorem fire_times_skip_nothing_leapDay : ∃ s, CronSchedule.parse leapDay = .ok s ∧
    ∀ x, x ∈ [1709164800, 1835395200] ↔ 1700000000 < x ∧ x ≤ 1835395200 ∧ Occurs s x := by
  obtain ⟨s, hs⟩ : ∃ s, s = compile (.single 0) (.single 0) (.single 29) (.single 2) .any := ⟨_, rfl⟩
  have hparse : parse leapDay = .ok s := by
    rw [hs]
    decide +kernel
  have hnext : s.nextSeconds 1700000000 = .ok 1709164800 ∧ s.nextSeconds 1709164800 = .ok 1835395200 := by
    rw [hs]
    decide +kernel
  exact ⟨s, hparse, (fire_times_skip_nothing hparse (.next (beforeLimit_of_le (by decide)) hnext.1
    (.next (beforeLimit_of_le (by decide)) hnext.2 .none))).2⟩

end Fitz.Schedule
