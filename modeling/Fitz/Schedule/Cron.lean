import Fitz.Lib.Gregorian
import Fitz.Runtime.Clock

/-!
# Cron expressions

The five-field expressions of `cron.rs`: their parser, the matchers compiled from the fields, the calendar
arithmetic, the fast paths and the jumping search for the next occurrence.
-/

namespace Fitz.Schedule

open Lib Lib.Gregorian Fitz.Runtime

/-- `CronField`. -/
inductive CronField where
  | any
  | single (value : ℕ)
  | range (first last : ℕ)
  | list (values : List ℕ)
  | step (base : CronField) (step : ℕ)
  deriving Repr, DecidableEq

/-- `CronField::is_any`. -/
def CronField.isAny : CronField → Bool
  | .any => true
  | _ => false

/-- `CronField::as_single`. -/
def CronField.asSingle : CronField → Option ℕ
  | .single value => some value
  | _ => none

/-- `matches_field`. -/
def matchesField : CronField → ℕ → Bool
  | .any, _ => true
  | .single n, value => value == n
  | .range first last, value => value ≥ first && value ≤ last
  | .list values, value => values.contains value
  | .step base step, value =>
    matchesField base value &&
      match base with
      | .any => value % step == 0
      | .range first _ => value ≥ first && (value - first) % step == 0
      | _ => true

/-- `FieldMatcher`: the matching values in ascending order. -/
structure FieldMatcher where
  values : List ℕ
  deriving Repr, DecidableEq

/-- The values a field may take. -/
def fieldRange (min max : ℕ) : List ℕ := List.range' min (max + 1 - min)

/-- `FieldMatcher::from_field`. -/
def FieldMatcher.fromField (field : CronField) (min max : ℕ) : FieldMatcher :=
  ⟨(fieldRange min max).filter (matchesField field)⟩

/-- `FieldMatcher::matches`. -/
def FieldMatcher.matches (m : FieldMatcher) (value : ℕ) : Bool := m.values.contains value

/-- `FieldMatcher::next_at_or_after`: the least value from the current one on, or the least value of all,
marked as wrapped. -/
def FieldMatcher.nextAtOrAfter (m : FieldMatcher) (current : ℕ) : Option (ℕ × Bool) :=
  match m.values.find? (current ≤ ·) with
  | some value => some (value, false)
  | none => m.values.head?.map (·, true)

/-- `CronSchedule`: the fields and the matchers compiled from them. -/
structure CronSchedule where
  minute : CronField
  hour : CronField
  dayOfMonth : CronField
  month : CronField
  dayOfWeek : CronField
  minuteMatcher : FieldMatcher
  hourMatcher : FieldMatcher
  dayOfMonthMatcher : FieldMatcher
  monthMatcher : FieldMatcher
  dayOfWeekMatcher : FieldMatcher
  deriving Repr, DecidableEq

/-- What `seconds_to_datetime` returns. -/
structure DateTime where
  year : ℕ
  month : ℕ
  day : ℕ
  hour : ℕ
  minute : ℕ
  dayOfWeek : ℕ
  deriving Repr, DecidableEq

/-- The largest signed 32-bit value. -/
def i32Max : ℕ := 2 ^ 31 - 1

/-- The year loop of `seconds_to_datetime`. -/
def yearLoop : ℕ → ℕ → ℕ → ℕ × ℕ
  | 0, year, days => (year, days)
  | fuel + 1, year, days =>
    let daysInYear := if isLeapYear year then 366 else 365
    if days < daysInYear then (year, days) else yearLoop fuel (year + 1) (days - daysInYear)

/-- The month loop of `seconds_to_datetime`. -/
def monthLoop : List ℕ → ℕ → ℕ → ℕ × ℕ
  | [], month, days => (month, days)
  | daysInThisMonth :: rest, month, days =>
    if days < daysInThisMonth then (month, days) else monthLoop rest (month + 1) (days - daysInThisMonth)

/-- The month lengths of `seconds_to_datetime`. -/
def monthLengths (year : ℕ) : List ℕ :=
  [31, if isLeapYear year then 29 else 28, 31, 30, 31, 30, 31, 31, 30, 31, 30, 31]

/-- `seconds_to_datetime`; every turn of the year loop takes at least 365 days. -/
def secondsToDatetime (seconds : ℕ) : DateTime :=
  let days := min (seconds / 86400) i32Max
  let secondsInDay := seconds % 86400
  let (year, daysOfYear) := yearLoop (days / 365 + 1) 1970 days
  let (month, daysOfMonth) := monthLoop (monthLengths year) 1 daysOfYear
  { year, month, day := daysOfMonth + 1, hour := secondsInDay / 3600,
    minute := secondsInDay % 3600 / 60, dayOfWeek := (days + 4) % 7 }

/-- `datetime_to_seconds`. -/
def datetimeToSeconds (year month day hour minute : ℕ) : ℕ :=
  let years := ((List.range' 1970 (year - 1970)).map fun y => if isLeapYear y then 366 else 365).sum
  let months := ((List.range' 1 (month - 1)).map (daysInMonth year)).sum
  (years + months + (day - 1)) * 86400 + hour * 3600 + minute * 60

/-- `day_of_week_for_date`. -/
def dayOfWeekForDate (year month day : ℕ) : ℕ :=
  (secondsToDatetime (datetimeToSeconds year month day 0 0)).dayOfWeek

/-- `increment_month`. -/
def incrementMonth (year month : ℕ) : ℕ × ℕ :=
  if month == 12 then (saturatingAdd u32Max year 1, 1) else (year, month + 1)

/-- `matches_day`. -/
def CronSchedule.matchesDay (s : CronSchedule) (day dayOfWeek : ℕ) : Bool :=
  match s.dayOfMonth.isAny, s.dayOfWeek.isAny with
  | true, true => true
  | true, false => s.dayOfWeekMatcher.matches dayOfWeek
  | false, true => s.dayOfMonthMatcher.matches day
  | false, false => s.dayOfMonthMatcher.matches day || s.dayOfWeekMatcher.matches dayOfWeek

/-- `next_matching_day`. -/
def CronSchedule.nextMatchingDay (s : CronSchedule) (year month startDay : ℕ) : Option ℕ :=
  (fieldRange startDay (daysInMonth year month)).find? fun day =>
    s.matchesDay day (dayOfWeekForDate year month day)

/-- `is_satisfiable`. -/
def CronSchedule.isSatisfiable (s : CronSchedule) : Bool :=
  (List.range' 2000 400).any fun year =>
    (fieldRange 1 12).any fun month =>
      s.monthMatcher.matches month &&
        (fieldRange 1 (daysInMonth year month)).any fun day =>
          s.matchesDay day (dayOfWeekForDate year month day)

/-- `char::is_whitespace`. -/
def isWhitespace (c : Char) : Bool :=
  let n := c.toNat
  (9 ≤ n && n ≤ 13) || n == 0x20 || n == 0x85 || n == 0xA0 || n == 0x1680 ||
    (0x2000 ≤ n && n ≤ 0x200A) || n == 0x2028 || n == 0x2029 || n == 0x202F || n == 0x205F || n == 0x3000

/-- `str::split_whitespace`. -/
def splitWhitespace (text : Text) : List Text :=
  (text.splitOnP isWhitespace).filter fun piece => !piece.isEmpty

/-- The digits of `str::parse::<u32>`, failing past the largest value. -/
def parseDigits : ℕ → Text → Option ℕ
  | value, [] => some value
  | value, c :: rest =>
    if c.isDigit then
      let next := value * 10 + (c.toNat - '0'.toNat)
      if next ≤ u32Max then parseDigits next rest else none
    else none

/-- `str::parse::<u32>`: one leading plus sign is allowed. -/
def parseU32 : Text → Option ℕ
  | [] => none
  | ['+'] => none
  | '+' :: digits => parseDigits 0 digits
  | digits => parseDigits 0 digits

/-- The decimal text of a number in an error. -/
def showNat (n : ℕ) : String := toString n

/-- `parse_cron_range`. -/
def parseCronRange (text : Text) (min max : ℕ) : Except String CronField :=
  match splitOnce ['-'] text with
  | none => .error "Invalid range format"
  | some (first, last) =>
    if first.isEmpty || last.isEmpty || last.contains '-' then .error "Invalid range format"
    else match parseU32 first, parseU32 last with
      | some first, some last =>
        if first > last || first < min || last > max then
          .error ("Cron range " ++ showNat first ++ "-" ++ showNat last ++ " is outside [" ++
            showNat min ++ ", " ++ showNat max ++ "]")
        else .ok (.range first last)
      | _, _ => .error "Invalid range format"

/-- The base of a step: a wildcard or a range. -/
def parseStepBase (base : Text) (min max : ℕ) : Except String CronField :=
  if base == ['*'] then .ok (.range min max)
  else if base.contains '-' then parseCronRange base min max
  else .error "Cron steps require a wildcard or range base"

/-- `parse_cron_component`. -/
def parseCronComponent (component : Text) (min max : ℕ) : Except String CronField :=
  match splitOnce ['/'] component with
  | some (base, stepText) =>
    if base.isEmpty || stepText.isEmpty || stepText.contains '/' then .error "Invalid step format"
    else match parseU32 stepText with
      | none => .error "Invalid step format"
      | some step =>
        if step == 0 then .error "Cron step must be greater than zero"
        else (parseStepBase base min max).map (.step · step)
  | none =>
    if component.contains '-' then parseCronRange component min max
    else match parseU32 component with
      | none => .error ("Unparseable cron field: " ++ String.ofList component)
      | some value =>
        if min ≤ value && value ≤ max then .ok (.single value)
        else .error ("Value " ++ showNat value ++ " out of range [" ++ showNat min ++ ", " ++
          showNat max ++ "]")

/-- The values of a list so far, with those of one more component. -/
def addMatching (parsed : CronField) (min max : ℕ) (values : List ℕ) : List ℕ :=
  (fieldRange min max).foldl (fun values value =>
    if matchesField parsed value && !values.contains value then values ++ [value] else values) values

/-- The loop of `parse_cron_field` over the components of a list. -/
def collectListValues (field : Text) (min max : ℕ) : List Text → List ℕ → Except String (List ℕ)
  | [], values => .ok values
  | component :: rest, values =>
    if component.isEmpty || component == ['*'] then
      .error ("Invalid cron list: " ++ String.ofList field)
    else match parseCronComponent component min max with
      | .error e => .error e
      | .ok parsed => collectListValues field min max rest (addMatching parsed min max values)

/-- `parse_cron_field`. -/
def parseCronField (field : Text) (min max : ℕ) : Except String CronField :=
  if field == ['*'] then .ok .any
  else if field.contains ',' then
    match collectListValues field min max (field.splitOn ',') [] with
    | .error e => .error e
    | .ok values =>
      if values.isEmpty then .error ("Cron list has no values: " ++ String.ofList field)
      else .ok (.list (values.insertionSort (· ≤ ·)))
  else parseCronComponent field min max

/-- The schedule of five parsed fields. -/
def compile (minute hour dayOfMonth month dayOfWeek : CronField) : CronSchedule where
  minute
  hour
  dayOfMonth
  month
  dayOfWeek
  minuteMatcher := .fromField minute 0 59
  hourMatcher := .fromField hour 0 23
  dayOfMonthMatcher := .fromField dayOfMonth 1 31
  monthMatcher := .fromField month 1 12
  dayOfWeekMatcher := .fromField dayOfWeek 0 6

/-- The part of `CronSchedule::parse` before the satisfiability check. -/
def parseFields (expr : Text) : Except String CronSchedule :=
  match splitWhitespace expr with
  | [minute, hour, dayOfMonth, month, dayOfWeek] => do
    let minute ← parseCronField minute 0 59
    let hour ← parseCronField hour 0 23
    let dayOfMonth ← parseCronField dayOfMonth 1 31
    let month ← parseCronField month 1 12
    let dayOfWeek ← parseCronField dayOfWeek 0 6
    return compile minute hour dayOfMonth month dayOfWeek
  | _ => .error "Cron expression must have exactly 5 fields"

/-- `CronSchedule::parse`. -/
def CronSchedule.parse (expr : Text) : Except String CronSchedule := do
  let schedule ← parseFields expr
  if !schedule.isSatisfiable then .error "Cron expression has no possible fire time"
  else .ok schedule

/-- `next_minute_start_seconds`. -/
def nextMinuteStartSeconds (currentSecs : ℕ) : ℕ :=
  ((checkedAdd u64Max (currentSecs / 60) 1).bind (checkedMul u64Max · 60)).getD u64Max

/-- `candidate_in_month`. -/
def candidateInMonth (monthStart year month targetDay targetHour targetMinute : ℕ) : Option ℕ :=
  if targetDay > daysInMonth year month then none
  else some <|
    saturatingAdd u64Max
      (saturatingAdd u64Max
        (saturatingAdd u64Max monthStart (saturatingMul u64Max (targetDay - 1) 86400))
        (saturatingMul u64Max targetHour 3600))
      (saturatingMul u64Max targetMinute 60)

/-- The loop of `monthly_candidate_seconds` over the months after the current one. -/
def monthlySearch (targetDay targetHour targetMinute : ℕ) : ℕ → ℕ → ℕ → ℕ → Option ℕ
  | 0, _, _, _ => none
  | limit + 1, monthStart, year, month =>
    let nextStart := saturatingAdd u64Max monthStart (saturatingMul u64Max (daysInMonth year month) 86400)
    let next := incrementMonth year month
    match candidateInMonth nextStart next.1 next.2 targetDay targetHour targetMinute with
    | some candidate => some candidate
    | none => monthlySearch targetDay targetHour targetMinute limit nextStart next.1 next.2

/-- `monthly_candidate_seconds`, with `MONTH_SEARCH_LIMIT` 48. -/
def CronSchedule.monthlyCandidateSeconds (s : CronSchedule) (currentSecs : ℕ) : Option ℕ := do
  let targetDay ← s.dayOfMonth.asSingle
  let targetHour ← s.hour.asSingle
  let targetMinute ← s.minute.asSingle
  let now := secondsToDatetime currentSecs
  let currentDayStart := currentSecs - currentSecs % 86400
  let monthStart := currentDayStart - saturatingMul u64Max (now.day - 1) 86400
  match (candidateInMonth monthStart now.year now.month targetDay targetHour targetMinute).filter
    (currentSecs < ·) with
  | some candidate => some candidate
  | none => monthlySearch targetDay targetHour targetMinute 48 monthStart now.year now.month

/-- `simple_candidate_seconds`. -/
def CronSchedule.simpleCandidateSeconds (s : CronSchedule) (currentSecs : ℕ) : Option ℕ :=
  if !s.month.isAny || !s.dayOfWeek.isAny then none
  else if !s.dayOfMonth.isAny then s.monthlyCandidateSeconds currentSecs
  else if s.hour.isAny && s.minute.isAny then some (nextMinuteStartSeconds currentSecs)
  else if s.hour.isAny then do
    let targetMinute ← s.minute.asSingle
    let target := currentSecs - currentSecs % 3600 + targetMinute * 60
    return if target > currentSecs then target else target + 3600
  else do
    let targetHour ← s.hour.asSingle
    let targetMinute ← s.minute.asSingle
    let target := currentSecs - currentSecs % 86400 + targetHour * 3600 + targetMinute * 60
    return if target > currentSecs then target else target + 86400

/-- What one turn of the search loop does with its candidate. -/
inductive SearchStep where
  | found
  | jump (candidate : ℕ)
  | stop
  deriving Repr, DecidableEq

/-- The turn at a candidate whose month and day match: its hour, then its minute. -/
def CronSchedule.timeStep (s : CronSchedule) (now : DateTime) : SearchStep :=
  match s.hourMatcher.nextAtOrAfter now.hour with
  | none => .stop
  | some (_, true) => .jump (datetimeToSeconds now.year now.month now.day 0 0 + 86400)
  | some (targetHour, false) =>
    if targetHour != now.hour then
      .jump (datetimeToSeconds now.year now.month now.day targetHour 0)
    else match s.minuteMatcher.nextAtOrAfter now.minute with
      | none => .stop
      | some (_, true) => .jump (datetimeToSeconds now.year now.month now.day now.hour 0 + 3600)
      | some (targetMinute, false) =>
        if targetMinute != now.minute then
          .jump (datetimeToSeconds now.year now.month now.day now.hour targetMinute)
        else .found

/-- The turn at a candidate whose month matches: its day, then its time. -/
def CronSchedule.dayStep (s : CronSchedule) (now : DateTime) : SearchStep :=
  match s.nextMatchingDay now.year now.month now.day with
  | none =>
    let next := incrementMonth now.year now.month
    .jump (datetimeToSeconds next.1 next.2 1 0 0)
  | some targetDay =>
    if targetDay != now.day then .jump (datetimeToSeconds now.year now.month targetDay 0 0)
    else s.timeStep now

/-- One turn of the search loop. -/
def CronSchedule.searchStep (s : CronSchedule) (endYear candidate : ℕ) : SearchStep :=
  let now := secondsToDatetime candidate
  if now.year > endYear then .stop
  else match s.monthMatcher.nextAtOrAfter now.month with
    | none => .stop
    | some (targetMonth, wrappedMonth) =>
      if wrappedMonth || targetMonth != now.month then
        let targetYear := if wrappedMonth then saturatingAdd u32Max now.year 1 else now.year
        .jump (datetimeToSeconds targetYear targetMonth 1 0 0)
      else s.dayStep now

/-- The search loop, for at most so many turns. -/
def CronSchedule.search (s : CronSchedule) (endYear : ℕ) : ℕ → ℕ → Option ℕ
  | 0, _ => none
  | turns + 1, candidate =>
    match s.searchStep endYear candidate with
    | .found => some candidate
    | .jump next => s.search endYear turns next
    | .stop => none

/-- The general search of `try_next_fire_time_with_clock`, after a whole second. -/
def CronSchedule.generalSearch (s : CronSchedule) (seconds : ℕ) : Except String ℕ :=
  match (checkedAdd u64Max (seconds / 60) 1).bind (checkedMul u64Max · 60) with
  | none => .error "Cron next-fire calculation overflowed"
  | some candidate =>
    let endYear := saturatingAdd u32Max (secondsToDatetime candidate).year 400
    match s.search endYear (401 * 366 * 4) candidate with
    | some found => .ok found
    | none => .error "Cron schedule has no next fire time within a Gregorian cycle"

/-- The seconds `try_next_fire_time_with_clock` settles on: a fast path's, or the general search's. -/
def CronSchedule.nextSeconds (s : CronSchedule) (seconds : ℕ) : Except String ℕ :=
  match (s.simpleCandidateSeconds seconds).filter fun candidate =>
    candidate > seconds && candidate != u64Max with
  | some candidate => .ok candidate
  | none => s.generalSearch seconds

/-- `instant_from_epoch_seconds`. -/
def instantFromEpochSeconds (candidateSecs anchorInstant anchorEpochMs lastInstant : ℕ) : ℕ :=
  epochMsToInstantWithReference (saturatingMul u64Max candidateSecs 1000) anchorInstant anchorEpochMs
    lastInstant

/-- `try_next_fire_time_with_clock`. -/
def CronSchedule.tryNextFireTimeWithClock (s : CronSchedule) (start : ℕ) (clock : Clock) :
    Except String ℕ := do
  let startEpochMs := instantToEpochMsWithReference start clock
  let found ← s.nextSeconds (startEpochMs / 1000)
  return instantFromEpochSeconds found start startEpochMs clock.lastInstant

end Fitz.Schedule
