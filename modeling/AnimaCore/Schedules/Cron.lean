import AnimaCore.Texts
import AnimaCore.Schedules.WallClock

/-!
# AnimaCore.Schedules.Cron — five-field cron expressions

`schedules/cron.rs`: an expression is parsed into one set of bits for each field, and the next fire is searched on the wall
clock of a zone, day by day and minute by minute.

* `CronError.refused` is a message of the parser; `CronError.shift` is a shift by 64 or more, which would panic.
* Sums of `u32` do not wrap, but for `value + step`, which is checked.
-/

namespace AnimaCore.Schedules

open Lib
open Texts (Text trim splitOnce eqIgnoreAsciiCase)

/-! ## Limits and messages -/

def maxCronExpressionChars : ℕ := 200

def cronSearchDays : ℕ := 28 * 366

def cronEmpty : String := "cron expression is empty"

def cronTooLong : String := "cron expression must be at most 200 characters"

def cronFieldCount : String := "cron expression must have 5 fields: minute hour day-of-month month day-of-week"

def cronMacroUnknown : String :=
  "only @hourly, @daily, @midnight, @weekly, @monthly, @yearly, and @annually are supported"

def cronSpecialUnsupported : String := "L, W, #, and ? are not supported"

def cronEmptyItem : String := "has an empty list item"

def cronStepInvalid : String := "a step must be a whole number from 1"

def cronRangeBackwards : String := "a range must run from low to high"

def cronNotAValue : String := "must be a number or a three-letter name"

def cronOutOfRange (min max : ℕ) : String := "must be from " ++ toString min ++ " to " ++ toString max

def cronFieldError (field detail : String) : String := field ++ ": " ++ detail

inductive CronError
  | refused (message : String)
  | shift
  deriving DecidableEq, Repr

/-! ## Fields -/

structure Field where
  name : String
  min : ℕ
  max : ℕ
  names : List String
  nameBase : ℕ
  deriving DecidableEq, Repr

def minuteField : Field := { name := "minute", min := 0, max := 59, names := [], nameBase := 0 }

def hourField : Field := { name := "hour", min := 0, max := 23, names := [], nameBase := 0 }

def dayOfMonthField : Field := { name := "day of month", min := 1, max := 31, names := [], nameBase := 0 }

def monthField : Field where
  name := "month"
  min := 1
  max := 12
  names := ["JAN", "FEB", "MAR", "APR", "MAY", "JUN", "JUL", "AUG", "SEP", "OCT", "NOV", "DEC"]
  nameBase := 1

def dayOfWeekField : Field where
  name := "day of week"
  min := 0
  max := 7
  names := ["SUN", "MON", "TUE", "WED", "THU", "FRI", "SAT"]
  nameBase := 0

def isWholeNumber (token : Text) : Bool := !token.isEmpty && token.all Char.isDigit

def numberOf (digits : Text) : ℕ := digits.foldl (fun value c => value * 10 + (c.toNat - '0'.toNat)) 0

/-- `str::parse::<u32>`, of digits. -/
def parseU32 (digits : Text) : Option ℕ := if numberOf digits < 2 ^ 32 then some (numberOf digits) else none

/-- `1u64 << value`. -/
def bit (value : ℕ) : Except CronError ℕ := if value < 64 then .ok (1 <<< value) else .error .shift

/-- `bits & (1u64 << value) != 0`. -/
def bitSet (bits value : ℕ) : Except CronError Bool := do
  let mask ← bit value
  return (bits &&& mask) != 0

namespace Field

def error (f : Field) (detail : String) : CronError := .refused (cronFieldError f.name detail)

def value (f : Field) (token : Text) : Except CronError ℕ :=
  if token = [] then .error (f.error cronEmptyItem)
  else if isWholeNumber token then
    match (parseU32 token).filter fun value => decide (f.min ≤ value ∧ value ≤ f.max) with
    | some value => .ok value
    | none => .error (f.error (cronOutOfRange f.min f.max))
  else
    match f.names.findIdx? fun name => eqIgnoreAsciiCase name.toList token with
    | some index => .ok (f.nameBase + index)
    | none =>
      let last := token.getLast?.map Char.toUpper
      if '#' ∈ token ∨ '?' ∈ token ∨ last = some 'L' ∨ last = some 'W' then .error (f.error cronSpecialUnsupported)
      else .error (f.error cronNotAValue)

def step (f : Field) (step : Text) : Except CronError ℕ :=
  match (if isWholeNumber step then parseU32 step else none).filter fun step => decide (1 ≤ step) with
  | some step => .ok step
  | none => .error (f.error cronStepInvalid)

/-- The range of an item, before the slash and the step after it. -/
def range (f : Field) (item : Text) : Except CronError (Text × Option ℕ) :=
  match splitOnce '/' item with
  | some (range, step) => do return (range, some (← f.step step))
  | none => .ok (item, none)

def bounds (f : Field) (range : Text) (step : Option ℕ) : Except CronError (ℕ × ℕ) :=
  if range = ['*'] then .ok (f.min, f.max)
  else
    match splitOnce '-' range with
    | some (low, high) => do
      let low ← f.value low
      let high ← f.value high
      if high < low then .error (f.error cronRangeBackwards) else .ok (low, high)
    | none => do
      let value ← f.value range
      .ok (value, if step.isSome then f.max else value)

/-- The loop `while value <= end`: as many rounds are enough as there are values up to the end. -/
def setFrom (last step : ℕ) : ℕ → ℕ → ℕ → Except CronError ℕ
  | 0, _, bits => .ok bits
  | rounds + 1, value, bits =>
    if value ≤ last then do
      let mask ← bit value
      let bits := bits ||| mask
      if value + step < 2 ^ 32 then setFrom last step rounds (value + step) bits else .ok bits
    else .ok bits

def addItem (f : Field) (bits : ℕ) (item : Text) : Except CronError ℕ :=
  if item = [] then .error (f.error cronEmptyItem)
  else do
    let (range, step) ← f.range item
    let (first, last) ← f.bounds range step
    setFrom last (step.getD 1) (last + 1 - first) first bits

def parse (f : Field) (text : Text) : Except CronError ℕ := (text.splitOn ',').foldlM f.addItem 0

end Field

/-! ## Expressions -/

structure CronSchedule where
  minutes : ℕ
  hours : ℕ
  daysOfMonth : ℕ
  months : ℕ
  daysOfWeek : ℕ
  domRestricted : Bool
  dowRestricted : Bool
  deriving DecidableEq, Repr

def splitWhitespace (text : Text) : List Text := (text.splitOnP isWhitespace).filter fun word => !word.isEmpty

def cronMacro (name : String) : Option String :=
  match name with
  | "hourly" => some "0 * * * *"
  | "daily" | "midnight" => some "0 0 * * *"
  | "weekly" => some "0 0 * * 0"
  | "monthly" => some "0 0 1 * *"
  | "yearly" | "annually" => some "0 0 1 1 *"
  | _ => none

def expand (trimmed : Text) : Except CronError Text :=
  match trimmed with
  | '@' :: name =>
    match cronMacro (String.ofList (name.map Char.toLower)) with
    | some expanded => .ok expanded.toList
    | none => .error (.refused cronMacroUnknown)
  | _ => .ok trimmed

def foldSunday (bits : ℕ) : ℕ := if bits &&& (1 <<< 7) ≠ 0 then (bits ||| 1) &&& (2 ^ 64 - 1 - (1 <<< 7)) else bits

def parseCron (expression : String) : Except CronError CronSchedule :=
  let trimmed := trim expression.toList
  if trimmed = [] then .error (.refused cronEmpty)
  else if maxCronExpressionChars < trimmed.length then .error (.refused cronTooLong)
  else do
    let expanded ← expand trimmed
    match splitWhitespace expanded with
    | [minute, hour, dayOfMonth, month, dayOfWeek] =>
      let minutes ← minuteField.parse minute
      let hours ← hourField.parse hour
      let daysOfMonth ← dayOfMonthField.parse dayOfMonth
      let months ← monthField.parse month
      let daysOfWeek ← dayOfWeekField.parse dayOfWeek
      return { minutes, hours, daysOfMonth, months, daysOfWeek := foldSunday daysOfWeek
               domRestricted := decide (dayOfMonth.head? ≠ some '*')
               dowRestricted := decide (dayOfWeek.head? ≠ some '*') }
    | _ => .error (.refused cronFieldCount)

/-! ## The next fire -/

def resolveWallTime (zone : Zone) (wall : ℤ) (afterMs : ℕ) : Option ℕ :=
  ((zone.fromLocal wall).instants.filterMap toMs).find? fun atMs => decide (afterMs < atMs)

namespace CronSchedule

def dayMatches (c : CronSchedule) (cal : Calendar) (date : ℤ) : Except CronError Bool := do
  if ← bitSet c.months (cal.month date) then
    let dom ← bitSet c.daysOfMonth (cal.day date)
    let dow ← bitSet c.daysOfWeek (weekday date)
    pure (if c.domRestricted && c.dowRestricted then dom || dow else dom && dow)
  else pure false

/-- The body of the two inner loops of `next_after_floor`. -/
def tryMinute (c : CronSchedule) (zone : Zone) (afterMs earliest : ℕ) (date : ℤ) (hour minute : ℕ) :
    Except CronError (Option ℕ) := do
  if ← bitSet c.minutes minute then
    if hour * 60 + minute < earliest then pure none
    else pure (resolveWallTime zone (atMinute date (hour * 60 + minute)) afterMs)
  else pure none

/-- The two inner loops of `next_after_floor`. -/
def searchDay (c : CronSchedule) (zone : Zone) (afterMs earliest : ℕ) (date : ℤ) : Except CronError (Option ℕ) :=
  (List.range 24).findSomeM? fun hour => do
    if ← bitSet c.hours hour then (List.range 60).findSomeM? fun minute => c.tryMinute zone afterMs earliest date hour minute
    else pure none

/-- One day of `next_after_floor`. -/
def tryDay (c : CronSchedule) (cal : Calendar) (zone : Zone) (afterMs earliest : ℕ) (date : ℤ) :
    Except CronError (Option ℕ) := do
  if ← c.dayMatches cal date then c.searchDay zone afterMs earliest date else pure none

/-- The loop of `next_after_floor` over the days. -/
def searchDays (c : CronSchedule) (cal : Calendar) (zone : Zone) (afterMs : ℕ) :
    ℕ → ℕ → ℤ → Except CronError (Option ℕ)
  | 0, _, _ => pure none
  | days + 1, earliest, date => do
    match ← c.tryDay cal zone afterMs earliest date with
    | some atMs => pure (some atMs)
    | none => if date < cal.lastDay then searchDays c cal zone afterMs days 0 (date + 1) else pure none

def nextAfterFloor (c : CronSchedule) (cal : Calendar) (zone : Zone) (afterMs floorMs : ℕ) : Except CronError (Option ℕ) :=
  match wallOf cal zone afterMs, wallOf cal zone floorMs with
  | some after, some floor =>
    let local_ := max after floor
    let first := atMinute (dateOf local_) (minuteOfDay local_) + minuteMs
    if cal.Has first then c.searchDays cal zone afterMs cronSearchDays (minuteOfDay first) (dateOf first) else pure none
  | _, _ => pure none

end CronSchedule

end AnimaCore.Schedules
