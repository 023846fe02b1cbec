import Mathlib

/-!
# AnimaCore.Schedules.WallClock — the clock on the wall

What the schedules use of `chrono` and `chrono_tz`: dates, wall times, and the zones between a wall time and an instant.

* A date is the number of days since 1 January 1970, a wall time the number of milliseconds since its midnight.
* A `Calendar` has the months and the days of the dates, and says which dates there are.
* A `Zone` has the offset of each instant, and the instants of each wall time.  `Zone.fixed` has one offset.
-/

namespace AnimaCore.Schedules

def minuteMs : ℤ := 60 * 1000

def dayMs : ℤ := 24 * 60 * minuteMs

/-- The dates: months and days, and the first and the last of them. -/
structure Calendar where
  month : ℤ → ℕ
  day : ℤ → ℕ
  firstDay : ℤ
  lastDay : ℤ
  month_le : ∀ date, month date ≤ 12
  day_le : ∀ date, day date ≤ 31
  first_lt : firstDay < 0
  last_le : (lastDay + 1) * dayMs ≤ 2 ^ 63

def Calendar.Has (cal : Calendar) (ms : ℤ) : Prop := cal.firstDay * dayMs ≤ ms ∧ ms < (cal.lastDay + 1) * dayMs

instance (cal : Calendar) (ms : ℤ) : Decidable (cal.Has ms) := inferInstanceAs (Decidable (_ ∧ _))

/-! ## Wall times -/

/-- `date`. -/
def dateOf (wall : ℤ) : ℤ := wall / dayMs

/-- `hour() * 60 + minute()`. -/
def minuteOfDay (wall : ℤ) : ℕ := (wall % dayMs / minuteMs).toNat

/-- `hour`. -/
def hourOf (wall : ℤ) : ℕ := minuteOfDay wall / 60

/-- `minute`. -/
def minuteOf (wall : ℤ) : ℕ := minuteOfDay wall % 60

/-- `weekday().num_days_from_sunday()`; the first day of 1970 was a Thursday. -/
def weekday (date : ℤ) : ℕ := ((date + 4) % 7).toNat

/-- `and_hms_opt(minute / 60, minute % 60, 0)`, of a minute of the day. -/
def atMinute (date : ℤ) (minute : ℕ) : ℤ := date * dayMs + minute * minuteMs

/-! ## Zones -/

inductive LocalResult
  | single (instant : ℤ)
  | ambiguous (first second : ℤ)
  | none
  deriving DecidableEq, Repr

/-- The instants in order, as both callers list them. -/
def LocalResult.instants : LocalResult → List ℤ
  | .single instant => [instant]
  | .ambiguous first second => [min first second, max first second]
  | .none => []

/-- `Tz`: `offset` of an instant, and `from_local_datetime`. -/
structure Zone where
  offset : ℤ → ℤ
  fromLocal : ℤ → LocalResult

def Zone.fixed (cal : Calendar) (offset : ℤ) : Zone where
  offset := fun _ => offset
  fromLocal := fun wall => if cal.Has (wall - offset) then .single (wall - offset) else .none

/-- The wall time of an instant: `i64::try_from`, `timestamp_millis_opt` and `naive_local`.  The last panics where the calendar
does not have the wall time, within a day of its ends; here there is none. -/
def wallOf (cal : Calendar) (zone : Zone) (atMs : ℕ) : Option ℤ :=
  if atMs < 2 ^ 63 ∧ cal.Has atMs ∧ cal.Has (atMs + zone.offset atMs) then some (atMs + zone.offset atMs) else none

/-- `u64::try_from(at.timestamp_millis()).ok()`. -/
def toMs (instant : ℤ) : Option ℕ := if 0 ≤ instant then some instant.toNat else none

/-! ## The Gregorian calendar -/

/-- The day of the year that begins in March, through the four hundred years, the hundred and the four that it is in. -/
def dayOfYear (date : ℤ) : ℤ :=
  let ofEra := (date + 719468) % 146097
  let ofCentury := ofEra - 36524 * min 3 (ofEra / 36524)
  let ofCycle := ofCentury % 1461
  ofCycle - 365 * min 3 (ofCycle / 365)

theorem dayOfYear_le (date : ℤ) : 0 ≤ dayOfYear date ∧ dayOfYear date ≤ 365 := by
  unfold dayOfYear
  dsimp only
  omega

def monthOfYear (date : ℤ) : ℤ := (5 * dayOfYear date + 2) / 153

def gregorian : Calendar where
  month := fun date => (if monthOfYear date < 10 then monthOfYear date + 3 else monthOfYear date - 9).toNat
  day := fun date => (dayOfYear date - (153 * monthOfYear date + 2) / 5 + 1).toNat
  -- the first of January 262144 BC and the last of December 262142
  firstDay := -96465292
  lastDay := 95026236
  month_le := by
    intro date
    have hle := dayOfYear_le date
    unfold monthOfYear
    split_ifs <;> omega
  day_le := by
    intro date
    have hle := dayOfYear_le date
    unfold monthOfYear
    omega
  first_lt := by decide
  last_le := by decide

/-- The end of a leap year, and the dates around it. -/
example : (gregorian.month 11016, gregorian.day 11016, weekday 11016) = (2, 29, 2) := by decide

end AnimaCore.Schedules
