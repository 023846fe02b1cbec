import AnimaCore.AutomationEvents
import AnimaCore.Schedules.Cron

/-!
# AnimaCore.Schedules.Timing — when an automation fires

`schedules/timing.rs`: active hours, and the next fire of a trigger inside them.

* A `Clock` has the calendar, and the zone of each name.
* The minutes of a day are `Fin 1440`, as `parse_clock` returns no others.
* `CronError` is the error of the whole module: a message, or a shift by 64 or more.
-/

namespace AnimaCore.Schedules

open Lib
open AutomationEvents (ScheduleTrigger validTopic)
open Texts (Text trim splitOnce)

/-! ## Limits and messages -/

def maxWindowHops : ℕ := 400

def dstGapSearchMinutes : ℕ := 180

def timeZoneInvalid : String := "timeZone is invalid"

def intervalInvalid : String := "intervalMs must be a positive whole number of seconds"

def dailyInvalid : String := "daily trigger is invalid"

def onceInvalid : String := "atMs must be a positive time in milliseconds"

def eventTopicInvalid : String := "Event topic is invalid"

def activeHoursTimeInvalid : String := "activeHours start and end must be HH:MM in 24-hour time"

def activeHoursSameTime : String := "activeHours start and end must differ"

def activeHoursDaysInvalid : String :=
  "activeHours days must list 1 to 7 different days from 0 (Sunday) to 6 (Saturday)"

def activeHoursNotForOnce : String := "activeHours does not apply to a one-time automation"

def onceNotInFuture : String := "atMs must be in the future"

def scheduleNeverRuns : String := "This schedule never runs"

def scheduleNeverInActiveHours : String := "This schedule never runs inside its active hours"

def timingOverflow : String := "schedule timing overflow"

/-! ## Active hours -/

/-- `chrono` and `chrono_tz`: the dates, and the zone of a name. -/
structure Clock where
  cal : Calendar
  zoneOf : Text → Option Zone

structure ActiveHours where
  start : String
  finish : String
  days : List ℕ
  timeZone : String
  deriving DecidableEq, Repr

def parseTimeZone (clock : Clock) (name : String) : Except CronError Zone :=
  match clock.zoneOf (trim name.toList) with
  | some zone => .ok zone
  | none => .error (.refused timeZoneInvalid)

def twoDigits (part : Text) : Bool := decide (part.length = 2) && part.all Char.isDigit

theorem clock_lt {hour minute : Text} (h : numberOf hour < 24 ∧ numberOf minute < 60) :
    numberOf hour * 60 + numberOf minute < 1440 := by
  omega

def parseClock (text : Text) : Option (Fin 1440) :=
  match splitOnce ':' text with
  | some (hour, minute) =>
    if twoDigits hour && twoDigits minute then
      if h : numberOf hour < 24 ∧ numberOf minute < 60 then
        some ⟨numberOf hour * 60 + numberOf minute, clock_lt h⟩
      else none
    else none
  | none => none

structure ActiveWindow where
  start : Fin 1440
  finish : Fin 1440
  /-- Bit `n` is day `n`. -/
  days : ℕ
  timeZone : Zone

/-- The loop of `ActiveWindow::parse`. -/
def addDay (days day : ℕ) : Option ℕ := if 6 < day ∨ days &&& (1 <<< day) ≠ 0 then none else some (days ||| 1 <<< day)

namespace ActiveWindow

def parse (clock : Clock) (hours : ActiveHours) : Except CronError ActiveWindow :=
  match parseClock hours.start.toList, parseClock hours.finish.toList with
  | some start, some finish =>
    if start = finish then .error (.refused activeHoursSameTime)
    else if hours.days = [] ∨ 7 < hours.days.length then .error (.refused activeHoursDaysInvalid)
    else
      match hours.days.foldlM addDay 0 with
      | some days => do
        let timeZone ← parseTimeZone clock hours.timeZone
        .ok { start, finish, days, timeZone }
      | none => .error (.refused activeHoursDaysInvalid)
  | _, _ => .error (.refused activeHoursTimeInvalid)

def hasDay (w : ActiveWindow) (day : ℕ) : Bool := (w.days &&& 1 <<< day) != 0

def contains (cal : Calendar) (w : ActiveWindow) (atMs : ℕ) : Bool :=
  match wallOf cal w.timeZone atMs with
  | none => false
  | some local_ =>
    let minute := minuteOfDay local_
    let day := weekday (dateOf local_)
    if w.start < w.finish then w.hasDay day && decide (w.start ≤ minute ∧ minute < w.finish)
    else
      let yesterday := (day + 6) % 7
      w.hasDay day && decide (w.start ≤ minute) || w.hasDay yesterday && decide (minute < w.finish)

end ActiveWindow

def existing (cal : Calendar) (zone : Zone) (wall : ℤ) : Option (List ℤ) :=
  if cal.Has wall then
    match zone.fromLocal wall with
    | .none => none
    | found => some found.instants
  else none

namespace ActiveWindow

def opening (cal : Calendar) (w : ActiveWindow) (wall : ℤ) (atMs : ℕ) : Option ℕ :=
  ((List.range (dstGapSearchMinutes + 1)).findSome? fun shift : ℕ =>
    (existing cal w.timeZone (wall + shift * minuteMs)).map fun instants =>
      (instants.filterMap toMs).find? fun opens => decide (atMs ≤ opens)).join

/-- A round of `next_open`. -/
def opensOn (cal : Calendar) (w : ActiveWindow) (atMs : ℕ) (date : ℤ) : Option ℕ :=
  if w.hasDay (weekday date) then
    (w.opening cal (atMinute date w.start) atMs).filter fun opens => decide (atMs ≤ opens)
  else none

/-- The loop of `next_open`. -/
def openFrom (cal : Calendar) (w : ActiveWindow) (atMs : ℕ) : ℕ → ℤ → Option ℕ
  | 0, _ => none
  | rounds + 1, date =>
    match w.opensOn cal atMs date with
    | some opens => some opens
    | none => if date < cal.lastDay then openFrom cal w atMs rounds (date + 1) else none

def nextOpen (cal : Calendar) (w : ActiveWindow) (atMs : ℕ) : Option ℕ :=
  if w.contains cal atMs then some atMs
  else
    match wallOf cal w.timeZone atMs with
    | some local_ => w.openFrom cal atMs 9 (dateOf local_)
    | none => none

end ActiveWindow

/-! ## Triggers -/

def validateStoredTrigger (clock : Clock) : ScheduleTrigger → Except CronError Unit
  | .event topic => if validTopic topic then .ok () else .error (.refused eventTopicInvalid)
  | .interval intervalMs =>
    if intervalMs = 0 ∨ intervalMs % 1000 ≠ 0 then .error (.refused intervalInvalid) else .ok ()
  | .daily hour minute timeZone => do
    if 23 < hour ∨ 59 < minute then .error (.refused dailyInvalid)
    else
      let _ ← parseTimeZone clock timeZone
      .ok ()
  | .cron expression timeZone => do
    let _ ← parseCron expression
    let _ ← parseTimeZone clock timeZone
    .ok ()
  | .once atMs => if atMs = 0 then .error (.refused onceInvalid) else .ok ()

def earlier : LocalResult → Option ℤ
  | .single instant => some instant
  | .ambiguous first second => some (min first second)
  | .none => none

/-- The loop of `next_daily_after`. -/
def dailyFrom (cal : Calendar) (zone : Zone) (hour minute afterMs : ℕ) (today : ℤ) : List ℕ → Except CronError ℕ
  | [] => .error (.refused scheduleNeverRuns)
  | offset :: rest =>
    if cal.lastDay < today + offset then .error (.refused timingOverflow)
    else if 24 ≤ hour ∨ 60 ≤ minute then .error (.refused dailyInvalid)
    else
      match ((earlier (zone.fromLocal (atMinute (today + offset) (hour * 60 + minute)))).bind toMs).filter
        fun atMs => decide (afterMs < atMs) with
      | some atMs => .ok atMs
      | none => dailyFrom cal zone hour minute afterMs today rest

def nextDailyAfter (clock : Clock) (hour minute : ℕ) (timeZone : String) (afterMs : ℕ) : Except CronError ℕ := do
  let zone ← parseTimeZone clock timeZone
  match wallOf clock.cal zone afterMs with
  | none => .error (.refused timingOverflow)
  | some local_ => dailyFrom clock.cal zone hour minute afterMs (dateOf local_) [0, 1, 2]

def rawNext (clock : Clock) (trigger : ScheduleTrigger) (afterMs floorMs : ℕ) : Except CronError ℕ :=
  match trigger with
  | .event _ => .ok (2 ^ 64 - 1)
  | .interval intervalMs =>
    if afterMs + intervalMs < 2 ^ 64 then .ok (afterMs + intervalMs) else .error (.refused timingOverflow)
  | .daily hour minute timeZone => nextDailyAfter clock hour minute timeZone afterMs
  | .cron expression timeZone => do
    let c ← parseCron expression
    let zone ← parseTimeZone clock timeZone
    match ← c.nextAfterFloor clock.cal zone afterMs floorMs with
    | some atMs => .ok atMs
    | none => .error (.refused scheduleNeverRuns)
  | .once atMs => if afterMs < atMs then .ok atMs else .error (.refused onceNotInFuture)

/-- `ok_or_else`, of an opening. -/
def orNeverOpen : Option ℕ → Except CronError ℕ
  | some opens => .ok opens
  | none => .error (.refused scheduleNeverInActiveHours)

/-- The loop of `next_fire_after_floor`. -/
def hop (clock : Clock) (trigger : ScheduleTrigger) (w : ActiveWindow) (floorMs : ℕ) : ℕ → ℕ → Except CronError ℕ
  | 0, _ => .error (.refused scheduleNeverInActiveHours)
  | hops + 1, after => do
    let candidate ← rawNext clock trigger after floorMs
    if w.contains clock.cal candidate then .ok candidate
    else
      let opens ← orNeverOpen (w.nextOpen clock.cal candidate)
      hop clock trigger w floorMs hops (max (opens - 1) candidate)

def nextFireAfterFloor (clock : Clock) (trigger : ScheduleTrigger) (window : Option ActiveWindow) (fromMs floorMs : ℕ) :
    Except CronError ℕ := do
  validateStoredTrigger clock trigger
  match window with
  | none => rawNext clock trigger fromMs floorMs
  | some w =>
    match trigger with
    | .event _ => .ok (2 ^ 64 - 1)
    | .once _ => .error (.refused activeHoursNotForOnce)
    | .interval _ => do orNeverOpen (w.nextOpen clock.cal (← rawNext clock trigger fromMs floorMs))
    | .daily .. | .cron .. => hop clock trigger w floorMs maxWindowHops fromMs

def nextFireAfter (clock : Clock) (trigger : ScheduleTrigger) (window : Option ActiveWindow) (fromMs : ℕ) :
    Except CronError ℕ := nextFireAfterFloor clock trigger window fromMs fromMs

def stepped (intervalMs previousDue nowMs : ℕ) : Except CronError ℕ :=
  let due := previousDue + intervalMs * ((nowMs - previousDue) / intervalMs + 1)
  if due < 2 ^ 64 then .ok due else .error (.refused timingOverflow)

def nextFireAfterClaim (clock : Clock) (trigger : ScheduleTrigger) (window : Option ActiveWindow)
    (previousDue nowMs : ℕ) : Except CronError ℕ := do
  validateStoredTrigger clock trigger
  match trigger with
  | .event _ => .ok (2 ^ 64 - 1)
  | .interval intervalMs =>
    let due ← stepped intervalMs previousDue nowMs
    match window with
    | none => .ok due
    | some w => orNeverOpen (w.nextOpen clock.cal due)
  | .once _ => .ok previousDue
  | .daily .. | .cron .. => nextFireAfterFloor clock trigger window nowMs previousDue

end AnimaCore.Schedules
