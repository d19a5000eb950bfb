import FutureOs.Lib.Calendar
import FutureOs.Lib.Json
import FutureOs.Lib.Text
import FutureOs.Lib.TimeZone

/-!
# When a task is due next

The schedule of a task names local readings in the zone of the task.  `nextDue` looks
for the next one in the order of the source: a daily schedule takes the first day from a
starting day on which the time exists, the others collect the slots of a bounded number
of candidates and take the least one that lies ahead.

What chrono, serde and the zone database answer is the parameter `TaskEnv`; a panic is
`none`.  The range of dates chrono can represent is not modelled.
-/

namespace FutureOs
namespace Tasks

/-- One schedule mode. -/
inductive ScheduleMode
  | once (date time : String)
  | interval (everyMinutes anchor : Int)
  | daily (time : String)
  | weekly (days : List String) (time : String)
  | monthly (day : Int) (time : String)
  | yearly (month : Nat) (day : Int) (time : String)
deriving DecidableEq

inductive TriggerKind
  | manual
  | schedule
deriving DecidableEq

/-- What `next_due` reads of a task. -/
structure Task where
  enabled : Bool
  deletedAt : Option Int
  triggerKind : TriggerKind
  triggerJson : Json
  timezone : Option String

/-- Milliseconds of a day. -/
def dayMillis : Int := 86400000

/-- The libraries: JSON, dates (`%Y-%m-%d`), times (`%H:%M`) and the zone database. -/
structure TaskEnv where
  parseSchedule : Json → Option ScheduleMode
  parseDate : String → Option Int
  /-- In milliseconds since midnight. -/
  parseTime : String → Option Int
  parseTimezone : String → Option Zone
  defaultTimezone : Zone

/-- `task_timezone`: a stored name wins where it is known. -/
def TaskEnv.taskTimezone (env : TaskEnv) (task : Task) : Zone :=
  (task.timezone.bind env.parseTimezone).getD env.defaultTimezone

/-- `date.and_time(time)`. -/
def reading (date time : Int) : Int :=
  date * dayMillis + time

/-- `date_naive`. -/
def dateOf (local' : Int) : Int :=
  local' / dayMillis

/-- `time`. -/
def timeOf (local' : Int) : Int :=
  local' % dayMillis

def weekdayNum (day : String) : Option Int :=
  let day := Text.asciiLower day
  if day = "mon" then some 0
  else if day = "tue" then some 1
  else if day = "wed" then some 2
  else if day = "thu" then some 3
  else if day = "fri" then some 4
  else if day = "sat" then some 5
  else if day = "sun" then some 6
  else none

def addMonths (year : Int) (month : Nat) (delta : Int) : Int × Nat :=
  let total := year * 12 + month - 1 + delta
  (total / 12, (total % 12 + 1).toNat)

/-- `NaiveDate::from_ymd_opt`, for a day that is not behind the month's end. -/
def fromYmd (year : Int) (month : Nat) (day : Int) : Option Int :=
  if 1 ≤ day then some (Calendar.dayNumber year month day) else none

def maxGapDays : Nat := 8

/-- `local_slot`: the next day on which the time exists. -/
def localSlot (date time : Int) (tz : Zone) : Option Int :=
  (List.range (maxGapDays + 1)).findSome? fun (days : Nat) =>
    tz.firstAt (reading (date + days) time)

/-- The first day whose slot is not behind the local reading. -/
def startDate (after time : Int) (tz : Zone) : Int :=
  let now := tz.localAt after
  dateOf now + if time ≤ timeOf now then 1 else 0

def nextCalendarTime (after time : Int) (tz : Zone) : Option Int :=
  localSlot (startDate after time tz) time tz

/-- The local date so many times 24 hours later. -/
def weeklyDate (after : Int) (tz : Zone) (delta : Nat) : Int :=
  dateOf (tz.localAt (after + delta * dayMillis))

def weeklyCandidate (after : Int) (dayNums : List Int) (time : Int) (delta : Nat) (tz : Zone) :
    Option Int :=
  let date := weeklyDate after tz delta
  if Calendar.weekday date ∈ dayNums then tz.firstAt (reading date time) else none

def monthlyCandidate (after day time : Int) (delta : Nat) (tz : Zone) : Option Int := do
  let date := dateOf (tz.localAt after)
  let (y, m) := addMonths (Calendar.yearOf date) (Calendar.monthOf date) delta
  let date ← fromYmd y m (min day (Calendar.daysInMonth y m))
  tz.firstAt (reading date time)

def yearlyCandidate (after : Int) (month : Nat) (day time : Int) (delta : Nat) (tz : Zone) :
    Option Int :=
  if ¬ (1 ≤ month ∧ month ≤ 12) ∨ day < 1 then
    none
  else do
    let year := Calendar.yearOf (dateOf (tz.localAt after)) + delta
    let date ← fromYmd year month (min day (Calendar.daysInMonth year month))
    tz.firstAt (reading date time)

/-- The least of the candidates that lies ahead. -/
def nextOf (after : Int) (candidates : List Int) : Option Int :=
  (candidates.filter (after < ·)).min?

/-- `Duration::minutes`, in milliseconds. -/
def durationMinutes (minutes : Int) : Option Int :=
  if -2 ^ 63 < minutes * 60000 ∧ minutes * 60000 < 2 ^ 63 then some (minutes * 60000) else none

/-- The cadence of an interval schedule. -/
def intervalStep (everyMinutes : Int) : Option Int :=
  (durationMinutes everyMinutes).map fun step => max step 60000

/-- Where an interval schedule counts from. -/
def intervalAnchor (anchor after : Int) : Int :=
  if 0 < anchor then anchor else after

def nextDueForMode (env : TaskEnv) (mode : ScheduleMode) (after : Int) (tz : Zone) :
    Option Int :=
  match mode with
  | .once date time => do
      let date ← env.parseDate date
      let time ← env.parseTime time
      let due ← tz.firstAt (reading date time)
      if after < due then some due else none
  | .interval everyMinutes anchor => do
      let step ← intervalStep everyMinutes
      let anchor := intervalAnchor anchor after
      let due := if anchor ≤ after then anchor + ((after - anchor) / step + 1) * step else anchor
      -- Beyond 64 bits the sum overflows.
      if due < 2 ^ 63 then some due else none
  | .daily time => do
      let time ← env.parseTime time
      let due ← nextCalendarTime after time tz
      if after < due then some due else none
  | .weekly days time => do
      let time ← env.parseTime time
      let dayNums := days.filterMap weekdayNum
      if dayNums = [] then
        none
      else
        nextOf after ((List.range 8).filterMap fun delta =>
          weeklyCandidate after dayNums time delta tz)
  | .monthly day time => do
      let time ← env.parseTime time
      nextOf after ((List.range 13).filterMap fun delta =>
        monthlyCandidate after day time delta tz)
  | .yearly month day time => do
      let time ← env.parseTime time
      nextOf after ((List.range 3).filterMap fun delta =>
        yearlyCandidate after month day time delta tz)

/-- `next_due`: the next due time after a time, in milliseconds. -/
def nextDue (env : TaskEnv) (task : Task) (after : Int) : Option Int :=
  if !task.enabled || task.deletedAt.isSome then
    none
  else
    match task.triggerKind with
    | .manual => none
    | .schedule => do
        let mode ← env.parseSchedule task.triggerJson
        nextDueForMode env mode after (env.taskTimezone task)

end Tasks
end FutureOs
