import FutureOs.Orchestration.State

/-!
# When a monitor polls next

A cadence is an interval (`15m`, `2d`), a cadence class, or a raw MINUTELY rule; the
fixed back-off stands in for a cadence that is none of them.
-/

namespace FutureOs
namespace Orchestration

/-- White space collapsed, and a leading `RRULE:` dropped. -/
def normalizeSchedulerRrule (value : String) : String :=
  let text := String.intercalate " " (Text.splitWhitespace value)
  match Text.stripPrefix "RRULE:" text with
  | some rest => Text.trim rest
  | none => text

def rruleForMinutes (minutes : Int) : String :=
  "FREQ=MINUTELY;INTERVAL=" ++ toString (max minutes 1)

/-- The parts of a rule up to the first one without `=`; `none` when there is one. -/
def rruleParts (text : String) : Option (List (String × String)) :=
  (Text.split ';' text).mapM (Text.splitOnce '=')

/-- The interval of a MINUTELY rule. -/
def schedulerRruleIntervalMinutes (value : String) : Option Int :=
  match rruleParts (normalizeSchedulerRrule value) with
  | none => none
  | some parts =>
      let freq := parts.foldl
        (fun found part =>
          if Text.upper (Text.trim part.1) = "FREQ" then
            some (Text.upper (Text.trim part.2))
          else
            found)
        none
      let interval := parts.foldl
        (fun found part =>
          if Text.upper (Text.trim part.1) = "INTERVAL" then
            Text.parseI64 (Text.trim part.2)
          else
            found)
        none
      if freq = some "MINUTELY" then interval.filter (0 < ·) else none

def rruleForCadenceClass (cadenceClass : String) : Option String :=
  let text := Text.asciiLower (normalizeSchedulerRrule cadenceClass)
  if text ∈ ["hourly", "hour", "1h"] then
    some (rruleForMinutes 60)
  else if text ∈ ["daily", "day", "1d"] then
    some (rruleForMinutes (24 * 60))
  else if text ∈ ["weekly", "week"] then
    some (rruleForMinutes (7 * 24 * 60))
  else if text ∈ ["once", "", "none"] then
    none
  else if Text.startsWith "freq=" text then
    some (normalizeSchedulerRrule cadenceClass)
  else
    none

/-- `u64::checked_mul`. -/
def checkedMulU64 (a b : Nat) : Option Nat :=
  if a * b < 2 ^ 64 then some (a * b) else none

/-- A count and a unit, in seconds. -/
def monitorCadenceSecs (value : String) : Option Nat :=
  let text := (Text.trim value).toList
  let digits := text.takeWhile Char.isDigit
  let rest := text.drop digits.length
  if rest = [] then
    none
  else
    match Text.parseU64 (String.ofList digits) with
    | none => none
    | some count =>
        let unit := Text.asciiLower (Text.trim (String.ofList rest))
        if count = 0 then
          none
        else if Text.startsWith "s" unit then
          some count
        else if Text.startsWith "m" unit then
          checkedMulU64 count 60
        else if Text.startsWith "h" unit then
          checkedMulU64 count 3600
        else if Text.startsWith "d" unit then
          checkedMulU64 count 86400
        else
          none

def cadencePollIntervalSecs (cadence : Option String) : Option Nat :=
  match cadence.map Text.trim with
  | none => none
  | some cad =>
      if cad = "" then
        none
      else
        match monitorCadenceSecs cad with
        | some secs => some secs
        | none =>
            ((rruleForCadenceClass cad).bind schedulerRruleIntervalMinutes).map
              fun minutes => (max minutes 1).toNat * 60

def monitorNoChangeBackoffSecs : Nat := 12

/-- When the next poll is due after one at `polledAt`. -/
def nextPollDueEpoch (polledAt : Nat) (cadence : Option String) : Nat :=
  polledAt + (cadencePollIntervalSecs cadence).getD monitorNoChangeBackoffSecs

example : nextPollDueEpoch 100 (some " 15m ") = 1000 := by decide +kernel

example : nextPollDueEpoch 100 (some "RRULE: freq=minutely;interval=2") = 220 := by
  decide +kernel

end Orchestration
end FutureOs
