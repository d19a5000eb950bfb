import FutureOs.Tasks.Schedule
import Mathlib.Data.Nat.Find

/-!
# Staying on schedule

The next slot after a time is the least instant ahead at which the zone first shows a
scheduled reading.  `nextDue` finds it exactly if it is the slot of a date the scan looks
at (`LooksAt`); in a zone that does not change, it always is.
-/

namespace FutureOs
namespace Tasks

/-- The date of a month on which a monthly or yearly schedule falls. -/
def clampedDate (year : Int) (month : Nat) (day : Int) : Int :=
  Calendar.dayNumber year month (min day (Calendar.daysInMonth year month))

namespace ScheduleMode

/-- The dates of a calendar schedule. -/
def ScheduledOn (mode : ScheduleMode) (date : Int) : Prop :=
  match mode with
  | .daily _ => True
  | .weekly days _ => Calendar.weekday date ∈ days.filterMap weekdayNum
  | .monthly day _ =>
      ∃ (year : Int) (month : Nat), 1 ≤ month ∧ month ≤ 12 ∧ date = clampedDate year month day
  | .yearly month day _ => ∃ year : Int, date = clampedDate year month day
  | .once _ _ | .interval _ _ => False

/-- The time of a calendar schedule. -/
def timeOfDay (env : TaskEnv) (mode : ScheduleMode) : Option Int :=
  match mode with
  | .daily time | .weekly _ time | .monthly _ time | .yearly _ _ time => env.parseTime time
  | .once _ _ | .interval _ _ => none

/-- A recurring schedule with a time, a known weekday, an existing month and day. -/
def Valid (env : TaskEnv) (mode : ScheduleMode) : Prop :=
  match mode with
  | .daily time => (env.parseTime time).isSome
  | .weekly days time => (env.parseTime time).isSome ∧ days.filterMap weekdayNum ≠ []
  | .monthly day time => (env.parseTime time).isSome ∧ 1 ≤ day
  | .yearly month day time =>
      (env.parseTime time).isSome ∧ (1 ≤ month ∧ month ≤ 12) ∧ 1 ≤ day
  | .interval _ _ => True
  | .once _ _ => False

/-- The dates a scan looks at; a daily one stops at the first on which the time exists. -/
def LooksAt (mode : ScheduleMode) (time after : Int) (tz : Zone) (date : Int) : Prop :=
  match mode with
  | .daily _ =>
      ∃ n ≤ maxGapDays, date = startDate after time tz + n ∧
        ∀ i < n, tz.firstAt (reading (startDate after time tz + (i : Nat)) time) = none
  | .weekly _ _ => ∃ delta < 8, date = weeklyDate after tz delta
  | .monthly day _ =>
      ∃ delta < 13, date =
        clampedDate
          (addMonths (Calendar.yearOf (dateOf (tz.localAt after)))
            (Calendar.monthOf (dateOf (tz.localAt after))) (delta : Nat)).1
          (addMonths (Calendar.yearOf (dateOf (tz.localAt after)))
            (Calendar.monthOf (dateOf (tz.localAt after))) (delta : Nat)).2 day
  | .yearly month day _ =>
      ∃ delta < 3, date =
        clampedDate (Calendar.yearOf (dateOf (tz.localAt after)) + (delta : Nat)) month day
  | .once _ _ | .interval _ _ => False

end ScheduleMode

section Slots

variable (env : TaskEnv)
variable (mode : ScheduleMode)
variable (tz : Zone)
variable (after : Int)

/-- The slot of a date: the first instant with the reading. -/
def SlotOn (date t : Int) : Prop :=
  mode.ScheduledOn date ∧
    ∃ time, mode.timeOfDay env = some time ∧ tz.firstAt (reading date time) = some t

/-- A slot of the schedule; for an interval, a point of the grid from its anchor on. -/
def IsSlot (t : Int) : Prop :=
  match mode with
  | .interval everyMinutes anchor =>
      ∃ k : Nat, t = intervalAnchor anchor after + k * max (everyMinutes * 60000) 60000
  | _ => ∃ date, SlotOn env mode tz date t

/-- The first slot after a time. -/
def NextSlot (t : Int) : Prop :=
  IsSlot env mode tz after t ∧ after < t ∧ ∀ s, IsSlot env mode tz after s → after < s → t ≤ s

/--
The next slot is the slot of a date the scan looks at; for an interval, its cadence is a
duration and the next point has 64 bits.
-/
def NextInReach : Prop :=
  match mode with
  | .interval everyMinutes _ =>
      (durationMinutes everyMinutes).isSome ∧
        ∃ t, NextSlot env mode tz after t ∧ t < 2 ^ 63
  | _ =>
      ∃ date t time, mode.timeOfDay env = some time ∧ mode.LooksAt time after tz date ∧
        SlotOn env mode tz date t ∧ NextSlot env mode tz after t

end Slots

/-! ## The scans -/

theorem nextOf_eq_some_iff
    {after t : Int}
    {candidates : List Int} :
    nextOf after candidates = some t ↔
      t ∈ candidates ∧ after < t ∧ ∀ s ∈ candidates, after < s → t ≤ s := by
  unfold nextOf
  rw [List.min?_eq_some_iff]
  simp only [List.mem_filter, decide_eq_true_eq, and_assoc, and_imp]

/-- The least candidate ahead is the next slot exactly if the next slot is a candidate. -/
theorem nextOf_next_iff
    {IsSlot : Int → Prop}
    {after : Int}
    {candidates : List Int}
    (hslots : ∀ s ∈ candidates, IsSlot s) :
    (∃ t, nextOf after candidates = some t ∧
      IsSlot t ∧ after < t ∧ ∀ s, IsSlot s → after < s → t ≤ s) ↔
      ∃ t ∈ candidates, IsSlot t ∧ after < t ∧ ∀ s, IsSlot s → after < s → t ≤ s := by
  constructor
  · rintro ⟨t, hnext, hslot⟩
    exact ⟨t, (nextOf_eq_some_iff.1 hnext).1, hslot⟩
  · rintro ⟨t, ht, hslot, hahead, hfirst⟩
    exact ⟨t, nextOf_eq_some_iff.2
      ⟨ht, hahead, fun s hs hahead' => hfirst s (hslots s hs) hahead'⟩, hslot, hahead, hfirst⟩

theorem findSome?_range_eq_some_iff
    {f : Nat → Option Int}
    {n : Nat}
    {t : Int} :
    (List.range n).findSome? f = some t ↔ ∃ k < n, f k = some t ∧ ∀ i < k, f i = none := by
  induction n with
  | zero =>
      simp
  | succ n ih =>
      rw [List.range_succ, List.findSome?_append, Option.or_eq_some_iff, ih,
        List.findSome?_eq_none_iff]
      simp only [List.mem_range, List.findSome?_cons, List.findSome?_nil]
      constructor
      · rintro (⟨k, hk, hfound, hbefore⟩ | ⟨hbefore, hlast⟩)
        · exact ⟨k, Nat.lt_succ_of_lt hk, hfound, hbefore⟩
        · refine ⟨n, Nat.lt_succ_self n, ?_, hbefore⟩
          cases hn : f n with
          | none =>
              rw [hn] at hlast
              cases hlast
          | some s =>
              rwa [hn] at hlast
      · rintro ⟨k, hk, hfound, hbefore⟩
        rcases Nat.lt_succ_iff_lt_or_eq.1 hk with hlt | rfl
        · exact Or.inl ⟨k, hlt, hfound, hbefore⟩
        · exact Or.inr ⟨hbefore, by rw [hfound]⟩

section Scans

variable {env : TaskEnv}
variable {tz : Zone}
variable {after time t : Int}

/-- The slot a daily schedule takes. -/
theorem nextCalendarTime_eq_some_iff :
    nextCalendarTime after time tz = some t ↔
      ∃ date, (ScheduleMode.daily "").LooksAt time after tz date ∧
        tz.firstAt (reading date time) = some t := by
  unfold nextCalendarTime localSlot
  rw [findSome?_range_eq_some_iff]
  constructor
  · rintro ⟨n, hn, hfound, hbefore⟩
    exact ⟨_, ⟨n, Nat.lt_succ_iff.1 hn, rfl, hbefore⟩, hfound⟩
  · rintro ⟨_, ⟨n, hn, rfl, hbefore⟩, hfound⟩
    exact ⟨n, Nat.lt_succ_iff.2 hn, hfound, hbefore⟩

/-- The candidates of a weekly schedule are the slots of the dates it looks at. -/
theorem mem_weekly
    {days : List String}
    {text : String}
    (htime : env.parseTime text = some time) :
    t ∈ (List.range 8).filterMap (fun delta =>
        weeklyCandidate after (days.filterMap weekdayNum) time delta tz) ↔
      ∃ date, (ScheduleMode.weekly days text).LooksAt time after tz date ∧
        SlotOn env (.weekly days text) tz date t := by
  unfold SlotOn ScheduleMode.timeOfDay
  simp only [List.mem_filterMap, List.mem_range, weeklyCandidate, Option.ite_none_right_eq_some,
    ScheduleMode.ScheduledOn, htime, Option.some.injEq, exists_eq_left']
  constructor
  · rintro ⟨delta, hdelta, hday, hfound⟩
    exact ⟨_, ⟨delta, hdelta, rfl⟩, hday, hfound⟩
  · rintro ⟨_, ⟨delta, hdelta, rfl⟩, hday, hfound⟩
    exact ⟨delta, hdelta, hday, hfound⟩

theorem fromYmd_clamped
    {day : Int}
    (hday : 1 ≤ day)
    (year : Int)
    (month : Nat) :
    fromYmd year month (min day (Calendar.daysInMonth year month)) =
      some (clampedDate year month day) := by
  have hlength := (Calendar.daysInMonth_pos year month).1
  unfold fromYmd
  rw [if_pos (by omega)]
  rfl

/-- The months a scan counts to exist. -/
theorem addMonths_month
    (year : Int)
    (month : Nat)
    (delta : Int) :
    1 ≤ (addMonths year month delta).2 ∧ (addMonths year month delta).2 ≤ 12 := by
  unfold addMonths
  dsimp only
  omega

theorem mem_monthly
    {day : Int}
    {text : String}
    (htime : env.parseTime text = some time)
    (hday : 1 ≤ day) :
    t ∈ (List.range 13).filterMap (fun delta =>
        monthlyCandidate after day time delta tz) ↔
      ∃ date, (ScheduleMode.monthly day text).LooksAt time after tz date ∧
        SlotOn env (.monthly day text) tz date t := by
  unfold SlotOn ScheduleMode.timeOfDay
  simp only [List.mem_filterMap, List.mem_range, monthlyCandidate, fromYmd_clamped hday,
    Option.bind_eq_bind, Option.bind_some, htime, Option.some.injEq, exists_eq_left']
  constructor
  · rintro ⟨delta, hdelta, hfound⟩
    refine ⟨_, ⟨delta, hdelta, rfl⟩, ⟨_, _, ?_, ?_, rfl⟩, hfound⟩
    · exact (addMonths_month _ _ _).1
    · exact (addMonths_month _ _ _).2
  · rintro ⟨_, ⟨delta, hdelta, rfl⟩, -, hfound⟩
    exact ⟨delta, hdelta, hfound⟩

theorem mem_yearly
    {month : Nat}
    {day : Int}
    {text : String}
    (htime : env.parseTime text = some time)
    (hmonth : 1 ≤ month ∧ month ≤ 12)
    (hday : 1 ≤ day) :
    t ∈ (List.range 3).filterMap (fun delta =>
        yearlyCandidate after month day time delta tz) ↔
      ∃ date, (ScheduleMode.yearly month day text).LooksAt time after tz date ∧
        SlotOn env (.yearly month day text) tz date t := by
  have hvalid : ¬ (¬ (1 ≤ month ∧ month ≤ 12) ∨ day < 1) := by
    omega
  unfold SlotOn ScheduleMode.timeOfDay
  simp only [List.mem_filterMap, List.mem_range, yearlyCandidate, if_neg hvalid,
    fromYmd_clamped hday, Option.bind_eq_bind, Option.bind_some, htime, Option.some.injEq,
    exists_eq_left']
  constructor
  · rintro ⟨delta, hdelta, hfound⟩
    exact ⟨_, ⟨delta, hdelta, rfl⟩, ⟨_, rfl⟩, hfound⟩
  · rintro ⟨_, ⟨delta, hdelta, rfl⟩, -, hfound⟩
    exact ⟨delta, hdelta, hfound⟩

end Scans

/-! ## The claim of a schedule -/

section Next

variable {env : TaskEnv}
variable {tz : Zone}
variable {after time : Int}

/-- Calendar slots: the scan finds the next one exactly if it looks at its date. -/
theorem scan_next_iff
    (mode : ScheduleMode)
    {candidates : List Int}
    (htime : mode.timeOfDay env = some time)
    (hmem : ∀ t, t ∈ candidates ↔
      ∃ date, mode.LooksAt time after tz date ∧ SlotOn env mode tz date t) :
    (∃ t, nextOf after candidates = some t ∧ (∃ date, SlotOn env mode tz date t) ∧ after < t ∧
      ∀ s, (∃ date, SlotOn env mode tz date s) → after < s → t ≤ s) ↔
      ∃ date t time, mode.timeOfDay env = some time ∧ mode.LooksAt time after tz date ∧
        SlotOn env mode tz date t ∧ (∃ date, SlotOn env mode tz date t) ∧ after < t ∧
          ∀ s, (∃ date, SlotOn env mode tz date s) → after < s → t ≤ s := by
  rw [nextOf_next_iff fun s hs =>
    let ⟨date, _, hslot⟩ := (hmem s).1 hs
    ⟨date, hslot⟩]
  constructor
  · rintro ⟨t, ht, hnext⟩
    obtain ⟨date, hlooks, hslot⟩ := (hmem t).1 ht
    exact ⟨date, t, time, htime, hlooks, hslot, hnext⟩
  · rintro ⟨date, t, time', htime', hlooks, hslot, hnext⟩
    obtain rfl := Option.some.inj (htime.symm.trans htime')
    exact ⟨t, (hmem t).2 ⟨date, hlooks, hslot⟩, hnext⟩

/-- An interval schedule takes the next point of its grid. -/
theorem interval_next
    (anchor after : Int)
    {step : Int}
    (hstep : 0 < step) :
    let due := if anchor ≤ after then anchor + ((after - anchor) / step + 1) * step else anchor
    (∃ k : Nat, due = anchor + k * step) ∧ after < due ∧
      ∀ s, (∃ k : Nat, s = anchor + k * step) → after < s → due ≤ s := by
  dsimp only
  by_cases hpast : anchor ≤ after
  · rw [if_pos hpast]
    have hq : 0 ≤ (after - anchor) / step := Int.ediv_nonneg (by omega) hstep.le
    have hnext := Int.lt_ediv_add_one_mul_self (after - anchor) hstep
    refine ⟨⟨((after - anchor) / step + 1).toNat, ?_⟩, by omega, ?_⟩
    · rw [Int.toNat_of_nonneg (by omega)]
    · rintro s ⟨k, rfl⟩ hahead
      have hk : (after - anchor) / step < k :=
        Int.ediv_lt_of_lt_mul hstep (by omega)
      have hle := Int.mul_le_mul_of_nonneg_right (Int.add_one_le_of_lt hk) hstep.le
      omega
  · rw [if_neg hpast]
    refine ⟨⟨0, by simp⟩, by omega, ?_⟩
    rintro s ⟨k, rfl⟩ -
    have hpos := Int.mul_nonneg (Int.natCast_nonneg k) hstep.le
    omega

theorem intervalStep_eq_some_iff
    {everyMinutes step : Int} :
    intervalStep everyMinutes = some step ↔
      (durationMinutes everyMinutes).isSome = true ∧ step = max (everyMinutes * 60000) 60000 := by
  unfold intervalStep durationMinutes
  split
  · simp [eq_comm]
  · simp

/-- The next slot of an interval schedule. -/
theorem interval_in_reach_iff
    {everyMinutes anchor : Int} :
    (∃ t, nextDueForMode env (.interval everyMinutes anchor) after tz = some t ∧
      NextSlot env (.interval everyMinutes anchor) tz after t) ↔
      NextInReach env (.interval everyMinutes anchor) tz after := by
  have hstep : 0 < max (everyMinutes * 60000) 60000 := by omega
  have hnext : NextSlot env (.interval everyMinutes anchor) tz after _ :=
    interval_next (intervalAnchor anchor after) after hstep
  have hdue : nextDueForMode env (.interval everyMinutes anchor) after tz =
      (intervalStep everyMinutes).bind fun step =>
        let due := if intervalAnchor anchor after ≤ after then
            intervalAnchor anchor after +
              ((after - intervalAnchor anchor after) / step + 1) * step
          else intervalAnchor anchor after
        if due < 2 ^ 63 then some due else none := rfl
  rw [hdue]
  constructor
  · rintro ⟨t, hdue, hslot⟩
    obtain ⟨step, hsome, hdue⟩ := Option.bind_eq_some_iff.1 hdue
    dsimp only at hdue
    rw [Option.ite_none_right_eq_some, Option.some.injEq] at hdue
    exact ⟨(intervalStep_eq_some_iff.1 hsome).1, t, hslot, hdue.2 ▸ hdue.1⟩
  · rintro ⟨hduration, t, hslot, hbound⟩
    rw [intervalStep_eq_some_iff.2 ⟨hduration, rfl⟩, Option.bind_some]
    have hsame := le_antisymm (hslot.2.2 _ hnext.1 hnext.2.1) (hnext.2.2 t hslot.1 hslot.2.1)
    refine ⟨t, ?_, hslot⟩
    dsimp only
    rw [← hsame, if_pos hbound]

/-- A daily schedule has one candidate. -/
theorem nextOf_toList (after : Int) (candidate : Option Int) :
    nextOf after candidate.toList =
      candidate.bind fun due => if after < due then some due else none := by
  cases candidate with
  | none =>
      rfl
  | some due =>
      by_cases h : after < due <;> simp [nextOf, h]

/--
A task on a recurring schedule comes due at the first slot after a time exactly if that
slot is within the reach of the scan.
-/
theorem next_due_on_schedule_iff
    (env : TaskEnv)
    (task : Task)
    (henabled : task.enabled = true)
    (hdeleted : task.deletedAt = none)
    (hkind : task.triggerKind = .schedule)
    (mode : ScheduleMode)
    (hmode : env.parseSchedule task.triggerJson = some mode)
    (hvalid : mode.Valid env)
    (after : Int) :
    (∃ t, nextDue env task after = some t ∧
      NextSlot env mode (env.taskTimezone task) after t) ↔
      NextInReach env mode (env.taskTimezone task) after := by
  have hdue : nextDue env task after =
      nextDueForMode env mode after (env.taskTimezone task) := by
    simp [nextDue, henabled, hdeleted, hkind, hmode]
  rw [hdue]
  generalize env.taskTimezone task = tz
  cases mode with
  | once date time =>
      cases hvalid
  | interval everyMinutes anchor =>
      exact interval_in_reach_iff
  | daily text =>
      obtain ⟨time, htime⟩ := Option.isSome_iff_exists.1 hvalid
      have hfor : nextDueForMode env (.daily text) after tz =
          nextOf after (nextCalendarTime after time tz).toList := by
        rw [nextOf_toList]
        simp [nextDueForMode, htime]
      have hmem : ∀ t, t ∈ (nextCalendarTime after time tz).toList ↔
          ∃ date, (ScheduleMode.daily text).LooksAt time after tz date ∧
            SlotOn env (.daily text) tz date t := by
        intro t
        rw [Option.mem_toList, nextCalendarTime_eq_some_iff]
        simp only [SlotOn, ScheduleMode.ScheduledOn, ScheduleMode.timeOfDay, htime,
          Option.some.injEq, exists_eq_left', true_and]
        rfl
      rw [hfor]
      exact scan_next_iff (.daily text) htime hmem
  | weekly days text =>
      obtain ⟨hparsed, hdays⟩ := hvalid
      obtain ⟨time, htime⟩ := Option.isSome_iff_exists.1 hparsed
      have hfor : nextDueForMode env (.weekly days text) after tz =
          nextOf after ((List.range 8).filterMap fun delta =>
            weeklyCandidate after (days.filterMap weekdayNum) time delta tz) := by
        rw [nextDueForMode, htime, Option.bind_eq_bind, Option.bind_some, if_neg hdays]
      rw [hfor]
      exact scan_next_iff (.weekly days text) htime fun t => mem_weekly htime
  | monthly day text =>
      obtain ⟨hparsed, hday⟩ := hvalid
      obtain ⟨time, htime⟩ := Option.isSome_iff_exists.1 hparsed
      have hfor : nextDueForMode env (.monthly day text) after tz =
          nextOf after ((List.range 13).filterMap fun delta =>
            monthlyCandidate after day time delta tz) := by
        rw [nextDueForMode, htime, Option.bind_eq_bind, Option.bind_some]
      rw [hfor]
      exact scan_next_iff (.monthly day text) htime fun t => mem_monthly htime hday
  | yearly month day text =>
      obtain ⟨hparsed, hmonth, hday⟩ := hvalid
      obtain ⟨time, htime⟩ := Option.isSome_iff_exists.1 hparsed
      have hfor : nextDueForMode env (.yearly month day text) after tz =
          nextOf after ((List.range 3).filterMap fun delta =>
            yearlyCandidate after month day time delta tz) := by
        rw [nextDueForMode, htime, Option.bind_eq_bind, Option.bind_some]
      rw [hfor]
      exact scan_next_iff (.yearly month day text) htime fun t => mem_yearly htime hmonth hday

end Next

/-! ## Zones without changes -/

section Fixed

variable {env : TaskEnv}
variable {offset after time : Int}

theorem startDate_fixed :
    startDate after time (Zone.fixed offset) =
      dateOf (after + offset) + if time ≤ timeOf (after + offset) then 1 else 0 := rfl

/-- The readings ahead are those from the starting date on. -/
theorem ahead_iff
    (htime : 0 ≤ time ∧ time < dayMillis)
    (date : Int) :
    after < reading date time - offset ↔
      startDate after time (Zone.fixed offset) ≤ date := by
  rw [startDate_fixed]
  unfold reading dateOf timeOf dayMillis at *
  split <;> omega

theorem reading_le_iff {date date' : Int} :
    reading date time ≤ reading date' time ↔ date ≤ date' := by
  unfold reading dayMillis
  omega

/-- The slot of the first scheduled date from the starting date on is the next slot. -/
theorem next_fixed
    (env : TaskEnv)
    (offset after : Int)
    (mode : ScheduleMode)
    (hslot : ∀ t, IsSlot env mode (Zone.fixed offset) after t ↔
      ∃ date, SlotOn env mode (Zone.fixed offset) date t)
    (hparsed : mode.timeOfDay env = some time)
    (htime : 0 ≤ time ∧ time < dayMillis)
    (date : Int)
    (hscheduled : mode.ScheduledOn date)
    (hstart : startDate after time (Zone.fixed offset) ≤ date)
    (hfirst : ∀ date', mode.ScheduledOn date' →
      startDate after time (Zone.fixed offset) ≤ date' → date ≤ date') :
    SlotOn env mode (Zone.fixed offset) date (reading date time - offset) ∧
      NextSlot env mode (Zone.fixed offset) after (reading date time - offset) := by
  have hon : SlotOn env mode (Zone.fixed offset) date (reading date time - offset) :=
    ⟨hscheduled, time, hparsed, Zone.firstAt_fixed _ _⟩
  refine ⟨hon, (hslot _).2 ⟨date, hon⟩, (ahead_iff htime date).2 hstart, fun s hs hahead => ?_⟩
  obtain ⟨date', hscheduled', time', hparsed', hs⟩ := (hslot s).1 hs
  obtain rfl := Option.some.inj (hparsed.symm.trans hparsed')
  rw [Zone.firstAt_fixed, Option.some.injEq] at hs
  rw [← hs] at hahead ⊢
  have hle : reading date time ≤ reading date' time :=
    reading_le_iff.2 (hfirst date' hscheduled' ((ahead_iff htime date').1 hahead))
  omega

/-- One date in each of consecutive blocks: the first from a date on is close by. -/
theorem block_first
    {b c : Int → Int}
    (hblock : ∀ j, b j ≤ c j ∧ c j < b (j + 1))
    {k start : Int}
    (hstart : b k ≤ start ∧ start ≤ b (k + 1)) :
    ∃ delta : Nat, delta < 2 ∧ start ≤ c (k + delta) ∧
      ∀ j, start ≤ c j → c (k + delta) ≤ c j := by
  have hb : StrictMono b :=
    strictMono_int_of_lt_succ fun j => lt_of_le_of_lt (hblock j).1 (hblock j).2
  have hc : StrictMono c :=
    strictMono_int_of_lt_succ fun j => lt_of_lt_of_le (hblock j).2 (hblock (j + 1)).1
  have hfrom : ∀ j, start ≤ c j → k ≤ j := by
    intro j hj
    by_contra hlt
    have hle : b (j + 1) ≤ b k := hb.monotone (by omega)
    have hbefore := (hblock j).2
    omega
  by_cases hthis : start ≤ c k
  · refine ⟨0, by omega, by simpa using hthis, fun j hj => ?_⟩
    simpa using hc.monotone (hfrom j hj)
  · refine ⟨1, by omega, hstart.2.trans (hblock (k + 1)).1, fun j hj => ?_⟩
    have hne : j ≠ k := by
      rintro rfl
      exact hthis hj
    have hle := hfrom j hj
    exact hc.monotone (by push_cast; omega)

theorem start_in_block
    (time : Int)
    {b : Int → Int}
    {k : Int}
    (h : b k ≤ dateOf (after + offset) ∧ dateOf (after + offset) < b (k + 1)) :
    b k ≤ startDate after time (Zone.fixed offset) ∧
      startDate after time (Zone.fixed offset) ≤ b (k + 1) := by
  rw [startDate_fixed]
  split <;> omega

/-- The known weekdays are those of a week. -/
theorem weekdayNum_range
    {day : String}
    {n : Int}
    (h : weekdayNum day = some n) :
    0 ≤ n ∧ n < 7 := by
  unfold weekdayNum at h
  dsimp only at h
  split_ifs at h <;> · obtain rfl := Option.some.inj h; omega

/-- Within a week there is a first scheduled day. -/
theorem week_first
    {days : List String}
    (hdays : days.filterMap weekdayNum ≠ [])
    (start : Int) :
    ∃ n : Nat, n < 7 ∧ Calendar.weekday (start + n) ∈ days.filterMap weekdayNum ∧
      ∀ date, Calendar.weekday date ∈ days.filterMap weekdayNum → start ≤ date →
        start + n ≤ date := by
  obtain ⟨w, hw⟩ := List.exists_mem_of_ne_nil _ hdays
  obtain ⟨day, -, hday⟩ := List.mem_filterMap.1 hw
  have hrange := weekdayNum_range hday
  have hreach : Calendar.weekday (start + ((w - Calendar.weekday start) % 7).toNat) ∈
      days.filterMap weekdayNum := by
    have hsame : Calendar.weekday (start + ((w - Calendar.weekday start) % 7).toNat) = w := by
      unfold Calendar.weekday
      omega
    rwa [hsame]
  have hexists : ∃ n : Nat, Calendar.weekday (start + n) ∈ days.filterMap weekdayNum :=
    ⟨_, hreach⟩
  refine ⟨Nat.find hexists, ?_, Nat.find_spec hexists, fun date hdate hle => ?_⟩
  · have hle := Nat.find_min' hexists hreach
    omega
  · have hback : start + ((date - start).toNat : Int) = date := by
      omega
    have hmin := Nat.find_min' hexists (m := (date - start).toNat) (by rwa [hback])
    omega

theorem clampedDate_in_month
    {day : Int}
    (hday : 1 ≤ day)
    (k : Int) :
    Calendar.monthStart k ≤ clampedDate (k / 12) (k % 12 + 1).toNat day ∧
      clampedDate (k / 12) (k % 12 + 1).toNat day < Calendar.monthStart (k + 1) := by
  have hlength := (Calendar.daysInMonth_pos (k / 12) (k % 12 + 1).toNat).1
  rw [Calendar.monthStart_succ]
  unfold clampedDate Calendar.monthStart Calendar.dayNumber
  omega

theorem clampedDate_in_year
    {month : Nat}
    (hmonth : 1 ≤ month ∧ month ≤ 12)
    {day : Int}
    (hday : 1 ≤ day)
    (year : Int) :
    Calendar.daysBeforeYear year ≤ clampedDate year month day ∧
      clampedDate year month day < Calendar.daysBeforeYear (year + 1) := by
  obtain ⟨hstart, hend⟩ := Calendar.month_in_year year hmonth
  have hlength := (Calendar.daysInMonth_pos year month).1
  unfold clampedDate Calendar.dayNumber at *
  omega

/-- In a zone that does not change the next slot is always within reach. -/
theorem fixed_in_reach
    (env : TaskEnv)
    (mode : ScheduleMode)
    (hvalid : mode.Valid env)
    (time : Int)
    (hparsed : mode.timeOfDay env = some time)
    (htime : 0 ≤ time ∧ time < dayMillis)
    (offset after : Int) :
    NextInReach env mode (Zone.fixed offset) after := by
  cases mode with
  | once date text =>
      cases hparsed
  | interval everyMinutes anchor =>
      cases hparsed
  | daily text =>
      obtain ⟨hon, hnext⟩ := next_fixed env offset after (.daily text) (fun _ => Iff.rfl) hparsed
        htime (startDate after time (Zone.fixed offset)) trivial le_rfl (fun _ _ h => h)
      exact ⟨_, _, time, hparsed, ⟨0, Nat.zero_le _, by simp, by simp⟩, hon, hnext⟩
  | weekly days text =>
      obtain ⟨n, hn, hday, hfirst⟩ := week_first hvalid.2 (startDate after time (Zone.fixed offset))
      obtain ⟨hon, hnext⟩ := next_fixed env offset after (.weekly days text) (fun _ => Iff.rfl)
        hparsed htime _ hday (by omega) hfirst
      refine ⟨_, _, time, hparsed, ?_, hon, hnext⟩
      obtain ⟨delta, hdelta, hdate⟩ : ∃ delta : Nat, delta < 8 ∧
          startDate after time (Zone.fixed offset) + n =
            dateOf (after + delta * dayMillis + offset) := by
        rw [startDate_fixed]
        unfold dateOf timeOf dayMillis
        split
        · exact ⟨n + 1, by omega, by omega⟩
        · exact ⟨n, by omega, by omega⟩
      exact ⟨delta, hdelta, hdate⟩
  | monthly day text =>
      obtain ⟨delta, hdelta, hstart, hfirst⟩ := block_first (clampedDate_in_month hvalid.2)
        (start_in_block time (Calendar.monthIndex_spec (dateOf (after + offset))))
      obtain ⟨hon, hnext⟩ := next_fixed env offset after (.monthly day text) (fun _ => Iff.rfl)
        hparsed htime _ ⟨_, _, by omega, by omega, rfl⟩ hstart (by
          rintro _ ⟨year, month, hpos, hle, rfl⟩ hahead
          have hindex := hfirst (year * 12 + month - 1)
          have hyear : (year * 12 + (month : Int) - 1) / 12 = year := by omega
          have hmonth : ((year * 12 + (month : Int) - 1) % 12 + 1).toNat = month := by omega
          rw [hyear, hmonth] at hindex
          exact hindex hahead)
      exact ⟨_, _, time, hparsed, ⟨delta, by omega, rfl⟩, hon, hnext⟩
  | yearly month day text =>
      obtain ⟨delta, hdelta, hstart, hfirst⟩ := block_first
        (clampedDate_in_year hvalid.2.1 hvalid.2.2)
        (start_in_block time (Calendar.yearOf_spec (dateOf (after + offset))))
      obtain ⟨hon, hnext⟩ := next_fixed env offset after (.yearly month day text)
        (fun _ => Iff.rfl) hparsed htime _ ⟨_, rfl⟩ hstart (by
          rintro _ ⟨year, rfl⟩ hahead
          exact hfirst year hahead)
      exact ⟨_, _, time, hparsed, ⟨delta, by omega, rfl⟩, hon, hnext⟩

end Fixed

/-! ## Clock changes -/

/-- The libraries, for a task with the given schedule, time and zone. -/
def taskEnv (mode : ScheduleMode) (time : Int) (tz : Zone) : TaskEnv where
  parseSchedule := fun _ => some mode
  parseDate := fun _ => none
  parseTime := fun _ => some time
  parseTimezone := fun _ => some tz
  defaultTimezone := tz

def scheduledTask : Task where
  enabled := true
  deletedAt := none
  triggerKind := .schedule
  triggerJson := .null
  timezone := some "America/New_York"

/-- An instant by its UTC date, hour and minute. -/
def utc (year : Int) (month : Nat) (day hour minute : Int) : Int :=
  reading (Calendar.dayNumber year month day) ((hour * 60 + minute) * 60000)

/-- New York in the autumn of 2026: at 2:00 the clock goes back to 1:00. -/
def newYork : Zone where
  initial := -4 * 3600000
  changes := [(utc 2026 11 1 6 0, -5 * 3600000)]
  ordered := by decide

/-- Tehran in spring: three years in a row the clock skips 0:00 to 1:00 on 22 March. -/
def tehran : Zone where
  initial := 210 * 60000
  changes :=
    [(utc 2017 3 21 20 30, 270 * 60000), (utc 2017 9 21 19 30, 210 * 60000),
      (utc 2018 3 21 20 30, 270 * 60000), (utc 2018 9 21 19 30, 210 * 60000),
      (utc 2019 3 21 20 30, 270 * 60000), (utc 2019 9 21 19 30, 210 * 60000)]
  ordered := by decide

/--
At the second 1:15 the daily 1:30 of the day is behind already and no other is tried; and
a yearly 22 March, 0:30 does not exist in the next two years.
-/
theorem clock_changes_unschedule :
    (ScheduleMode.daily "01:30").Valid (taskEnv (.daily "01:30") 5400000 newYork) ∧
      (¬ ∃ t, nextDue (taskEnv (.daily "01:30") 5400000 newYork) scheduledTask
          (utc 2026 11 1 6 15) = some t ∧
        NextSlot (taskEnv (.daily "01:30") 5400000 newYork) (.daily "01:30") newYork
          (utc 2026 11 1 6 15) t) ∧
      (ScheduleMode.yearly 3 22 "00:30").Valid
        (taskEnv (.yearly 3 22 "00:30") 1800000 tehran) ∧
      ¬ ∃ t, nextDue (taskEnv (.yearly 3 22 "00:30") 1800000 tehran) scheduledTask
          (utc 2016 4 1 0 0) = some t ∧
        NextSlot (taskEnv (.yearly 3 22 "00:30") 1800000 tehran) (.yearly 3 22 "00:30") tehran
          (utc 2016 4 1 0 0) t := by
  have hdaily : nextDue (taskEnv (.daily "01:30") 5400000 newYork) scheduledTask
      (utc 2026 11 1 6 15) = none := by
    decide +kernel
  have hyearly : nextDue (taskEnv (.yearly 3 22 "00:30") 1800000 tehran) scheduledTask
      (utc 2016 4 1 0 0) = none := by
    decide +kernel
  refine ⟨rfl, ?_, ⟨rfl, by decide, by decide⟩, ?_⟩
  · rintro ⟨t, hdue, -⟩
    rw [hdaily] at hdue
    cases hdue
  · rintro ⟨t, hdue, -⟩
    rw [hyearly] at hdue
    cases hdue

/-- Shanghai, whose clock does not change: the last day of each month at 9:00. -/
theorem next_due_on_schedule_shanghai :
    ∃ t, nextDue (taskEnv (.monthly 31 "09:00") 32400000 (Zone.fixed 28800000)) scheduledTask
        (utc 2026 2 1 0 0) = some t ∧
      NextSlot (taskEnv (.monthly 31 "09:00") 32400000 (Zone.fixed 28800000))
        (.monthly 31 "09:00") (Zone.fixed 28800000) (utc 2026 2 1 0 0) t :=
  (next_due_on_schedule_iff (taskEnv (.monthly 31 "09:00") 32400000 (Zone.fixed 28800000))
    scheduledTask rfl rfl rfl (.monthly 31 "09:00") rfl ⟨rfl, by decide⟩ (utc 2026 2 1 0 0)).2
    (fixed_in_reach _ (.monthly 31 "09:00") ⟨rfl, by decide⟩ 32400000 rfl (by decide) 28800000 _)

end Tasks
end FutureOs
