import Mathlib.Algebra.Order.Group.Int
import Mathlib.Data.List.Basic
import Mathlib.Order.Monotone.Basic
import Mathlib.Tactic.Common

/-!
# The Gregorian calendar

A date is its number of days since 1 January 1970, in the proleptic Gregorian calendar.
`dayNumber` is the number of a date written as year, month and day; `yearOf` and
`monthOf` read a number back (`yearOf_spec`, `monthOf_spec`).
-/

namespace FutureOs
namespace Calendar

def isLeap (y : Int) : Bool :=
  y % 4 = 0 && (y % 100 ≠ 0 || y % 400 = 0)

def daysInMonth (y : Int) (m : Nat) : Int :=
  match m with
  | 2 => if isLeap y then 29 else 28
  | 4 | 6 | 9 | 11 => 30
  | _ => 31

/-- The number of 1 January of a year. -/
def daysBeforeYear (y : Int) : Int :=
  365 * (y - 1970) + (y - 1) / 4 - (y - 1) / 100 + (y - 1) / 400 - 477

/-- The days of the year before a month. -/
def daysBeforeMonth (y : Int) : Nat → Int
  | 0 | 1 => 0
  | m + 2 => daysBeforeMonth y (m + 1) + daysInMonth y (m + 1)

/-- The number of a date. -/
def dayNumber (y : Int) (m : Nat) (d : Int) : Int :=
  daysBeforeYear y + daysBeforeMonth y m + (d - 1)

/-- The year of a date: whole cycles of 400, 100, 4 and 1 years since year 1. -/
def yearOf (date : Int) : Int :=
  let n := date + 719162
  let r400 := n % 146097
  let n100 := min (r400 / 36524) 3
  let r100 := r400 - n100 * 36524
  let r4 := r100 % 1461
  let n1 := min (r4 / 365) 3
  n / 146097 * 400 + n100 * 100 + r100 / 1461 * 4 + n1 + 1

/-- The last of the first months of a year that starts by a date. -/
def monthFrom (y date : Int) : Nat → Nat
  | 0 => 1
  | m + 1 => if dayNumber y (m + 1) 1 ≤ date then m + 1 else monthFrom y date m

/-- The month of a date. -/
def monthOf (date : Int) : Nat :=
  monthFrom (yearOf date) date 12

/-- Monday is zero. -/
def weekday (date : Int) : Int :=
  (date + 3) % 7

/-- The days before a year, by the cycles it is made of. -/
theorem daysBeforeYear_cycles
    (n400 n100 n4 n1 : Int)
    (h100 : 0 ≤ n100 ∧ n100 ≤ 3)
    (h4 : 0 ≤ n4 ∧ n4 ≤ 24)
    (h1 : 0 ≤ n1 ∧ n1 ≤ 3) :
    daysBeforeYear (n400 * 400 + n100 * 100 + n4 * 4 + n1 + 1) =
      146097 * n400 + 36524 * n100 + 1461 * n4 + 365 * n1 - 719162 := by
  unfold daysBeforeYear
  have hyear : n400 * 400 + n100 * 100 + n4 * 4 + n1 + 1 - 1 =
      n400 * 400 + n100 * 100 + n4 * 4 + n1 := by
    omega
  rw [hyear]
  omega

/-- The length of a year. -/
theorem daysBeforeYear_succ (y : Int) :
    daysBeforeYear (y + 1) = daysBeforeYear y + if isLeap y then 366 else 365 := by
  unfold daysBeforeYear isLeap
  split
  · rename_i h
    simp only [Bool.and_eq_true, Bool.or_eq_true, decide_eq_true_eq] at h
    omega
  · rename_i h
    simp only [Bool.and_eq_true, Bool.or_eq_true, decide_eq_true_eq, not_and_or, not_or,
      not_not] at h
    omega

/-- The last year of a cycle of four is a leap year, unless a century ends in it. -/
theorem isLeap_last
    {q n100 n4 : Int}
    (h4 : 0 ≤ n4 ∧ n4 ≤ 24)
    (hcentury : n4 = 24 → n100 = 3) :
    isLeap (q * 400 + n100 * 100 + n4 * 4 + 3 + 1) = true := by
  have hyear : q * 400 + n100 * 100 + n4 * 4 + 3 + 1 =
      q * 400 + n100 * 100 + (n4 + 1) * 4 := by
    omega
  rw [hyear]
  simp only [isLeap, Bool.and_eq_true, Bool.or_eq_true, decide_eq_true_eq]
  refine ⟨by omega, ?_⟩
  by_cases hlast : n4 = 24
  · right
    rw [hlast, hcentury hlast]
    omega
  · left
    omega

/-- The year in a cycle of four: only the last one has a day 365. -/
theorem year_in_cycle
    {r n : Int}
    (hr : 0 ≤ r ∧ r < 1461)
    (hn : min (r / 365) 3 = n) :
    (0 ≤ n ∧ n ≤ 3) ∧ 365 * n ≤ r ∧ (r = 1460 → n = 3) ∧ (r ≠ 1460 → r < 365 * n + 365) := by
  omega

theorem yearOf_spec (date : Int) :
    daysBeforeYear (yearOf date) ≤ date ∧ date < daysBeforeYear (yearOf date + 1) := by
  unfold yearOf
  dsimp only
  generalize hn : date + 719162 = n
  generalize hr400 : n % 146097 = r400
  generalize hn100 : min (r400 / 36524) 3 = n100
  generalize hr100 : r400 - n100 * 36524 = r100
  generalize hr4 : r100 % 1461 = r4
  generalize hn1 : min (r4 / 365) 3 = n1
  have hr400' : 0 ≤ r400 ∧ r400 < 146097 := by omega
  have hn100' : 0 ≤ n100 ∧ n100 ≤ 3 := by omega
  have hr100' : 0 ≤ r100 ∧ r100 ≤ 36524 := by omega
  have hcentury : r100 = 36524 → n100 = 3 := by omega
  have hr4' : 0 ≤ r4 ∧ r4 < 1461 := by omega
  have hn4' : 0 ≤ r100 / 1461 ∧ r100 / 1461 ≤ 24 := by omega
  have hr100'' : 1461 * (r100 / 1461) + r4 = r100 := by omega
  obtain ⟨hn1', hle, hthree, hshort⟩ := year_in_cycle hr4' hn1
  have hdays := daysBeforeYear_cycles (n / 146097) n100 (r100 / 1461) n1 hn100' hn4' hn1'
  have hdate : date = 146097 * (n / 146097) + 36524 * n100 + 1461 * (r100 / 1461) + r4 -
      719162 := by
    omega
  clear hn1 hn100
  generalize hy : n / 146097 * 400 + n100 * 100 + r100 / 1461 * 4 + n1 + 1 = y at hdays ⊢
  rw [daysBeforeYear_succ, hdays]
  refine ⟨by omega, ?_⟩
  by_cases hlast : r4 = 1460
  · -- The last day of a cycle belongs to a leap year.
    have hleap : isLeap y = true := by
      rw [← hy, hthree hlast]
      exact isLeap_last hn4' fun h => hcentury (by omega)
    rw [if_pos hleap]
    have hfirst := hthree hlast
    omega
  · have hnext := hshort hlast
    split <;> omega

theorem dayNumber_january (y : Int) : dayNumber y 1 1 = daysBeforeYear y := by
  simp [dayNumber, daysBeforeMonth]

/-- A month ends where the next one starts. -/
theorem dayNumber_next_month
    (y : Int)
    {m : Nat}
    (hm : 1 ≤ m) :
    dayNumber y (m + 1) 1 = dayNumber y m 1 + daysInMonth y m := by
  obtain ⟨k, rfl⟩ := Nat.exists_eq_add_of_le' hm
  simp only [dayNumber, daysBeforeMonth]
  omega

/-- December ends where the next year starts. -/
theorem dayNumber_next_year (y : Int) :
    dayNumber (y + 1) 1 1 = dayNumber y 12 1 + daysInMonth y 12 := by
  rw [dayNumber_january, daysBeforeYear_succ]
  by_cases h : isLeap y = true
  · simp only [dayNumber, daysBeforeMonth, daysInMonth, h, if_true]
    omega
  · simp only [dayNumber, daysBeforeMonth, daysInMonth, h, Bool.false_eq_true, if_false]
    omega

theorem daysInMonth_pos (y : Int) (m : Nat) : 28 ≤ daysInMonth y m ∧ daysInMonth y m ≤ 31 := by
  unfold daysInMonth
  split
  · split <;> omega
  all_goals omega

theorem monthFrom_spec
    {y date : Int}
    (hyear : dayNumber y 1 1 ≤ date)
    (m : Nat) :
    1 ≤ monthFrom y date (m + 1) ∧ monthFrom y date (m + 1) ≤ m + 1 ∧
      dayNumber y (monthFrom y date (m + 1)) 1 ≤ date ∧
      (monthFrom y date (m + 1) < m + 1 →
        date < dayNumber y (monthFrom y date (m + 1) + 1) 1) := by
  induction m with
  | zero =>
      simp [monthFrom, hyear]
  | succ m ih =>
      rw [monthFrom]
      split
      · rename_i hstart
        exact ⟨by omega, Nat.le_refl _, hstart, fun hlt => absurd hlt (Nat.lt_irrefl _)⟩
      · rename_i hlater
        obtain ⟨hpos, hle, hstart, hnext⟩ := ih
        refine ⟨hpos, by omega, hstart, fun _ => ?_⟩
        rcases Nat.lt_or_ge (monthFrom y date (m + 1)) (m + 1) with hlt | hge
        · exact hnext hlt
        · rw [Nat.le_antisymm hle hge]
          omega

/-- A date lies in its month. -/
theorem monthOf_spec (date : Int) :
    1 ≤ monthOf date ∧ monthOf date ≤ 12 ∧
      dayNumber (yearOf date) (monthOf date) 1 ≤ date ∧
      date < dayNumber (yearOf date) (monthOf date) 1 +
        daysInMonth (yearOf date) (monthOf date) := by
  obtain ⟨hfirst, hlast⟩ := yearOf_spec date
  rw [← dayNumber_january] at hfirst hlast
  obtain ⟨hpos, hle, hstart, hnext⟩ := monthFrom_spec hfirst 11
  refine ⟨hpos, hle, hstart, ?_⟩
  unfold monthOf
  rcases Nat.lt_or_ge (monthFrom (yearOf date) date 12) 12 with hlt | hge
  · rw [← dayNumber_next_month _ hpos]
    exact hnext hlt
  · rw [Nat.le_antisymm hle hge, ← dayNumber_next_year]
    exact hlast

/-! ## Counting months -/

/-- The first date of a month, where month 0 is January of year 0. -/
def monthStart (k : Int) : Int :=
  dayNumber (k / 12) (k % 12 + 1).toNat 1

/-- The count of the month of a date. -/
def monthIndex (date : Int) : Int :=
  yearOf date * 12 + monthOf date - 1

/-- A month, counted. -/
theorem monthStart_of_month
    (y : Int)
    {m : Nat}
    (hm : 1 ≤ m ∧ m ≤ 12) :
    monthStart (y * 12 + m - 1) = dayNumber y m 1 := by
  have hyear : (y * 12 + m - 1) / 12 = y := by
    omega
  have hmonth : ((y * 12 + m - 1) % 12 + 1).toNat = m := by
    omega
  rw [monthStart, hyear, hmonth]

/-- Every counted month is a month of a year. -/
theorem exists_month (k : Int) :
    ∃ (y : Int) (m : Nat), (1 ≤ m ∧ m ≤ 12) ∧ k = y * 12 + m - 1 ∧
      k / 12 = y ∧ (k % 12 + 1).toNat = m :=
  ⟨k / 12, (k % 12 + 1).toNat, by omega, by omega, rfl, rfl⟩

theorem monthStart_succ (k : Int) :
    monthStart (k + 1) =
      monthStart k + daysInMonth (k / 12) (k % 12 + 1).toNat := by
  obtain ⟨y, m, hm, hk, hyear, hmonth⟩ := exists_month k
  rw [hyear, hmonth, hk, monthStart_of_month y hm]
  rcases Nat.lt_or_ge m 12 with hlt | hge
  · have hsucc : y * 12 + (m : Int) - 1 + 1 = y * 12 + ((m + 1 : Nat) : Int) - 1 := by
      omega
    rw [hsucc, monthStart_of_month y ⟨by omega, by omega⟩, dayNumber_next_month y hm.1]
  · obtain rfl : m = 12 := by
      omega
    have hsucc : y * 12 + ((12 : Nat) : Int) - 1 + 1 = (y + 1) * 12 + ((1 : Nat) : Int) - 1 := by
      omega
    rw [hsucc, monthStart_of_month (y + 1) ⟨by omega, by omega⟩, dayNumber_next_year]

theorem monthStart_mono {i j : Int} (h : i ≤ j) : monthStart i ≤ monthStart j := by
  refine monotone_int_of_le_succ (fun k => ?_) h
  have hlength := (daysInMonth_pos (k / 12) (k % 12 + 1).toNat).1
  rw [monthStart_succ]
  omega

/-- A date lies in its counted month. -/
theorem monthIndex_spec (date : Int) :
    monthStart (monthIndex date) ≤ date ∧ date < monthStart (monthIndex date + 1) := by
  obtain ⟨hpos, hle, hstart, hend⟩ := monthOf_spec date
  have hyear : monthIndex date / 12 = yearOf date := by
    unfold monthIndex
    omega
  have hmonth : (monthIndex date % 12 + 1).toNat = monthOf date := by
    unfold monthIndex
    omega
  rw [monthStart_succ, hyear, hmonth, monthIndex, monthStart_of_month _ ⟨hpos, hle⟩]
  exact ⟨hstart, hend⟩

/-- A month lies in its year. -/
theorem month_in_year
    (y : Int)
    {m : Nat}
    (hm : 1 ≤ m ∧ m ≤ 12) :
    daysBeforeYear y ≤ dayNumber y m 1 ∧
      dayNumber y m 1 + daysInMonth y m ≤ daysBeforeYear (y + 1) := by
  have hnext := monthStart_succ (y * 12 + m - 1)
  have hyear : (y * 12 + (m : Int) - 1) / 12 = y := by
    omega
  have hmonth : ((y * 12 + (m : Int) - 1) % 12 + 1).toNat = m := by
    omega
  rw [hyear, hmonth, monthStart_of_month y hm] at hnext
  rw [← hnext, ← dayNumber_january, ← dayNumber_january, ← monthStart_of_month y hm,
    ← monthStart_of_month y (m := 1) (by omega), ← monthStart_of_month (y + 1) (m := 1) (by omega)]
  exact ⟨monthStart_mono (by omega), monthStart_mono (by omega)⟩

end Calendar
end FutureOs
