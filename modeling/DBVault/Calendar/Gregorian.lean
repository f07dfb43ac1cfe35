import Mathlib.Tactic.ByContra
import Mathlib.Tactic.SplitIfs

/-! The Gregorian calendar: dates by the lengths of years and months, and their day numbers. -/
namespace Gregorian

def isLeap (year : Int) : Bool := year % 4 = 0 ∧ (year % 100 ≠ 0 ∨ year % 400 = 0)

def daysInMonth (year month : Int) : Int :=
  if month = 2 then if isLeap year then 29 else 28
  else if month = 4 ∨ month = 6 ∨ month = 9 ∨ month = 11 then 30 else 31

theorem daysInMonth_le (year month : Int) : daysInMonth year month ≤ 31 := by
  unfold daysInMonth
  split_ifs <;> decide

structure IsDate (year month day : Int) : Prop where
  inYear : 1 ≤ month ∧ month ≤ 12
  inMonth : 1 ≤ day ∧ day ≤ daysInMonth year month

def daysBefore (year month : Int) : Int :=
  (match month with
    | 1 => 0 | 2 => 31 | 3 => 59 | 4 => 90 | 5 => 120 | 6 => 151
    | 7 => 181 | 8 => 212 | 9 => 243 | 10 => 273 | 11 => 304 | 12 => 334
    | _ => 365) + if isLeap year ∧ 3 ≤ month then 1 else 0

def yearStart (year : Int) : Int := 365 * (year - 1) + (year - 1) / 4 - (year - 1) / 100 + (year - 1) / 400

def dayNumber (year month day : Int) : Int := yearStart year + daysBefore year month + day - 1 - 719162

theorem dayNumber_succ (year month day : Int) : dayNumber year month (day + 1) = dayNumber year month day + 1 := by
  simp only [dayNumber]
  omega

def weekday (number : Int) : Int := (number + 4) % 7

def daysInYear (year : Int) : Int := if isLeap year then 366 else 365

theorem yearStart_succ (year : Int) : yearStart (year + 1) = yearStart year + daysInYear year := by
  simp only [yearStart, daysInYear, isLeap, decide_eq_true_eq]
  split <;> omega

theorem yearStart_add_daysInYear_le (hLess : year < later) :
    yearStart year + daysInYear year ≤ yearStart later := by
  rw [← yearStart_succ, yearStart, yearStart]
  omega

theorem months {month : Int} (hMonth : 1 ≤ month ∧ month ≤ 12) :
    month = 1 ∨ month = 2 ∨ month = 3 ∨ month = 4 ∨ month = 5 ∨ month = 6 ∨ month = 7 ∨
      month = 8 ∨ month = 9 ∨ month = 10 ∨ month = 11 ∨ month = 12 := by
  omega

theorem daysBefore_succ (year : Int) {month : Int} (hMonth : 1 ≤ month ∧ month ≤ 12) :
    daysBefore year month + daysInMonth year month = daysBefore year (month + 1) := by
  rcases months hMonth with rfl | rfl | rfl | rfl | rfl | rfl | rfl | rfl | rfl | rfl | rfl | rfl <;>
    cases hLeap : isLeap year <;> simp [daysBefore, daysInMonth, hLeap]

theorem daysBefore_mono (year : Int) (hMonth : 1 ≤ month) (hLe : month ≤ later)
    (hLater : later ≤ 13) : daysBefore year month ≤ daysBefore year later := by
  obtain ⟨gap, rfl⟩ := Int.le.dest hLe
  induction gap with
  | zero => simp
  | succ gap ih =>
    have hSucc := daysBefore_succ year (show 1 ≤ month + gap ∧ month + gap ≤ 12 by omega)
    have hPos : 0 ≤ daysInMonth year (month + gap) := by
      unfold daysInMonth
      split_ifs <;> decide
    have hSame : month + ((gap + 1 : Nat) : Int) = month + gap + 1 := by omega
    rw [hSame, ← hSucc]
    have hBefore := ih (by omega) (by omega)
    omega

theorem daysBefore_thirteen (year : Int) : daysBefore year 13 = daysInYear year := by
  cases hLeap : isLeap year <;> simp [daysBefore, daysInYear, hLeap]

namespace IsDate
variable {year month day year' month' day' : Int}

section
variable (hDate : IsDate year month day)
include hDate

theorem within_month :
    yearStart year + daysBefore year month ≤ dayNumber year month day + 719162 ∧
      dayNumber year month day + 719162 < yearStart year + daysBefore year (month + 1) := by
  have hSucc := daysBefore_succ year hDate.inYear
  have hDay := hDate.inMonth
  rw [dayNumber]
  omega

theorem within_year :
    yearStart year ≤ dayNumber year month day + 719162 ∧
      dayNumber year month day + 719162 < yearStart year + daysInYear year := by
  obtain ⟨hFirst, hLast⟩ := hDate.inYear
  have hMonth := hDate.within_month
  have hStart := daysBefore_mono year (by decide) hFirst (by omega)
  have hEnd := daysBefore_mono year (show 1 ≤ month + 1 by omega) (show month + 1 ≤ 13 by omega) (by decide)
  rw [daysBefore_thirteen] at hEnd
  have hZero : daysBefore year 1 = 0 := by simp [daysBefore]
  omega

theorem lt_of_year (hDate' : IsDate year' month' day')
    (hYear : year < year') : dayNumber year month day < dayNumber year' month' day' := by
  have hYears := yearStart_add_daysInYear_le hYear
  have hWithin := hDate.within_year
  have hWithin' := hDate'.within_year
  omega

theorem lt_of_month (hDate' : IsDate year month' day')
    (hMonth : month < month') : dayNumber year month day < dayNumber year month' day' := by
  have hMonths := daysBefore_mono year (show 1 ≤ month + 1 by have := hDate.inYear; omega)
    (show month + 1 ≤ month' by omega) (by have := hDate'.inYear; omega)
  have hWithin := hDate.within_month
  have hWithin' := hDate'.within_month
  omega

section
variable (hDate' : IsDate year' month' day')
include hDate'

theorem dayNumber_lt (hLess : year < year' ∨ year = year' ∧ (month < month' ∨ month = month' ∧ day < day')) :
    dayNumber year month day < dayNumber year' month' day' := by
  rcases hLess with hYear | ⟨rfl, hMonth | ⟨rfl, hDay⟩⟩
  · exact hDate.lt_of_year hDate' hYear
  · exact hDate.lt_of_month hDate' hMonth
  · simp only [dayNumber]
    omega

theorem dayNumber_lt_iff :
    dayNumber year month day < dayNumber year' month' day' ↔
      year < year' ∨ year = year' ∧ (month < month' ∨ month = month' ∧ day < day') := by
  refine ⟨fun hLess => ?_, hDate.dayNumber_lt hDate'⟩
  by_contra hNot
  by_cases hSame : year = year' ∧ month = month' ∧ day = day'
  · obtain ⟨rfl, rfl, rfl⟩ := hSame
    omega
  · have hMore := hDate'.dayNumber_lt hDate (by omega)
    omega

theorem unique (hSame : dayNumber year month day = dayNumber year' month' day') :
    year = year' ∧ month = month' ∧ day = day' := by
  have hNotLess := mt (hDate.dayNumber_lt hDate') (by omega)
  have hNotMore := mt (hDate'.dayNumber_lt hDate) (by omega)
  omega

end

end

end IsDate

end Gregorian
