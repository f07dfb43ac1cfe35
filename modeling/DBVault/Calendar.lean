import DBVault.Calendar.Gregorian
import DBVault.Domain

/-! The dates of `Time.civil` are those of the calendar. -/
namespace DBVault.Time
open Gregorian

def eraStart (yearOfEra : Nat) : Nat := 365 * yearOfEra + yearOfEra / 4 - yearOfEra / 100

def commonDays (dayOfEra : Nat) : Nat := dayOfEra - dayOfEra / 1460 + dayOfEra / 36524 - dayOfEra / 146096

variable {day : Nat}

theorem commonDays_mono {later : Nat} (hLe : day ≤ later) (hLater : later < 146097) :
    commonDays day ≤ commonDays later := by
  induction later, hLe using Nat.le_induction with
  | base => exact Nat.le_refl _
  | succ later hLe ih =>
    refine (ih (by omega)).trans ?_
    simp only [commonDays]
    omega

theorem commonDays_eraStart :
    ∀ year < 400, 365 * year ≤ commonDays (eraStart year) ∧
      commonDays (eraStart (year + 1) - 1) < 365 * (year + 1) := by
  decide +kernel

theorem yearOfEra_spec (hDay : day < 146097) :
    eraStart (commonDays day / 365) ≤ day ∧ commonDays day / 365 < 400 ∧
      (commonDays day / 365 < 399 → day < eraStart (commonDays day / 365 + 1)) := by
  have hLast : commonDays day ≤ 145999 :=
    (commonDays_mono (show day ≤ 146096 by omega) (by omega)).trans (by decide)
  generalize hYear : commonDays day / 365 = year
  refine ⟨?_, by omega, fun hNotLast => ?_⟩
  · by_contra hLess
    rcases year with _ | year
    · exact hLess (Nat.zero_le _)
    · have hBefore := (commonDays_eraStart year (by omega)).2
      have hStart : eraStart (year + 1) - 1 < 146097 := by
        simp only [eraStart]
        omega
      have hMono := commonDays_mono (show day ≤ eraStart (year + 1) - 1 by omega) hStart
      omega
  · by_contra hLess
    have hAfter := (commonDays_eraStart (year + 1) (by omega)).1
    have hMono := commonDays_mono (Nat.not_lt.mp hLess) hDay
    omega

theorem eraStart_succ : ∀ year < 400, (if year = 399 then 146097 else eraStart (year + 1)) =
    eraStart year + if isLeap (year + 1 : Nat) then 366 else 365 := by
  decide +kernel

theorem dayOfYear_le (hDay : day < 146097) : day - eraStart (commonDays day / 365) ≤ 365 ∧
      (day - eraStart (commonDays day / 365) = 365 → isLeap (commonDays day / 365 + 1 : Nat) = true) := by
  obtain ⟨hStart, hYear, hNext⟩ := yearOfEra_spec hDay
  generalize commonDays day / 365 = year at *
  have hEnd : day < eraStart year + if isLeap (year + 1 : Nat) then 366 else 365 := by
    rw [← eraStart_succ year hYear]
    split
    · exact hDay
    · exact hNext (by omega)
  cases hLeap : isLeap (year + 1 : Nat) with
  | false =>
    rw [hLeap, if_neg (by decide)] at hEnd
    exact ⟨by omega, by omega⟩
  | true =>
    rw [hLeap, if_pos rfl] at hEnd
    exact ⟨by omega, fun _ => rfl⟩

def monthOf (dayOfYear : Nat) : Nat :=
  if (5 * dayOfYear + 2) / 153 < 10 then (5 * dayOfYear + 2) / 153 + 3
  else (5 * dayOfYear + 2) / 153 - 9

def dayOf (dayOfYear : Nat) : Nat := dayOfYear - (153 * ((5 * dayOfYear + 2) / 153) + 2) / 5 + 1

theorem monthOf_spec : ∀ dayOfYear ≤ 365,
    1 ≤ monthOf dayOfYear ∧ monthOf dayOfYear ≤ 12 ∧ 1 ≤ dayOf dayOfYear ∧
      (dayOf dayOfYear : Int) ≤ daysInMonth 1 (monthOf dayOfYear) + (if dayOfYear = 365 then 1 else 0) ∧
      (dayOfYear : Int) + 1 = daysBefore 1 (monthOf dayOfYear) + dayOf dayOfYear +
        (if monthOf dayOfYear ≤ 2 then 306 else -59) ∧
      (dayOfYear = 365 → monthOf dayOfYear = 2) := by
  decide +kernel

theorem civil_eq (day : Int) :
    civil day =
      let dayOfEra := ((day + 719468) % 146097).toNat
      let yearOfEra := commonDays dayOfEra / 365
      let dayOfYear := dayOfEra - eraStart yearOfEra
      (yearOfEra + (day + 719468) / 146097 * 400 + (if monthOf dayOfYear ≤ 2 then 1 else 0),
        monthOf dayOfYear, dayOf dayOfYear) :=
  rfl

theorem daysInMonth_eq (year month : Int) :
    daysInMonth year month = daysInMonth 1 month + if isLeap year ∧ month = 2 then 1 else 0 := by
  have hOne : isLeap 1 = false := by decide
  simp only [daysInMonth, hOne]
  by_cases hFebruary : month = 2
  · cases hLeap : isLeap year <;> simp [hFebruary]
  · simp [hFebruary]

theorem daysBefore_eq (year month : Int) :
    daysBefore year month = daysBefore 1 month + if isLeap year ∧ 3 ≤ month then 1 else 0 := by
  have hOne : isLeap 1 = false := by decide
  simp only [daysBefore, hOne]
  simp

theorem civil_spec (day : Int) :
    IsDate (civil day).1 (civil day).2.1 (civil day).2.2 ∧
      dayNumber (civil day).1 (civil day).2.1 (civil day).2.2 = day := by
  rw [civil_eq]
  generalize hEra : (day + 719468) / 146097 = era
  generalize hDay : ((day + 719468) % 146097).toNat = dayOfEra
  have hInEra : dayOfEra < 146097 := by omega
  have hWhole : day + 719468 = 146097 * era + dayOfEra := by omega
  obtain ⟨hStart, hYear, -⟩ := yearOfEra_spec hInEra
  obtain ⟨hLength, hLeap⟩ := dayOfYear_le hInEra
  simp only
  generalize commonDays dayOfEra / 365 = yearOfEra at *
  generalize hDayOfYear : dayOfEra - eraStart yearOfEra = dayOfYear at *
  obtain ⟨hFirst, hLast, hPos, hDays, hSum, hFebruary⟩ := monthOf_spec dayOfYear hLength
  generalize monthOf dayOfYear = month at *
  generalize dayOf dayOfYear = dayOfMonth at *
  -- the year of the date begins in January
  have hYearStart : yearStart (yearOfEra + era * 400 + 1) = 146097 * era + eraStart yearOfEra := by
    simp only [yearStart, eraStart]
    omega
  have hLeapDay : isLeap (yearOfEra + era * 400 + 1) = isLeap (yearOfEra + 1 : Nat) := by
    simp only [isLeap, decide_eq_decide]
    omega
  generalize isLeap (yearOfEra + 1 : Nat) = leap at hLeap hLeapDay
  by_cases hEarly : month ≤ 2
  · simp only [hEarly, if_true] at hSum ⊢
    have hMonth : ¬ (3 : Int) ≤ month := by omega
    refine ⟨⟨by omega, by omega, ?_⟩, ?_⟩
    · rw [daysInMonth_eq, hLeapDay]
      by_cases hLeapYear : dayOfYear = 365
      · simpa [hLeapYear, hLeap hLeapYear, hFebruary hLeapYear] using hDays
      · rw [if_neg hLeapYear] at hDays
        split <;> omega
    · rw [dayNumber, daysBefore_eq, hYearStart]
      simp only [hMonth, and_false, if_false]
      omega
  · have hMonth : (3 : Int) ≤ month := by omega
    have hCommon : dayOfYear ≠ 365 := fun hLong => by omega
    have hNext := yearStart_succ (yearOfEra + era * 400)
    simp only [hEarly, if_false, hCommon, Int.add_zero] at hSum hDays ⊢
    refine ⟨⟨by omega, by omega, ?_⟩, ?_⟩
    · rw [daysInMonth_eq, if_neg (by omega)]
      omega
    · rw [dayNumber, daysBefore_eq]
      rw [hYearStart, daysInYear] at hNext
      cases hCase : isLeap (yearOfEra + era * 400) with
      | false =>
        simp only [hCase, Bool.false_eq_true, false_and, if_false] at hNext ⊢
        omega
      | true =>
        simp only [hCase, hMonth, and_self, if_true] at hNext ⊢
        omega

end DBVault.Time
