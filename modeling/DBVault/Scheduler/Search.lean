import DBVault.Calendar
import DBVault.Scheduler.Cron

/-! The search of a cron schedule in UTC: the minutes its lists denote, and that the search finds
the first of them. -/
namespace DBVault.Scheduling
open List Gregorian Time

/-- Carry what `lo` has above its base, or lacks, over to `hi`. -/
def norm (hi lo base : Int) : Int × Int := (hi + lo / base, lo % base)

/-- `time.Date` in UTC. -/
def utcDate (year month day hour minute second : Int) : Int :=
  let (year, m) := norm year (month - 1) 12
  let (minute, second) := norm minute second 60
  let (hour, minute) := norm hour minute 60
  let (day, hour) := norm day hour 24
  dayNumber year (m + 1) day * 86400 + hour * 3600 + minute * 60 + second

def utcCivil (seconds : Int) : Civil :=
  let (year, month, day) := civil (seconds / 86400)
  { year := year, month := month, day := day, hour := seconds % 86400 / 3600,
    minute := seconds % 86400 / 60 % 60, second := seconds % 60,
    weekday := weekday (seconds / 86400) }

def utc : Location := ⟨utcCivil, utcDate⟩

theorem utcDate_eq {month : Int} (year : Int) (hMonth : 1 ≤ month ∧ month ≤ 12)
    (day hour minute second : Int) :
    utcDate year month day hour minute second =
      dayNumber year month day * 86400 + hour * 3600 + minute * 60 + second := by
  have hMod : (month - 1) % 12 + 1 = month := by omega
  have hDiv : year + (month - 1) / 12 = year := by omega
  simp only [utcDate, norm, hMod, hDiv, dayNumber]
  omega

def midnight (number : Int) : Int := number * 86400

theorem utcCivil_midnight (number : Int) :
    (utcCivil (midnight number)).hour = 0 ∧ (utcCivil (midnight number)).minute = 0 ∧
      (utcCivil (midnight number)).second = 0 := by
  simp only [utcCivil, midnight]
  omega

theorem utcCivil_date (number : Int) :
    IsDate (utcCivil (midnight number)).year (utcCivil (midnight number)).month (utcCivil (midnight number)).day ∧
      dayNumber (utcCivil (midnight number)).year (utcCivil (midnight number)).month
        (utcCivil (midnight number)).day = number ∧
      (utcCivil (midnight number)).weekday = weekday number := by
  have hDay : midnight number / 86400 = number := Int.mul_ediv_cancel _ (by decide)
  simp only [utcCivil, hDay, and_true]
  exact civil_spec number

theorem utc_date_eq (number hour minute : Int) :
    utc.date (utc.civil (midnight number)).year (utc.civil (midnight number)).month
      (utc.civil (midnight number)).day hour minute 0 = midnight number + hour * 3600 + minute * 60 := by
  obtain ⟨hDate, hNumber, -⟩ := utcCivil_date number
  simp only [utc, utcDate_eq _ hDate.inYear, hNumber, Int.add_zero]
  rfl

theorem utc_addDate_day (number : Int) : utc.addDate (midnight number) 0 1 = midnight (number + 1) := by
  obtain ⟨hDate, hNumber, -⟩ := utcCivil_date number
  obtain ⟨hHour, hMinute, hSecond⟩ := utcCivil_midnight number
  simp only [Location.addDate, utc, utcDate_eq _ hDate.inYear, hHour, hMinute, hSecond, dayNumber_succ,
    Int.add_zero, Int.zero_mul, hNumber]
  rfl

def fiveYearsAfter (number : Int) : Int :=
  let (year, month, day) := civil number
  dayNumber (year + 5) month day

theorem utc_addDate_years (number : Int) :
    utc.addDate (midnight number) 5 0 = midnight (fiveYearsAfter number) := by
  obtain ⟨hDate, -, -⟩ := utcCivil_date number
  obtain ⟨hHour, hMinute, hSecond⟩ := utcCivil_midnight number
  have hDay : midnight number / 86400 = number := Int.mul_ediv_cancel _ (by decide)
  simp only [Location.addDate, utc, utcDate_eq _ hDate.inYear, hHour, hMinute, hSecond]
  simp only [utcCivil, hDay, fiveYearsAfter, Int.add_zero, Int.zero_mul]
  rfl

example : fiveYearsAfter (dayNumber 2024 2 29) = dayNumber 2029 3 1 := by decide

theorem fiveYearsAfter_le (number : Int) : fiveYearsAfter number ≤ number + 2000 := by
  have hNumber := (civil_spec number).2
  have hBefore : ∀ year later month, daysBefore later month ≤ daysBefore year month + 1 := by
    intro year later month
    simp only [daysBefore]
    split_ifs <;> omega
  have hYears : ∀ year, yearStart (year + 5) ≤ yearStart year + 1827 := by
    intro year
    simp only [yearStart]
    omega
  rw [fiveYearsAfter]
  generalize civil number = date at hNumber
  obtain ⟨year, month, day⟩ := date
  have hMonths := hBefore year (year + 5) month
  have hYear := hYears year
  simp only [dayNumber] at hNumber ⊢
  omega

def atMinute (number hour minute : Int) : Time := ofUnix (midnight number + hour * 3600 + minute * 60)

def dayOf (t : Time) : Int := toUnix t / 86400

def nextMinute (after : Time) : Time := truncate after minuteDuration + minuteDuration

theorem dayOf_atMinute {hour minute : Int} (number : Int) (hHour : 0 ≤ hour ∧ hour ≤ 23)
    (hMinute : 0 ≤ minute ∧ minute ≤ 59) : dayOf (atMinute number hour minute) = number := by
  simp only [dayOf, toUnix, atMinute, ofUnix, midnight, nanosPerSecond]
  omega

theorem lt_atMinute_iff (after : Time) (number hour minute : Int) :
    after < atMinute number hour minute ↔ nextMinute after ≤ atMinute number hour minute := by
  unfold Time at *
  rw [nextMinute, truncate, if_neg (by decide)]
  simp only [atMinute, ofUnix, midnight, minuteDuration, Time.zero, nanosPerSecond]
  omega

theorem dayOf_mono {t t' : Time} (hLe : t ≤ t') : dayOf t ≤ dayOf t' := by
  unfold Time at *
  simp only [dayOf, toUnix, nanosPerSecond]
  omega

namespace CronExpr
variable (e : CronExpr)

structure WellFormed : Prop where
  minute : e.minute ≠ [] ∧ e.minute.Pairwise (· ≤ ·) ∧ ∀ m ∈ e.minute, 0 ≤ m ∧ m ≤ 59
  hour : e.hour ≠ [] ∧ e.hour.Pairwise (· ≤ ·) ∧ ∀ h ∈ e.hour, 0 ≤ h ∧ h ≤ 23
  month : e.month ≠ [] ∧ e.month.Pairwise (· ≤ ·) ∧ ∀ m ∈ e.month, 1 ≤ m ∧ m ≤ 12
  dom : ∀ dom ∈ e.dom, dom ≠ [] ∧ ∀ d ∈ dom, 1 ≤ d ∧ d ≤ 31
  dow : ∀ dow ∈ e.dow, dow ≠ [] ∧ ∀ d ∈ dow, 0 ≤ d ∧ d ≤ 6

def DayListed (day weekday : Int) : Prop :=
  (e.dom = none ∧ e.dow = none) ∨ (∃ dom ∈ e.dom, day ∈ dom) ∨ ∃ dow ∈ e.dow, weekday ∈ dow

def Listed (t : Time) : Prop :=
  ∃ year month day hour minute, IsDate year month day ∧ (0 ≤ hour ∧ hour ≤ 23) ∧
    (0 ≤ minute ∧ minute ≤ 59) ∧ t = atMinute (dayNumber year month day) hour minute ∧
    minute ∈ e.minute ∧ hour ∈ e.hour ∧ month ∈ e.month ∧
    e.DayListed day (weekday (dayNumber year month day))

theorem dayMatches_iff (day : Civil) :
    e.dayMatches day = true ↔ day.month ∈ e.month ∧ e.DayListed day.day day.weekday := by
  simp only [dayMatches, Bool.and_eq_true, contains_iff_mem, DayListed]
  cases e.dom <;> cases e.dow <;> simp

theorem listed_iff (t : Time) :
    e.Listed t ↔ ∃ number hour minute, (0 ≤ hour ∧ hour ≤ 23) ∧ (0 ≤ minute ∧ minute ≤ 59) ∧
      t = atMinute number hour minute ∧ minute ∈ e.minute ∧ hour ∈ e.hour ∧
      e.dayMatches (utc.civil (midnight number)) = true := by
  simp only [dayMatches_iff]
  constructor
  · rintro ⟨year, month, day, hour, minute, hDate, hHour, hMinute, rfl, hMinutes, hHours, hMonths, hDays⟩
    obtain ⟨hDate', hNumber, hWeekday⟩ := utcCivil_date (dayNumber year month day)
    obtain ⟨-, hMonth, hDay⟩ := hDate'.unique hDate hNumber
    refine ⟨dayNumber year month day, hour, minute, hHour, hMinute, rfl, hMinutes, hHours, ?_, ?_⟩
    · rwa [utc, hMonth]
    · rwa [utc, hDay, hWeekday]
  · rintro ⟨number, hour, minute, hHour, hMinute, rfl, hMinutes, hHours, hMonths, hDays⟩
    obtain ⟨hDate, hNumber, hWeekday⟩ := utcCivil_date number
    refine ⟨_, _, _, hour, minute, hDate, hHour, hMinute, by rw [hNumber], hMinutes, hHours, hMonths, ?_⟩
    rw [hNumber, ← hWeekday]
    exact hDays

variable {e} {hour : Int} {minute minute' : Int}

theorem atMinute_le (number : Int) (hLe : minute ≤ minute') :
    atMinute number hour minute ≤ atMinute number hour minute' := by
  unfold Time
  simp only [atMinute, ofUnix, nanosPerSecond]
  omega

theorem atMinute_le_of_hour {hour' : Int} (number : Int) (hLess : hour < hour')
    (hMinute : minute ≤ 59) (hMinute' : 0 ≤ minute') :
    atMinute number hour minute ≤ atMinute number hour' minute' := by
  unfold Time
  simp only [atMinute, ofUnix, nanosPerSecond]
  omega

variable {minutes : List Int} {number : Int} {start found : Time}

theorem find_least_minute (hMinutes : minutes.Pairwise (· ≤ ·))
    (hFound : (minutes.map fun m => atMinute number hour m).find? (fun t => decide (start ≤ t)) = some found) :
    ∀ m ∈ minutes, start ≤ atMinute number hour m → found ≤ atMinute number hour m := by
  induction minutes with
  | nil => simp at hFound
  | cons first rest ih =>
    rw [pairwise_cons] at hMinutes
    rw [map_cons, find?_cons] at hFound
    intro m hm hStart
    split at hFound
    case h_1 hFirst =>
      obtain rfl := Option.some.inj hFound
      rcases mem_cons.mp hm with rfl | hLater
      · exact le_rfl
      · exact atMinute_le number (hMinutes.1 m hLater)
    case h_2 hFirst =>
      rcases mem_cons.mp hm with rfl | hLater
      · simp [hStart] at hFirst
      · exact ih hMinutes.2 hFound m hLater hStart

theorem find_least {hours : List Int}
    (hHours : hours.Pairwise (· ≤ ·)) (hMinutes : minutes.Pairwise (· ≤ ·))
    (hRange : ∀ m ∈ minutes, 0 ≤ m ∧ m ≤ 59)
    (hFound : (hours.flatMap fun h => minutes.map fun m => atMinute number h m).find?
      (fun t => decide (start ≤ t)) = some found) :
    ∀ h ∈ hours, ∀ m ∈ minutes, start ≤ atMinute number h m → found ≤ atMinute number h m := by
  induction hours with
  | nil => simp at hFound
  | cons first rest ih =>
    rw [pairwise_cons] at hHours
    rw [flatMap_cons, find?_append, Option.or_eq_some_iff] at hFound
    rcases hFound with hFirst | ⟨hNone, hRest⟩
    · have hSame := find_least_minute hMinutes hFirst
      obtain ⟨m₀, hm₀, rfl⟩ := mem_map.mp (mem_of_find?_eq_some hFirst)
      intro h hh m hm hStart
      rcases mem_cons.mp hh with rfl | hLater
      · exact hSame m hm hStart
      · rcases (hHours.1 h hLater).eq_or_lt with rfl | hLess
        · exact hSame m hm hStart
        · exact atMinute_le_of_hour number hLess (hRange m₀ hm₀).2 (hRange m hm).1
    · intro h hh m hm hStart
      rcases mem_cons.mp hh with rfl | hLater
      · have hNot := find?_eq_none.mp hNone _ (mem_map.mpr ⟨m, hm, rfl⟩)
        exact absurd (decide_eq_true hStart) hNot
      · exact ih hHours.2 hRest h hLater m hm hStart

def Due (e : CronExpr) (start : Time) (t : Time) : Prop := start ≤ t ∧ e.Listed t

def onDay (e : CronExpr) (start : Time) (number : Int) : Option Time :=
  if e.dayMatches (utc.civil (midnight number)) then
    e.candidate utc start (utc.civil (midnight number))
  else none

theorem candidate_eq (start : Time) (number : Int) :
    e.candidate utc start (utc.civil (midnight number)) =
      (e.hour.flatMap fun h => e.minute.map fun m => atMinute number h m).find? fun t => decide (start ≤ t) := by
  simp only [candidate, utc_date_eq, atMinute]

theorem onDay_some (hWell : e.WellFormed) (hFound : e.onDay start number = some found) :
    e.Due start found ∧ dayOf found = number ∧ ∀ t, e.Due start t → dayOf t = number → found ≤ t := by
  rw [onDay] at hFound
  split at hFound
  case isFalse => cases hFound
  case isTrue hDay =>
    rw [candidate_eq] at hFound
    have hLeast := find_least hWell.hour.2.1 hWell.minute.2.1 hWell.minute.2.2 hFound
    have hStart := find?_some hFound
    obtain ⟨h, hh, hMinutes⟩ := mem_flatMap.mp (mem_of_find?_eq_some hFound)
    obtain ⟨m, hm, rfl⟩ := mem_map.mp hMinutes
    have hHour := hWell.hour.2.2 h hh
    have hMinute := hWell.minute.2.2 m hm
    refine ⟨⟨of_decide_eq_true hStart, (e.listed_iff _).mpr
      ⟨number, h, m, hHour, hMinute, rfl, hm, hh, hDay⟩⟩, dayOf_atMinute number hHour hMinute, ?_⟩
    rintro t ⟨hNotEarly, hListed⟩ hSameDay
    obtain ⟨number', h', m', hHour', hMinute', rfl, hm', hh', -⟩ := (e.listed_iff t).mp hListed
    obtain rfl : number' = number := (dayOf_atMinute number' hHour' hMinute').symm.trans hSameDay
    exact hLeast h' hh' m' hm' hNotEarly

theorem onDay_none (hNone : e.onDay start number = none) (t : Time)
    (hDue : e.Due start t) : dayOf t ≠ number := by
  rintro rfl
  obtain ⟨hNotEarly, hListed⟩ := hDue
  obtain ⟨number, h, m, hHour, hMinute, rfl, hm, hh, hDay⟩ := (e.listed_iff t).mp hListed
  rw [dayOf_atMinute number hHour hMinute, onDay, if_pos hDay, candidate_eq, find?_eq_none] at hNone
  refine hNone _ (mem_flatMap.mpr ⟨h, hh, mem_map.mpr ⟨m, hm, rfl⟩⟩) ?_
  exact decide_eq_true hNotEarly

theorem search_least (hWell : e.WellFormed) (start : Time) (limit : Int) (fuel : Nat) (number : Int)
    (hFuel : limit ≤ number + fuel) :
    ((∃ t, e.Due start t ∧ number ≤ dayOf t ∧ dayOf t < limit) →
        IsLeast {t | e.Due start t ∧ number ≤ dayOf t}
          (e.search utc start (midnight limit) fuel (midnight number))) ∧
      ((¬ ∃ t, e.Due start t ∧ number ≤ dayOf t ∧ dayOf t < limit) →
        e.search utc start (midnight limit) fuel (midnight number) = Time.zero) := by
  induction fuel generalizing number with
  | zero =>
    refine ⟨?_, fun _ => rfl⟩
    rintro ⟨t, -, hFrom, hBefore⟩
    omega
  | succ fuel ih =>
    have hDay : midnight number < midnight limit ↔ number < limit := by
      simp only [midnight]
      omega
    rw [search, show (if e.dayMatches (utc.civil (midnight number)) then
      e.candidate utc start (utc.civil (midnight number)) else none) = e.onDay start number from rfl]
    by_cases hBefore : number < limit
    · rw [if_pos (hDay.mpr hBefore)]
      cases hFound : e.onDay start number with
      | some found =>
        obtain ⟨hDue, hSame, hLeast⟩ := onDay_some hWell hFound
        dsimp only
        refine ⟨fun _ => ⟨⟨hDue, hSame.ge⟩, ?_⟩, fun hNone => ?_⟩
        · rintro t ⟨hDue', hFrom⟩
          rcases hFrom.eq_or_lt with hToday | hLater
          · exact hLeast t hDue' hToday.symm
          · by_contra hLess
            have hMono := dayOf_mono (le_of_not_ge hLess)
            omega
        · exact absurd ⟨found, hDue, hSame.ge, by omega⟩ hNone
      | none =>
        have hLater : ∀ t, e.Due start t → (number ≤ dayOf t ↔ number + 1 ≤ dayOf t) := by
          intro t hDue
          have hNot := onDay_none hFound t hDue
          omega
        have hSet : {t | e.Due start t ∧ number ≤ dayOf t} = {t | e.Due start t ∧ number + 1 ≤ dayOf t} :=
          Set.ext fun t => and_congr_right (hLater t)
        have hExists : (∃ t, e.Due start t ∧ number ≤ dayOf t ∧ dayOf t < limit) ↔
            ∃ t, e.Due start t ∧ number + 1 ≤ dayOf t ∧ dayOf t < limit :=
          exists_congr fun t => and_congr_right fun hDue => and_congr_left' (hLater t hDue)
        rw [hExists, hSet]
        simp only [utc_addDate_day]
        exact ih (number + 1) (by omega)
    · rw [if_neg fun h => hBefore (hDay.mp h)]
      refine ⟨?_, fun _ => rfl⟩
      rintro ⟨t, -, hFrom, hLess⟩
      omega

theorem lt_iff_due (after : Time) (t : Time) :
    after < t ∧ e.Listed t ↔ e.Due (nextMinute after) t ∧ dayOf (nextMinute after) ≤ dayOf t := by
  constructor
  · rintro ⟨hLater, hListed⟩
    have hStart : nextMinute after ≤ t := by
      obtain ⟨number, hour, minute, -, -, rfl, -⟩ := (e.listed_iff t).mp hListed
      exact (lt_atMinute_iff after number hour minute).mp hLater
    exact ⟨⟨hStart, hListed⟩, dayOf_mono hStart⟩
  · rintro ⟨⟨hStart, hListed⟩, -⟩
    obtain ⟨number, hour, minute, -, -, rfl, -⟩ := (e.listed_iff t).mp hListed
    exact ⟨(lt_atMinute_iff after number hour minute).mpr hStart, hListed⟩

theorem nextAfter_eq_search (after : Time) :
    e.nextAfter after utc =
      e.search utc (nextMinute after) (midnight (fiveYearsAfter (dayOf (nextMinute after)))) 2000
        (midnight (dayOf (nextMinute after))) := by
  have hDay : utc.date (utc.civil (toUnix (nextMinute after))).year
      (utc.civil (toUnix (nextMinute after))).month (utc.civil (toUnix (nextMinute after))).day 0 0 0 =
        midnight (dayOf (nextMinute after)) := by
    obtain ⟨hDate, hNumber⟩ := civil_spec (dayOf (nextMinute after))
    rw [show midnight (dayOf (nextMinute after)) =
      dayNumber _ _ _ * 86400 + 0 * 3600 + 0 * 60 + 0 by rw [hNumber, midnight]; omega]
    exact utcDate_eq _ hDate.inYear _ 0 0 0
  rw [nextAfter, ← utc_addDate_years, ← hDay]
  rfl

/-- In UTC the search finds the first listed minute, unless there is none on the days before the
start day five years later. -/
theorem nextAfter_least (e : CronExpr) (hWell : e.WellFormed) (after : Time) :
    ((∃ t, after < t ∧ e.Listed t ∧ dayOf t < fiveYearsAfter (dayOf (nextMinute after))) →
        IsLeast {t | after < t ∧ e.Listed t} (e.nextAfter after utc)) ∧
      ((¬ ∃ t, after < t ∧ e.Listed t ∧ dayOf t < fiveYearsAfter (dayOf (nextMinute after))) →
        e.nextAfter after utc = Time.zero) := by
  have hSearch := search_least hWell (nextMinute after)
    (fiveYearsAfter (dayOf (nextMinute after))) 2000 (dayOf (nextMinute after))
    (fiveYearsAfter_le _)
  have hSet : {t | after < t ∧ e.Listed t} =
      {t | e.Due (nextMinute after) t ∧ dayOf (nextMinute after) ≤ dayOf t} :=
    Set.ext fun t => lt_iff_due after t
  have hExists : (∃ t, after < t ∧ e.Listed t ∧
      dayOf t < fiveYearsAfter (dayOf (nextMinute after))) ↔
        ∃ t, e.Due (nextMinute after) t ∧ dayOf (nextMinute after) ≤ dayOf t ∧
          dayOf t < fiveYearsAfter (dayOf (nextMinute after)) :=
    exists_congr fun t => by rw [← and_assoc, lt_iff_due after t, and_assoc]
  rw [hSet, hExists, nextAfter_eq_search]
  exact hSearch

def leapDays : CronExpr := ⟨[0], [12], some [29], [2], none⟩

theorem leapDays_wellFormed : leapDays.WellFormed where
  minute := by decide
  hour := by decide
  month := by decide
  dom := by decide
  dow := by decide

theorem leapDays_nextAfter :
    IsLeast {t | atMinute (dayNumber 2021 3 1) 8 30 < t ∧ leapDays.Listed t}
      (leapDays.nextAfter (atMinute (dayNumber 2021 3 1) 8 30) utc) :=
  (nextAfter_least leapDays leapDays_wellFormed (atMinute (dayNumber 2021 3 1) 8 30)).1
    ⟨atMinute (dayNumber 2024 2 29) 12 0, by decide +kernel,
      ⟨2024, 2, 29, 12, 0, ⟨by decide, by decide⟩, by decide, by decide, rfl, by decide, by decide,
        by decide, .inr (.inl ⟨[29], rfl, by decide⟩)⟩,
      by decide +kernel⟩

end CronExpr

end DBVault.Scheduling
