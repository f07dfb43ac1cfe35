import DBVault.Domain

/-! When a cron schedule fires next: the search for a day and a minute of it in a
time zone. -/
namespace DBVault.Scheduling
open List

/-- `cronExpr`; the days are nil for `*`. -/
structure CronExpr where
  (minute hour : List Int)
  dom : Option (List Int)
  month : List Int
  dow : Option (List Int)
  deriving DecidableEq

/-- What a clock and a calendar show. -/
structure Civil where
  (year month day hour minute second weekday : Int)

/-- A `time.Location`, by what it makes of the seconds since the epoch and what
`time.Date` makes of a date and a time of day in it. -/
structure Location where
  civil : Int → Civil
  date : (year month day hour minute second : Int) → Int

def ofUnix (seconds : Int) : Time := seconds * Time.nanosPerSecond

/-- `Time.Unix`. -/
def toUnix (t : Time) : Int := t / Time.nanosPerSecond

def truncate (t : Time) (d : Int) : Time := if d ≤ 0 then t else t - (t - Time.zero) % d

theorem lt_truncate_add (t : Time) {d : Int} (hd : 0 < d) : t < truncate t d + d := by
  have hLess : (t - Time.zero) % d < d := Int.emod_lt_of_pos _ hd
  rw [truncate, if_neg (Int.not_le.mpr hd)]
  calc t = t - (t - Time.zero) % d + (t - Time.zero) % d := (Int.sub_add_cancel _ _).symm
    _ < t - (t - Time.zero) % d + d := Int.add_lt_add_left hLess _

theorem truncate_le (t : Time) (d : Int) : truncate t d ≤ t := by
  unfold truncate
  split
  · exact le_rfl
  · rename_i hd
    exact Int.sub_le_self _ (Int.emod_nonneg _ (ne_of_gt (Int.not_le.mp hd)))

def minuteDuration : Int := 60 * Time.nanosPerSecond

/-- `Time.AddDate` on an instant without a fraction of a second. -/
def Location.addDate (loc : Location) (seconds years days : Int) : Int :=
  let civil := loc.civil seconds
  loc.date (civil.year + years) civil.month (civil.day + days) civil.hour civil.minute civil.second

namespace CronExpr
variable (e : CronExpr)

/-- A day of the month or a day of the week is enough where both are given. -/
def dayMatches (day : Civil) : Bool :=
  e.month.contains day.month &&
    match e.dom, e.dow with
    | none, none => true
    | none, some dow => dow.contains day.weekday
    | some dom, none => dom.contains day.day
    | some dom, some dow => dom.contains day.day || dow.contains day.weekday

/-- The first of the day's times that is not before `start`. -/
def candidate (loc : Location) (start : Time) (day : Civil) : Option Time :=
  (e.hour.flatMap fun h => e.minute.map fun m =>
    ofUnix (loc.date day.year day.month day.day h m 0)).find? fun candidate => decide (start ≤ candidate)

/-- The loop over the days. Five years are fewer than two thousand of them. -/
def search (loc : Location) (start : Time) (limit : Int) : Nat → Int → Time
  | 0, _ => Time.zero
  | fuel + 1, day =>
    if day < limit then
      match if e.dayMatches (loc.civil day) then e.candidate loc start (loc.civil day) else none with
      | some candidate => candidate
      | none => search loc start limit fuel (loc.addDate day 0 1)
    else Time.zero

/-- `NextAfter`, or the zero time. -/
def nextAfter (after : Time) (loc : Location) : Time :=
  let start := truncate after minuteDuration + minuteDuration
  let civil := loc.civil (toUnix start)
  let day := loc.date civil.year civil.month civil.day 0 0 0
  e.search loc start (loc.addDate day 5 0) 2000 day

theorem search_spec (loc : Location) (start : Time) (limit : Int) (fuel : Nat) (day : Int) :
    e.search loc start limit fuel day = Time.zero ∨
      start ≤ e.search loc start limit fuel day ∧
        ∃ seconds, e.search loc start limit fuel day = ofUnix seconds := by
  induction fuel generalizing day with
  | zero => exact Or.inl rfl
  | succ fuel ih =>
    rw [search]
    split
    · split
      · rename_i found hFound
        have hCandidate : e.candidate loc start (loc.civil day) = some found := by
          by_cases hDay : e.dayMatches (loc.civil day)
          · simpa [hDay] using hFound
          · simp [hDay] at hFound
        have hStart := find?_some hCandidate
        obtain ⟨h, -, hMinute⟩ := mem_flatMap.mp (mem_of_find?_eq_some hCandidate)
        obtain ⟨m, -, rfl⟩ := mem_map.mp hMinute
        exact Or.inr ⟨of_decide_eq_true hStart, _, rfl⟩
      · exact ih _
    · exact Or.inl rfl

theorem nextAfter_spec (after : Time) (loc : Location) (hSome : e.nextAfter after loc ≠ Time.zero) :
    after < e.nextAfter after loc ∧ ∃ seconds, e.nextAfter after loc = ofUnix seconds := by
  rcases e.search_spec loc (truncate after minuteDuration + minuteDuration) _ 2000 _ with
    hZero | ⟨hStart, hWhole⟩
  · exact absurd hZero hSome
  · exact ⟨lt_of_lt_of_le (lt_truncate_add after (by decide)) hStart, hWhole⟩

end CronExpr

end DBVault.Scheduling
