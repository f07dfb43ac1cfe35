import DBVault.Calendar
import DBVault.Text.Decimal

/-! Days, ISO weeks and months of instants, and the texts that stand for them. -/
namespace DBVault.Time
open List Gregorian Text

theorem ofDigitChars_padded (width n : Nat) : Nat.ofDigitChars 10 (padded width n).toList 0 = n := by
  rw [padded, String.toList_ofList, Nat.ofDigitChars_append, Nat.ofDigitChars_replicate_zero,
    Nat.mul_zero, Nat.ofDigitChars_ten_toDigits]

theorem padded_injective (width : Nat) : Function.Injective (padded width) := by
  intro m n hSame
  rw [← ofDigitChars_padded width m, hSame, ofDigitChars_padded]

theorem isDigit_of_mem_padded {c : Char} (hMem : c ∈ (padded width n).toList) : c.isDigit := by
  rw [padded, String.toList_ofList, mem_append] at hMem
  rcases hMem with hZero | hDigit
  · rw [eq_of_mem_replicate hZero]
    decide
  · exact Nat.isDigit_of_mem_toDigits (by decide) (by decide) hDigit

theorem toList_padded (hFits : n < 10 ^ (width + 1)) : (padded (width + 1) n).toList = places (width + 1) n := by
  rw [padded, String.toList_ofList]
  induction width generalizing n with
  | zero =>
    have hDigit : n < 10 := by simpa using hFits
    simp [Nat.toDigits_of_lt_base hDigit, places, Nat.mod_eq_of_lt hDigit]
  | succ width ih =>
    rw [places]
    by_cases hDigit : n < 10
    · rw [Nat.toDigits_of_lt_base hDigit, Nat.mod_eq_of_lt hDigit, Nat.div_eq_of_lt hDigit, places_zero]
      rfl
    · have hRest : n / 10 < 10 ^ (width + 1) := by
        rw [Nat.pow_succ] at hFits
        omega
      rw [Nat.toDigits_of_base_le (by decide) (Nat.not_lt.mp hDigit), ← ih hRest, ← append_assoc]
      simp

theorem length_padded (hFits : n < 10 ^ (width + 1)) : (padded (width + 1) n).toList.length = width + 1 := by
  rw [toList_padded hFits, length_places]

def day (t : Time) : Int := t / nanosPerSecond / 86400

def week (t : Time) : Int := (t.day + 3) / 7

def month (t : Time) : Int × Nat := ((civil t.day).1, (civil t.day).2.1)

/-- `Time.ISOWeek`: the year of the week's Thursday, and the week of that year. -/
def isoWeek (t : Time) : Int × Int :=
  let thursday := 7 * ((t.day + 3) / 7)
  let year := (civil thursday).1
  (year, (thursday - dayNumber year 1 1) / 7 + 1)

/-- Layout `2006-01-02`. -/
def dateText (t : Time) : String :=
  let f := fields t
  f.year ++ "-" ++ f.month ++ "-" ++ f.day

/-- Layout `2006-01`. -/
def monthText (t : Time) : String :=
  let f := fields t
  f.year ++ "-" ++ f.month

/-- Format `%04d`; a sign takes one of the four places. -/
def fourDigits (n : Int) : String := if n < 0 then "-" ++ padded 3 n.natAbs else padded 4 n.natAbs

/-- Format `%04d-W%02d` of the ISO week. -/
def weekText (t : Time) : String := fourDigits t.isoWeek.1 ++ "-W" ++ padded 2 t.isoWeek.2.toNat

theorem dateText_eq (t : Time) : t.dateText = yearText (civil t.day).1 ++ "-" ++
    padded 2 (civil t.day).2.1 ++ "-" ++ padded 2 (civil t.day).2.2 :=
  rfl

theorem monthText_eq (t : Time) : t.monthText = yearText t.month.1 ++ "-" ++ padded 2 t.month.2 := rfl

theorem signed_inj {sized sized' : Nat → String} {m n : Int}
    (hInj : Function.Injective sized) (hInj' : Function.Injective sized')
    (hDigits : ∀ k, ∀ c ∈ (sized k).toList, c.isDigit)
    (hSame : (if m < 0 then "-" ++ sized' m.natAbs else sized m.natAbs) =
      if n < 0 then "-" ++ sized' n.natAbs else sized n.natAbs) : m = n := by
  have hSign (k l : Nat) : "-" ++ sized' k ≠ sized l := by
    intro hEq
    have hDigit := hDigits l '-' (by rw [← hEq]; simp)
    exact absurd hDigit (by decide)
  split at hSame <;> split at hSame
  · have hAbs : m.natAbs = n.natAbs := hInj' (String.toList_injective (by simpa using congrArg String.toList hSame))
    omega
  · exact absurd hSame (hSign _ _)
  · exact absurd hSame.symm (hSign _ _)
  · have hAbs := hInj hSame
    omega

theorem yearText_injective : Function.Injective yearText := fun _ _ =>
  signed_inj (padded_injective 4) (padded_injective 4) fun _ _ => isDigit_of_mem_padded

theorem fourDigits_injective : Function.Injective fourDigits := fun _ _ =>
  signed_inj (padded_injective 4) (padded_injective 3) fun _ _ => isDigit_of_mem_padded

theorem append_padded_inj {front front' separator : String} (hm : m < 100) (hn : n < 100)
    (hSame : front ++ separator ++ padded 2 m = front' ++ separator ++ padded 2 n) :
    front = front' ∧ m = n := by
  have hChars := congrArg String.toList hSame
  simp only [String.toList_append] at hChars
  obtain ⟨hFront, hLast⟩ := append_inj' hChars (by rw [length_padded hm, length_padded hn])
  refine ⟨String.toList_injective (append_inj' hFront rfl).1, ?_⟩
  exact padded_injective 2 (String.toList_injective hLast)

theorem month_lt (day : Int) : (civil day).2.1 < 100 := by
  have hMonth := (civil_spec day).1.inYear
  omega

theorem dayOfMonth_lt (day : Int) : (civil day).2.2 < 100 := by
  have hDay := (civil_spec day).1.inMonth
  have hMonth := daysInMonth_le (civil day).1 (civil day).2.1
  omega

theorem civil_injective : Function.Injective civil := by
  intro a b hSame
  rw [← (civil_spec a).2, hSame, (civil_spec b).2]

variable {t u : Time}

theorem dateText_eq_iff : t.dateText = u.dateText ↔ t.day = u.day := by
  constructor
  · intro hSame
    rw [dateText_eq, dateText_eq] at hSame
    obtain ⟨hFront, hDay⟩ := append_padded_inj (dayOfMonth_lt _) (dayOfMonth_lt _) hSame
    obtain ⟨hYear, hMonth⟩ := append_padded_inj (month_lt _) (month_lt _) hFront
    exact civil_injective (Prod.ext (yearText_injective hYear) (Prod.ext hMonth hDay))
  · intro hSame
    rw [dateText_eq, dateText_eq, hSame]

theorem monthText_eq_iff : t.monthText = u.monthText ↔ t.month = u.month := by
  constructor
  · intro hSame
    rw [monthText_eq, monthText_eq] at hSame
    obtain ⟨hYear, hMonth⟩ := append_padded_inj (month_lt _) (month_lt _) hSame
    exact Prod.ext (yearText_injective hYear) hMonth
  · intro hSame
    rw [monthText_eq, monthText_eq, hSame]

theorem isoWeek_eq (t : Time) : t.isoWeek =
    ((civil (7 * t.week)).1, (7 * t.week - dayNumber (civil (7 * t.week)).1 1 1) / 7 + 1) :=
  rfl

theorem isoWeek_bounds (t : Time) : 1 ≤ t.isoWeek.2 ∧ t.isoWeek.2 ≤ 53 := by
  obtain ⟨hDate, hNumber⟩ := civil_spec (7 * t.week)
  have hYear := hDate.within_year
  have hLength : daysInYear (civil (7 * t.week)).1 ≤ 366 := by
    unfold daysInYear
    split <;> decide
  rw [hNumber] at hYear
  simp only [isoWeek_eq, dayNumber, show daysBefore (civil (7 * t.week)).1 1 = 0 by simp [daysBefore]]
  omega

theorem isoWeek_eq_iff : t.isoWeek = u.isoWeek ↔ t.week = u.week := by
  rw [isoWeek_eq, isoWeek_eq, Prod.mk.injEq]
  constructor
  · rintro ⟨hYear, hWeek⟩
    rw [hYear] at hWeek
    omega
  · intro hSame
    rw [hSame]
    exact ⟨rfl, rfl⟩

theorem weekText_eq_iff : t.weekText = u.weekText ↔ t.week = u.week := by
  rw [← isoWeek_eq_iff]
  constructor
  · intro hSame
    have ht := t.isoWeek_bounds
    have hu := u.isoWeek_bounds
    obtain ⟨hYear, hWeek⟩ := append_padded_inj (by omega) (by omega) hSame
    exact Prod.ext (fourDigits_injective hYear) (by omega)
  · intro hSame
    rw [weekText, weekText, hSame]

/-- Sunday, 2021-01-03 still belongs to the last week of 2020. -/
example : weekText (18630 * 86400 * nanosPerSecond) = "2020-W53" := by decide +kernel

end DBVault.Time
