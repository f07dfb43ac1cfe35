import DBVault.Calendar.Periods
import Mathlib.Data.String.Basic

/-! The order of times that are written with nanoseconds and without trailing zeros. -/
namespace DBVault.Time
open List Gregorian Text

def year (t : Time) : Int := (civil t.day).1

def FourDigitYear (t : Time) : Prop := 0 ≤ t.year ∧ t.year < 10000

def nanos (t : Time) : Nat := (t % nanosPerSecond).toNat

theorem nanos_lt (t : Time) : t.nanos < 10 ^ 9 := by
  have hMod := Int.emod_lt_of_pos t (show (0 : Int) < nanosPerSecond by decide)
  have hNonneg := Int.emod_nonneg t (show nanosPerSecond ≠ 0 by decide)
  unfold nanos
  simp only [nanosPerSecond] at *
  omega

theorem toList_fraction {n : Nat} (hn : n < 10 ^ 9) :
    (fraction n).toList = if n = 0 then [] else '.' :: significant 9 n := by
  unfold fraction
  split
  · rfl
  · obtain ⟨k, hk⟩ := places_eq_significant hn
    rw [toList_padded hn, hk]
    have hStrip : (significant 9 n).reverse.dropWhile (· == '0') = (significant 9 n).reverse := by
      cases hReverse : (significant 9 n).reverse with
      | nil => rfl
      | cons c rest =>
        have hLast : (significant 9 n).getLast? = some c := by rw [← head?_reverse, hReverse, head?_cons]
        exact dropWhile_cons_of_neg (by simpa using ne_zero_of_getLast? hn hLast)
    simp [dropWhile_append_of_pos, hStrip]

def stamp (t : Time) : List Char :=
  let f := fields t
  (f.year ++ "-" ++ f.month ++ "-" ++ f.day ++ "T" ++ f.hour ++ ":" ++ f.minute ++ ":" ++ f.second).toList

theorem toList_rfc3339Nano (t : Time) :
    t.rfc3339Nano.toList = t.stamp ++ ((fraction t.nanos).toList ++ ['Z']) := by
  simp [rfc3339Nano, stamp, nanos, fields]

def seconds (t : Time) : Int := t / nanosPerSecond
def ofDay (t : Time) : Nat := (t.seconds % 86400).toNat

theorem seconds_eq (t : Time) : t.seconds = 86400 * t.day + t.ofDay ∧ t.ofDay < 86400 := by
  unfold ofDay day seconds
  omega

variable {t u : Time}

theorem toList_yearText (hYear : t.FourDigitYear) : (yearText t.year).toList = places 4 t.year.toNat := by
  obtain ⟨hFirst, hLast⟩ := hYear
  rw [yearText, if_neg (by omega), toList_padded (by omega)]
  congr 1
  omega

theorem stamp_eq (hYear : t.FourDigitYear) : t.stamp = places 4 t.year.toNat ++
    '-' :: (places 2 (civil t.day).2.1 ++ '-' :: (places 2 (civil t.day).2.2 ++
      'T' :: (places 2 (t.ofDay / 3600) ++ ':' :: (places 2 (t.ofDay / 60 % 60) ++
        ':' :: places 2 (t.ofDay % 60))))) := by
  have hDay := (seconds_eq t).2
  have hFields : t.stamp = (yearText t.year).toList ++ '-' :: ((padded 2 (civil t.day).2.1).toList ++
      '-' :: ((padded 2 (civil t.day).2.2).toList ++ 'T' :: ((padded 2 (t.ofDay / 3600)).toList ++
        ':' :: ((padded 2 (t.ofDay / 60 % 60)).toList ++ ':' :: (padded 2 (t.ofDay % 60)).toList)))) := by
    simp [stamp, fields, year, day, ofDay, seconds]
  rw [hFields, toList_yearText hYear, toList_padded (month_lt _), toList_padded (dayOfMonth_lt _),
    toList_padded (by omega), toList_padded (by omega), toList_padded (by omega)]

theorem stamp_lt_iff (ht : t.FourDigitYear) (hu : u.FourDigitYear) :
    t.stamp < u.stamp ↔ t.seconds < u.seconds := by
  have hDays := (civil_spec t.day).1.dayNumber_lt_iff (civil_spec u.day).1
  rw [(civil_spec t.day).2, (civil_spec u.day).2] at hDays
  obtain ⟨htSum, htDay⟩ := seconds_eq t
  obtain ⟨huSum, huDay⟩ := seconds_eq u
  have hSame := (civil_spec u.day).1.dayNumber_lt_iff (civil_spec t.day).1
  rw [(civil_spec t.day).2, (civil_spec u.day).2] at hSame
  have htMonth := month_lt t.day
  have huMonth := month_lt u.day
  have htDate := dayOfMonth_lt t.day
  have huDate := dayOfMonth_lt u.day
  have htYear : t.year.toNat < 10 ^ 4 := by have := ht.2; omega
  have huYear : u.year.toNat < 10 ^ 4 := by have := hu.2; omega
  rw [stamp_eq ht, stamp_eq hu, places_cons_lt_iff htYear huYear, places_cons_lt_iff htMonth huMonth,
    places_cons_lt_iff htDate huDate, places_cons_lt_iff (by omega) (by omega),
    places_cons_lt_iff (by omega) (by omega), places_lt_iff (by omega) (by omega)]
  have hYears : (t.year.toNat < u.year.toNat ↔ (civil t.day).1 < (civil u.day).1) ∧
      (t.year.toNat = u.year.toNat ↔ (civil t.day).1 = (civil u.day).1) := by
    have ht' := ht.1
    have hu' := hu.1
    unfold year at *
    omega
  have hClock : (t.ofDay / 3600 < u.ofDay / 3600 ∨ t.ofDay / 3600 = u.ofDay / 3600 ∧
      (t.ofDay / 60 % 60 < u.ofDay / 60 % 60 ∨ t.ofDay / 60 % 60 = u.ofDay / 60 % 60 ∧
        t.ofDay % 60 < u.ofDay % 60)) ↔ t.ofDay < u.ofDay := by
    omega
  rw [hClock, hYears.1, hYears.2]
  omega

theorem stamp_inj (ht : t.FourDigitYear) (hu : u.FourDigitYear) : t.stamp = u.stamp ↔ t.seconds = u.seconds := by
  constructor
  · intro hSame
    have hLess := mt (stamp_lt_iff ht hu).mpr (by rw [hSame]; exact lt_irrefl _)
    have hMore := mt (stamp_lt_iff hu ht).mpr (by rw [hSame]; exact lt_irrefl _)
    omega
  · intro hSame
    have hDay : t.day = u.day := congrArg (· / 86400) hSame
    have hOfDay : t.ofDay = u.ofDay := congrArg (fun s => (s % 86400).toNat) hSame
    rw [stamp_eq ht, stamp_eq hu, hDay, hOfDay, year, year, hDay]

def Cut (earlier later : Time) : Prop := earlier ≠ later ∧ ∃ k : Nat, k ≤ 9 ∧ earlier = later - later % 10 ^ k

theorem split (t : Time) : t = t.seconds * 1000000000 + t.nanos := by
  unfold seconds nanos
  simp only [nanosPerSecond]
  unfold Time at *
  omega

theorem emod_eq_nanos (t : Time) {k : Nat} (hk : k ≤ 9) : t % 10 ^ k = (t.nanos % 10 ^ k : Nat) := by
  have hDvd : (10 : Int) ^ k ∣ nanosPerSecond := pow_dvd_pow (10 : Int) hk
  have hNanos : (t.nanos : Int) = t % nanosPerSecond := Int.toNat_of_nonneg (Int.emod_nonneg t (by decide))
  rw [Int.natCast_mod, hNanos, Nat.cast_pow, Nat.cast_ofNat, Int.emod_emod_of_dvd t hDvd]

theorem cut_iff : Cut t u ↔ t.seconds = u.seconds ∧ Text.Cut 9 t.nanos u.nanos := by
  have ht := t.split
  have hu := u.split
  have htLess := t.nanos_lt
  have huLess := u.nanos_lt
  constructor
  · rintro ⟨hNe, k, hk, hCut⟩
    rw [emod_eq_nanos u hk] at hCut
    have hLe := Nat.mod_le u.nanos (10 ^ k)
    unfold Time at *
    exact ⟨by omega, fun hSame => hNe (by omega), k, hk, by omega⟩
  · rintro ⟨hSame, hNe, k, hk, hCut⟩
    have hLe := Nat.mod_le u.nanos (10 ^ k)
    refine ⟨fun h => hNe (by rw [h]), k, hk, ?_⟩
    rw [emod_eq_nanos u hk]
    unfold Time at *
    omega

theorem rfc3339Nano_lt_iff (ht : t.FourDigitYear) (hu : u.FourDigitYear) :
    t.rfc3339Nano < u.rfc3339Nano ↔ (t < u ∧ ¬ Cut t u) ∨ Cut u t := by
  have hLength : t.stamp.length = u.stamp.length := by
    rw [stamp_eq ht, stamp_eq hu]
    simp
  have hFraction : (fraction t.nanos).toList ++ ['Z'] < (fraction u.nanos).toList ++ ['Z'] ↔
      (t.nanos < u.nanos ∧ ¬ Text.Cut 9 t.nanos u.nanos) ∨ Text.Cut 9 u.nanos t.nanos := by
    rw [toList_fraction t.nanos_lt, toList_fraction u.nanos_lt]
    exact marked_lt_iff (by decide) (by decide) t.nanos_lt u.nanos_lt
  have htSplit := t.split
  have huSplit := u.split
  have htLess := t.nanos_lt
  have huLess := u.nanos_lt
  have hLess : t < u ↔ t.seconds < u.seconds ∨ t.seconds = u.seconds ∧ t.nanos < u.nanos := by
    unfold Time at *
    omega
  rw [String.lt_iff_toList_lt, toList_rfc3339Nano, toList_rfc3339Nano, append_lt_append_iff hLength,
    stamp_lt_iff ht hu, stamp_inj ht hu, hFraction, cut_iff, cut_iff, hLess]
  by_cases hSame : t.seconds = u.seconds
  · simp [hSame]
  · simp [hSame, Ne.symm hSame]

theorem rfc3339Nano_inj (ht : t.FourDigitYear) (hu : u.FourDigitYear) (h : t.rfc3339Nano = u.rfc3339Nano) : t = u := by
  have hLess := not_congr (rfc3339Nano_lt_iff ht hu)
  have hGreater := not_congr (rfc3339Nano_lt_iff hu ht)
  rw [h] at hLess hGreater
  have hNot := hLess.mp (lt_irrefl _)
  have hNot' := hGreater.mp (lt_irrefl _)
  by_contra hNe
  rcases lt_or_gt_of_ne (show (t : Int) ≠ u from hNe) with hLt | hGt
  · exact hNot (.inl ⟨hLt, fun hCut => hNot' (.inr hCut)⟩)
  · exact hNot' (.inl ⟨hGt, fun hCut => hNot (.inr hCut)⟩)

def leadingFour (n : Nat) : Nat := if n < 10000 then n else leadingFour (n / 10)

theorem leadingFour_lt (n : Nat) : leadingFour n < 10 ^ 4 := by
  fun_induction leadingFour n with
  | case1 n hSmall => exact hSmall
  | case2 n hLarge ih => exact ih

theorem toDigits_leadingFour {n : Nat} (hLarge : 10000 ≤ n) : ∃ d < 10, ∃ rest,
    Nat.toDigits 10 n = places 4 (leadingFour n) ++ Nat.digitChar d :: rest := by
  fun_induction leadingFour n with
  | case1 n hSmall => omega
  | case2 n hNot ih =>
    rw [Nat.toDigits_of_base_le (by decide) (by omega)]
    by_cases hFour : n / 10 < 10000
    · have hLength : ¬ (Nat.toDigits 10 (n / 10)).length ≤ 3 := by
        rw [Nat.length_toDigits_le_iff (by decide) (by decide)]
        omega
      have hDigits : Nat.toDigits 10 (n / 10) = places 4 (n / 10) := by
        rw [← toList_padded hFour, padded, String.toList_ofList, Nat.sub_eq_zero_of_le (by omega)]
        rfl
      refine ⟨n % 10, Nat.mod_lt _ (by decide), [], ?_⟩
      rw [hDigits, leadingFour, if_pos hFour]
    · obtain ⟨d, hd, rest, hRest⟩ := ih (by omega)
      exact ⟨d, hd, rest ++ [Nat.digitChar (n % 10)], by rw [hRest]; simp⟩

theorem lt_of_year (hYear : t.year < u.year) : t < u := by
  have hDay := (civil_spec t.day).1.lt_of_year (civil_spec u.day).1 hYear
  rw [(civil_spec t.day).2, (civil_spec u.day).2] at hDay
  unfold day at hDay
  simp only [nanosPerSecond] at hDay
  unfold Time at *
  omega

theorem toList_rfc3339Nano_year (t : Time) :
    ∃ rest, t.rfc3339Nano.toList = (yearText t.year).toList ++ '-' :: rest := by
  refine ⟨t.stamp.drop ((yearText t.year).toList.length + 1) ++ ((fraction t.nanos).toList ++ ['Z']), ?_⟩
  rw [toList_rfc3339Nano]
  simp [stamp, fields, year, day]

theorem hyphen_lt_digitChar {d : Nat} (hd : d < 10) : '-' < d.digitChar := by
  rw [Char.lt_def, UInt32.lt_iff_toNat_lt]
  change '-'.toNat < d.digitChar.toNat
  rw [Nat.toNat_digitChar_of_lt_ten hd]
  have hHyphen : '-'.toNat = 45 := rfl
  omega

theorem rfc3339Nano_lt_of_neg {now : Time} (ht : t.FourDigitYear) (hNow : now.year < 0) :
    now.rfc3339Nano < t.rfc3339Nano := by
  obtain ⟨rest, hText⟩ := toList_rfc3339Nano_year t
  obtain ⟨nowRest, hNowText⟩ := toList_rfc3339Nano_year now
  have hYear : t.year.toNat < 10 ^ 4 := by have := ht.2; omega
  rw [String.lt_iff_toList_lt, hText, hNowText, toList_yearText ht, yearText, if_pos hNow,
    places_succ_left hYear, String.toList_append]
  exact cons_lt_cons_iff.mpr (.inl (hyphen_lt_digitChar (by omega)))

theorem rfc3339Nano_lt_of_long {now : Time} (ht : t.FourDigitYear) (hNow : 10000 ≤ now.year) :
    now.rfc3339Nano < t.rfc3339Nano ↔ leadingFour now.year.toNat < t.year := by
  obtain ⟨rest, hText⟩ := toList_rfc3339Nano_year t
  obtain ⟨nowRest, hNowText⟩ := toList_rfc3339Nano_year now
  obtain ⟨d, hd, digits, hDigits⟩ := toDigits_leadingFour (show 10000 ≤ now.year.toNat by omega)
  have hYear : t.year.toNat < 10 ^ 4 := by have := ht.2; omega
  have hNowYear : (yearText now.year).toList = Nat.toDigits 10 now.year.toNat := by
    have hAbs : now.year.natAbs = now.year.toNat := by omega
    have hLength : 4 ≤ (Nat.toDigits 10 now.year.toNat).length := by rw [hDigits]; simp
    rw [yearText, if_neg (by omega), padded, String.toList_ofList, hAbs, Nat.sub_eq_zero_of_le hLength]
    rfl
  have hHyphen := hyphen_lt_digitChar hd
  rw [String.lt_iff_toList_lt, hText, hNowText, toList_yearText ht, hNowYear, hDigits,
    append_assoc, append_lt_append_iff (by simp), places_lt_iff (leadingFour_lt _) hYear,
    cons_append, cons_lt_cons_iff]
  simp only [hHyphen.asymm, hHyphen.ne', false_and, or_self, and_false, or_false]
  have := ht.1
  omega

/-- The text of a time shows whether it is after `now`. -/
def Telling (t now : Time) : Prop :=
  now.year < 0 ∨ (now.FourDigitYear ∧ ¬ Cut t now ∧ ¬ Cut now t) ∨
    (10000 ≤ now.year ∧ t.year ≤ leadingFour now.year.toNat)

theorem Cut.lt (hCut : Cut t u) : t < u := by
  obtain ⟨hNe, k, -, hEq⟩ := hCut
  have hNonneg := Int.emod_nonneg u (show (10 : Int) ^ k ≠ 0 by positivity)
  unfold Time at *
  omega

theorem rfc3339Nano_le_iff (ht : t.FourDigitYear) (now : Time) :
    (t.rfc3339Nano ≤ now.rfc3339Nano ↔ t ≤ now) ↔ Telling t now := by
  rw [← not_lt, ← not_lt, not_iff_not]
  unfold Telling
  have hFirst := ht.1
  have hLast := ht.2
  by_cases hNegative : now.year < 0
  · have hTexts := rfc3339Nano_lt_of_neg ht hNegative
    have hTimes : now < t := lt_of_year (by omega)
    simp [hNegative, hTexts, hTimes]
  · by_cases hLong : 10000 ≤ now.year
    · have hTimes : ¬ now < t := not_lt.mpr (lt_of_year (by omega)).le
      have hNotFour : ¬ now.FourDigitYear := fun hFour => by have := hFour.2; omega
      simp [hNegative, hLong, hNotFour, hTimes, rfc3339Nano_lt_of_long ht hLong]
    · have hNow : now.FourDigitYear := ⟨by omega, by omega⟩
      have hAfter (hCut : Cut t now) : ¬ now < t := hCut.lt.asymm
      have hBefore (hCut : Cut now t) : now < t := hCut.lt
      simp only [hNegative, hLong, hNow, rfc3339Nano_lt_iff hNow ht, false_or, false_and, or_false, true_and]
      tauto

end DBVault.Time
