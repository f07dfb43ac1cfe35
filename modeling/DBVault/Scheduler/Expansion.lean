import DBVault.Scheduler.Meaning

/-! The values of a cron field: in order, without repetition, and where a sum of `int`s takes them out of
the range of the field. -/
namespace DBVault.Scheduling
open List Text

variable {lex : Lexicon} {field : CronField} {p : CronPart} {step last v : Int} {vals : List Int}

theorem visit_fits (hIn : v ≤ last) (hPast : last < v + step) (hFits : v + step < 2 ^ 63)
    (hLow : -(2 ^ 63) ≤ v + step) (fuel : Nat) : visit step last (fuel + 1) v = [v] := by
  rw [visit, if_pos hIn, wrap64_of_lt hLow hFits]
  cases fuel with
  | zero => rfl
  | succ fuel => rw [visit, if_neg (by omega)]

theorem visit_wraps (hStep : 2 ^ 63 - 60 ≤ step ∧ step ≤ 2 ^ 63 - 1) (hLast : 0 ≤ last ∧ last ≤ 59)
    (hIn : v ≤ last) (hOver : 2 ^ 63 ≤ v + step) (fuel : Nat) :
    visit step last (fuel + 2) v =
      v :: (v + step - 2 ^ 64) :: visit step last fuel (v + step - 2 ^ 64 + step) := by
  rw [visit, if_pos hIn, wrap64_of_ge hOver (by omega), visit, if_pos (by omega),
    wrap64_of_lt (by omega) (by omega)]

theorem visit_small_add (hPos : 1 ≤ step) (hSmall : last + step < 2 ^ 63) (fuel extra : Nat)
    (hFuel : last - v < fuel) (hLow : -(2 ^ 63) ≤ v) :
    visit step last (fuel + extra) v = visit step last fuel v := by
  induction fuel generalizing v with
  | zero =>
    cases extra with
    | zero => rfl
    | succ extra => simp [visit, show ¬ v ≤ last by omega]
  | succ fuel ih =>
    rw [Nat.add_right_comm, visit, visit]
    split
    · rw [wrap64_of_lt (by omega) (by omega), ih (by omega) (by omega)]
    · rfl

theorem visit_big_add (hStep : 2 ^ 63 - 60 ≤ step ∧ step ≤ 2 ^ 63 - 1) (hLast : 0 ≤ last ∧ last ≤ 59)
    (fuel extra : Nat) (hFuel : v + 2 ≤ fuel) (hSome : 1 ≤ fuel) (hLow : -120 ≤ v) (hIn : v ≤ last) :
    visit step last (fuel + extra) v = visit step last fuel v := by
  induction fuel using Nat.twoStepInduction generalizing v with
  | zero => omega
  | one =>
    rw [Nat.add_comm, visit_fits hIn (by omega) (by omega) (by omega),
      visit_fits hIn (by omega) (by omega) (by omega)]
  | more fuel ih _ =>
    by_cases hOver : 2 ^ 63 ≤ v + step
    · rw [Nat.add_right_comm fuel 2, visit_wraps hStep hLast hIn hOver, visit_wraps hStep hLast hIn hOver,
        ih (by omega) (by omega) (by omega) (by omega)]
    · rw [show fuel + 2 + extra = fuel + extra + 1 + 1 by omega,
        visit_fits hIn (by omega) (by omega) (by omega), visit_fits hIn (by omega) (by omega) (by omega)]

namespace CronPart

/-- The loop over a part ends by itself. -/
theorem visit_ends (hFits : p.Fits field) (extra : Nat) :
    visit p.step p.last (128 + extra) p.first = p.values := by
  have hStep := hFits.step
  have hBounds := hFits.bounds
  by_cases hSmall : p.last + p.step < 2 ^ 63
  · exact visit_small_add hStep.1 hSmall 128 extra (by omega) (by omega)
  · exact visit_big_add ⟨by omega, hStep.2⟩ (by omega) 128 extra (by omega) (by omega) (by omega) (by omega)

theorem mem_values_of_fits (hFits : p.Fits field) (hSum : p.first + p.step < 2 ^ 63) :
    v ∈ p.values ↔ p.Denotes v := by
  have hStep := hFits.step
  have hBounds := hFits.bounds
  rw [values, Denotes]
  by_cases hSmall : p.last + p.step < 2 ^ 63
  · exact mem_visit_small hStep.1 hSmall 128 p.first (by omega) (by omega) v
  · rw [visit_fits (by omega) (by omega) hSum (by omega) 127, mem_singleton]
    constructor
    · rintro rfl
      exact ⟨0, by simp, by omega⟩
    · rintro ⟨k, hk, hIn⟩
      rcases k with _ | k
      · simpa using hk
      · have hNonneg : 0 ≤ k * p.step := Int.mul_nonneg (Int.natCast_nonneg k) (by omega)
        rw [Int.natCast_succ, Int.add_mul, Int.one_mul] at hk
        omega

theorem wrapped_mem_values (hFits : p.Fits field) (hSum : 2 ^ 63 ≤ p.first + p.step) :
    p.first + p.step - 2 ^ 64 ∈ p.values := by
  have hStep := hFits.step
  have hBounds := hFits.bounds
  rw [values, visit_wraps ⟨by omega, hStep.2⟩ (by omega) (by omega) hSum 126]
  simp

end CronPart

theorem pairwise_insertInt {sorted : List Int} (hSorted : sorted.Pairwise (· < ·)) (hNew : v ∉ sorted) :
    (insertInt v sorted).Pairwise (· < ·) := by
  induction sorted with
  | nil => simp [insertInt]
  | cons head rest ih =>
    rw [pairwise_cons] at hSorted
    rw [mem_cons, not_or] at hNew
    rw [insertInt]
    split
    case isTrue hLess =>
      refine pairwise_cons.mpr ⟨?_, pairwise_cons.mpr hSorted⟩
      rintro w (_ | hw)
      · exact hLess
      · exact hLess.trans (hSorted.1 w ‹_›)
    case isFalse hLess =>
      refine pairwise_cons.mpr ⟨fun w hw => ?_, ih hSorted.2 hNew.2⟩
      rcases mem_insertInt.mp hw with rfl | hw
      · omega
      · exact hSorted.1 w hw

theorem pairwise_sortInts (hNodup : vals.Nodup) : (sortInts vals).Pairwise (· < ·) := by
  suffices hFold : ∀ sorted : List Int, sorted.Pairwise (· < ·) → (∀ v ∈ vals, v ∉ sorted) →
      (vals.foldl (fun sorted v => insertInt v sorted) sorted).Pairwise (· < ·) from
    hFold [] .nil (by simp)
  induction vals with
  | nil => exact fun _ hSorted _ => hSorted
  | cons first rest ih =>
    intro sorted hSorted hNew
    rw [nodup_cons] at hNodup
    refine ih hNodup.2 _ (pairwise_insertInt hSorted (hNew first (by simp))) fun v hv hIn => ?_
    rcases mem_insertInt.mp hIn with rfl | hIn
    · exact hNodup.1 hv
    · exact hNew v (by simp [hv]) hIn

theorem mem_values_iff_partMeans {part : List Char} (hParse : parsePart lex field part = .ok p)
    (hSum : ∀ a b s, PartReads lex field part a b s → a + s < 2 ^ 63) :
    v ∈ p.values ↔ PartMeans lex field part v := by
  obtain ⟨hFits, -, hReads⟩ := parsePart_spec hParse
  rw [CronPart.mem_values_of_fits hFits (hSum _ _ _ ((hReads _ _ _).mpr ⟨rfl, rfl, rfl⟩)), PartMeans]
  simp only [hReads]
  constructor
  · exact fun hDenotes => ⟨_, _, _, ⟨rfl, rfl, rfl⟩, hDenotes⟩
  · rintro ⟨_, _, _, ⟨rfl, rfl, rfl⟩, hDenotes⟩
    exact hDenotes

/-- The loops end, and the values of a field are in strictly increasing order. They stay in the range of
the field and are the ones the text denotes exactly if no part's first value and step exceed an `int`. -/
theorem parseCronField_expands_iff (lex : Lexicon) (field : CronField) (text : List Char) :
    (∀ part p, parsePart lex field part = .ok p → ∀ extra,
      visit p.step p.last (128 + extra) p.first = p.values) ∧
    ∀ vals star, parseCronField lex field text = .ok (vals, star) →
      vals.Pairwise (· < ·) ∧
      (((∀ v ∈ vals, field.bounds.1 ≤ v ∧ v ≤ field.bounds.2) ∧ ∀ v, v ∈ vals ↔ FieldMeans lex field text v) ↔
        ∀ part ∈ text.splitOn ',', ∀ a b s, PartReads lex field part a b s → a + s < 2 ^ 63) := by
  refine ⟨fun part p hParse => CronPart.visit_ends (parsePart_spec hParse).1, fun vals star hParse => ?_⟩
  obtain ⟨hAll, hMem, -, out, hNodup, rfl⟩ := parseCronField_values hParse
  refine ⟨pairwise_sortInts hNodup, ?_, fun hSums => ?_⟩
  · rintro ⟨hBounds, -⟩ part hPart a b s hReads
    obtain ⟨p, hParse⟩ := hAll part hPart
    obtain ⟨hFits, -, hSame⟩ := parsePart_spec hParse
    obtain ⟨rfl, rfl, rfl⟩ := (hSame a b s).mp hReads
    by_contra hSum
    have hIn := (hMem _).mpr ⟨part, hPart, p, hParse, CronPart.wrapped_mem_values hFits (by omega)⟩
    have hLow := (hBounds _ hIn).1
    have hStep := hFits.step
    have hFirst := hFits.bounds
    cases field <;> simp only [CronField.bounds] at hLow <;> omega
  · have hMeans : ∀ v, v ∈ sortInts out ↔ FieldMeans lex field text v := by
      intro v
      rw [hMem, FieldMeans]
      refine exists_congr fun part => and_congr_right fun hPart => ?_
      obtain ⟨p, hParse⟩ := hAll part hPart
      simp [hParse, mem_values_iff_partMeans hParse (hSums part hPart)]
    refine ⟨fun v hv => ?_, hMeans⟩
    obtain ⟨part, hPart, a, b, s, hReads, k, rfl, hLast⟩ := (hMeans v).mp hv
    obtain ⟨p, hParse⟩ := hAll part hPart
    obtain ⟨⟨hLower, -, hUpper, hStep⟩, -, hSame⟩ := parsePart_spec hParse
    obtain ⟨rfl, rfl, rfl⟩ := (hSame a b s).mp hReads
    have hNonneg : 0 ≤ k * p.step := Int.mul_nonneg (Int.natCast_nonneg k) (by omega)
    omega

/-- Two sums with the largest step lead to values below the first day of a month. -/
theorem wrapped_days : ∃ vals, parseCronField Sample.lexicon .dom "*/9223372036854775807".toList = .ok (vals, true) ∧
    ¬ ∀ v ∈ vals, CronField.dom.bounds.1 ≤ v :=
  ⟨[-9223372036854775808, -1, 1], eq_ok_of_toOption (by decide +kernel), by decide⟩

end DBVault.Scheduling
