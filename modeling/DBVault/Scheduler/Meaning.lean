import DBVault.Scheduler.Expression
import DBVault.Scheduler.Search

/-! What the text of a cron schedule means, and where the parsed lists say something else. -/
namespace DBVault.Scheduling
open List Text

variable (lex : Lexicon) (field : CronField)

/-- The first and the last value of a range. -/
inductive RangeMeans : List Char → Int → Int → Prop where
  | star : RangeMeans ['*'] field.bounds.1 field.bounds.2
  | omitted : RangeMeans [] field.bounds.1 field.bounds.2
  | span {first last : List Char} {a b : Int} (hDash : '-' ∉ first)
      (hFirst : cronToken lex first field.names = some a)
      (hLast : cronToken lex last field.names = some b) : RangeMeans (first ++ '-' :: last) a b
  | single {tok : List Char} {a : Int} (hDash : '-' ∉ tok) (hStar : tok ≠ ['*']) (hSome : tok ≠ [])
      (hTok : cronToken lex tok field.names = some a) : RangeMeans tok a a

inductive PartReads : List Char → (first last step : Int) → Prop where
  | plain {range : List Char} {a b : Int} (hSlash : '/' ∉ range)
      (hRange : RangeMeans lex field range a b) : PartReads range a b 1
  | stepped {range text : List Char} {a b s : Int} (hSlash : '/' ∉ range)
      (hRange : RangeMeans lex field range a b) (hStep : atoi text = some s) (hPos : 0 < s) :
      PartReads (range ++ '/' :: text) a b s

def PartMeans (part : List Char) (v : Int) : Prop :=
  ∃ a b s, PartReads lex field part a b s ∧ ∃ k : Nat, v = a + k * s ∧ v ≤ b

def FieldMeans (text : List Char) (v : Int) : Prop := ∃ part ∈ text.splitOn ',', PartMeans lex field part v

/-- The values a part goes through once the sum of a value and the step does not fit an `int`:
two such sums lead back below the value. -/
def PartWraps (part : List Char) (v : Int) : Prop :=
  ∃ a b s, PartReads lex field part a b s ∧ ∃ k : Nat,
    v = a - (k + 1) * (2 ^ 64 - 2 * s) ∧ 2 ^ 63 ≤ a - k * (2 ^ 64 - 2 * s) + s

def Starred (part : List Char) : Prop := part.takeWhile (· ≠ '/') = ['*'] ∨ part.takeWhile (· ≠ '/') = []

variable {lex field}

theorem span_not_star (first last : List Char) : ¬ (first ++ '-' :: last = ['*'] ∨ first ++ '-' :: last = []) := by
  rintro (hStar | hEmpty)
  · have hMem : '-' ∈ ['*'] := hStar ▸ (by simp)
    simp at hMem
  · simp at hEmpty

variable {range part : List Char} {vals : List Int}

theorem parseRange_star (hStar : range = ['*'] ∨ range = []) :
    parseRange lex field range = .ok (true, field.bounds.1, field.bounds.2) := by
  rw [parseRange, if_pos hStar]

theorem parseRange_span {first last : List Char} (hDash : '-' ∉ first) :
    parseRange lex field (first ++ '-' :: last) =
      match cronToken lex first field.names, cronToken lex last field.names with
      | some a, some b => .ok (false, a, b)
      | _, _ => .error (.other ("invalid range " ++ lex.quote (first ++ '-' :: last))) := by
  obtain ⟨hTake, hDrop⟩ : (first ++ '-' :: last).takeWhile (· ≠ '-') = first ∧
      (first ++ '-' :: last).dropWhile (· ≠ '-') = '-' :: last := takeWhile_append_of_not_mem hDash
  cases hFirst : cronToken lex first field.names <;>
    cases hLast : cronToken lex last field.names <;>
    simp only [parseRange, span_not_star first last, if_false, hTake, hDrop, hFirst, hLast]

theorem parseRange_single (hDash : '-' ∉ tok) (hStar : ¬ (tok = ['*'] ∨ tok = [])) :
    parseRange lex field tok =
      match cronToken lex tok field.names with
      | some v => .ok (false, v, v)
      | none => .error (.other ("invalid value " ++ lex.quote tok)) := by
  cases hToken : cronToken lex tok field.names <;>
    simp only [parseRange, hStar, if_false, (takeWhile_of_not_mem hDash).2, hToken]

theorem parseRange_means {star : Bool} {a b : Int}
    (hParse : parseRange lex field range = .ok (star, a, b)) : RangeMeans lex field range a b := by
  by_cases hStar : range = ['*'] ∨ range = []
  · rw [parseRange_star hStar] at hParse
    cases hParse
    rcases hStar with rfl | rfl
    · exact .star
    · exact .omitted
  · rcases cut_cases '-' range with ⟨hDash, -, -⟩ | ⟨first, last, rfl, hDash, -, -⟩
    · rw [parseRange_single hDash hStar] at hParse
      cases hTok : cronToken lex range field.names with
      | none => simp [hTok] at hParse
      | some v =>
        rw [hTok] at hParse
        cases hParse
        exact .single hDash (fun h => hStar (.inl h)) (fun h => hStar (.inr h)) hTok
    · rw [parseRange_span hDash] at hParse
      split at hParse
      case h_1 hFirst hLast =>
        cases hParse
        exact .span hDash hFirst hLast
      case h_2 => cases hParse

theorem RangeMeans.parseRange (hMeans : RangeMeans lex field range a b) :
    parseRange lex field range = .ok (decide (range = ['*'] ∨ range = []), a, b) := by
  cases hMeans with
  | star => exact parseRange_star (.inl rfl)
  | omitted => exact parseRange_star (.inr rfl)
  | span hDash hFirst hLast => rw [parseRange_span hDash, hFirst, hLast, decide_eq_false (span_not_star _ _)]
  | single hDash hStar hSome hTok =>
    have hPlain := not_or.mpr ⟨hStar, hSome⟩
    rw [parseRange_single hDash hPlain, hTok, decide_eq_false hPlain]

/-- A part in the range of its field, as the parser reads it. -/
structure CronPart.Fits (p : CronPart) (field : CronField) : Prop where
  lower : field.bounds.1 ≤ p.first
  ordered : p.first ≤ p.last
  upper : p.last ≤ field.bounds.2
  step : 1 ≤ p.step ∧ p.step ≤ 2 ^ 63 - 1

theorem atoi_isInt64 (hRead : atoi text = some n) : Json.IsInt64 n := by
  unfold atoi at hRead
  split at hRead
  · exact of_decide_eq_true (Option.filter_eq_some_iff.mp hRead).2
  · unfold Json.parseInt at hRead
    exact of_decide_eq_true (Option.filter_eq_some_iff.mp hRead).2

theorem parseStep_plain (hSlash : '/' ∉ part) : parseStep lex part = .ok 1 := by
  rw [parseStep, (takeWhile_of_not_mem hSlash).2]

theorem parseStep_stepped (hSlash : '/' ∉ range) :
    parseStep lex (range ++ '/' :: text) = .ok s ↔ atoi text = some s ∧ 0 < s := by
  rw [parseStep, (takeWhile_append_of_not_mem hSlash).2]
  dsimp only
  cases hRead : atoi text with
  | none => simp
  | some n =>
    dsimp only
    split
    case isTrue hNot =>
      simp only [reduceCtorEq, Option.some.injEq, false_iff, not_and]
      rintro rfl
      omega
    case isFalse hPos =>
      simp only [Except.ok.injEq, Option.some.injEq, iff_self_and]
      omega

theorem parsePart_eq (hParse : parsePart lex field part = .ok p) :
    parseStep lex part = .ok p.step ∧
      parseRange lex field (part.takeWhile (· ≠ '/')) = .ok (p.star, p.first, p.last) ∧
      field.bounds.1 ≤ p.first ∧ p.first ≤ p.last ∧ p.last ≤ field.bounds.2 := by
  obtain ⟨step, hStep, hParse⟩ := bind_eq_ok hParse
  obtain ⟨⟨star, first, last⟩, hRange, hParse⟩ := bind_eq_ok hParse
  dsimp only at hParse
  split at hParse
  case isTrue => cases hParse
  case isFalse hIn =>
    cases hParse
    refine ⟨hStep, hRange, ?_⟩
    dsimp only
    omega

theorem partReads_iff :
    PartReads lex field part a b s ↔ parseStep lex part = .ok s ∧
      RangeMeans lex field (part.takeWhile (· ≠ '/')) a b := by
  constructor
  · intro hReads
    cases hReads with
    | plain hSlash hRange =>
      rw [(takeWhile_of_not_mem hSlash).1]
      exact ⟨parseStep_plain hSlash, hRange⟩
    | stepped hSlash hRange hStep hPos =>
      rw [(takeWhile_append_of_not_mem hSlash).1]
      exact ⟨(parseStep_stepped hSlash).mpr ⟨hStep, hPos⟩, hRange⟩
  · rintro ⟨hStep, hRange⟩
    rcases cut_cases '/' part with ⟨hSlash, hTake, -⟩ | ⟨range, text, rfl, hSlash, hTake, -⟩
    · rw [hTake] at hRange
      rw [parseStep_plain hSlash] at hStep
      cases hStep
      exact .plain hSlash hRange
    · rw [hTake] at hRange
      obtain ⟨hRead, hPos⟩ := (parseStep_stepped hSlash).mp hStep
      exact .stepped hSlash hRange hRead hPos

theorem parseStep_bounds (hStep : parseStep lex part = .ok s) : 1 ≤ s ∧ s ≤ 2 ^ 63 - 1 := by
  rcases cut_cases '/' part with ⟨hSlash, -, -⟩ | ⟨range, text, rfl, hSlash, -, -⟩
  · rw [parseStep_plain hSlash] at hStep
    cases hStep
    decide
  · obtain ⟨hRead, hPos⟩ := (parseStep_stepped hSlash).mp hStep
    exact ⟨hPos, (atoi_isInt64 hRead).2⟩

theorem parsePart_spec {p : CronPart} (hParse : parsePart lex field part = .ok p) :
    p.Fits field ∧ (p.star = true ↔ Starred part) ∧
      ∀ a b s, PartReads lex field part a b s ↔ p.first = a ∧ p.last = b ∧ p.step = s := by
  obtain ⟨hStep, hRange, hLower, hOrdered, hUpper⟩ := parsePart_eq hParse
  have hMeans := parseRange_means hRange
  refine ⟨⟨hLower, hOrdered, hUpper, parseStep_bounds hStep⟩, ?_, fun a b s => ?_⟩
  · have hStar := hMeans.parseRange
    rw [hRange, Except.ok.injEq, Prod.mk.injEq] at hStar
    rw [hStar.1, decide_eq_true_eq, Starred]
  · rw [partReads_iff, hStep, Except.ok.injEq]
    constructor
    · rintro ⟨hSame, hOther⟩
      have hEnds := hOther.parseRange
      rw [hRange, Except.ok.injEq, Prod.mk.injEq, Prod.mk.injEq] at hEnds
      exact ⟨hEnds.2.1, hEnds.2.2, hSame⟩
    · rintro ⟨rfl, rfl, rfl⟩
      exact ⟨rfl, hMeans⟩

namespace CronPart
variable (p : CronPart)

def Denotes (v : Int) : Prop := ∃ k : Nat, v = p.first + k * p.step ∧ v ≤ p.last

def Wraps (v : Int) : Prop :=
  ∃ k : Nat, v = p.first - (k + 1) * (2 ^ 64 - 2 * p.step) ∧
    2 ^ 63 ≤ p.first - k * (2 ^ 64 - 2 * p.step) + p.step

end CronPart

theorem wrap64_of_lt (hLow : -(2 ^ 63) ≤ n) (hHigh : n < 2 ^ 63) : wrap64 n = n := by
  rw [wrap64]
  omega

theorem wrap64_of_ge (hLow : 2 ^ 63 ≤ n) (hHigh : n < 2 ^ 64) : wrap64 n = n - 2 ^ 64 := by
  rw [wrap64]
  omega

theorem exists_nat_mul_add {P : Int → Prop} (step : Int) :
    (∃ k : Nat, P (k * step)) ↔ P 0 ∨ ∃ k : Nat, P (k * step + step) := by
  constructor
  · rintro ⟨k, hk⟩
    rcases k with _ | k
    · exact .inl (by simpa using hk)
    · exact .inr ⟨k, by simpa [Int.add_mul] using hk⟩
  · rintro (hZero | ⟨k, hk⟩)
    · exact ⟨0, by simpa using hZero⟩
    · exact ⟨k + 1, by simpa [Int.add_mul] using hk⟩

theorem not_counted (hPos : 1 ≤ step) (hPast : last < v) (w : Int) : ¬ ∃ k : Nat, w = v + k * step ∧ w ≤ last := by
  rintro ⟨k, hk, hLast⟩
  have hNonneg : 0 ≤ k * step := Int.mul_nonneg (Int.natCast_nonneg k) (by omega)
  omega

theorem mem_visit_small (hPos : 1 ≤ step) (hSmall : last + step < 2 ^ 63)
    (fuel : Nat) (v : Int) (hFuel : last - v < fuel) (hLow : -(2 ^ 63) ≤ v) (w : Int) :
    w ∈ visit step last fuel v ↔ ∃ k : Nat, w = v + k * step ∧ w ≤ last := by
  induction fuel generalizing v with
  | zero =>
    simp only [visit, not_mem_nil, false_iff]
    exact not_counted hPos (by omega) w
  | succ fuel ih =>
    rw [visit]
    split
    case isFalse hPast =>
      simp only [not_mem_nil, false_iff]
      exact not_counted hPos (by omega) w
    case isTrue hIn =>
      have hNext : w ∈ visit step last fuel (v + step) ↔ ∃ k : Nat, w = v + (k * step + step) ∧ w ≤ last := by
        rw [ih (v + step) (by omega) (by omega)]
        simp only [Int.add_assoc, Int.add_comm step]
      have hSplit := exists_nat_mul_add (P := fun m => w = v + m ∧ w ≤ last) step
      rw [wrap64_of_lt (by omega) (by omega), mem_cons, hNext, hSplit, Int.add_zero]
      constructor
      · rintro (rfl | hLater)
        · exact .inl ⟨rfl, hIn⟩
        · exact .inr hLater
      · rintro (⟨rfl, -⟩ | hLater)
        · exact .inl rfl
        · exact .inr hLater

/-- With a step near the largest `int`, every second sum overflows and leads back. -/
theorem mem_visit_big (hStep : 2 ^ 63 - 60 ≤ step ∧ step ≤ 2 ^ 63 - 1)
    (hLast : 0 ≤ last ∧ last ≤ 59) (fuel : Nat) (v : Int) (hFuel : v < fuel) (hLow : -120 ≤ v)
    (hHigh : v ≤ last) (w : Int) (hw : 0 ≤ w) :
    w ∈ visit step last fuel v ↔ w = v ∨ ∃ k : Nat,
      w = v - (k + 1) * (2 ^ 64 - 2 * step) ∧ 2 ^ 63 ≤ v - k * (2 ^ 64 - 2 * step) + step := by
  generalize hGap : 2 ^ 64 - 2 * step = gap
  have hStops : ∀ u : Int, u + step < 2 ^ 63 → ¬ ∃ k : Nat,
      w = u - (k + 1) * gap ∧ 2 ^ 63 ≤ u - k * gap + step := by
    rintro u hFits ⟨k, -, hOver⟩
    have hNonneg : 0 ≤ k * gap := Int.mul_nonneg (Int.natCast_nonneg k) (by omega)
    omega
  induction fuel using Nat.twoStepInduction generalizing v with
  | zero =>
    have hNot := hStops v (by omega)
    simp only [visit, not_mem_nil, hNot, or_false, false_iff]
    omega
  | one =>
    rw [or_iff_left (hStops v (by omega)), visit, if_pos hHigh]
    simp [visit]
  | more fuel ih _ =>
    rw [visit, if_pos hHigh, mem_cons]
    by_cases hFits : v + step < 2 ^ 63
    · rw [or_iff_left (hStops v hFits), wrap64_of_lt (by omega) hFits, visit, if_neg (by omega)]
      simp
    · have hNext : w ∈ visit step last fuel (v - gap) ↔ w = v - gap ∨ ∃ k : Nat,
          w = v - gap - (k + 1) * gap ∧ 2 ^ 63 ≤ v - gap - k * gap + step :=
        ih (v - gap) (by omega) (by omega) (by omega)
      rw [wrap64_of_ge (by omega) (by omega), visit, if_pos (by omega), mem_cons,
        show v + step - 2 ^ 64 + step = v - gap by omega, wrap64_of_lt (by omega) (by omega), hNext]
      simp only [Int.add_mul, Int.one_mul]
      constructor
      · rintro (hSame | hNegative | hBack | ⟨k, hk, hOver⟩)
        · exact .inl hSame
        · omega
        · exact .inr ⟨0, by omega, by omega⟩
        · refine .inr ⟨k + 1, ?_, ?_⟩ <;> rw [Int.natCast_succ, Int.add_mul, Int.one_mul] <;> omega
      · rintro (hSame | ⟨k, hk, hOver⟩)
        · exact .inl hSame
        · rcases k with _ | k
          · exact .inr (.inr (.inl (by omega)))
          · rw [Int.natCast_succ, Int.add_mul, Int.one_mul] at hk hOver
            exact .inr (.inr (.inr ⟨k, by omega, by omega⟩))

variable {p : CronPart} {field : CronField}

theorem CronPart.Fits.bounds (hFits : p.Fits field) : 0 ≤ p.first ∧ p.first ≤ p.last ∧ p.last ≤ 59 := by
  have hBounds : 0 ≤ field.bounds.1 ∧ field.bounds.2 ≤ 59 := by cases field <;> decide
  obtain ⟨hLower, hOrdered, hUpper, -⟩ := hFits
  omega

theorem CronPart.mem_values (hFits : p.Fits field)
    (hv : 0 ≤ v) : v ∈ p.values ↔ p.Denotes v ∨ p.Wraps v := by
  obtain ⟨hLower, hOrdered, hUpper⟩ := hFits.bounds
  have hStep := hFits.step
  rw [values, Denotes, Wraps]
  by_cases hSmall : p.last + p.step < 2 ^ 63
  · rw [mem_visit_small hStep.1 hSmall 128 p.first (by omega) (by omega), or_iff_left]
    rintro ⟨k, -, hOver⟩
    have hNonneg : 0 ≤ k * (2 ^ 64 - 2 * p.step) := Int.mul_nonneg (Int.natCast_nonneg k) (by omega)
    omega
  · rw [mem_visit_big ⟨by omega, hStep.2⟩ ⟨by omega, by omega⟩ 128 p.first (by omega) (by omega) hOrdered v hv]
    refine or_congr ?_ Iff.rfl
    constructor
    · rintro rfl
      exact ⟨0, by simp, hOrdered⟩
    · rintro ⟨k, hk, hLast⟩
      rcases k with _ | k
      · simpa using hk
      · have hNonneg : 0 ≤ k * p.step := Int.mul_nonneg (Int.natCast_nonneg k) (by omega)
        rw [Int.natCast_succ, Int.add_mul, Int.one_mul] at hk
        omega

theorem mem_addNew {out values : List Int} : v ∈ addNew out values ↔ v ∈ out ∨ v ∈ values := by
  induction values generalizing out with
  | nil => simp [addNew]
  | cons first rest ih =>
    have hStep : addNew out (first :: rest) = addNew (if first ∈ out then out else out ++ [first]) rest := rfl
    rw [hStep, ih, mem_cons]
    split
    case isTrue hOld =>
      constructor
      · rintro (hOut | hRest)
        · exact .inl hOut
        · exact .inr (.inr hRest)
      · rintro (hOut | rfl | hRest)
        · exact .inl hOut
        · exact .inl hOld
        · exact .inr hRest
    case isFalse => simp [or_assoc]

theorem mem_insertInt : v ∈ insertInt w sorted ↔ v = w ∨ v ∈ sorted := by
  induction sorted with
  | nil => simp [insertInt]
  | cons head rest ih =>
    rw [insertInt]
    split
    case isTrue => simp
    case isFalse => simp [ih, or_left_comm]

theorem mem_sortInts {v : Int} : v ∈ sortInts vals ↔ v ∈ vals := by
  have hFold : ∀ sorted : List Int, v ∈ vals.foldl (fun sorted v => insertInt v sorted) sorted ↔
      v ∈ sorted ∨ v ∈ vals := by
    induction vals with
    | nil => simp
    | cons first rest ih =>
      intro sorted
      rw [foldl_cons, ih, mem_insertInt, mem_cons, or_assoc, or_left_comm]
  rw [sortInts, hFold]
  simp

variable (lex field)

def PartListed (part : List Char) (v : Int) : Prop := PartMeans lex field part v ∨ PartWraps lex field part v

variable {lex field}

theorem parsePart_listed (hParse : parsePart lex field part = .ok p) {v : Int} (hv : 0 ≤ v) :
    v ∈ p.values ↔ PartListed lex field part v := by
  obtain ⟨hFits, -, hReads⟩ := parsePart_spec hParse
  rw [CronPart.mem_values hFits hv, PartListed, PartMeans, PartWraps, CronPart.Denotes, CronPart.Wraps]
  simp only [hReads]
  constructor
  · rintro (hDenotes | hWraps)
    · exact .inl ⟨_, _, _, ⟨rfl, rfl, rfl⟩, hDenotes⟩
    · exact .inr ⟨_, _, _, ⟨rfl, rfl, rfl⟩, hWraps⟩
  · rintro (⟨_, _, _, ⟨rfl, rfl, rfl⟩, hDenotes⟩ | ⟨_, _, _, ⟨rfl, rfl, rfl⟩, hWraps⟩)
    · exact .inl hDenotes
    · exact .inr hWraps

theorem nodup_addNew (hOut : out.Nodup) (vals : List Int) : (addNew out vals).Nodup := by
  induction vals generalizing out with
  | nil => exact hOut
  | cons first rest ih =>
    rw [addNew, foldl_cons, ← addNew]
    split
    case isTrue => exact ih hOut
    case isFalse hNew =>
      refine ih (nodup_append.mpr ⟨hOut, by simp, ?_⟩)
      rintro v hv w hw rfl
      exact hNew (mem_singleton.mp hw ▸ hv)

theorem foldlM_parts (parts : List (List Char)) (out : List Int) (star : Bool)
    {star' : Bool}
    (hFold : parts.foldlM (fun (out, star) part => do
      let p ← parsePart lex field part
      pure (addNew out p.values, star || p.star)) (out, star) = (.ok (out', star') : Result _)) :
    (∀ part ∈ parts, ∃ p, parsePart lex field part = .ok p) ∧
      (∀ v, v ∈ out' ↔ v ∈ out ∨ ∃ part ∈ parts, ∃ p, parsePart lex field part = .ok p ∧ v ∈ p.values) ∧
      (star' = true ↔ star = true ∨ ∃ part ∈ parts, Starred part) ∧ (out.Nodup → out'.Nodup) := by
  induction parts generalizing out star with
  | nil =>
    cases hFold
    simp
  | cons part rest ih =>
    rw [foldlM_cons] at hFold
    obtain ⟨⟨next, nextStar⟩, hPart, hRest⟩ := bind_eq_ok hFold
    obtain ⟨p, hParse, hPure⟩ := bind_eq_ok hPart
    cases hPure
    obtain ⟨hAll, hMem, hStar, hNodup⟩ := ih _ _ hRest
    refine ⟨forall_mem_cons.mpr ⟨⟨p, hParse⟩, hAll⟩, fun v => ?_, ?_, fun hOut => hNodup (nodup_addNew hOut _)⟩
    · rw [hMem v, mem_addNew]
      simp [hParse, or_assoc]
    · rw [hStar, Bool.or_eq_true, (parsePart_spec hParse).2.1]
      simp [or_assoc]

theorem parseCronField_values {star : Bool} (hParse : parseCronField lex field text = .ok (vals, star)) :
    (∀ part ∈ text.splitOn ',', ∃ p, parsePart lex field part = .ok p) ∧
      (∀ v, v ∈ vals ↔ ∃ part ∈ text.splitOn ',', ∃ p, parsePart lex field part = .ok p ∧ v ∈ p.values) ∧
      (star = true ↔ ∃ part ∈ text.splitOn ',', Starred part) ∧
      ∃ out : List Int, out.Nodup ∧ vals = sortInts out := by
  obtain ⟨⟨out, star'⟩, hFold, hRest⟩ := bind_eq_ok hParse
  obtain ⟨hAll, hMem, hStar, hNodup⟩ := foldlM_parts _ _ _ hFold
  dsimp only at hRest
  split at hRest
  case isTrue => cases hRest
  case isFalse =>
    cases hRest
    exact ⟨hAll, fun v => by simp [mem_sortInts, hMem], by simp [hStar], out, hNodup nodup_nil, rfl⟩

theorem parseCronField_spec {star : Bool} (hParse : parseCronField lex field text = .ok (vals, star)) :
    (∀ v, 0 ≤ v → (v ∈ vals ↔ ∃ part ∈ text.splitOn ',', PartListed lex field part v)) ∧
      (star = true ↔ ∃ part ∈ text.splitOn ',', Starred part) := by
  obtain ⟨hAll, hMem, hStar, -⟩ := parseCronField_values hParse
  refine ⟨fun v hv => ?_, hStar⟩
  rw [hMem]
  refine exists_congr fun part => and_congr_right fun hPart => ?_
  obtain ⟨p, hPart⟩ := hAll part hPart
  simp [hPart, parsePart_listed hPart hv]

variable (lex field)

def PartAccepted (part : List Char) : Prop :=
  ∃ a b s, PartReads lex field part a b s ∧ field.bounds.1 ≤ a ∧ a ≤ b ∧ b ≤ field.bounds.2

def FieldAccepted (text : List Char) : Prop := ∀ part ∈ text.splitOn ',', PartAccepted lex field part

variable {lex field}

theorem parsePart_ok_iff : (∃ p, parsePart lex field part = .ok p) ↔ PartAccepted lex field part := by
  constructor
  · rintro ⟨p, hParse⟩
    obtain ⟨hFits, -, hReads⟩ := parsePart_spec hParse
    exact ⟨_, _, _, (hReads _ _ _).mpr ⟨rfl, rfl, rfl⟩, hFits.lower, hFits.ordered, hFits.upper⟩
  · rintro ⟨a, b, s, hReads, hLower, hOrdered, hUpper⟩
    obtain ⟨hStep, hMeans⟩ := partReads_iff.mp hReads
    have hIn : ¬ (a < field.bounds.1 ∨ b > field.bounds.2 ∨ a > b) := by omega
    refine ⟨⟨decide (part.takeWhile (· ≠ '/') = ['*'] ∨ part.takeWhile (· ≠ '/') = []), a, b, s⟩, ?_⟩
    simp only [parsePart, hStep, hMeans.parseRange, bind, Except.bind, if_neg hIn]

theorem foldlM_parts_ok_iff (parts : List (List Char)) (out : List Int) (star : Bool) :
    (∃ result, parts.foldlM (fun (out, star) part => do
      let p ← parsePart lex field part
      pure (addNew out p.values, star || p.star)) (out, star) = (.ok result : Result _)) ↔
      ∀ part ∈ parts, PartAccepted lex field part := by
  simp only [← parsePart_ok_iff]
  refine ⟨fun ⟨_, hFold⟩ => (foldlM_parts _ _ _ hFold).1, fun hAll => ?_⟩
  induction parts generalizing out star with
  | nil => exact ⟨(out, star), rfl⟩
  | cons part rest ih =>
    obtain ⟨⟨p, hParse⟩, hRest⟩ := forall_mem_cons.mp hAll
    obtain ⟨result, hFold⟩ := ih (addNew out p.values) (star || p.star) hRest
    refine ⟨result, ?_⟩
    rw [foldlM_cons, hParse]
    exact hFold

theorem parseCronField_ok_iff {text : List Char} :
    (∃ vals, parseCronField lex field text = .ok vals) ↔ FieldAccepted lex field text := by
  rw [FieldAccepted, ← foldlM_parts_ok_iff _ [] false]
  constructor
  · rintro ⟨vals, hParse⟩
    obtain ⟨result, hFold, -⟩ := bind_eq_ok hParse
    exact ⟨result, hFold⟩
  · rintro ⟨⟨out, star⟩, hFold⟩
    have hSome : out ≠ [] := by
      obtain ⟨part, hPart⟩ := exists_mem_of_ne_nil _ (splitOn_ne_nil ',' text)
      obtain ⟨hAll, hMem, -⟩ := foldlM_parts _ _ _ hFold
      obtain ⟨p, hParse⟩ := hAll part hPart
      have hFits := (parsePart_spec hParse).1
      have hFirst : p.first ∈ p.values :=
        (CronPart.mem_values hFits hFits.bounds.1).mpr (.inl ⟨0, by simp, hFits.ordered⟩)
      exact ne_nil_of_mem ((hMem p.first).mpr (.inr ⟨part, hPart, p, hParse, hFirst⟩))
    refine ⟨(sortInts out, star), ?_⟩
    rw [parseCronField, hFold]
    exact if_neg hSome

structure UtcMinute where
  (year month day hour minute : Int)
  isDate : Gregorian.IsDate year month day
  inDay : 0 ≤ hour ∧ hour ≤ 23
  inHour : 0 ≤ minute ∧ minute ≤ 59

namespace UtcMinute
variable (u : UtcMinute)

def number : Int := Gregorian.dayNumber u.year u.month u.day

def weekday : Int := Gregorian.weekday u.number

def seconds : Int := midnight u.number + u.hour * 3600 + u.minute * 60

theorem civil_seconds :
    (utc.civil u.seconds).month = u.month ∧ (utc.civil u.seconds).day = u.day ∧
      (utc.civil u.seconds).weekday = u.weekday := by
  have hNumber : u.seconds / 86400 = u.number := by
    have hHour := u.inDay
    have hMinute := u.inHour
    simp only [seconds, midnight]
    omega
  obtain ⟨hDate, hSame⟩ := Time.civil_spec u.number
  obtain ⟨-, hMonth, hDay⟩ := hDate.unique u.isDate hSame
  simp only [utc, utcCivil, hNumber]
  exact ⟨hMonth, hDay, rfl⟩

theorem weekday_bounds : 0 ≤ u.weekday ∧ u.weekday ≤ 6 := by
  simp only [weekday, Gregorian.weekday]
  omega

end UtcMinute

/-- The lists have the minute, as `NextAfter` looks it up. -/
def CronExpr.Matches (e : CronExpr) (u : UtcMinute) : Prop :=
  u.minute ∈ e.minute ∧ u.hour ∈ e.hour ∧ e.dayMatches (utc.civil u.seconds) = true

def DayRule (domFree dowFree domHit dowHit : Prop) : Prop :=
  (domFree ∧ dowFree) ∨ (¬ domFree ∧ domHit) ∨ (¬ dowFree ∧ dowHit)

structure CronTexts where
  (minute hour dom month dow : List Char)

def cronTexts (spec : List Char) : Option CronTexts :=
  match splitFields (trimSpace (String.ofList spec)).toList with
  | [minute, hour, dom, month, dow] => some ⟨minute, hour, dom, month, dow⟩
  | _ => none

variable (lex field)

def FieldListed (text : List Char) (v : Int) : Prop := ∃ part ∈ text.splitOn ',', PartListed lex field part v

variable {field}

def orSeventh (P : Int → Prop) (weekday : Int) : Prop := P weekday ∨ weekday = 0 ∧ P 7

def HasStar (text : List Char) : Prop := ∃ part ∈ text.splitOn ',', Starred part

namespace CronTexts
variable (t : CronTexts) (u : UtcMinute)

def TimeMeans : Prop :=
  FieldMeans lex .minute t.minute u.minute ∧ FieldMeans lex .hour t.hour u.hour ∧
    FieldMeans lex .month t.month u.month

def DayMeans : Prop :=
  DayRule (t.dom = ['*']) (t.dow = ['*']) (FieldMeans lex .dom t.dom u.day)
    (orSeventh (FieldMeans lex .dow t.dow) u.weekday)

def Means : Prop := t.TimeMeans lex u ∧ t.DayMeans lex u

def TimeListed : Prop :=
  FieldListed lex .minute t.minute u.minute ∧ FieldListed lex .hour t.hour u.hour ∧
    FieldListed lex .month t.month u.month

def DayListed : Prop :=
  DayRule (HasStar t.dom) (HasStar t.dow) (FieldListed lex .dom t.dom u.day)
    (orSeventh (FieldListed lex .dow t.dow) u.weekday)

end CronTexts

variable {lex}

variable {spec : List Char}

theorem inField_eq_ok {number : Nat} {α : Type} {x : Result α} {value : α} :
    inField lex number spec x = .ok value ↔ x = .ok value := by
  cases x with
  | error err => simp [inField]
  | ok found => rfl

theorem mem_map_seventh {w : Int} (hw : 0 ≤ w ∧ w ≤ 6) :
    w ∈ vals.map (fun v => if v = 7 then 0 else v) ↔ orSeventh (· ∈ vals) w := by
  simp only [mem_map, orSeventh]
  constructor
  · rintro ⟨v, hv, rfl⟩
    split
    case isTrue hSeven => exact .inr ⟨rfl, hSeven ▸ hv⟩
    case isFalse => exact .inl hv
  · rintro (hMem | ⟨rfl, hSeven⟩)
    · exact ⟨w, hMem, if_neg (by omega)⟩
    · exact ⟨7, hSeven, if_pos rfl⟩

theorem dayMatches_eq_dayRule (e : CronExpr) (day : Civil) {domStar dowStar : Bool} (hDom : e.dom = if domStar then none else some doms)
    (hDow : e.dow = if dowStar then none else some dows) :
    e.dayMatches day = true ↔ day.month ∈ e.month ∧
      DayRule (domStar = true) (dowStar = true) (day.day ∈ doms) (day.weekday ∈ dows) := by
  rw [CronExpr.dayMatches_iff, CronExpr.DayListed, hDom, hDow, DayRule]
  cases domStar <;> cases dowStar <;> simp

theorem parseCron_matches {e : CronExpr} (hParse : parseCron lex spec = .ok e) :
    ∃ t, cronTexts spec = some t ∧ ∀ u, e.Matches u ↔ t.TimeListed lex u ∧ t.DayListed lex u := by
  unfold parseCron at hParse
  split at hParse
  case h_2 => cases hParse
  case h_1 minute hour dom month dow hFields =>
    have hTexts : cronTexts spec = some ⟨minute, hour, dom, month, dow⟩ := by rw [cronTexts, hFields]
    refine ⟨⟨minute, hour, dom, month, dow⟩, hTexts, fun u => ?_⟩
    obtain ⟨⟨minutes, _⟩, hMinute, hParse⟩ := bind_eq_ok hParse
    obtain ⟨⟨hours, _⟩, hHour, hParse⟩ := bind_eq_ok hParse
    obtain ⟨⟨doms, domStar⟩, hDom, hParse⟩ := bind_eq_ok hParse
    obtain ⟨⟨months, _⟩, hMonth, hParse⟩ := bind_eq_ok hParse
    obtain ⟨⟨dows, dowStar⟩, hDow, hParse⟩ := bind_eq_ok hParse
    have hMinutes := (parseCronField_spec (inField_eq_ok.mp hMinute)).1 u.minute u.inHour.1
    have hHours := (parseCronField_spec (inField_eq_ok.mp hHour)).1 u.hour u.inDay.1
    have hDoms := parseCronField_spec (inField_eq_ok.mp hDom)
    have hMonths := (parseCronField_spec (inField_eq_ok.mp hMonth)).1 u.month (by
      have := u.isDate.inYear
      omega)
    have hDows := parseCronField_spec (inField_eq_ok.mp hDow)
    obtain ⟨hCivilMonth, hCivilDay, hCivilWeekday⟩ := u.civil_seconds
    cases hParse
    rw [CronExpr.Matches, dayMatches_eq_dayRule _ _ rfl rfl, hCivilMonth, hCivilDay, hCivilWeekday]
    have hDay := u.isDate.inMonth.1
    have hWeekday := u.weekday_bounds.1
    dsimp only
    rw [mem_map_seventh u.weekday_bounds, orSeventh, hMinutes, hHours, hMonths, hDoms.2, hDows.2,
      hDoms.1 u.day (by omega), hDows.1 u.weekday hWeekday, hDows.1 7 (by decide)]
    simp only [CronTexts.TimeListed, and_assoc]
    rfl

def CronTexts.fields (t : CronTexts) : List (CronField × List Char) :=
  [(.minute, t.minute), (.hour, t.hour), (.dom, t.dom), (.month, t.month), (.dow, t.dow)]

def CronAccepted (lex : Lexicon) (spec : List Char) : Prop :=
  ∃ t, cronTexts spec = some t ∧ ∀ entry ∈ t.fields, FieldAccepted lex entry.1 entry.2

theorem parseCron_ok_iff : (∃ e, parseCron lex spec = .ok e) ↔ CronAccepted lex spec := by
  simp only [CronAccepted, CronTexts.fields, forall_mem_cons, ← parseCronField_ok_iff]
  unfold parseCron cronTexts
  generalize splitFields (trimSpace (String.ofList spec)).toList = texts
  split
  case h_2 => simp
  case h_1 minute hour dom month dow =>
    constructor
    · rintro ⟨e, hParse⟩
      obtain ⟨minutes, hMinute, hParse⟩ := bind_eq_ok hParse
      obtain ⟨hours, hHour, hParse⟩ := bind_eq_ok hParse
      obtain ⟨doms, hDom, hParse⟩ := bind_eq_ok hParse
      obtain ⟨months, hMonth, hParse⟩ := bind_eq_ok hParse
      obtain ⟨dows, hDow, -⟩ := bind_eq_ok hParse
      exact ⟨_, rfl, ⟨_, inField_eq_ok.mp hMinute⟩, ⟨_, inField_eq_ok.mp hHour⟩,
        ⟨_, inField_eq_ok.mp hDom⟩, ⟨_, inField_eq_ok.mp hMonth⟩, ⟨_, inField_eq_ok.mp hDow⟩, by simp⟩
    · rintro ⟨t, hTexts, ⟨minutes, hMinute⟩, ⟨hours, hHour⟩, ⟨doms, hDom⟩, ⟨months, hMonth⟩, ⟨dows, hDow⟩, -⟩
      obtain rfl := Option.some.inj hTexts
      simp only [hMinute, hHour, hDom, hMonth, hDow, inField, bind, Except.bind]
      exact ⟨_, rfl⟩

theorem hasStar_bare : HasStar ['*'] := ⟨['*'], by decide, .inl (by decide)⟩

/-- No first value plus the step leaves the `int`s. -/
def StepsFit (lex : Lexicon) (field : CronField) (text : List Char) : Prop :=
  ∀ part ∈ text.splitOn ',', ∀ a b s, PartReads lex field part a b s → a + s < 2 ^ 63

theorem StepsFit.listed_iff {text : List Char} (hFit : StepsFit lex field text) (v : Int) :
    FieldListed lex field text v ↔ FieldMeans lex field text v := by
  refine exists_congr fun part => and_congr_right fun hPart => or_iff_left ?_
  rintro ⟨a, b, s, hReads, k, -, hOver⟩
  have hSmall := hFit part hPart a b s hReads
  have hStep := parseStep_bounds (partReads_iff.mp hReads).1
  have hNonneg : 0 ≤ k * (2 ^ 64 - 2 * s) := Int.mul_nonneg (Int.natCast_nonneg k) (by omega)
  omega

/-- The texts in which a day field has a star only if it is the bare star. -/
structure CronTexts.Plain (lex : Lexicon) (t : CronTexts) : Prop where
  dom : HasStar t.dom → t.dom = ['*']
  dow : HasStar t.dow → t.dow = ['*']
  steps : ∀ entry ∈ t.fields, StepsFit lex entry.1 entry.2

namespace Sample

def lexicon : Lexicon := ⟨Char.toUpper, String.ofList, fun _ _ => rfl⟩

def texts : CronTexts := ⟨['0'], ['1', '2'], ['*', '/', '2'], ['*'], ['*']⟩

def expr : CronExpr := ⟨[0], [12], none, [1, 2, 3, 4, 5, 6, 7, 8, 9, 10, 11, 12], none⟩

def evenDay : UtcMinute where
  year := 2024
  month := 1
  day := 2
  hour := 12
  minute := 0
  isDate := ⟨by decide, by decide⟩
  inDay := by decide
  inHour := by decide

def oddDays : List Char := "0 12 1-31/2 * MON,7".toList

def oddTexts : CronTexts := ⟨['0'], ['1', '2'], "1-31/2".toList, ['*'], "MON,7".toList⟩

def oddExpr : CronExpr :=
  ⟨[0], [12], some [1, 3, 5, 7, 9, 11, 13, 15, 17, 19, 21, 23, 25, 27, 29, 31],
    [1, 2, 3, 4, 5, 6, 7, 8, 9, 10, 11, 12], some [1, 0]⟩

theorem stepsFit_of_parts {field : CronField} {text : List Char}
    (hParts : ∀ part ∈ text.splitOn ',', (parsePart lexicon field part).toOption.any
      (fun p => p.first + p.step < 2 ^ 63) = true) : StepsFit lexicon field text := by
  intro part hPart a b s hReads
  have hSmall := hParts part hPart
  cases hParse : (parsePart lexicon field part).toOption with
  | none => simp [hParse] at hSmall
  | some p =>
    obtain ⟨rfl, -, rfl⟩ := ((parsePart_spec (eq_ok_of_toOption hParse)).2.2 a b s).mp hReads
    simpa [hParse] using hSmall

theorem oddTexts_plain : oddTexts.Plain lexicon := by
  have hSteps : ∀ entry ∈ oddTexts.fields, ∀ part ∈ entry.2.splitOn ',',
      (parsePart lexicon entry.1 part).toOption.any (fun p => p.first + p.step < 2 ^ 63) = true := by
    decide +kernel
  refine ⟨?_, ?_, fun entry hIn => stepsFit_of_parts (hSteps entry hIn)⟩
  · unfold HasStar Starred
    decide
  · unfold HasStar Starred
    decide

end Sample

end DBVault.Scheduling
