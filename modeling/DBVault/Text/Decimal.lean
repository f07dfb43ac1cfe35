import Mathlib.Algebra.Group.Nat.Defs
import Mathlib.Data.Char
import Mathlib.Data.List.Basic
import Mathlib.Order.Basic

/-! Decimal numerals of a fixed width, and the order of texts that consist of them. -/
namespace Text
open List

theorem append_lt_append_iff {α : Type} [LT α] {xs ys us vs : List α} (hLength : xs.length = ys.length) :
    xs ++ us < ys ++ vs ↔ xs < ys ∨ xs = ys ∧ us < vs := by
  induction xs generalizing ys with
  | nil =>
    obtain rfl := length_eq_zero_iff.mp hLength.symm
    simp
  | cons x xs ih =>
    obtain ⟨y, ys, rfl⟩ := exists_cons_of_length_eq_add_one hLength.symm
    simp only [cons_append, cons_lt_cons_iff, ih (by simpa using hLength), List.cons.injEq]
    tauto

def places : Nat → Nat → List Char
  | 0, _ => []
  | width + 1, n => places width (n / 10) ++ [Nat.digitChar (n % 10)]

@[simp] theorem length_places (width n : Nat) : (places width n).length = width := by
  induction width generalizing n with
  | zero => rfl
  | succ width ih => simp [places, ih]

theorem places_zero (width : Nat) : places width 0 = List.replicate width '0' := by
  induction width with
  | zero => rfl
  | succ width ih => rw [places, Nat.zero_div, ih, replicate_succ']; rfl

theorem digitChar_lt_iff (ha : a < 10) (hb : b < 10) : a.digitChar < b.digitChar ↔ a < b := by
  rw [Char.lt_def, UInt32.lt_iff_toNat_lt]
  change a.digitChar.toNat < b.digitChar.toNat ↔ a < b
  rw [Nat.toNat_digitChar_of_lt_ten ha, Nat.toNat_digitChar_of_lt_ten hb]
  omega

theorem digitChar_inj (ha : a < 10) (hb : b < 10) (hSame : a.digitChar = b.digitChar) : a = b := by
  have hCode := congrArg Char.toNat hSame
  rw [Nat.toNat_digitChar_of_lt_ten ha, Nat.toNat_digitChar_of_lt_ten hb] at hCode
  omega

variable {m : Nat}

theorem places_inj (hm : m < 10 ^ width) (hn : n < 10 ^ width) : places width m = places width n ↔ m = n := by
  induction width generalizing m n with
  | zero => simp [Nat.lt_one_iff.mp hm, Nat.lt_one_iff.mp hn]
  | succ width ih =>
    rw [Nat.pow_succ] at hm hn
    constructor
    · intro hSame
      obtain ⟨hFront, hLast⟩ := append_inj' hSame rfl
      have hQuotient := (ih (by omega) (by omega)).mp hFront
      have hDigit := digitChar_inj (Nat.mod_lt _ (by decide)) (Nat.mod_lt _ (by decide)) (singleton_inj.mp hLast)
      omega
    · rintro rfl
      rfl

theorem places_lt_iff (hm : m < 10 ^ width) (hn : n < 10 ^ width) : places width m < places width n ↔ m < n := by
  induction width generalizing m n with
  | zero => simp [Nat.lt_one_iff.mp hm, Nat.lt_one_iff.mp hn]
  | succ width ih =>
    have hm' : m / 10 < 10 ^ width := by rw [Nat.pow_succ] at hm; omega
    have hn' : n / 10 < 10 ^ width := by rw [Nat.pow_succ] at hn; omega
    rw [places, places, append_lt_append_iff (by simp), ih hm' hn', places_inj hm' hn',
      cons_lt_cons_iff,
      digitChar_lt_iff (Nat.mod_lt _ (by decide)) (Nat.mod_lt _ (by decide))]
    simp only [List.lt_irrefl, and_false, or_false]
    omega

theorem places_cons_lt_iff (hm : m < 10 ^ width) (hn : n < 10 ^ width)
    {separator : Char} {xs ys : List Char} :
    places width m ++ separator :: xs < places width n ++ separator :: ys ↔ m < n ∨ m = n ∧ xs < ys := by
  rw [append_lt_append_iff (by simp), places_lt_iff hm hn, places_inj hm hn, cons_lt_cons_self]

def significant : Nat → Nat → List Char
  | 0, _ => []
  | width + 1, n => if n = 0 then [] else Nat.digitChar (n / 10 ^ width) :: significant width (n % 10 ^ width)

theorem places_succ_left (hn : n < 10 ^ (width + 1)) :
    places (width + 1) n = Nat.digitChar (n / 10 ^ width) :: places width (n % 10 ^ width) := by
  induction width generalizing n with
  | zero =>
    have hDigit : n < 10 := by simpa using hn
    simp [places, Nat.mod_eq_of_lt hDigit]
  | succ width ih =>
    have hQuotient : n / 10 < 10 ^ (width + 1) := by
      rw [Nat.pow_succ] at hn
      omega
    have hFirst : n / 10 / 10 ^ width = n / 10 ^ (width + 1) := by
      rw [Nat.div_div_eq_div_mul, Nat.pow_succ, Nat.mul_comm]
    have hMiddle : n / 10 % 10 ^ width = n % 10 ^ (width + 1) / 10 := by
      rw [Nat.pow_succ, Nat.mul_comm, Nat.mod_mul_right_div_self]
    have hLast : n % 10 ^ (width + 1) % 10 = n % 10 :=
      Nat.mod_mod_of_dvd n ⟨10 ^ width, by rw [Nat.pow_succ, Nat.mul_comm]⟩
    rw [places, ih hQuotient, hFirst, hMiddle, cons_append]
    conv_rhs => rw [places, hLast]

theorem places_eq_significant (hn : n < 10 ^ width) :
    ∃ k, places width n = significant width n ++ List.replicate k '0' := by
  induction width generalizing n with
  | zero => exact ⟨0, rfl⟩
  | succ width ih =>
    rw [significant]
    split
    · rename_i hZero
      exact ⟨width + 1, by rw [hZero, places_zero]; rfl⟩
    · obtain ⟨k, hk⟩ := ih (Nat.mod_lt n (Nat.pow_pos (by decide)))
      exact ⟨k, by rw [places_succ_left hn, hk]; rfl⟩

theorem significant_eq_nil (hn : n < 10 ^ width) : significant width n = [] ↔ n = 0 := by
  cases width with
  | zero => simpa [significant] using hn
  | succ width => simp [significant]

theorem ne_zero_of_getLast? (hn : n < 10 ^ width) {c : Char}
    (hc : c ∈ (significant width n).getLast?) : c ≠ '0' := by
  induction width generalizing n with
  | zero => simp [significant] at hc
  | succ width ih =>
    have hPos : 0 < 10 ^ width := Nat.pow_pos (by decide)
    rw [significant] at hc
    split at hc
    · simp at hc
    · rename_i hNonzero
      rw [getLast?_cons] at hc
      cases hLast : (significant width (n % 10 ^ width)).getLast? with
      | some last =>
        rw [hLast] at hc
        cases hc
        exact ih (Nat.mod_lt n hPos) hLast
      | none =>
        rw [hLast] at hc
        cases hc
        have hRest := (significant_eq_nil (Nat.mod_lt n hPos)).mp (getLast?_eq_none_iff.mp hLast)
        have hSplit := Nat.div_add_mod n (10 ^ width)
        intro hZero
        rw [Option.getD_none, Nat.digitChar_eq_zero] at hZero
        rw [hZero, hRest] at hSplit
        omega

def Cut (width earlier later : Nat) : Prop := earlier ≠ later ∧ ∃ k ≤ width, earlier = later - later % 10 ^ k

theorem Cut.lt (hCut : Cut width m n) : m < n := by
  obtain ⟨hNe, k, -, rfl⟩ := hCut
  omega

theorem cut_zero (hn : n < 10 ^ width) (hPos : n ≠ 0) : Cut width 0 n :=
  ⟨hPos.symm, width, Nat.le_refl _, by rw [Nat.mod_eq_of_lt hn, Nat.sub_self]⟩

theorem cut_succ (hm : m ≠ 0) (hn : n < 10 ^ (width + 1)) :
    Cut (width + 1) m n ↔ m / 10 ^ width = n / 10 ^ width ∧ Cut width (m % 10 ^ width) (n % 10 ^ width) := by
  have hPos : 0 < 10 ^ width := Nat.pow_pos (by decide)
  have hSplitM := Nat.div_add_mod m (10 ^ width)
  have hSplitN := Nat.div_add_mod n (10 ^ width)
  have hMod {k : Nat} (hk : k ≤ width) : n % 10 ^ width % 10 ^ k = n % 10 ^ k :=
    Nat.mod_mod_of_dvd n (Nat.pow_dvd_pow 10 hk)
  constructor
  · rintro ⟨hNe, k, hk, hCut⟩
    have hSmall : k ≤ width := by
      by_contra hFull
      obtain rfl : k = width + 1 := by omega
      rw [Nat.mod_eq_of_lt hn, Nat.sub_self] at hCut
      exact hm hCut
    have hLess : n % 10 ^ k ≤ n % 10 ^ width := hMod hSmall ▸ Nat.mod_le _ _
    have hRest : n % 10 ^ width < 10 ^ width := Nat.mod_lt _ hPos
    have hQuotient : m / 10 ^ width = n / 10 ^ width := by
      rw [hCut, Nat.div_eq_iff hPos]
      rw [Nat.mul_comm] at hSplitN
      omega
    have hRemainder : m % 10 ^ width = n % 10 ^ width - n % 10 ^ k := by
      rw [hQuotient] at hSplitM
      omega
    refine ⟨hQuotient, fun hSame => hNe ?_, k, hSmall, by rw [hMod hSmall, hRemainder]⟩
    rw [← hSplitM, ← hSplitN, hQuotient, hSame]
  · rintro ⟨hQuotient, hNe, k, hk, hCut⟩
    refine ⟨fun hSame => hNe (by rw [hSame]), k, by omega, ?_⟩
    rw [hMod hk] at hCut
    have hLess : n % 10 ^ k ≤ n % 10 ^ width := hMod hk ▸ Nat.mod_le _ _
    rw [hQuotient, hCut] at hSplitM
    omega

variable {sign : Char}

theorem digitChar_lt_sign (hSign : '9' < sign) (hd : d < 10) : d.digitChar < sign := by
  rw [Char.lt_def, UInt32.lt_iff_toNat_lt] at hSign ⊢
  change d.digitChar.toNat < sign.toNat
  change '9'.toNat < sign.toNat at hSign
  rw [Nat.toNat_digitChar_of_lt_ten hd]
  have hNine : '9'.toNat = 57 := rfl
  omega

theorem lt_iff_div_mod (m n width : Nat) : m < n ↔ m / 10 ^ width < n / 10 ^ width ∨
    m / 10 ^ width = n / 10 ^ width ∧ m % 10 ^ width < n % 10 ^ width := by
  have hPos : 0 < 10 ^ width := Nat.pow_pos (by decide)
  constructor
  · intro hLess
    rcases Nat.lt_or_eq_of_le (Nat.div_le_div_right hLess.le) with hQuotient | hQuotient
    · exact .inl hQuotient
    · have hSplitM := Nat.div_add_mod m (10 ^ width)
      have hSplitN := Nat.div_add_mod n (10 ^ width)
      rw [hQuotient] at hSplitM
      exact .inr ⟨hQuotient, by omega⟩
  · rintro (hQuotient | ⟨hQuotient, hRest⟩)
    · exact Nat.lt_of_div_lt_div hQuotient
    · rw [← Nat.div_add_mod m (10 ^ width), ← Nat.div_add_mod n (10 ^ width), hQuotient]
      omega

/-- Numerals that end after their last place that is not zero, before a sign that comes after all
digits: they are ordered as their numbers, except that one that goes on where another ends comes
before it. -/
theorem significant_lt_iff (hSign : '9' < sign) (hm : m < 10 ^ width)
    (hn : n < 10 ^ width) : significant width m ++ [sign] < significant width n ++ [sign] ↔
      (m < n ∧ ¬ Cut width m n) ∨ Cut width n m := by
  induction width generalizing m n with
  | zero =>
    obtain rfl : m = n := by simp at hm hn; omega
    simp [significant, Cut]
  | succ width ih =>
    have hPos : 0 < 10 ^ width := Nat.pow_pos (by decide)
    have hTop {k : Nat} (hk : k < 10 ^ (width + 1)) : k / 10 ^ width < 10 :=
      Nat.div_lt_of_lt_mul (by rwa [Nat.pow_succ] at hk)
    rw [significant, significant]
    by_cases hm0 : m = 0
    · subst hm0
      by_cases hn0 : n = 0
      · simp [hn0, Cut]
      · have hLess := digitChar_lt_sign hSign (hTop hn)
        have hCut := cut_zero hn hn0
        have hNotCut : ¬ Cut (width + 1) n 0 := fun h => absurd h.lt (by omega)
        simp [hn0, cons_lt_cons_iff, hLess.le, hLess.ne', hCut, hNotCut]
    · by_cases hn0 : n = 0
      · subst hn0
        have hLess := digitChar_lt_sign hSign (hTop hm)
        simp [hm0, cons_lt_cons_iff, hLess, cut_zero hm hm0]
      · have hSame : (m / 10 ^ width).digitChar = (n / 10 ^ width).digitChar ↔ m / 10 ^ width = n / 10 ^ width :=
          ⟨digitChar_inj (hTop hm) (hTop hn), fun h => by rw [h]⟩
        rw [if_neg hm0, if_neg hn0, cons_append, cons_append, cons_lt_cons_iff,
          digitChar_lt_iff (hTop hm) (hTop hn), hSame, ih (Nat.mod_lt _ hPos) (Nat.mod_lt _ hPos),
          cut_succ hm0 hn, cut_succ hn0 hm, lt_iff_div_mod m n width]
        by_cases hQuotient : m / 10 ^ width = n / 10 ^ width
        · simp [hQuotient]
        · simp [hQuotient, Ne.symm hQuotient]

theorem marked_lt_iff {mark : Char} (hMark : mark < sign) (hSign : '9' < sign)
    (hm : m < 10 ^ width) (hn : n < 10 ^ width) :
    (if m = 0 then [] else mark :: significant width m) ++ [sign] <
        (if n = 0 then [] else mark :: significant width n) ++ [sign] ↔
      (m < n ∧ ¬ Cut width m n) ∨ Cut width n m := by
  by_cases hm0 : m = 0
  · subst hm0
    by_cases hn0 : n = 0
    · simp [hn0, Cut]
    · have hNotCut : ¬ Cut width n 0 := fun h => absurd h.lt (by omega)
      simp [hn0, cons_lt_cons_iff, hMark.le, hMark.ne', cut_zero hn hn0, hNotCut]
  · by_cases hn0 : n = 0
    · subst hn0
      simp [hm0, cons_lt_cons_iff, hMark, cut_zero hm hm0]
    · rw [if_neg hm0, if_neg hn0, cons_append, cons_append, cons_lt_cons_self, significant_lt_iff hSign hm hn]

end Text
