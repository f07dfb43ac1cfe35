import Mathlib.Data.List.Forall2
import Mathlib.Data.Nat.Log

/-! Combining a list level by level: neighbours are joined, and an odd last
element moves up as it is. The lemmas are about any operation that joins. -/
namespace Pairing
open List

variable {T S β : Type}

def pairUp (join : T → T → T) : List T → List T
  | left :: right :: rest => join left right :: pairUp join rest
  | level => level

def climb (join : T → T → T) : Nat → List T → List T
  | 0, level => level
  | fuel + 1, level => if level.length > 1 then climb join fuel (pairUp join level) else level

variable {join : T → T → T}

@[simp] theorem length_pairUp (level : List T) : (pairUp join level).length = (level.length + 1) / 2 := by
  fun_induction pairUp join level with
  | case1 left right rest ih =>
    simp only [length_cons, ih]
    omega
  | case2 level hShort =>
    rcases level with _ | ⟨first, _ | ⟨second, rest⟩⟩
    · simp
    · simp
    · exact absurd rfl (hShort first second rest)

theorem climb_singleton {fuel : Nat} (hNe : level ≠ [])
    (hFuel : level.length ≤ fuel + 1) : ∃ root, climb join fuel level = [root] := by
  have hPos : 0 < level.length := length_pos_iff.mpr hNe
  induction fuel generalizing level with
  | zero =>
    have hOne : level.length = 1 := by omega
    exact length_eq_one_iff.mp hOne
  | succ fuel ih =>
    rw [climb]
    split
    · have hLength : (pairUp join level).length = (level.length + 1) / 2 := length_pairUp level
      have hPos' : 0 < (pairUp join level).length := by omega
      exact ih (length_pos_iff.mp hPos') (by omega) hPos'
    · exact length_eq_one_iff.mp (by omega)

variable {level : List T}

theorem mem_pairUp {x : T} (h : x ∈ pairUp join level) :
    x ∈ level ∨ ∃ a ∈ level, ∃ b ∈ level, x = join a b := by
  fun_induction pairUp join level with
  | case1 left right rest ih =>
    rcases mem_cons.mp h with rfl | h
    · exact .inr ⟨left, by simp, right, by simp, rfl⟩
    · rcases ih h with hMem | ⟨a, ha, b, hb, hx⟩
      · exact .inl (by simp [hMem])
      · exact .inr ⟨a, by simp [ha], b, by simp [hb], hx⟩
  | case2 level hShort => exact .inl h

variable {good : T → Prop}

theorem forall_pairUp (hJoin : ∀ a b, good a → good b → good (join a b)) (h : ∀ x ∈ level, good x) : ∀ x ∈ pairUp join level, good x := by
  intro x hx
  rcases mem_pairUp hx with hMem | ⟨a, ha, b, hb, rfl⟩
  · exact h x hMem
  · exact hJoin a b (h a ha) (h b hb)

theorem forall_climb (hJoin : ∀ a b, good a → good b → good (join a b)) (fuel : Nat) (h : ∀ x ∈ level, good x) : ∀ x ∈ climb join fuel level, good x := by
  induction fuel generalizing level with
  | zero => exact h
  | succ fuel ih =>
    rw [climb]
    split
    · exact ih (forall_pairUp hJoin h)
    · exact h

theorem pairUp_related (hJoin : ∀ a b a' b', related a a' → related b b' → related (join a b) (join' a' b'))
    (h : List.Forall₂ related level level') :
    List.Forall₂ related (pairUp join level) (pairUp join' level') := by
  fun_induction pairUp join level generalizing level' with
  | case1 left right rest ih =>
    obtain _ | ⟨hLeft, _ | ⟨hRight, hRest⟩⟩ := h
    exact .cons (hJoin _ _ _ _ hLeft hRight) (ih hRest)
  | case2 level hShort =>
    obtain _ | ⟨hFirst, _ | ⟨hSecond, hRest⟩⟩ := h
    · exact .nil
    · exact .cons hFirst .nil
    · exact absurd rfl (hShort _ _ _)

theorem climb_related (hJoin : ∀ a b a' b', related a a' → related b b' → related (join a b) (join' a' b'))
    (fuel : Nat) (h : List.Forall₂ related level level') :
    List.Forall₂ related (climb join fuel level) (climb join' fuel level') := by
  induction fuel generalizing level level' with
  | zero => exact h
  | succ fuel ih =>
    rw [climb, climb, h.length_eq]
    split
    · exact ih (pairUp_related hJoin h)
    · exact h

variable {read : T → List β}

theorem pairUp_flatMap (hJoin : ∀ a b, read (join a b) = read a ++ read b)
    (level : List T) : (pairUp join level).flatMap read = level.flatMap read := by
  fun_induction pairUp join level with
  | case1 left right rest ih => simp [flatMap_cons, hJoin, ih]
  | case2 level hShort => rfl

theorem climb_flatMap (hJoin : ∀ a b, read (join a b) = read a ++ read b)
    (fuel : Nat) (level : List T) : (climb join fuel level).flatMap read = level.flatMap read := by
  induction fuel generalizing level with
  | zero => rfl
  | succ fuel ih =>
    rw [climb]
    split
    · rw [ih, pairUp_flatMap hJoin]
    · rfl

theorem climb_height {height : T → Nat} (hJoin : ∀ a b, height (join a b) ≤ max (height a) (height b) + 1)
    (fuel : Nat) {k : Nat} (h : ∀ x ∈ level, height x ≤ k) :
    ∀ x ∈ climb join fuel level, height x ≤ k + Nat.clog 2 level.length := by
  induction fuel generalizing level k with
  | zero => exact fun x hx => (h x hx).trans (Nat.le_add_right _ _)
  | succ fuel ih =>
    rw [climb]
    split
    · rename_i hLong
      have hNext : ∀ x ∈ pairUp join level, height x ≤ k + 1 := by
        intro x hx
        rcases mem_pairUp hx with hMem | ⟨a, ha, b, hb, rfl⟩
        · exact (h x hMem).trans (Nat.le_succ k)
        · exact (hJoin a b).trans (Nat.succ_le_succ (max_le (h a ha) (h b hb)))
      have hClog : Nat.clog 2 level.length = Nat.clog 2 ((level.length + 1) / 2) + 1 :=
        Nat.clog_of_two_le Nat.one_lt_two hLong
      intro x hx
      have hHeight := ih hNext x hx
      rw [length_pairUp] at hHeight
      omega
    · exact fun x hx => (h x hx).trans (Nat.le_add_right _ _)

end Pairing
