import Mathlib.Data.Finset.Card

/-! The first elements of a list for each of a number of keys. -/
namespace Selection
open List

variable {α κ : Type} [DecidableEq κ] (key : α → κ)

def firsts : Nat → List κ → List α → List α
  | 0, _, _ => []
  | _, _, [] => []
  | limit + 1, seen, x :: xs =>
    if key x ∈ seen then firsts (limit + 1) seen xs else x :: firsts limit (key x :: seen) xs

theorem firsts_sublist (limit : Nat) (seen : List κ) (xs : List α) : (firsts key limit seen xs).Sublist xs := by
  induction xs generalizing limit seen with
  | nil => cases limit <;> simp [firsts]
  | cons x xs ih =>
    cases limit with
    | zero => simp [firsts]
    | succ limit =>
      rw [firsts]
      split
      · exact (ih _ _).cons _
      · exact (ih _ _).cons_cons _

variable {xs : List α} {P : List α → Prop} {x : α}

theorem exists_split_cons {y : α} : (∃ before after, y :: xs = before ++ x :: after ∧ P before) ↔
      (y = x ∧ P []) ∨ ∃ before after, xs = before ++ x :: after ∧ P (y :: before) := by
  constructor
  · rintro ⟨before, after, hSplit, hBefore⟩
    cases before with
    | nil =>
      cases hSplit
      exact .inl ⟨rfl, hBefore⟩
    | cons z before =>
      cases hSplit
      exact .inr ⟨before, after, rfl, hBefore⟩
  · rintro (⟨rfl, hBefore⟩ | ⟨before, after, rfl, hBefore⟩)
    · exact ⟨[], xs, rfl, hBefore⟩
    · exact ⟨y :: before, after, rfl, hBefore⟩

theorem exists_getElem?_iff :
    (∃ i, xs[i]? = some x ∧ P (xs.take i)) ↔ ∃ before after, xs = before ++ x :: after ∧ P before := by
  constructor
  · rintro ⟨i, hPlace, hBefore⟩
    obtain ⟨hi, hAt⟩ := List.getElem?_eq_some_iff.mp hPlace
    refine ⟨xs.take i, xs.drop (i + 1), ?_, hBefore⟩
    rw [← hAt, getElem_cons_drop, take_append_drop]
  · rintro ⟨before, after, rfl, hBefore⟩
    exact ⟨before.length, by simp, by simpa using hBefore⟩

theorem mem_firsts {limit : Nat} {seen : List κ} :
    x ∈ firsts key limit seen xs ↔ ∃ before after, xs = before ++ x :: after ∧
      key x ∉ seen ∧ key x ∉ before.map key ∧
      ((before.map key).toFinset \ seen.toFinset).card < limit := by
  induction xs generalizing limit seen with
  | nil => cases limit <;> simp [firsts]
  | cons y xs ih =>
    cases limit with
    | zero => simp [firsts]
    | succ limit =>
      rw [firsts, exists_split_cons]
      split
      · rename_i hSeen
        rw [ih, or_iff_right]
        · apply exists₂_congr
          intro before after
          -- A key that has been seen before counts neither here nor there.
          have hCount : ((y :: before).map key).toFinset \ seen.toFinset =
              (before.map key).toFinset \ seen.toFinset := by
            rw [map_cons, toFinset_cons, Finset.insert_sdiff_of_mem _ (by simpa using hSeen)]
          rw [hCount, map_cons, mem_cons, not_or]
          have hOther (hx : key x ∉ seen) : key x ≠ key y := fun hSame => hx (hSame ▸ hSeen)
          tauto
        · rintro ⟨rfl, hNew, -⟩
          exact hNew hSeen
      · rename_i hNew
        rw [mem_cons, ih]
        apply or_congr
        · constructor
          · rintro rfl
            exact ⟨rfl, hNew, by simp, by simp⟩
          · rintro ⟨rfl, -⟩
            rfl
        · apply exists₂_congr
          intro before after
          have hCount : (((y :: before).map key).toFinset \ seen.toFinset).card =
              ((before.map key).toFinset \ (key y :: seen).toFinset).card + 1 := by
            rw [map_cons, toFinset_cons, toFinset_cons,
              Finset.insert_sdiff_of_notMem _ (by simpa using hNew), Finset.sdiff_insert,
              ← Finset.card_insert_of_notMem (Finset.notMem_erase _ _)]
            congr 1
            ext other
            simp only [Finset.mem_insert, Finset.mem_erase]
            tauto
          rw [hCount, Nat.add_lt_add_iff_right, map_cons, mem_cons, mem_cons, not_or, not_or]
          tauto

theorem card_keys_eq {ι : Type} [DecidableEq ι] {key : α → κ} {other : α → ι}
    (hSame : ∀ x y, key x = key y ↔ other x = other y) (xs : List α) :
    (xs.map key).toFinset.card = (xs.map other).toFinset.card := by
  induction xs with
  | nil => rfl
  | cons x xs ih =>
    have hMem : key x ∈ (xs.map key).toFinset ↔ other x ∈ (xs.map other).toFinset := by simp [hSame]
    simp only [map_cons, toFinset_cons]
    by_cases hx : key x ∈ (xs.map key).toFinset
    · rw [Finset.insert_eq_of_mem hx, Finset.insert_eq_of_mem (hMem.mp hx), ih]
    · rw [Finset.card_insert_of_notMem hx, Finset.card_insert_of_notMem (mt hMem.mpr hx), ih]

end Selection
