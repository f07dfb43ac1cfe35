import Mathlib.Data.List.Nodup
import Mathlib.Order.Lattice

/-! Tables whose rows have distinct keys, with the operations of a map or of a
database table on them. -/
namespace Keyed
open List

variable {κ ρ τ : Type}

structure Table (key : ρ → κ) where
  rows : List ρ
  distinct : (rows.map key).Nodup

namespace Table
variable {key : ρ → κ}

def empty : Table key := ⟨[], nodup_nil⟩

def modify (t : Table key) (f : ρ → ρ) (hKey : ∀ r, key (f r) = key r) : Table key where
  rows := t.rows.map f
  distinct := by
    have hKeys : key ∘ f = key := funext hKey
    rw [map_map, hKeys]
    exact t.distinct

def insert (t : Table key) (r : ρ) (hNew : key r ∉ t.rows.map key) : Table key where
  rows := t.rows ++ [r]
  distinct := by
    rw [map_append, map_singleton, ← concat_eq_append]
    exact t.distinct.concat hNew

def first [LinearOrder τ] (t : Table key) (eligible : ρ → Bool) (rank : ρ → τ) : Option ρ :=
  let line := t.rows.filter eligible
  line.find? fun r => line.all fun other => rank r ≤ rank other

variable {t : Table key} {r : ρ}

theorem eq_of_key {r' : ρ} (h : r ∈ t.rows) (h' : r' ∈ t.rows) (hKey : key r = key r') : r = r' :=
  inj_on_of_nodup_map t.distinct h h' hKey

section

theorem exists_least [LinearOrder τ] (rank : ρ → τ) {line : List ρ} (hLine : line ≠ []) :
    ∃ r ∈ line, ∀ other ∈ line, rank r ≤ rank other := by
  induction line with
  | nil => exact absurd rfl hLine
  | cons head rest ih =>
    by_cases hRest : rest = []
    · exact ⟨head, by simp, by simp [hRest]⟩
    · obtain ⟨least, hMem, hLeast⟩ := ih hRest
      rcases le_total (rank head) (rank least) with hLe | hLe
      · refine ⟨head, by simp, ?_⟩
        intro other hOther
        rcases mem_cons.mp hOther with rfl | hOther
        · exact le_refl _
        · exact hLe.trans (hLeast other hOther)
      · refine ⟨least, by simp [hMem], ?_⟩
        intro other hOther
        rcases mem_cons.mp hOther with rfl | hOther
        · exact hLe
        · exact hLeast other hOther

variable [LinearOrder τ] {eligible : ρ → Bool} {rank : ρ → τ}

theorem first_eq_none : t.first eligible rank = none ↔ ∀ r ∈ t.rows, eligible r = false := by
  constructor
  · intro hNone r hMem
    by_contra hEligible
    have hLine : r ∈ t.rows.filter eligible := mem_filter.mpr ⟨hMem, by simpa using hEligible⟩
    obtain ⟨least, hLeastMem, hLeast⟩ := exists_least rank (ne_nil_of_mem hLine)
    have hNot := find?_eq_none.mp hNone least hLeastMem
    simp only [all_eq_true, decide_eq_true_eq] at hNot
    exact hNot hLeast
  · intro hNone
    have hLine : t.rows.filter eligible = [] := by simpa [filter_eq_nil_iff] using hNone
    simp [first, hLine]

theorem first_eq_some (hRank : ∀ r r', rank r = rank r' → key r = key r') :
    t.first eligible rank = some r ↔ r ∈ t.rows ∧ eligible r = true ∧
      ∀ other ∈ t.rows, eligible other = true → rank r ≤ rank other := by
  have hSpec : ∀ r, t.first eligible rank = some r → r ∈ t.rows ∧ eligible r = true ∧
      ∀ other ∈ t.rows, eligible other = true → rank r ≤ rank other := by
    intro r hFirst
    have hMem := mem_filter.mp (mem_of_find?_eq_some hFirst)
    have hLeast := find?_some hFirst
    simp only [all_eq_true, decide_eq_true_eq] at hLeast
    exact ⟨hMem.1, hMem.2, fun other hOther hEligible => hLeast other (mem_filter.mpr ⟨hOther, hEligible⟩)⟩
  refine ⟨hSpec r, ?_⟩
  rintro ⟨hMem, hEligible, hLeast⟩
  cases hFirst : t.first eligible rank with
  | none => simp [first_eq_none.mp hFirst r hMem] at hEligible
  | some found =>
    obtain ⟨hFound, hFoundEligible, hFoundLeast⟩ := hSpec found hFirst
    have hSame := le_antisymm (hFoundLeast r hMem hEligible) (hLeast found hFound hFoundEligible)
    rw [eq_of_key hFound hMem (hRank _ _ hSame)]

end

variable [DecidableEq κ] {k : κ}

def find (t : Table key) (k : κ) : Option ρ := t.rows.find? fun r => key r = k

/-- Put a row in place of the one with its key, or at the end. -/
def store (t : Table key) (r : ρ) : Table key where
  rows := if key r ∈ t.rows.map key then t.rows.map fun old => if key old = key r then r else old
    else t.rows ++ [r]
  distinct := by
    split
    · have hKeys : key ∘ (fun old => if key old = key r then r else old) = key := by
        funext old
        by_cases hOld : key old = key r <;> simp [hOld]
      rw [map_map, hKeys]
      exact t.distinct
    · rename_i hNew
      simpa [nodup_append, hNew] using ⟨t.distinct, fun a ha h => hNew (by simpa [h] using ⟨a, ha, h⟩)⟩

theorem find_eq_some : t.find k = some r ↔ r ∈ t.rows ∧ key r = k := by
  constructor
  · intro hFind
    have hKey := find?_some hFind
    exact ⟨mem_of_find?_eq_some hFind, by simpa using hKey⟩
  · rintro ⟨hMem, rfl⟩
    cases hFind : t.find (key r) with
    | none => exact absurd (by simp) (find?_eq_none.mp hFind r hMem)
    | some found =>
      have hKey := find?_some hFind
      rw [eq_of_key (mem_of_find?_eq_some hFind) hMem (by simpa using hKey)]

theorem mem_rows : r ∈ t.rows ↔ t.find (key r) = some r := by simp [find_eq_some]

theorem mem_keys_filter {eligible : ρ → Bool} :
    k ∈ (t.rows.filter eligible).map key ↔ ∃ r, t.find k = some r ∧ eligible r = true := by
  simp only [mem_map, mem_filter, find_eq_some]
  constructor
  · rintro ⟨r, ⟨hMem, hEligible⟩, hKey⟩
    exact ⟨r, ⟨hMem, hKey⟩, hEligible⟩
  · rintro ⟨r, ⟨hMem, hKey⟩, hEligible⟩
    exact ⟨r, ⟨hMem, hEligible⟩, hKey⟩

theorem store_of_new (hNew : key r ∉ t.rows.map key) : (t.store r).rows = t.rows ++ [r] := if_neg hNew

theorem store_of_rows {front rest : List ρ} {r' : ρ} (hRows : t.rows = front ++ r :: rest) (hKey : key r' = key r) :
    (t.store r').rows = front ++ r' :: rest := by
  have hDistinct := t.distinct
  rw [hRows, map_append, map_cons, nodup_middle, nodup_cons, mem_append, not_or] at hDistinct
  have hKept : ∀ part : List ρ, key r ∉ part.map key → (part.map fun old => if key old = key r then r' else old) = part := by
    intro part hNot
    conv_rhs => rw [← map_id part]
    refine map_congr_left fun old hOld => if_neg fun hSame => hNot ?_
    exact mem_map.mpr ⟨old, hOld, hSame⟩
  simp [store, hRows, hKey, hKept front hDistinct.1.1, hKept rest hDistinct.1.2]

/-- Storing the eligible rows anew, one after the other, is one change of the table. -/
theorem foldl_store (t : Table key) (f : ρ → ρ) (hKey : ∀ r, key (f r) = key r) (eligible : ρ → Bool) :
    (((t.rows.filter eligible).map f).foldl store t).rows = t.rows.map fun r => if eligible r then f r else r := by
  suffices ∀ (back front : List ρ) (t : Table key), t.rows = front ++ back →
      (((back.filter eligible).map f).foldl store t).rows = front ++ back.map fun r => if eligible r then f r else r from
    this t.rows [] t rfl
  intro back
  induction back with
  | nil => exact fun _ _ hRows => hRows
  | cons r rest ih =>
    intro front t hRows
    by_cases hEligible : eligible r = true
    · have hNext := store_of_rows hRows (hKey r)
      rw [filter_cons_of_pos hEligible, map_cons, foldl_cons, ih (front ++ [f r]) _ (by simpa using hNext)]
      simp [hEligible]
    · rw [filter_cons_of_neg hEligible, ih (front ++ [r]) t (by simpa using hRows)]
      simp [hEligible]

theorem mem_store {other : ρ} : other ∈ (t.store r).rows ↔ other = r ∨ other ∈ t.rows ∧ key other ≠ key r := by
  unfold store
  split
  · rename_i hOld
    obtain ⟨old, hMem, hKey⟩ := mem_map.mp hOld
    simp only [mem_map]
    constructor
    · rintro ⟨row, hRow, rfl⟩
      by_cases hSame : key row = key r
      · exact .inl (if_pos hSame)
      · exact .inr (by simpa [hSame] using hRow)
    · rintro (rfl | ⟨hOther, hNe⟩)
      · exact ⟨old, hMem, if_pos hKey⟩
      · exact ⟨other, hOther, if_neg hNe⟩
  · rename_i hNew
    simp only [mem_append, mem_singleton]
    constructor
    · rintro (hOther | rfl)
      · exact .inr ⟨hOther, fun hKey => hNew (hKey ▸ mem_map_of_mem hOther)⟩
      · exact .inl rfl
    · rintro (rfl | ⟨hOther, -⟩)
      · exact .inr rfl
      · exact .inl hOther

@[simp] theorem find_store : (t.store r).find k = if k = key r then some r else t.find k := by
  split
  · rename_i hKey
    exact find_eq_some.mpr ⟨mem_store.mpr (.inl rfl), hKey.symm⟩
  · rename_i hKey
    apply Option.ext
    intro other
    simp only [find_eq_some, mem_store]
    constructor
    · rintro ⟨rfl | hOld, rfl⟩
      · exact absurd rfl hKey
      · exact ⟨hOld.1, rfl⟩
    · rintro ⟨hOld, rfl⟩
      exact ⟨.inr ⟨hOld, hKey⟩, rfl⟩

@[simp] theorem find_modify {f : ρ → ρ} {hKey : ∀ r, key (f r) = key r} :
    (t.modify f hKey).find k = (t.find k).map f := by
  simp only [find, modify, find?_map]
  congr 2
  funext r
  simp [hKey]

end Table

end Keyed
