import Mathlib.Data.List.TakeWhile
import DBVault.Text.Encoding

/-! White space and letter case as Go's `strings` and `unicode` packages have them. -/
namespace Text
open List

def isSpace (c : Char) : Bool :=
  (0x09 ≤ c.toNat && c.toNat ≤ 0x0D) || (0x2000 ≤ c.toNat && c.toNat ≤ 0x200A) ||
    [0x20, 0x85, 0xA0, 0x1680, 0x2028, 0x2029, 0x202F, 0x205F, 0x3000].contains c.toNat

def trimSpace (text : String) : String :=
  String.ofList ((text.toList.dropWhile isSpace).reverse.dropWhile isSpace).reverse

/-- `strings.TrimSpace`, on characters. -/
def trim (chars : List Char) : List Char := ((chars.dropWhile isSpace).reverse.dropWhile isSpace).reverse

theorem dropWhile_of_head {chars : List Char} (hHead : ∀ c ∈ chars.head?, isSpace c = false) :
    chars.dropWhile isSpace = chars := by
  cases chars with
  | nil => rfl
  | cons c rest => simp [hHead c (by simp)]

theorem trim_append {front chars back : List Char} (hFront : ∀ c ∈ front, isSpace c = true)
    (hBack : ∀ c ∈ back, isSpace c = true) (hHead : ∀ c ∈ chars.head?, isSpace c = false)
    (hLast : ∀ c ∈ chars.getLast?, isSpace c = false) : trim (front ++ (chars ++ back)) = chars := by
  rw [trim, dropWhile_append_of_pos hFront]
  cases chars with
  | nil =>
    have hNone : back.dropWhile isSpace = [] := dropWhile_eq_nil_iff.mpr hBack
    rw [nil_append, hNone]
    rfl
  | cons c rest =>
    have hEnd : ∀ x ∈ (c :: rest).reverse.head?, isSpace x = false := by
      rw [head?_reverse]
      exact hLast
    have hStart : (c :: rest ++ back).dropWhile isSpace = c :: rest ++ back :=
      dropWhile_of_head (by simpa using hHead)
    rw [hStart, reverse_append, dropWhile_append_of_pos fun x hx => hBack x (by simpa using hx),
      dropWhile_of_head hEnd, reverse_reverse]

theorem dropWhile_of_forall_false {α : Type*} {p : α → Bool} {xs : List α}
    (hNone : ∀ x ∈ xs, p x = false) : xs.dropWhile p = xs := by
  cases xs with
  | nil => rfl
  | cons x rest => simp [hNone x (by simp)]

theorem trimSpace_append {chars spaces : List Char} (hChars : ∀ c ∈ chars, isSpace c = false)
    (hSpaces : ∀ c ∈ spaces, isSpace c = true) :
    trimSpace (String.ofList (chars ++ spaces)) = String.ofList chars := by
  have hFront : (chars ++ spaces).dropWhile isSpace = chars ++ spaces.dropWhile isSpace ∨
      (chars ++ spaces).dropWhile isSpace = chars ++ spaces := by
    cases chars with
    | nil => exact .inl rfl
    | cons c rest => exact .inr (by simp [hChars c (by simp)])
  have hBack : ∀ rest : List Char, (∀ c ∈ rest, isSpace c = true) →
      ((chars ++ rest).reverse.dropWhile isSpace).reverse = chars := by
    intro rest hRest
    rw [reverse_append, dropWhile_append_of_pos fun c hc => hRest c (by simpa using hc),
      dropWhile_of_forall_false fun c hc => hChars c (by simpa using hc), reverse_reverse]
  rw [trimSpace, String.toList_ofList]
  rcases hFront with hFront | hFront
  · rw [hFront, hBack _ fun c hc => hSpaces c (dropWhile_subset _ hc)]
  · rw [hFront, hBack _ hSpaces]

theorem IsHex.not_isSpace (hHex : IsHex c) : isSpace c = false := by
  obtain ⟨n, hn, rfl⟩ := hHex
  interval_cases n <;> decide

theorem takeWhile_append_of_not_mem {c : Char} {front rest : List Char} (hFront : c ∉ front) :
    (front ++ c :: rest).takeWhile (· ≠ c) = front ∧ (front ++ c :: rest).dropWhile (· ≠ c) = c :: rest := by
  have hAll : ∀ x ∈ front, decide (x ≠ c) = true := by
    intro x hx
    exact decide_eq_true fun hSame => hFront (hSame ▸ hx)
  rw [takeWhile_append_of_pos hAll, dropWhile_append_of_pos hAll]
  simp

theorem takeWhile_of_not_mem {c : Char} {chars : List Char} (hChars : c ∉ chars) :
    chars.takeWhile (· ≠ c) = chars ∧ chars.dropWhile (· ≠ c) = [] := by
  have hAll : ∀ x ∈ chars, decide (x ≠ c) = true := by
    intro x hx
    exact decide_eq_true fun hSame => hChars (hSame ▸ hx)
  rw [← append_nil chars, takeWhile_append_of_pos hAll, dropWhile_append_of_pos hAll]
  simp

theorem cut_cases (c : Char) (chars : List Char) :
    (c ∉ chars ∧ chars.takeWhile (· ≠ c) = chars ∧ chars.dropWhile (· ≠ c) = []) ∨
      ∃ front rest, chars = front ++ c :: rest ∧ c ∉ front ∧
        chars.takeWhile (· ≠ c) = front ∧ chars.dropWhile (· ≠ c) = c :: rest := by
  by_cases hMem : c ∈ chars
  · obtain ⟨front, rest, rfl, hFront⟩ := eq_append_cons_of_mem hMem
    exact .inr ⟨front, rest, rfl, hFront, takeWhile_append_of_not_mem hFront⟩
  · exact .inl ⟨hMem, takeWhile_of_not_mem hMem⟩

/-- The letter case of runes. Of the ASCII characters only the letters change; what other
runes do is left open. -/
structure CaseMapping where
  /-- `unicode.ToLower`. -/
  lower : Char → Char
  /-- One rune for all that `unicode.SimpleFold` leads to from each other. -/
  fold : Char → Char
  lower_ascii : ∀ c, c.toNat < 128 → lower c = c.toLower
  fold_ascii : ∀ c, c.toNat < 128 → fold c = c.toLower

namespace CaseMapping

def ascii : CaseMapping := ⟨Char.toLower, Char.toLower, fun _ _ => rfl, fun _ _ => rfl⟩

variable (m : CaseMapping)

def toLower (text : String) : String := String.ofList (text.toList.map m.lower)

def equalFold (first second : String) : Bool := first.toList.map m.fold = second.toList.map m.fold

theorem fold_of_lower {text : List Char} (hText : ∀ c ∈ text, c.toNat < 128 ∧ c.toLower = c) :
    text.map m.fold = text := by
  have hSame : text.map m.fold = text.map id := by
    apply map_congr_left
    intro c hIn
    rw [m.fold_ascii c (hText c hIn).1, (hText c hIn).2, id]
  rw [hSame, map_id]

theorem lower_of_isHex (hHex : IsHex c) : c.toNat < 128 ∧ c.toLower = c := by
  obtain ⟨n, hn, rfl⟩ := hHex
  interval_cases n <;> decide

theorem equalFold_hexEncode {first second : Bytes} :
    m.equalFold (hexEncode first) (hexEncode second) = true ↔ first = second := by
  have hFold : ∀ bytes, (hexEncode bytes).toList.map m.fold = hexChars bytes := by
    intro bytes
    rw [toList_hexEncode]
    exact m.fold_of_lower fun c hIn => lower_of_isHex (isHex_of_mem hIn)
  simp only [equalFold, hFold, decide_eq_true_eq]
  exact hexChars_injective.eq_iff

end CaseMapping

end Text
