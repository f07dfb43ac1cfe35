import Mathlib.Data.List.Basic

/-! Slash-separated paths: the splitting, cleaning and trimming functions of
Go's `path` and `strings` packages, on character lists. Cleaning is stated on
components, so that what a cleaned path keeps can be read off component by
component. -/
namespace Text.Path
open List

abbrev Component := List Char

/-- `strings.Split(p, "/")`. -/
def components (p : List Char) : List Component := p.splitOn '/'

/-- `strings.Join(parts, "/")`. -/
def join (parts : List Component) : List Char := ['/'].intercalate parts

def dot : Component := ['.']

def dotDot : Component := ['.', '.']

/-- Add one component to the kept ones, innermost first. Empty components and
`.` are dropped; `..` removes the component before it, is dropped at the root
and is kept at the start of a relative path. -/
def push (rooted : Bool) (kept : List Component) (c : Component) : List Component :=
  if c = [] ∨ c = dot then kept
  else if c = dotDot then
    match kept with
    | [] => if rooted then [] else [dotDot]
    | top :: below => if top = dotDot then dotDot :: kept else below
  else c :: kept

def normal (rooted : Bool) (parts : List Component) : List Component := (parts.foldl (push rooted) []).reverse

def isRooted (p : List Char) : Bool := p.head? == some '/'

def clean (p : List Char) : List Char :=
  let out := (if isRooted p then ['/'] else []) ++ join (normal (isRooted p) (components p))
  if out = [] then dot else out

def trimPrefix (lead p : List Char) : List Char := if lead.isPrefixOf p then p.drop lead.length else p

def trimSuffix (tail p : List Char) : List Char := if tail.isSuffixOf p then p.take (p.length - tail.length) else p

/-- `strings.Trim(p, "/")`. -/
def trimSlashes (p : List Char) : List Char := ((p.dropWhile (· == '/')).reverse.dropWhile (· == '/')).reverse

/-- A component that cleaning leaves alone. -/
structure Plain (c : Component) : Prop where
  nonempty : c ≠ []
  notDot : c ≠ dot
  notDotDot : c ≠ dotDot
  slashFree : '/' ∉ c

instance : DecidablePred Plain := fun c =>
  decidable_of_iff (c ≠ [] ∧ c ≠ dot ∧ c ≠ dotDot ∧ '/' ∉ c)
    ⟨fun h => ⟨h.1, h.2.1, h.2.2.1, h.2.2.2⟩, fun ⟨h₁, h₂, h₃, h₄⟩ => ⟨h₁, h₂, h₃, h₄⟩⟩

theorem components_append (p q : List Char) : components (p ++ '/' :: q) = components p ++ components q :=
  splitOn_append_cons_self p q

theorem components_slashFree (h : '/' ∉ c) : components c = [c] := splitOn_eq_singleton h

variable {p : List Char} {parts : List Component} {rooted : Bool}

theorem not_mem_of_mem_splitOn (h : c ∈ p.splitOn separator) : separator ∉ c := by
  induction p generalizing c with
  | nil =>
    simp only [splitOn_nil, mem_singleton] at h
    simp [h]
  | cons x rest ih =>
    simp only [splitOn_cons_eq_if_modifyHead] at h
    split at h
    · rcases mem_cons.mp h with rfl | h
      · simp
      · exact ih h
    · rename_i hx
      obtain ⟨first, others, hSplit⟩ := exists_cons_of_ne_nil (splitOn_ne_nil separator rest)
      rw [hSplit] at h ih
      simp only [modifyHead_cons] at h
      rcases mem_cons.mp h with rfl | h
      · have hFirst := ih (c := first) mem_cons_self
        simp only [mem_cons, not_or]
        exact ⟨fun he => hx (by simp [← he]), hFirst⟩
      · exact ih (mem_cons_of_mem _ h)

theorem slashFree_of_mem_components (h : c ∈ components p) : '/' ∉ c := not_mem_of_mem_splitOn h

theorem components_join (hFree : ∀ c ∈ parts, '/' ∉ c) (hNe : parts ≠ []) : components (join parts) = parts :=
  splitOn_intercalate '/' hFree hNe

theorem join_components (p : List Char) : join (components p) = p := intercalate_splitOn '/'

theorem join_cons_cons (c d : Component) (rest : List Component) :
    join (c :: d :: rest) = c ++ '/' :: join (d :: rest) := by
  simp [join, List.intercalate, List.intersperse]

@[simp] theorem join_nil : join [] = [] := rfl

@[simp] theorem join_singleton (c : Component) : join [c] = c := by simp [join, List.intercalate]

theorem join_append (hFirst : first ≠ []) (hSecond : second ≠ []) :
    join (first ++ second) = join first ++ '/' :: join second := by
  induction first with
  | nil => exact absurd rfl hFirst
  | cons c rest ih =>
    cases rest with
    | nil =>
      obtain ⟨d, others, rfl⟩ := exists_cons_of_ne_nil hSecond
      simp [join_cons_cons]
    | cons d others =>
      have h := ih (by simp)
      simp only [cons_append] at h ⊢
      rw [join_cons_cons, join_cons_cons, h]
      simp

theorem join_inj (hFirst : ∀ c ∈ first, '/' ∉ c) (hSecond : ∀ c ∈ second, '/' ∉ c) (hFirstNe : first ≠ [])
    (hSecondNe : second ≠ []) (h : join first = join second) : first = second := by
  rw [← components_join hFirst hFirstNe, h, components_join hSecond hSecondNe]

theorem push_plain (h : Plain c) : push rooted kept c = c :: kept := by
  simp [push, h.nonempty, h.notDot, h.notDotDot]

theorem foldl_push_plain {kept : List Component} (h : ∀ c ∈ parts, Plain c) :
    parts.foldl (push rooted) kept = parts.reverse ++ kept := by
  induction parts generalizing kept with
  | nil => rfl
  | cons c rest ih =>
    rw [foldl_cons, push_plain (h c mem_cons_self), ih fun d hd => h d (mem_cons_of_mem _ hd)]
    simp

theorem normal_append_plain {tail : List Component} (h : ∀ c ∈ tail, Plain c) :
    normal rooted (parts ++ tail) = normal rooted parts ++ tail := by
  simp [normal, foldl_append, foldl_push_plain h]

theorem normal_plain (h : ∀ c ∈ parts, Plain c) : normal rooted parts = parts := by
  have hAppend : normal rooted ([] ++ parts) = normal rooted [] ++ parts := normal_append_plain h
  simpa [normal] using hAppend

/-- What cleaning keeps is neither empty nor `.`, has no separator, and is
`..` only in a relative path. -/
def Kept (rooted : Bool) (c : Component) : Prop := c ≠ [] ∧ c ≠ dot ∧ '/' ∉ c ∧ (rooted = true → c ≠ dotDot)

theorem push_kept (hKept : ∀ d ∈ kept, Kept rooted d) (hc : '/' ∉ c) :
    ∀ d ∈ push rooted kept c, Kept rooted d := by
  intro d hd
  unfold push at hd
  split at hd
  · exact hKept d hd
  · rename_i hSkip
    push Not at hSkip
    have hDots : Kept false dotDot := ⟨by decide, by decide, by decide, by simp⟩
    split at hd
    · cases kept with
      | nil =>
        cases rooted with
        | true => simp at hd
        | false =>
          simp only [Bool.false_eq_true, ↓reduceIte, mem_singleton] at hd
          exact hd ▸ hDots
      | cons top below =>
        have hTop := hKept top mem_cons_self
        by_cases he : top = dotDot
        · simp only [he, ↓reduceIte] at hd
          rcases mem_cons.mp hd with rfl | hd
          · exact he ▸ hTop
          · exact hKept d (he ▸ hd)
        · simp only [he, ↓reduceIte] at hd
          exact hKept d (mem_cons_of_mem _ hd)
    · rename_i hPlain
      rcases mem_cons.mp hd with rfl | hd
      · exact ⟨hSkip.1, hSkip.2, hc, fun _ => hPlain⟩
      · exact hKept d hd

theorem normal_kept (h : ∀ c ∈ parts, '/' ∉ c) : ∀ d ∈ normal rooted parts, Kept rooted d := by
  have hAll : ∀ (rest kept : List Component), (∀ c ∈ rest, '/' ∉ c) →
      (∀ d ∈ kept, Kept rooted d) → ∀ d ∈ rest.foldl (push rooted) kept, Kept rooted d := by
    intro rest
    induction rest with
    | nil => intro kept _ hKept; exact hKept
    | cons c rest ih =>
      intro kept hFree hKept
      exact ih _ (fun d hd => hFree d (mem_cons_of_mem _ hd)) (push_kept hKept (hFree c mem_cons_self))
  intro d hd
  rw [normal, mem_reverse] at hd
  exact hAll parts [] h (by simp) d hd

theorem normal_slashFree : ∀ c ∈ normal rooted (components p), '/' ∉ c := fun c hc =>
  (normal_kept (fun _ h => slashFree_of_mem_components h) c hc).2.2.1

theorem trimPrefix_append (lead p : List Char) : trimPrefix lead (lead ++ p) = p := by simp [trimPrefix]

theorem trimSuffix_append (p tail : List Char) : trimSuffix tail (p ++ tail) = p := by
  have h : tail.isSuffixOf (p ++ tail) = true := by simp
  simp [trimSuffix, h]

end Text.Path
