import DBVault.Storage

/-! Where keys end up. Cleaning a key keeps its last components as they are, so
two keys with plain endings of the same length can only meet if the endings
agree. -/
namespace DBVault
open List Text Text.Path

def keeps (c : Component) : Bool := c ≠ [] && c ≠ dot

theorem keeps_of_plain {c : Component} (h : Plain c) : keeps c = true := by simp [keeps, h.nonempty, h.notDot]

variable {parts : List Component} {rooted : Bool} {a : Address}

theorem foldl_push_noDotDot (h : dotDot ∉ parts) :
    parts.foldl (push rooted) kept = (parts.filter keeps).reverse ++ kept := by
  induction parts generalizing kept with
  | nil => rfl
  | cons c rest ih =>
    simp only [mem_cons, not_or] at h
    rw [foldl_cons, ih h.2]
    by_cases hKeep : keeps c = true
    · have hKeeps := hKeep
      simp only [keeps, Bool.and_eq_true, decide_eq_true_eq, ne_eq] at hKeep
      simp [push, hKeep.1, hKeep.2, Ne.symm h.1, hKeeps]
    · have hDrop : c = [] ∨ c = dot := by
        simp only [keeps, Bool.and_eq_true, decide_eq_true_eq, ne_eq, not_and_or, not_not] at hKeep
        exact hKeep
      simp [push, hDrop, hKeep]

theorem normal_append_noDotDot {rest : List Component} (h : dotDot ∉ rest) :
    normal rooted (parts ++ rest) = normal rooted parts ++ rest.filter keeps := by
  simp [normal, foldl_append, foldl_push_noDotDot h]

theorem normal_noDotDot (h : dotDot ∉ parts) : normal rooted parts = parts.filter keeps := by
  have hAppend : normal rooted ([] ++ parts) = normal rooted [] ++ parts.filter keeps := normal_append_noDotDot h
  simpa [normal] using hAppend

theorem join_ne_nil (hNe : parts ≠ []) (hParts : ∀ c ∈ parts, c ≠ []) : join parts ≠ [] := by
  obtain ⟨c, rest, rfl⟩ := exists_cons_of_ne_nil hNe
  have hc := hParts c mem_cons_self
  cases rest with
  | nil => simpa using hc
  | cons d others => simp [join_cons_cons]

theorem join_ne_dot (hParts : ∀ c ∈ parts, c ≠ [] ∧ c ≠ dot ∧ '/' ∉ c) : join parts ≠ dot := by
  intro h
  cases parts with
  | nil => simp [dot] at h
  | cons c rest =>
    cases rest with
    | nil => exact (hParts c mem_cons_self).2.1 (by simpa using h)
    | cons d others =>
      have hSlash : '/' ∈ dot := by rw [← h, join_cons_cons]; simp
      exact absurd hSlash (by decide)

/-- What `clean` returns, by cases on where the path starts and whether
anything is left of it. -/
theorem trim_clean (p : List Char) :
    trimPrefix ['/'] (clean p) =
      if normal (isRooted p) (components p) = [] ∧ isRooted p = false then dot
      else join (normal (isRooted p) (components p)) := by
  have hKept : ∀ c ∈ normal (isRooted p) (components p), Kept (isRooted p) c :=
    normal_kept fun c hc => slashFree_of_mem_components hc
  generalize hParts : normal (isRooted p) (components p) = parts at hKept
  cases hRooted : isRooted p with
  | true =>
    rw [hRooted] at hParts
    simp [clean, hRooted, hParts, trimPrefix]
  | false =>
    rw [hRooted] at hParts
    by_cases hEmpty : parts = []
    · subst hEmpty
      simp [clean, hRooted, hParts, trimPrefix, dot]
    · have hJoin : join parts ≠ [] := join_ne_nil hEmpty fun c hc => (hKept c hc).1
      obtain ⟨c, rest, rfl⟩ := exists_cons_of_ne_nil hEmpty
      obtain ⟨hc, -, hSlash, -⟩ := hKept c mem_cons_self
      obtain ⟨first, others, rfl⟩ := exists_cons_of_ne_nil hc
      have hFirst : first ≠ '/' := fun h => hSlash (by simp [h])
      have hHead : ∃ tail, join ((first :: others) :: rest) = first :: tail := by
        cases rest with
        | nil => exact ⟨others, by simp⟩
        | cons d more => exact ⟨_, by rw [join_cons_cons]; rfl⟩
      obtain ⟨tail, hTail⟩ := hHead
      simp [clean, hRooted, hParts, hTail, trimPrefix, Ne.symm hFirst]

def S3.baseParts (base : String) : List Component :=
  if base = "" then [] else normal (isRooted base.toList) (components base.toList)

def Backend.place : Backend → List Component → List Component
  | .s3 base, parts => S3.baseParts base ++ parts.filter keeps
  | .filesystem, parts => normal true parts

theorem isRooted_append {p : List Char} (hp : p ≠ []) (q : List Char) : isRooted (p ++ q) = isRooted p := by
  obtain ⟨c, rest, rfl⟩ := exists_cons_of_ne_nil hp
  rfl

variable {part : String}

theorem S3.trim_clean_join (base : String) (h : dotDot ∉ components part.toList) :
    ∃ rooted, trimPrefix ['/'] (clean (join (if base = "" then [part.toList] else [base.toList, part.toList]))) =
      if Backend.place (.s3 base) (components part.toList) = [] ∧ rooted = false then dot
      else join (Backend.place (.s3 base) (components part.toList)) := by
  by_cases hBase : base = ""
  · refine ⟨isRooted part.toList, ?_⟩
    rw [if_pos hBase, join_singleton, trim_clean, normal_noDotDot h]
    simp [Backend.place, S3.baseParts, hBase]
  · have hNe : base.toList ≠ [] := fun hNil => hBase (String.toList_inj.mp hNil)
    refine ⟨isRooted base.toList, ?_⟩
    rw [if_neg hBase, join_cons_cons, join_singleton, trim_clean, isRooted_append hNe,
      components_append, normal_append_noDotDot h]
    simp [Backend.place, S3.baseParts, hBase]

theorem S3.baseParts_kept (base : String) : ∀ c ∈ S3.baseParts base, c ≠ [] ∧ c ≠ dot ∧ '/' ∉ c := by
  intro c hc
  unfold S3.baseParts at hc
  split at hc
  · simp at hc
  · obtain ⟨hNe, hDot, hSlash, -⟩ := normal_kept (fun _ h => slashFree_of_mem_components h) c hc
    exact ⟨hNe, hDot, hSlash⟩

theorem Backend.place_kept (backend : Backend) (key : List Char) :
    ∀ c ∈ backend.place (components key), c ≠ [] ∧ c ≠ dot ∧ '/' ∉ c := by
  intro c hc
  cases backend with
  | s3 base =>
    rcases mem_append.mp hc with hc | hc
    · exact S3.baseParts_kept base c hc
    · obtain ⟨hMem, hKeep⟩ := mem_filter.mp hc
      simp only [keeps, Bool.and_eq_true, decide_eq_true_eq, ne_eq] at hKeep
      exact ⟨hKeep.1, hKeep.2, slashFree_of_mem_components hMem⟩
  | filesystem =>
    obtain ⟨hNe, hDot, hSlash, -⟩ := normal_kept (fun _ h => slashFree_of_mem_components h) c hc
    exact ⟨hNe, hDot, hSlash⟩

variable {tail : List Component}

theorem Backend.place_append (backend : Backend) (h : ∀ c ∈ tail, Plain c) :
    backend.place (parts ++ tail) = backend.place parts ++ tail := by
  cases backend with
  | s3 base =>
    have hTail : tail.filter keeps = tail := filter_eq_self.mpr fun c hc => keeps_of_plain (h c hc)
    simp [place, hTail]
  | filesystem => exact normal_append_plain h

theorem S3.joinObjectKey_ok {base : String} (h : S3.joinObjectKey base part = .ok a) :
    a = join (Backend.place (.s3 base) (components part.toList)) := by
  unfold S3.joinObjectKey at h
  by_cases hDots : dotDot ∈ components part.toList
  · simp [hDots] at h
  · obtain ⟨rooted, hJoined⟩ := S3.trim_clean_join base hDots
    simp only [hDots, if_false, hJoined] at h
    have hKept := Backend.place_kept (.s3 base) part.toList
    generalize Backend.place (.s3 base) (components part.toList) = parts at h hKept
    split at h
    · rename_i hEmpty
      simp only [if_true, Except.ok.injEq] at h
      simp [← h, hEmpty.1]
    · rw [if_neg (join_ne_dot hKept)] at h
      unfold S3.checkSegments at h
      split at h
      · simp at h
      · simpa using h.symm

theorem Filesystem.safePath_path (key : List Char) :
    clean ('/' :: key) = '/' :: join (normal true (components key)) := by
  have hComponents : components ('/' :: key) = [] :: components key := components_append [] key
  have hNormal : normal true ([] :: components key) = normal true (components key) := by simp [normal, push]
  simp [clean, isRooted, hComponents, hNormal]

variable {backend : Backend} {key : String}

theorem Backend.locate_ok (h : backend.locate key = .ok a) :
    a = join (backend.place (components key.toList)) := by
  cases backend with
  | s3 base => exact S3.joinObjectKey_ok h
  | filesystem =>
    simp only [locate, Filesystem.safePath, Filesystem.safePath_path] at h
    split at h
    · simp at h
    · simpa [place] using h.symm

def EndsIn (a : Address) (tail : List Component) : Prop :=
  ∃ parts, a = join (parts ++ tail) ∧ ∀ c ∈ parts ++ tail, '/' ∉ c

theorem endsIn_self (h : components a = parts ++ tail) : EndsIn a tail := by
  refine ⟨parts, ?_, ?_⟩
  · rw [← h, join_components]
  · intro c hc
    rw [← h] at hc
    exact slashFree_of_mem_components hc

theorem Backend.endsIn_of_locate
    (h : backend.locate key = .ok a) (hParts : components key.toList = parts ++ tail)
    (hTail : ∀ c ∈ tail, Plain c) : EndsIn a tail := by
  have hFree := fun c hc => (backend.place_kept key.toList c hc).2.2
  have hAddress := Backend.locate_ok h
  rw [hParts, backend.place_append hTail] at hFree hAddress
  exact ⟨_, hAddress, hFree⟩

theorem EndsIn.last (front : List Component) (h : EndsIn a (front ++ [c])) : EndsIn a [c] := by
  obtain ⟨parts, hAddress, hFree⟩ := h
  exact ⟨parts ++ front, by simpa using hAddress, by simpa using hFree⟩

theorem EndsIn.unique {ending : List Component} (h : EndsIn a tail) (h' : EndsIn a ending)
    (hLength : tail.length = ending.length) (hNe : tail ≠ []) : tail = ending := by
  obtain ⟨parts, hParts, hFree⟩ := h
  obtain ⟨others, hOthers, hFree'⟩ := h'
  have hEndingNe : ending ≠ [] := by
    intro hNil
    rw [hNil, length_nil] at hLength
    exact hNe (length_eq_zero_iff.mp hLength)
  have hAll := join_inj hFree hFree' (by simp [hNe]) (by simp [hEndingNe]) (hParts.symm.trans hOthers)
  exact (append_inj' hAll hLength).2

end DBVault
