import DBVault.PgDiag.Names

/-! Sanitised names: what `sanitizeQualified` returns is read by SQL as one qualified name, and a
qualified name that is written as SQL writes it is left as it is. -/
namespace DBVault.PgDiag
open Text Sql

/-- A control character, as `unicode.IsControl` has it. -/
def IsControl (c : Char) : Prop := c.toNat < 32 ∨ 127 ≤ c.toNat ∧ c.toNat < 160

def qualified (names : List Name) : List Char := ['.'].intercalate (names.map fun n => quote n.1)

theorem qualified_concat (qualifiers : List Name) (n : Name) :
    qualified (qualifiers ++ [n]) = (Target.relation qualifiers n).text :=
  (Target.text_intercalate qualifiers n).symm

theorem qualified_cons_cons (n m : Name) (rest : List Name) :
    qualified (n :: m :: rest) = quote n.1 ++ '.' :: qualified (m :: rest) := by
  simp [qualified, List.intercalate_cons_cons]

theorem scan_qualified (qualifiers : List Name) (n : Name) :
    scan .between (Target.relation qualifiers n).text =
      some (qualifiers.flatMap (fun q => [.name q, .dot]), .closing n.1.reverse) := by
  induction qualifiers with
  | nil => simpa [Target.text_relation] using scan_quote n.1
  | cons q others ih =>
    have hDot : scan .between ['.'] = some ([.dot], .between) := by decide +kernel
    have hName := scan_name (n := q) (by decide) (scan_append hDot ih)
    simpa [Target.text_relation] using hName

theorem lex_qualified (qualifiers : List Name) (n : Name) :
    (lex (qualified (qualifiers ++ [n]))).bind readRelation = some (qualifiers, n, []) := by
  have hTokens : lex (qualified (qualifiers ++ [n])) =
      some (qualifiers.flatMap (fun q => [.name q, .dot]) ++ [.name n]) := by
    rw [qualified_concat, lex, scan_qualified]
    simp [Mode.close, n.2]
  rw [hTokens]
  exact readRelation_tokens qualifiers n (by simp)

theorem printable_cleanIdentPart (part : List Char) : Printable (cleanIdentPart part) := by
  intro c hIn
  simp only [cleanIdentPart] at hIn
  split at hIn
  · cases hIn
  · rename_i hText
    have hControl : ∀ d ∈ trim part, 32 ≤ d.toNat := by simpa using (not_or.mp hText).2
    split at hIn
    · exact hControl c (List.mem_of_mem_tail (List.dropLast_subset _ (mem_unescape hIn)))
    · split at hIn
      · exact hControl c hIn
      · cases hIn

/-- A part that has a character below the blank, or is neither a plain identifier nor something between
quotation marks. -/
def Refused (part : List Char) : Prop :=
  (∃ c ∈ trim part, c.toNat < 32) ∨ ¬ (isPlainIdent (trim part) = true ∨
    (trim part).head? = some '"' ∧ (trim part).getLast? = some '"' ∧ 2 < (trim part).length)

theorem unescape_eq_nil {chars : List Char} : unescape chars = [] ↔ chars = [] := by
  fun_cases unescape chars <;> simp

theorem mem_unescape_iff {c : Char} (hQuote : c ≠ '"') {chars : List Char} : c ∈ unescape chars ↔ c ∈ chars := by
  fun_induction unescape chars with
  | case1 rest ih => simp [hQuote, ih]
  | case2 d rest _ ih => simp [ih]
  | case3 => rfl

theorem cleanIdentPart_eq_nil {part : List Char} : cleanIdentPart part = [] ↔ Refused part := by
  simp only [cleanIdentPart, Refused, List.any_eq_true, decide_eq_true_eq]
  by_cases hControl : ∃ c ∈ trim part, c.toNat < 32
  · simp [hControl]
  · simp only [hControl, or_false, false_or]
    by_cases hEmpty : trim part = []
    · simp [hEmpty, isPlainIdent]
    · simp only [hEmpty, if_false]
      split
      · next hQuoted =>
        obtain ⟨hHead, hLast, hLong⟩ := hQuoted
        have hPlain : isPlainIdent (trim part) = false := by
          cases hPart : trim part with
          | nil => rfl
          | cons c rest =>
            obtain rfl : c = '"' := by simpa [hPart] using hHead
            rfl
        have hInner : (trim part).tail.dropLast.length = (trim part).length - 2 := by
          rw [List.length_dropLast, List.length_tail]
          omega
        rw [unescape_eq_nil, ← List.length_eq_zero_iff, hInner]
        simp only [hPlain, hHead, hLast, true_and, Bool.false_eq_true, false_or]
        omega
      · next hQuoted =>
        have hNot : ¬ ((trim part).head? = some '"' ∧ (trim part).getLast? = some '"' ∧ 2 < (trim part).length) :=
          fun h => hQuoted ⟨h.1, h.2.1, h.2.2.le⟩
        split <;> simp_all

/-- A delete or a later character survives in a part that is not refused. -/
theorem mem_cleanIdentPart_iff {part : List Char} (hSome : ¬ Refused part) {c : Char} (hc : 127 ≤ c.toNat) :
    c ∈ cleanIdentPart part ↔ c ∈ trim part := by
  have hQuote : c ≠ '"' := by
    rintro rfl
    exact absurd hc (by decide)
  have hSplit : ∀ {p : List Char}, p.head? = some '"' → p.getLast? = some '"' → 2 ≤ p.length →
      (c ∈ p.tail.dropLast ↔ c ∈ p) := by
    intro p hHead hLast hLong
    obtain ⟨inner, rfl⟩ : ∃ inner, p = '"' :: (inner ++ ['"']) := by
      cases p with
      | nil => cases hHead
      | cons d rest =>
        obtain rfl : d = '"' := by simpa using hHead
        have hRest : rest ≠ [] := by
          rintro rfl
          simp at hLong
        rw [List.getLast?_cons_of_ne_nil hRest] at hLast
        exact ⟨rest.dropLast, by rw [List.dropLast_append_getLast? _ hLast]⟩
    simp [hQuote]
  have hClean := mt cleanIdentPart_eq_nil.mp hSome
  simp only [cleanIdentPart] at hClean ⊢
  split at hClean
  · exact absurd rfl hClean
  · next hText =>
    rw [if_neg hText]
    split
    · next hQuoted => rw [mem_unescape_iff hQuote, hSplit hQuoted.1 hQuoted.2.1 hQuoted.2.2]
    · split
      · rfl
      · simp_all

variable {names : List Name}

theorem splitQualifiedIdent_qualified (hSome : names ≠ []) :
    splitQualifiedIdent (qualified names) = names.map fun n => quote n.1 := by
  unfold splitQualifiedIdent
  induction names with
  | nil => exact absurd rfl hSome
  | cons n rest ih =>
    cases rest with
    | nil =>
      have hName := splitQualifiedFrom_quote n.1 [] []
      simpa [qualified, splitQualifiedFrom, quote_ne_nil] using hName
    | cons m others =>
      rw [qualified_cons_cons, splitQualifiedFrom_quote]
      simp [splitQualifiedFrom, ih]

theorem qualified_tight (hSome : names ≠ []) : Tight (qualified names) := by
  have hFirst : (qualified names).head? = some '"' := by
    match names with
    | [n] => simp [qualified, quote]
    | n :: m :: rest => simp [qualified_cons_cons, quote]
  have hLast := Target.text_relation names.dropLast (names.getLast hSome)
  rw [← qualified_concat, List.dropLast_append_getLast] at hLast
  have hName := quote_tight (names.getLast hSome).1
  refine ⟨?_, ?_, ?_⟩
  · intro hEmpty
    simp [hEmpty] at hFirst
  · intro c hc
    obtain rfl : '"' = c := by simpa [hFirst] using hc
    decide
  · rw [hLast, List.getLast?_append_of_ne_nil _ hName.nonempty]
    exact hName.last

theorem sanitizeQualified_qualified (hSome : names ≠ [])
    (hPrintable : ∀ n ∈ names, Printable n.1) : sanitizeQualified (qualified names) = qualified names := by
  have hTight := qualified_tight hSome
  have hTrim : trim ([] ++ qualified names) = qualified names := hTight.trim_eq (by simp)
  have hParts : (names.map fun n => quote n.1).map cleanIdentPart = names.map Subtype.val := by
    rw [List.map_map]
    exact List.map_congr_left fun n hIn => cleanIdentPart_quote (hPrintable n hIn)
  have hNonempty : [] ∉ names.map Subtype.val := by
    intro hIn
    obtain ⟨n, -, hEmpty⟩ := List.mem_map.mp hIn
    exact n.2 hEmpty
  rw [List.nil_append] at hTrim
  simp only [sanitizeQualified, hTrim, splitQualifiedIdent_qualified hSome, hParts, hTight.nonempty,
    hNonempty, List.map_eq_nil_iff, hSome, or_self, if_false, List.map_map]
  rfl

theorem sanitizeQualified_of_names {name : List Char} (hSome : names ≠ [])
    (hNames : (splitQualifiedIdent (trim name)).mapM nameOf = some names) :
    sanitizeQualified name = qualified names := by
  have hTarget : relationTarget name = some (.relation names.dropLast (names.getLast hSome)) := by
    simp [relationTarget, hNames, hSome]
  rcases sanitizeQualified_cases name with ⟨-, hNone⟩ | ⟨t, hText, hSame⟩
  · rw [hTarget] at hNone
    cases hNone
  · obtain rfl := Option.some.inj (hTarget.symm.trans hSame)
    rw [hText, ← qualified_concat, List.dropLast_append_getLast]

/-- The sanitised text is empty or is read as one qualified name without control characters exactly if a part of
the name is refused or none has a delete or one of the control characters after it, which `cleanIdentPart`
lets pass. Names without control characters are left as they are written. -/
theorem sanitizeQualified_safe_iff (name : List Char) :
    ((sanitizeQualified name = [] ∨ ∃ qualifiers n, sanitizeQualified name = qualified (qualifiers ++ [n]) ∧
        (lex (sanitizeQualified name)).bind readRelation = some (qualifiers, n, []) ∧
        ∀ m ∈ qualifiers ++ [n], ∀ c ∈ m.1, ¬ IsControl c) ↔
      (∃ part ∈ splitQualifiedIdent (trim name), Refused part) ∨
        ∀ part ∈ splitQualifiedIdent (trim name), ∀ c ∈ trim part, c.toNat < 127 ∨ 160 ≤ c.toNat) ∧
    ∀ names : List Name, names ≠ [] → (∀ n ∈ names, ∀ c ∈ n.1, ¬ IsControl c) →
      sanitizeQualified (qualified names) = qualified names := by
  refine ⟨?_, fun names hSome hControl => sanitizeQualified_qualified hSome fun n hName c hIn =>
    not_lt.mp (not_or.mp (hControl n hName c hIn)).1⟩
  rcases mapM_nameOf_cases (splitQualifiedIdent (trim name)) with ⟨hEmpty, -⟩ | ⟨names, hNames, hMap⟩
  · obtain ⟨part, hPart, hNil⟩ := List.mem_map.mp hEmpty
    exact iff_of_true (.inl (by simp [sanitizeQualified, hEmpty])) (.inl ⟨part, hPart, cleanIdentPart_eq_nil.mp hNil⟩)
  · by_cases hSome : names = []
    · have hParts : splitQualifiedIdent (trim name) = [] := by simpa [hSome] using hNames
      exact iff_of_true (.inl (by simp [sanitizeQualified, hParts])) (.inr (by simp [hParts]))
    · have hAccepted : ∀ part ∈ splitQualifiedIdent (trim name), ¬ Refused part := by
        intro part hPart hRefused
        have hIn := List.mem_map_of_mem (f := cleanIdentPart) hPart
        rw [hNames, cleanIdentPart_eq_nil.mpr hRefused] at hIn
        obtain ⟨n, -, hNil⟩ := List.mem_map.mp hIn
        exact n.2 hNil
      have hText := sanitizeQualified_of_names hSome hMap
      have hRead := lex_qualified names.dropLast (names.getLast hSome)
      rw [List.dropLast_append_getLast] at hRead
      have hFull : qualified names ≠ [] := (qualified_tight hSome).nonempty
      have hChars : (∀ n ∈ names, ∀ c ∈ n.1, ¬ IsControl c) ↔
          ∀ part ∈ splitQualifiedIdent (trim name), ∀ c ∈ trim part, c.toNat < 127 ∨ 160 ≤ c.toNat := by
        have hMem : (∀ n ∈ names, ∀ c ∈ n.1, ¬ IsControl c) ↔
            ∀ clean ∈ names.map Subtype.val, ∀ c ∈ clean, ¬ IsControl c := by simp
        rw [hMem, ← hNames, List.forall_mem_map]
        refine forall₂_congr fun part hPart => ?_
        constructor
        · intro hClean c hIn
          by_contra hDelete
          exact hClean c ((mem_cleanIdentPart_iff (hAccepted part hPart) (by omega)).mpr hIn) (.inr (by omega))
        · rintro hTrim c hIn (hLow | hHigh)
          · exact absurd (printable_cleanIdentPart part c hIn) (by omega)
          · have hBound := hTrim c ((mem_cleanIdentPart_iff (hAccepted part hPart) hHigh.1).mp hIn)
            omega
      have hNone : ¬ ∃ part ∈ splitQualifiedIdent (trim name), Refused part := by
        rintro ⟨part, hPart, hRefused⟩
        exact hAccepted part hPart hRefused
      rw [← hChars, hText, or_iff_right hFull, or_iff_right hNone]
      constructor
      · rintro ⟨qualifiers, n, -, hOther, hClean⟩
        obtain ⟨rfl, rfl⟩ : qualifiers = names.dropLast ∧ n = names.getLast hSome := by
          simpa [eq_comm] using hRead.symm.trans hOther
        rwa [List.dropLast_append_getLast] at hClean
      · intro hClean
        refine ⟨names.dropLast, names.getLast hSome, ?_, hRead, ?_⟩ <;> rw [List.dropLast_append_getLast]
        exact hClean

/-- A quoted name with a delete in it comes back with the delete. -/
theorem delete_passes : sanitizeQualified "\"a\x7f\"".toList = "\"a\x7f\"".toList ∧
    ∃ c ∈ sanitizeQualified "\"a\x7f\"".toList, IsControl c := by
  have hSame : sanitizeQualified "\"a\x7f\"".toList = "\"a\x7f\"".toList := by decide +kernel
  refine ⟨hSame, '\x7f', ?_, .inr ⟨by decide, by decide⟩⟩
  rw [hSame]
  simp

end DBVault.PgDiag
