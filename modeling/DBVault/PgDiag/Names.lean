import DBVault.PgDiag
import DBVault.Text.Records

/-! The objects that the elevation statements name. A script of them is read back as SQL, so
that what it grants can be compared with what an audit found. -/
namespace DBVault.PgDiag
open List Text Sql Access

def nameOf (part : List Char) : Option Name :=
  if h : cleanIdentPart part ≠ [] then some ⟨cleanIdentPart part, h⟩ else none

def schemaTarget (name : List Char) : Option Target := (nameOf name).map .schema

def relationTarget (name : List Char) : Option Target :=
  match (splitQualifiedIdent (trim name)).mapM nameOf with
  | none => none
  | some parts => if h : parts = [] then none else some (.relation parts.dropLast (parts.getLast h))

def statementsOn (target : List Char → Option Target) (build : Target → Statement)
    (names : List (List Char)) : List Statement :=
  names.filterMap fun name => (target name).map build

def grants (obj : DeniedObjects) (role : Name) : List Statement :=
  statementsOn schemaTarget (⟨.grant, .usage, [], ·, role⟩) obj.schemas ++
  statementsOn relationTarget (⟨.grant, .select, [], ·, role⟩) obj.tables ++
  statementsOn relationTarget (⟨.grant, .usage, [.select], ·, role⟩) obj.sequences

def revokes (obj : DeniedObjects) (role : Name) : List Statement :=
  statementsOn relationTarget (⟨.revoke, .select, [], ·, role⟩) obj.tables ++
  statementsOn relationTarget (⟨.revoke, .usage, [.select], ·, role⟩) obj.sequences ++
  statementsOn schemaTarget (⟨.revoke, .usage, [], ·, role⟩) obj.schemas

theorem sanitizeSchema_cases (name : List Char) :
    (sanitizeSchema name = [] ∧ schemaTarget name = none) ∨
      ∃ n : Name, sanitizeSchema name = quote n.1 ∧ schemaTarget name = some (.schema n) := by
  by_cases hClean : cleanIdentPart name = []
  · left
    simp [sanitizeSchema, schemaTarget, nameOf, hClean]
  · right
    exact ⟨⟨cleanIdentPart name, hClean⟩, by simp [sanitizeSchema, hClean, pgQuoteIdent],
      by simp [schemaTarget, nameOf, hClean]⟩

theorem mapM_nameOf_cases (parts : List (List Char)) :
    ([] ∈ parts.map cleanIdentPart ∧ parts.mapM nameOf = none) ∨
      ∃ names : List Name, parts.map cleanIdentPart = names.map Subtype.val ∧ parts.mapM nameOf = some names := by
  induction parts with
  | nil => exact .inr ⟨[], rfl, rfl⟩
  | cons part rest ih =>
    by_cases hClean : cleanIdentPart part = []
    · left
      simp [nameOf, hClean]
    · rcases ih with ⟨hEmpty, hNone⟩ | ⟨names, hNames, hSome⟩
      · left
        refine ⟨mem_cons_of_mem _ hEmpty, ?_⟩
        simp [nameOf, hClean, hNone]
      · right
        refine ⟨⟨cleanIdentPart part, hClean⟩ :: names, by simp [hNames], ?_⟩
        simp [nameOf, hClean, hSome]

theorem sanitizeQualified_cases (name : List Char) :
    (sanitizeQualified name = [] ∧ relationTarget name = none) ∨
      ∃ t : Target, sanitizeQualified name = t.text ∧ relationTarget name = some t := by
  rcases mapM_nameOf_cases (splitQualifiedIdent (trim name)) with ⟨hEmpty, hNone⟩ | ⟨names, hNames, hSome⟩
  · left
    simp [sanitizeQualified, relationTarget, hNone, hEmpty]
  · by_cases hParts : names = []
    · left
      simp [sanitizeQualified, relationTarget, hSome, hNames, hParts]
    · right
      refine ⟨.relation names.dropLast (names.getLast hParts), ?_, ?_⟩
      · have hText : trim name ≠ [] := by
          intro hBlank
          rw [hBlank] at hNames
          exact hParts (map_eq_nil_iff.mp hNames.symm)
        have hSpelled : ¬ (trim name = [] ∨ names.map Subtype.val = [] ∨ [] ∈ names.map Subtype.val) := by
          simp only [hText, map_eq_nil_iff, hParts, false_or]
          rintro hIn
          obtain ⟨n, -, hEmpty⟩ := mem_map.mp hIn
          exact n.2 hEmpty
        rw [sanitizeQualified, hNames, if_neg hSpelled, Target.text_intercalate, dropLast_append_getLast, map_map]
        rfl
      · simp [relationTarget, hSome, hParts]

theorem statementsFor_texts
    (hSpell : ∀ name, (spell name = [] ∧ target name = none) ∨
      ∃ t, spell name ≠ [] ∧ stmt (spell name) = (build t).text ∧ target name = some t)
    (names : List (List Char)) :
    (statementsFor spell stmt names).map StmtAndID.stmt =
      (statementsOn target build names).map Statement.text := by
  induction names with
  | nil => rfl
  | cons name rest ih =>
    simp only [statementsFor, statementsOn, filterMap_cons] at ih ⊢
    rcases hSpell name with ⟨hEmpty, hNone⟩ | ⟨t, hFull, hText, hSome⟩
    · simpa [hEmpty, hNone] using ih
    · simpa [hFull, hSome, hText] using ih

theorem quote_ne_nil (chars : List Char) : quote chars ≠ [] := by simp [quote]

section Scripts
variable (obj : DeniedObjects) (role : Name)

theorem schemaStatements_texts (verb : Verb) (lead word : List Char)
    (hText : ∀ n : Name, lead ++ quote n.1 ++ word ++ quote role.1 =
      Statement.text ⟨verb, .usage, [], .schema n, role⟩) (names : List (List Char)) :
    (statementsFor sanitizeSchema (fun q => lead ++ q ++ word ++ quote role.1) names).map StmtAndID.stmt =
      (statementsOn schemaTarget (⟨verb, .usage, [], ·, role⟩) names).map Statement.text := by
  apply statementsFor_texts
  intro name
  rcases sanitizeSchema_cases name with hNone | ⟨n, hQuote, hSome⟩
  · exact .inl hNone
  · right
    refine ⟨.schema n, ?_, ?_, hSome⟩
    · rw [hQuote]
      exact quote_ne_nil n.1
    · rw [hQuote]
      exact hText n

theorem relationStatements_texts (verb : Verb) (access : Access) (more : List Access)
    (lead word : List Char) (hText : ∀ t : Target, lead ++ t.text ++ word ++ quote role.1 =
      Statement.text ⟨verb, access, more, t, role⟩) (names : List (List Char)) :
    (statementsFor sanitizeQualified (fun q => lead ++ q ++ word ++ quote role.1) names).map StmtAndID.stmt =
      (statementsOn relationTarget (⟨verb, access, more, ·, role⟩) names).map Statement.text := by
  apply statementsFor_texts
  intro name
  rcases sanitizeQualified_cases name with hNone | ⟨t, hQuote, hSome⟩
  · exact .inl hNone
  · right
    refine ⟨t, ?_, ?_, hSome⟩
    · rw [hQuote]
      exact Target.text_ne_nil t
    · rw [hQuote]
      exact hText t

theorem elevationStatements_grant :
    (elevationStatements obj role.1 true).map StmtAndID.stmt = (grants obj role).map Statement.text := by
  unfold elevationStatements grants pgQuoteIdent
  rw [if_pos rfl, map_append, map_append, map_append, map_append,
    schemaStatements_texts role .grant _ _ (by simp [Statement.text, text_usage, Target.text_schema]),
    relationStatements_texts role .grant .select [] _ _ (by simp [Statement.text, text_select]),
    relationStatements_texts role .grant .usage [.select] _ _ (by simp [Statement.text, text_usage, text_select])]

theorem elevationStatements_revoke :
    (elevationStatements obj role.1 false).map StmtAndID.stmt = (revokes obj role).map Statement.text := by
  unfold elevationStatements revokes pgQuoteIdent
  rw [if_neg (by decide), map_append, map_append, map_append, map_append,
    schemaStatements_texts role .revoke _ _ (by simp [Statement.text, text_usage, Target.text_schema]),
    relationStatements_texts role .revoke .select [] _ _ (by simp [Statement.text, text_select]),
    relationStatements_texts role .revoke .usage [.select] _ _ (by simp [Statement.text, text_usage, text_select])]

theorem elevationScript_grant :
    elevationScript obj role.1 true = script ((grants obj role).map Statement.text) := by
  rw [elevationScript, elevationStatements_grant]

theorem elevationScript_revoke :
    elevationScript obj role.1 false = script ((revokes obj role).map Statement.text) := by
  rw [elevationScript, elevationStatements_revoke]

end Scripts

def isSafeIdent : List Char → Bool
  | [] => false
  | c :: rest => (c.isLower || c = '_') && rest.all fun d => d.isLower || d.isDigit || d = '_'

/-- PostgreSQL's `quote_ident`, for any set of reserved words. -/
def quoteIdent (reserved : List Char → Bool) (name : List Char) : List Char :=
  if isSafeIdent name && !reserved name then name else quote name

structure Findings where
  (tables sequences : List (Name × Name))
  schemas : List Name
  deriving DecidableEq

namespace Findings
variable (found : Findings)

def names : List Name := (found.tables ++ found.sequences).flatMap (fun (s, n) => [s, n]) ++ found.schemas

def targets : List Target :=
  found.schemas.map .schema ++ (found.tables ++ found.sequences).map fun (s, n) => .relation [s] n

end Findings

section Audit
variable (reserved : List Char → Bool)

def relationRow : Name × Name → List Char
  | (s, n) => quoteIdent reserved s.1 ++ '.' :: quoteIdent reserved n.1

def schemaRow (n : Name) : List Char := quoteIdent reserved n.1

/-- What `psql` prints of `string_agg`, as `runPsql` returns it. -/
def answer (rows : List (List Char)) : List Char := trim (", ".toList.intercalate rows ++ ['\n'])

def Findings.denied (found : Findings) : Result DeniedObjects :=
  auditObjects (.ok (answer (found.tables.map (relationRow reserved))))
    (.ok (answer (found.sequences.map (relationRow reserved))))
    (.ok (answer (found.schemas.map (schemaRow reserved))))

theorem Findings.denied_eq (found : Findings) : found.denied reserved =
    .ok ⟨splitAuditList (answer (found.tables.map (relationRow reserved))),
      splitAuditList (answer (found.sequences.map (relationRow reserved))),
      splitAuditList (answer (found.schemas.map (schemaRow reserved)))⟩ := rfl

structure Tight (chars : List Char) : Prop where
  nonempty : chars ≠ []
  head : ∀ c ∈ chars.head?, isSpace c = false
  last : ∀ c ∈ chars.getLast?, isSpace c = false

variable {chars : List Char}

theorem Tight.trim_eq {lead : List Char} (hTight : Tight chars)
    (hLead : ∀ c ∈ lead, isSpace c = true) : trim (lead ++ chars) = chars := by
  have hTrim : trim (lead ++ (chars ++ [])) = chars := trim_append hLead (by simp) hTight.head hTight.last
  rwa [append_nil] at hTrim

theorem isSpace_singleton (hSpace : isSpace c = true) : ∀ d ∈ [c], isSpace d = true := by simpa using hSpace

/-- A row that splitting leaves as it is, too. -/
structure Row (chars : List Char) : Prop extends Tight chars where
  commaFree : ',' ∉ chars

variable {piece : List Char}

theorem splitAuditList_append {text : List Char} (hComma : ',' ∉ piece) (hPiece : trim piece ≠ []) :
    splitAuditList (piece ++ ',' :: text) = trim piece :: splitAuditList text := by
  simp [splitAuditList, splitOn_append_cons_self, splitOn_eq_singleton hComma, hPiece]

variable {rows : List (List Char)} {part : List Char}

theorem splitAuditList_intercalate (hRows : ∀ row ∈ rows, Row row) (hLead : ∀ c ∈ lead, isSpace c = true)
    (hComma : ',' ∉ lead) : splitAuditList (lead ++ ", ".toList.intercalate rows) = rows := by
  induction rows generalizing lead with
  | nil =>
    have hTrim : trim (lead ++ ([] ++ [])) = [] := trim_append hLead (by simp) (by simp) (by simp)
    simp only [append_nil] at hTrim
    simp [splitAuditList, splitOn_eq_singleton hComma, hTrim]
  | cons row rest ih =>
    have hRow : Row row := hRows row (by simp)
    have hTrim : trim (lead ++ row) = row := hRow.trim_eq hLead
    have hPiece : ',' ∉ lead ++ row := by simp [hComma, hRow.commaFree]
    cases rest with
    | nil => simp [splitAuditList, splitOn_eq_singleton hPiece, hTrim, hRow.nonempty]
    | cons next others =>
      have hNext : splitAuditList ([' '] ++ ", ".toList.intercalate (next :: others)) = next :: others :=
        ih (fun r hr => hRows r (mem_cons_of_mem _ hr)) (isSpace_singleton (by decide)) (by decide)
      have hText : lead ++ ", ".toList.intercalate (row :: next :: others) =
          (lead ++ row) ++ ',' :: ([' '] ++ ", ".toList.intercalate (next :: others)) := by
        simp [intercalate_cons_cons]
      rw [hText, splitAuditList_append hPiece (by simp [hTrim, hRow.nonempty]), hTrim, hNext]

theorem intercalate_ne_nil (hRow : row ≠ []) (rest : List (List Char)) :
    ", ".toList.intercalate (row :: rest) ≠ [] := by
  cases rest with
  | nil => simpa [List.intercalate] using hRow
  | cons next others => simp [intercalate_cons_cons]

theorem intercalate_head (hRows : ∀ row ∈ rows, Tight row) :
    ∀ c ∈ (", ".toList.intercalate rows).head?, isSpace c = false := by
  cases rows with
  | nil => simp
  | cons row rest =>
    have hRow : Tight row := hRows row (by simp)
    have hHead : (", ".toList.intercalate (row :: rest)).head? = row.head? := by
      cases rest with
      | nil => simp [List.intercalate]
      | cons next others => rw [intercalate_cons_cons, append_assoc, head?_append_of_ne_nil _ hRow.nonempty]
    rw [hHead]
    exact hRow.head

theorem intercalate_last (hRows : ∀ row ∈ rows, Tight row) :
    ∀ c ∈ (", ".toList.intercalate rows).getLast?, isSpace c = false := by
  induction rows with
  | nil => simp
  | cons row rest ih =>
    cases rest with
    | nil => simpa [List.intercalate] using (hRows row (by simp)).last
    | cons next others =>
      have hNext : Tight next := hRows next (by simp)
      rw [intercalate_cons_cons, getLast?_append_of_ne_nil _ (intercalate_ne_nil hNext.nonempty others)]
      exact ih fun r hr => hRows r (mem_cons_of_mem _ hr)

theorem splitAuditList_answer (hRows : ∀ row ∈ rows, Row row) : splitAuditList (answer rows) = rows := by
  have hTrim : trim ([] ++ (", ".toList.intercalate rows ++ ['\n'])) = ", ".toList.intercalate rows :=
    trim_append (by simp) (isSpace_singleton (by decide)) (intercalate_head fun row hIn => (hRows row hIn).toTight)
      (intercalate_last fun row hIn => (hRows row hIn).toTight)
  have hSplit : splitAuditList ([] ++ ", ".toList.intercalate rows) = rows :=
    splitAuditList_intercalate hRows (by simp) (by simp)
  rw [nil_append] at hTrim hSplit
  rw [answer, hTrim, hSplit]

def IsSafe (c : Char) : Prop := c.isLower = true ∨ c.isDigit = true ∨ c = '_'

theorem IsSafe.bounds (hSafe : IsSafe c) : 48 ≤ c.toNat ∧ c.toNat ≤ 122 := by
  rcases hSafe with hLower | hDigit | rfl
  · change (decide (c.val ≥ 'a'.val) && decide (c.val ≤ 'z'.val)) = true at hLower
    simp only [Bool.and_eq_true, decide_eq_true_eq, UInt32.le_iff_toNat_le] at hLower
    have hFirst : 97 ≤ c.toNat := hLower.1
    have hLast : c.toNat ≤ 122 := hLower.2
    omega
  · simp only [Char.isDigit, Bool.and_eq_true, decide_eq_true_eq, UInt32.le_iff_toNat_le] at hDigit
    have hFirst : 48 ≤ c.toNat := hDigit.1
    have hLast : c.toNat ≤ 57 := hDigit.2
    omega
  · decide

variable {c : Char}

theorem IsSafe.ne {d : Char} (hSafe : IsSafe c) (hd : d.toNat < 48) : c ≠ d := by
  rintro rfl
  have := hSafe.bounds
  omega

theorem IsSafe.not_isSpace (hSafe : IsSafe c) : isSpace c = false := by
  obtain ⟨hFirst, hLast⟩ := hSafe.bounds
  generalize hCode : c.toNat = code at hFirst hLast
  simp only [isSpace, hCode]
  interval_cases code <;> rfl

variable {name : List Char}

theorem isSafeIdent_all (hSafe : isSafeIdent name = true) : ∀ c ∈ name, IsSafe c := by
  cases name with
  | nil => simp
  | cons c rest =>
    simp only [isSafeIdent, Bool.and_eq_true, Bool.or_eq_true, all_eq_true, decide_eq_true_eq] at hSafe
    intro d hd
    unfold IsSafe
    rcases mem_cons.mp hd with rfl | hRest
    · tauto
    · have hOther := hSafe.2 d hRest
      tauto

theorem isPlainIdent_of_safe (hSafe : isSafeIdent name = true) : isPlainIdent name = true := by
  cases name with
  | nil => simp [isSafeIdent] at hSafe
  | cons c rest =>
    have hAlpha : ∀ d : Char, d.isLower = true → d.isAlpha = true := by
      intro d hLower
      change (d.isUpper || d.isLower) = true
      rw [hLower, Bool.or_true]
    simp only [isSafeIdent, isPlainIdent, Bool.and_eq_true, Bool.or_eq_true, all_eq_true,
      decide_eq_true_eq] at hSafe ⊢
    refine ⟨hSafe.1.imp_left (hAlpha c), ?_⟩
    exact fun d hd => .inl ((hSafe.2 d hd).imp_left (Or.imp_left (hAlpha d)))

theorem quoteIdent_cases (name : List Char) :
    (quoteIdent reserved name = name ∧ isSafeIdent name = true) ∨ quoteIdent reserved name = quote name := by
  unfold quoteIdent
  split
  · rename_i hPlain
    simp only [Bool.and_eq_true] at hPlain
    exact .inl ⟨rfl, hPlain.1⟩
  · exact .inr rfl

theorem mem_quoteIdent_comma : ',' ∈ quoteIdent reserved name ↔ ',' ∈ name := by
  rcases quoteIdent_cases reserved name with ⟨hSame, -⟩ | hQuote
  · rw [hSame]
  · simp [hQuote, quote, mem_double]

theorem quote_tight (chars : List Char) : Tight (quote chars) := by
  refine ⟨by simp [quote], ?_, ?_⟩
  · intro c hc
    obtain rfl : '"' = c := by simpa [quote] using hc
    decide
  · intro c hc
    rw [quote, ← cons_append, getLast?_concat] at hc
    obtain rfl : '"' = c := by simpa using hc
    decide

theorem quoteIdent_tight (name : Name) : Tight (quoteIdent reserved name.1) := by
  rcases quoteIdent_cases reserved name.1 with ⟨hSame, hSafe⟩ | hQuote
  · rw [hSame]
    exact ⟨name.2, fun c hc => (isSafeIdent_all hSafe c (mem_of_mem_head? hc)).not_isSpace,
      fun c hc => (isSafeIdent_all hSafe c (mem_of_mem_getLast? hc)).not_isSpace⟩
  · rw [hQuote]
    exact quote_tight name.1

theorem relationRow_tight (relation : Name × Name) : Tight (relationRow reserved relation) := by
  obtain ⟨s, n⟩ := relation
  have hSchema := quoteIdent_tight reserved s
  have hName := quoteIdent_tight reserved n
  refine ⟨by simp [relationRow], ?_, ?_⟩
  · rw [relationRow, head?_append_of_ne_nil _ hSchema.nonempty]
    exact hSchema.head
  · have hText : relationRow reserved (s, n) =
        (quoteIdent reserved s.1 ++ ['.']) ++ quoteIdent reserved n.1 := by simp [relationRow]
    rw [hText, getLast?_append_of_ne_nil _ hName.nonempty]
    exact hName.last

theorem splitQualifiedFrom_plain (hPlain : ∀ c ∈ chars, c ≠ '"' ∧ c ≠ '.')
    (inQuote : Bool) (cur rest : List Char) :
    splitQualifiedFrom inQuote cur (chars ++ rest) = splitQualifiedFrom inQuote (chars.reverse ++ cur) rest := by
  induction chars generalizing cur with
  | nil => rfl
  | cons c others ih =>
    have hc := hPlain c (by simp)
    have hNext := ih (fun d hd => hPlain d (by simp [hd])) (c :: cur)
    simp [splitQualifiedFrom, hc, hNext]

theorem splitQualifiedFrom_double (chars cur rest : List Char) :
    splitQualifiedFrom true cur (double chars ++ rest) =
      splitQualifiedFrom true ((double chars).reverse ++ cur) rest := by
  induction chars generalizing cur with
  | nil => rfl
  | cons c others ih =>
    by_cases hQuote : c = '"'
    · have hNext := ih ('"' :: '"' :: cur)
      simp [double, hQuote, splitQualifiedFrom] at hNext ⊢
      exact hNext
    · have hNext := ih (c :: cur)
      simp [double, hQuote, splitQualifiedFrom] at hNext ⊢
      exact hNext

theorem splitQualifiedFrom_quote (chars cur rest : List Char) :
    splitQualifiedFrom false cur (quote chars ++ rest) =
      splitQualifiedFrom false ((quote chars).reverse ++ cur) rest := by
  have hInner := splitQualifiedFrom_double chars ('"' :: cur) ('"' :: rest)
  simp [quote, splitQualifiedFrom] at hInner ⊢
  exact hInner

theorem splitQualifiedFrom_quoteIdent (name cur rest : List Char) :
    splitQualifiedFrom false cur (quoteIdent reserved name ++ rest) =
      splitQualifiedFrom false ((quoteIdent reserved name).reverse ++ cur) rest := by
  rcases quoteIdent_cases reserved name with ⟨hSame, hSafe⟩ | hQuote
  · rw [hSame]
    apply splitQualifiedFrom_plain
    intro c hc
    have hChar := isSafeIdent_all hSafe c hc
    exact ⟨hChar.ne (by decide), hChar.ne (by decide)⟩
  · rw [hQuote]
    exact splitQualifiedFrom_quote name cur rest

theorem unescape_cons (hQuote : c ≠ '"') (rest : List Char) : unescape (c :: rest) = c :: unescape rest := by
  rw [unescape]
  simp [hQuote]

theorem unescape_double (chars : List Char) : unescape (double chars) = chars := by
  induction chars with
  | nil => rfl
  | cons c others ih =>
    by_cases hQuote : c = '"'
    · subst hQuote
      have hTwo : double ('"' :: others) = '"' :: '"' :: double others := by simp [double]
      rw [hTwo, unescape, ih]
    · have hOne : double (c :: others) = c :: double others := by simp [double, hQuote]
      rw [hOne, unescape_cons hQuote, ih]

def Printable (chars : List Char) : Prop := ∀ c ∈ chars, 32 ≤ c.toNat

instance (chars : List Char) : Decidable (Printable chars) :=
  List.decidableBAll (fun c : Char => 32 ≤ c.toNat) chars

theorem cleanIdentPart_quote (hPrintable : Printable chars) : cleanIdentPart (quote chars) = chars := by
  have hTrim : trim ([] ++ quote chars) = quote chars := (quote_tight chars).trim_eq (by simp)
  have hControl : (quote chars).any (·.toNat < 32) = false := by
    simp only [any_eq_false, decide_eq_true_eq, not_lt, quote, mem_cons, mem_append,
      mem_double, mem_nil_iff, or_false]
    rintro c (rfl | hIn | rfl)
    · decide
    · exact hPrintable c hIn
    · decide
  have hLast : (quote chars).getLast? = some '"' := by rw [quote, ← cons_append, getLast?_concat]
  have hInner : (quote chars).tail.dropLast = double chars := by simp [quote]
  rw [nil_append] at hTrim
  simp only [cleanIdentPart, hTrim, hControl, quote_ne_nil, Bool.false_eq_true, or_self, if_false,
    hLast, hInner, unescape_double]
  simp [quote]

theorem cleanIdentPart_quoteIdent {name : Name} (hPrintable : Printable name.1) :
    cleanIdentPart (quoteIdent reserved name.1) = name.1 := by
  rcases quoteIdent_cases reserved name.1 with ⟨hSame, hSafe⟩ | hQuote
  · have hTrim : trim ([] ++ quoteIdent reserved name.1) = quoteIdent reserved name.1 :=
      (quoteIdent_tight reserved name).trim_eq (by simp)
    have hHead : name.1.head? ≠ some '"' := by
      intro hMark
      have hChar := isSafeIdent_all hSafe _ (mem_of_mem_head? hMark)
      exact hChar.ne (d := '"') (by decide) rfl
    have hControl : name.1.any (·.toNat < 32) = false := by simpa [Printable] using hPrintable
    rw [nil_append, hSame] at hTrim
    rw [hSame]
    simp [cleanIdentPart, hTrim, name.2, hControl, hHead, isPlainIdent_of_safe hSafe]
  · rw [hQuote]
    exact cleanIdentPart_quote hPrintable

theorem nameOf_quoteIdent {name : Name} (hPrintable : Printable name.1) :
    nameOf (quoteIdent reserved name.1) = some name := by
  simp [nameOf, cleanIdentPart_quoteIdent reserved hPrintable, name.2]

theorem schemaTarget_row (hPrintable : Printable n.1) :
    schemaTarget (schemaRow reserved n) = some (.schema n) := by
  simp [schemaTarget, schemaRow, nameOf_quoteIdent reserved hPrintable]

theorem splitQualifiedIdent_row (s n : Name) : splitQualifiedIdent (relationRow reserved (s, n)) =
    [quoteIdent reserved s.1, quoteIdent reserved n.1] := by
  have hEnd := splitQualifiedFrom_quoteIdent reserved n.1 [] []
  have hName := (quoteIdent_tight reserved n).nonempty
  simp only [append_nil, splitQualifiedFrom, reverse_eq_nil_iff, hName, if_false, reverse_reverse] at hEnd
  rw [splitQualifiedIdent, relationRow, splitQualifiedFrom_quoteIdent]
  simp [splitQualifiedFrom, hEnd]

theorem relationTarget_row (hSchema : Printable s.1) (hName : Printable n.1) :
    relationTarget (relationRow reserved (s, n)) = some (.relation [s] n) := by
  have hTrim : trim ([] ++ relationRow reserved (s, n)) = relationRow reserved (s, n) :=
    (relationRow_tight reserved (s, n)).trim_eq (by simp)
  rw [nil_append] at hTrim
  simp [relationTarget, hTrim, splitQualifiedIdent_row, nameOf_quoteIdent reserved hSchema,
    nameOf_quoteIdent reserved hName]

theorem commaFree_of_mem_splitAuditList {rows : List Char} (hPiece : piece ∈ splitAuditList rows) :
    ',' ∉ piece := by
  obtain ⟨hIn, -⟩ := mem_filter.mp hPiece
  obtain ⟨raw, hRaw, rfl⟩ := mem_map.mp hIn
  intro hComma
  exact Path.not_mem_of_mem_splitOn hRaw (mem_of_mem_trim hComma)

theorem mem_unescape (hIn : c ∈ unescape chars) : c ∈ chars := by
  fun_induction unescape chars with
  | case1 rest ih =>
    rcases mem_cons.mp hIn with rfl | hRest
    · simp
    · simp [ih hRest]
  | case2 d rest _ ih =>
    rcases mem_cons.mp hIn with rfl | hRest
    · simp
    · simp [ih hRest]
  | case3 => exact hIn

theorem mem_cleanIdentPart (hIn : c ∈ cleanIdentPart part) : c ∈ part := by
  simp only [cleanIdentPart] at hIn
  split at hIn
  · simp at hIn
  · split at hIn
    · exact mem_of_mem_trim (mem_of_mem_tail (dropLast_subset _ (mem_unescape hIn)))
    · split at hIn
      · exact mem_of_mem_trim hIn
      · simp at hIn

theorem mem_splitQualifiedFrom {inQuote : Bool}
    (hPart : part ∈ splitQualifiedFrom inQuote cur name) (hIn : c ∈ part) : c ∈ cur ∨ c ∈ name := by
  fun_induction splitQualifiedFrom inQuote cur name with
  | case1 => simp at hPart
  | case2 _ cur _ =>
    obtain rfl : part = cur.reverse := by simpa using hPart
    exact .inl (mem_reverse.mp hIn)
  | case3 _ cur rest ih =>
    rcases ih hPart with hCur | hRest
    · rcases mem_cons.mp hCur with rfl | hCur
      · simp
      · exact .inl hCur
    · simp [hRest]
  | case4 _ cur d rest _ _ ih =>
    rcases mem_cons.mp hPart with rfl | hPart
    · exact .inl (mem_reverse.mp hIn)
    · rcases ih hPart with hCur | hRest
      · simp at hCur
      · simp [hRest]
  | case5 _ cur d rest _ _ ih =>
    rcases ih hPart with hCur | hRest
    · rcases mem_cons.mp hCur with rfl | hCur
      · simp
      · exact .inl hCur
    · simp [hRest]

theorem mem_nameOf (hName : nameOf part = some n) (hIn : c ∈ n.1) : c ∈ part := by
  unfold nameOf at hName
  split at hName
  · obtain rfl := Option.some.inj hName
    exact mem_cleanIdentPart hIn
  · cases hName

def namesOf : Target → List Name
  | .schema n => [n]
  | .relation qualifiers n => qualifiers ++ [n]

variable {t : Target} {n : Name}

theorem mem_schemaTarget (hTarget : schemaTarget name = some t) (hName : n ∈ namesOf t) (hIn : c ∈ n.1) : c ∈ name := by
  obtain ⟨m, hOf, rfl⟩ := Option.map_eq_some_iff.mp hTarget
  obtain rfl : n = m := by simpa [namesOf] using hName
  exact mem_nameOf hOf hIn

theorem mem_relationTarget (hTarget : relationTarget name = some t) (hName : n ∈ namesOf t) (hIn : c ∈ n.1) : c ∈ name := by
  rcases mapM_nameOf_cases (splitQualifiedIdent (trim name)) with ⟨-, hNone⟩ | ⟨names, hNames, hSome⟩
  · simp [relationTarget, hNone] at hTarget
  · simp only [relationTarget, hSome] at hTarget
    split at hTarget
    · cases hTarget
    · obtain rfl := Option.some.inj hTarget
      rw [namesOf, dropLast_append_getLast] at hName
      have hClean : n.1 ∈ names.map Subtype.val := mem_map_of_mem hName
      rw [← hNames] at hClean
      obtain ⟨part, hPart, hSame⟩ := mem_map.mp hClean
      rw [← hSame] at hIn
      rcases mem_splitQualifiedFrom hPart (mem_cleanIdentPart hIn) with hCur | hText
      · simp at hCur
      · exact mem_of_mem_trim hText

end Audit

theorem mem_statementsOn {target : List Char → Option Target} {build : Target → Statement}
    {names : List (List Char)} {s : Statement} :
    s ∈ statementsOn target build names ↔ ∃ name ∈ names, ∃ t, target name = some t ∧ build t = s := by
  simp [statementsOn]

variable {t : Target}

theorem mem_grants_target (role : Name) :
    (∃ s ∈ grants obj role, s.target = t) ↔
      (∃ name ∈ obj.schemas, schemaTarget name = some t) ∨
        ∃ name ∈ obj.tables ++ obj.sequences, relationTarget name = some t := by
  simp only [grants, mem_append, mem_statementsOn]
  constructor
  · rintro ⟨s, (⟨name, hIn, u, hTarget, rfl⟩ | ⟨name, hIn, u, hTarget, rfl⟩) | ⟨name, hIn, u, hTarget, rfl⟩, rfl⟩
    · exact .inl ⟨name, hIn, hTarget⟩
    · exact .inr ⟨name, .inl hIn, hTarget⟩
    · exact .inr ⟨name, .inr hIn, hTarget⟩
  · rintro (⟨name, hIn, hTarget⟩ | ⟨name, hIn | hIn, hTarget⟩)
    · exact ⟨_, .inl (.inl ⟨name, hIn, t, hTarget, rfl⟩), rfl⟩
    · exact ⟨_, .inl (.inr ⟨name, hIn, t, hTarget, rfl⟩), rfl⟩
    · exact ⟨_, .inr ⟨name, hIn, t, hTarget, rfl⟩, rfl⟩

/-- The objects that the GRANT statements for a set of denied objects name, read off the
script that `psql` is given. -/
def Granted (obj : DeniedObjects) (grantee : Name) (t : Target) : Prop :=
  ∃ ss, readScript (elevationScript obj grantee.1 true) = some ss ∧ ∃ s ∈ ss, s.verb = .grant ∧ s.target = t

theorem grants_verb : ∀ s ∈ grants obj role, s.verb = .grant := by
  intro s hs
  simp only [grants, mem_append, mem_statementsOn] at hs
  rcases hs with (⟨_, _, _, _, rfl⟩ | ⟨_, _, _, _, rfl⟩) | ⟨_, _, _, _, rfl⟩ <;> rfl

theorem revokes_verb : ∀ s ∈ revokes obj role, s.verb = .revoke := by
  intro s hs
  simp only [revokes, mem_append, mem_statementsOn] at hs
  rcases hs with (⟨_, _, _, _, rfl⟩ | ⟨_, _, _, _, rfl⟩) | ⟨_, _, _, _, rfl⟩ <;> rfl

variable {obj : DeniedObjects} {grantee : Name}

theorem granted_iff : Granted obj grantee t ↔ (∃ name ∈ obj.schemas, schemaTarget name = some t) ∨
        ∃ name ∈ obj.tables ++ obj.sequences, relationTarget name = some t := by
  rw [← mem_grants_target grantee, Granted, elevationScript_grant, readScript_script]
  constructor
  · rintro ⟨_, ⟨rfl⟩, s, hs, -, hTarget⟩
    exact ⟨s, hs, hTarget⟩
  · rintro ⟨s, hs, hTarget⟩
    exact ⟨_, rfl, s, hs, grants_verb s hs, hTarget⟩

theorem granted_commaFree {reserved : List Char → Bool} {found : Findings}
    (hDenied : found.denied reserved = .ok obj) (hGranted : Granted obj grantee t) :
    ∀ n ∈ namesOf t, ',' ∉ n.1 := by
  rw [found.denied_eq] at hDenied
  obtain rfl := Except.ok.inj hDenied
  intro n hName hComma
  rcases granted_iff.mp hGranted with ⟨name, hIn, hTarget⟩ | ⟨name, hIn, hTarget⟩
  · exact commaFree_of_mem_splitAuditList hIn (mem_schemaTarget hTarget hName hComma)
  · rcases mem_append.mp hIn with hIn | hIn
    · exact commaFree_of_mem_splitAuditList hIn (mem_relationTarget hTarget hName hComma)
    · exact commaFree_of_mem_splitAuditList hIn (mem_relationTarget hTarget hName hComma)

namespace Findings
variable {found : Findings}

theorem exists_target {n : Name} (hName : n ∈ found.names) : ∃ t ∈ found.targets, n ∈ namesOf t := by
  simp only [names, targets, mem_append, mem_flatMap, mem_map] at hName ⊢
  rcases hName with ⟨⟨s, m⟩, hIn, hName⟩ | hIn
  · exact ⟨.relation [s] m, .inr ⟨(s, m), hIn, rfl⟩, by simpa [namesOf] using hName⟩
  · exact ⟨.schema n, .inl ⟨n, hIn, rfl⟩, by simp [namesOf]⟩

theorem mem_names_of_relation (hIn : (s, n) ∈ found.tables ++ found.sequences) :
    s ∈ found.names ∧ n ∈ found.names := by
  constructor <;>
    exact mem_append_left _ (mem_flatMap.mpr ⟨(s, n), hIn, by simp⟩)

variable (reserved : List Char → Bool)

theorem row_of_relation (hComma : ∀ n ∈ found.names, ',' ∉ n.1)
    (hIn : relation ∈ found.tables ++ found.sequences) : Row (relationRow reserved relation) := by
  obtain ⟨s, n⟩ := relation
  obtain ⟨hSchema, hName⟩ := mem_names_of_relation hIn
  refine ⟨relationRow_tight reserved (s, n), ?_⟩
  simp [relationRow, mem_quoteIdent_comma, hComma s hSchema, hComma n hName]

theorem row_of_schema (hComma : ∀ n ∈ found.names, ',' ∉ n.1) (hIn : n ∈ found.schemas) :
    Row (schemaRow reserved n) := by
  refine ⟨quoteIdent_tight reserved n, ?_⟩
  rw [schemaRow, mem_quoteIdent_comma]
  exact hComma n (mem_append_right _ hIn)

theorem denied_of_commaFree (hComma : ∀ n ∈ found.names, ',' ∉ n.1) :
    found.denied reserved = .ok ⟨found.tables.map (relationRow reserved),
      found.sequences.map (relationRow reserved), found.schemas.map (schemaRow reserved)⟩ := by
  rw [denied_eq, splitAuditList_answer, splitAuditList_answer, splitAuditList_answer]
  · exact forall_mem_map.mpr fun n hIn => row_of_schema reserved hComma hIn
  · exact forall_mem_map.mpr fun r hIn => row_of_relation reserved hComma (mem_append_right _ hIn)
  · exact forall_mem_map.mpr fun r hIn => row_of_relation reserved hComma (mem_append_left _ hIn)

theorem target_of_relation (hPrintable : ∀ n ∈ found.names, Printable n.1)
    (hIn : relation ∈ found.tables ++ found.sequences) :
    relationTarget (relationRow reserved relation) = some (.relation [relation.1] relation.2) := by
  obtain ⟨hSchema, hName⟩ := mem_names_of_relation hIn
  exact relationTarget_row reserved (hPrintable _ hSchema) (hPrintable _ hName)

theorem target_of_schema (hPrintable : ∀ n ∈ found.names, Printable n.1)
    (hIn : n ∈ found.schemas) : schemaTarget (schemaRow reserved n) = some (.schema n) :=
  schemaTarget_row reserved (hPrintable n (mem_append_right _ hIn))

theorem granted_rows_iff (hPrintable : ∀ n ∈ found.names, Printable n.1) {grantee : Name} {t : Target} :
    Granted ⟨found.tables.map (relationRow reserved), found.sequences.map (relationRow reserved),
      found.schemas.map (schemaRow reserved)⟩ grantee t ↔ t ∈ found.targets := by
  rw [granted_iff]
  simp only [← map_append, targets, mem_append (s := found.schemas.map Target.schema), mem_map]
  constructor
  · rintro (⟨_, ⟨n, hIn, rfl⟩, hTarget⟩ | ⟨_, ⟨relation, hIn, rfl⟩, hTarget⟩)
    · rw [target_of_schema reserved hPrintable hIn] at hTarget
      exact .inl ⟨n, hIn, Option.some.inj hTarget⟩
    · rw [target_of_relation reserved hPrintable hIn] at hTarget
      exact .inr ⟨relation, hIn, Option.some.inj hTarget⟩
  · rintro (⟨n, hIn, rfl⟩ | ⟨relation, hIn, rfl⟩)
    · exact .inl ⟨_, ⟨n, hIn, rfl⟩, target_of_schema reserved hPrintable hIn⟩
    · exact .inr ⟨_, ⟨relation, hIn, rfl⟩, target_of_relation reserved hPrintable hIn⟩

end Findings

/-- The GRANT statements made of the audit's text name the audited objects and no others
exactly if no audited name contains a comma: the text is cut at every comma, also at one
within quotation marks. -/
theorem audited_exactly_iff (reserved : List Char → Bool) (found : Findings)
    (hPrintable : ∀ n ∈ found.names, Printable n.1) (grantee : Name) :
    (∃ obj, found.denied reserved = .ok obj ∧ ∀ t, Granted obj grantee t ↔ t ∈ found.targets) ↔
      ∀ n ∈ found.names, ',' ∉ n.1 := by
  constructor
  · rintro ⟨obj, hDenied, hExact⟩ n hName
    obtain ⟨t, hTarget, hIn⟩ := Findings.exists_target hName
    exact granted_commaFree hDenied ((hExact t).mpr hTarget) n hIn
  · intro hComma
    exact ⟨_, Findings.denied_of_commaFree reserved hComma,
      fun t => Findings.granted_rows_iff reserved hPrintable⟩

namespace Sample

def publicSchema : Name := ⟨"public".toList, by decide +kernel⟩

def backup : Name := ⟨"backup".toList, by decide +kernel⟩

def oddTable : Name := ⟨"my \"old\".orders".toList, by decide +kernel⟩

theorem odd_table_granted :
    ∃ obj, (Findings.mk [(publicSchema, oddTable)] [] [publicSchema]).denied (fun _ => false) = .ok obj ∧
      ∀ t, Granted obj backup t ↔ t ∈ (Findings.mk [(publicSchema, oddTable)] [] [publicSchema]).targets :=
  (audited_exactly_iff (fun _ => false) ⟨[(publicSchema, oddTable)], [], [publicSchema]⟩
    (by decide +kernel) backup).mpr (by decide +kernel)

def payroll : Name := ⟨"payroll".toList, by decide +kernel⟩

def listedTable : Name := ⟨"x, public.payroll, y".toList, by decide +kernel⟩

/-- The audit finds one table. The statements grant another one instead. -/
theorem payroll_granted :
    ∃ obj, (Findings.mk [(publicSchema, listedTable)] [] []).denied (fun _ => false) = .ok obj ∧
      Granted obj backup (.relation [publicSchema] payroll) ∧
      Target.relation [publicSchema] payroll ∉ (Findings.mk [(publicSchema, listedTable)] [] []).targets ∧
      ¬ Granted obj backup (.relation [publicSchema] listedTable) ∧
      Target.relation [publicSchema] listedTable ∈
        (Findings.mk [(publicSchema, listedTable)] [] []).targets := by
  have hDenied := (Findings.mk [(publicSchema, listedTable)] [] []).denied_eq (fun _ => false)
  refine ⟨_, hDenied, ?_, by decide +kernel, ?_, by decide +kernel⟩
  · exact ⟨[⟨.grant, .select, [], .relation [publicSchema] payroll, backup⟩], by decide +kernel,
      _, mem_singleton_self _, rfl, rfl⟩
  · intro hGranted
    exact granted_commaFree hDenied hGranted listedTable (by simp [namesOf]) (by decide +kernel)

end Sample

end DBVault.PgDiag
