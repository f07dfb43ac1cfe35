import DBVault.ProductExperience.Warehouse
import Mathlib.Data.List.Sort

/-! Masking of query results on their way out of the appliance. The name of a column decides
which rule its cells are masked by; the first rule with a pattern in the name wins. -/
namespace DBVault.ProductExperience.Warehouse
open Option List Text

inductive MaskingRule where
  | email | password | phone | card | token
  deriving DecidableEq

namespace MaskingRule

def patterns : MaskingRule → List String
  | email => ["email"]
  | password => ["password", "pass_hash", "secret"]
  | phone => ["phone", "mobile", "tel"]
  | card => ["card_num", "cc_number", "cvv"]
  | token => ["api_key", "auth_token", "jwt"]

def all : List MaskingRule := [email, password, phone, card, token]

end MaskingRule

/-- What is stored in the cells of a result: any value, texts among them, each of which is
printed by `%v`. -/
structure CellValues (Value : Type) where
  ofText : String → Value
  format : Value → String
  format_ofText : ∀ text, format (ofText text) = text

theorem CellValues.ofText_injective {Value : Type} (values : CellValues Value) :
    Function.Injective values.ofText :=
  Function.LeftInverse.injective values.format_ofText

/-- `warehouse.QueryResult`, with null cells as none. -/
structure ExportResult (Value : Type) where
  columns : List ColumnMeta
  rows : List (List (Option Value))
  (rowCount executionMs bytesScanned : Int := 0)
  engine : String := ""
  executedAt : Time := (0 : Int)
  cached : Bool := false
  error : String := ""
  deriving DecidableEq

section
variable (letters : CaseMapping)

def Mentions (column : String) (rule : MaskingRule) : Prop :=
  ∃ part ∈ rule.patterns, containsText (letters.toLower column) part = true

instance (column : String) (rule : MaskingRule) : Decidable (Mentions letters column rule) :=
  inferInstanceAs (Decidable (∃ part ∈ rule.patterns, _))

def Sensitive (column : String) : Prop := ∃ rule ∈ MaskingRule.all, Mentions letters column rule

instance (column : String) : Decidable (Sensitive letters column) :=
  inferInstanceAs (Decidable (∃ rule ∈ MaskingRule.all, _))

def warehouseSensitiveRule (column : String) : Option MaskingRule :=
  MaskingRule.all.find? fun rule => decide (Mentions letters column rule)

def Credential (column : String) : Prop := Mentions letters column .password ∨ Mentions letters column .card

variable (hashes : Hashes)

def pseudonym (value : String) : String :=
  "user_" ++ hexEncode ((hashes.sha256 (utf8 (letters.toLower value))).bytes.take 4) ++ "@anonymized.internal"

def maskWarehouseValue (rule : MaskingRule) (value : String) : String :=
  match rule with
  | .password | .card => "[REDACTED]"
  | .email => pseudonym letters hashes value
  | .phone => "+1 (555) 010-0000"
  | .token => "tk_" ++ hexEncode ((hashes.sha256 (utf8 value)).bytes.take 4)

variable {Value : Type} (values : CellValues Value)

def maskCell (rule : Option MaskingRule) (cell : Option Value) : Option Value :=
  match rule with
  | some rule => cell.map fun value => values.ofText (maskWarehouseValue letters hashes rule (values.format value))
  | none => cell

def ruleByCol (columns : List ColumnMeta) (i : Nat) : Option MaskingRule :=
  columns[i]?.bind fun c => warehouseSensitiveRule letters c.name

def maskRow (columns : List ColumnMeta) (row : List (Option Value)) : List (Option Value) :=
  row.mapIdx fun i => maskCell letters hashes values (ruleByCol letters columns i)

def sensitiveColumns (columns : List ColumnMeta) : List String :=
  (columns.filter fun c => (warehouseSensitiveRule letters c.name).isSome).map (·.name)

/-- The names of the masked columns, and the masked result. -/
def applyWarehouseMasking (res : Option (ExportResult Value)) : List String × Option (ExportResult Value) :=
  match res with
  | none => ([], none)
  | some res =>
    if sensitiveColumns letters res.columns = [] then ([], some res)
    else ((sensitiveColumns letters res.columns).insertionSort (· ≤ ·),
      some { res with rows := res.rows.map (maskRow letters hashes values res.columns) })

end

section
variable {letters : CaseMapping} {column : String}

theorem isSome_rule_iff : (warehouseSensitiveRule letters column).isSome ↔ Sensitive letters column := by
  simp only [warehouseSensitiveRule, find?_isSome, decide_eq_true_eq, Sensitive]

theorem rule_of_email (hEmail : Mentions letters column .email) :
    warehouseSensitiveRule letters column = some .email := by
  simp [warehouseSensitiveRule, MaskingRule.all, hEmail]

theorem rule_of_credential (hCredential : Credential letters column)
    (hEmail : ¬ Mentions letters column .email) :
    warehouseSensitiveRule letters column = some .password ∨
      warehouseSensitiveRule letters column = some .phone ∨
      warehouseSensitiveRule letters column = some .card := by
  by_cases hPassword : Mentions letters column .password
  · simp [warehouseSensitiveRule, MaskingRule.all, hEmail, hPassword]
  have hCard := hCredential.resolve_left hPassword
  by_cases hPhone : Mentions letters column .phone
  · simp [warehouseSensitiveRule, MaskingRule.all, hEmail, hPassword, hPhone]
  · simp [warehouseSensitiveRule, MaskingRule.all, hEmail, hPassword, hPhone, hCard]

end

section
variable (letters : CaseMapping) (hashes : Hashes) {Value : Type} (values : CellValues Value)

/-- The cells differ, if at all, as two values of a column with credentials. -/
def SameCell (column : Option ColumnMeta) (first second : Option (Option Value)) : Prop :=
  first = second ∨ (∃ c, column = some c ∧ Credential letters c.name) ∧
    ∃ v w, first = some (some v) ∧ second = some (some w)

/-- Two results that differ only in cells with credentials. -/
structure SameButCredentials (first second : ExportResult Value) : Prop where
  apart : { first with rows := second.rows } = second
  rows : List.Forall₂ (fun row other => ∀ i : Nat, SameCell letters first.columns[i]? row[i]? other[i]?)
    first.rows second.rows

/-- A row that is as long as it was, with its null cells and the cells of other columns as they
were. -/
structure KeepsRow (columns : List ColumnMeta) (row new : List (Option Value)) : Prop where
  length : new.length = row.length
  null : ∀ i : Nat, row[i]? = some none → new[i]? = some none
  other : ∀ i : Nat, (∀ c, columns[i]? = some c → ¬ Sensitive letters c.name) → new[i]? = row[i]?

/-- What an export may rely on about a masked result. -/
structure MasksExactly (res : ExportResult Value) (masked : List String)
    (out : ExportResult Value) : Prop where
  apart : { res with rows := out.rows } = out
  rows : List.Forall₂ (KeepsRow letters res.columns) res.rows out.rows
  sorted : masked.Pairwise (· ≤ ·)
  columns : masked.Perm ((res.columns.filter fun c => Sensitive letters c.name).map (·.name))

variable {letters hashes values} {columns : List ColumnMeta}

theorem getElem?_maskRow (row : List (Option Value)) (i : Nat) :
    (maskRow letters hashes values columns row)[i]? =
      row[i]?.map (maskCell letters hashes values (ruleByCol letters columns i)) :=
  getElem?_mapIdx

variable {i : Nat}

theorem ruleByCol_eq_none (hOther : ∀ c, columns[i]? = some c → ¬ Sensitive letters c.name) :
    ruleByCol letters columns i = none := by
  cases hColumn : columns[i]? with
  | none => simp [ruleByCol, hColumn]
  | some c =>
    have hNone := hOther c hColumn
    rw [← isSome_rule_iff, Bool.not_eq_true, isSome_eq_false_iff, isNone_iff_eq_none] at hNone
    simp [ruleByCol, hColumn, hNone]

theorem keepsRow_maskRow (row : List (Option Value)) :
    KeepsRow letters columns row (maskRow letters hashes values columns row) where
  length := length_mapIdx
  null := by
    intro i hNull
    rw [getElem?_maskRow, hNull]
    cases hRule : ruleByCol letters columns i <;> simp [maskCell]
  other := by
    intro i hOther
    rw [getElem?_maskRow, ruleByCol_eq_none hOther]
    cases hCell : row[i]? <;> simp [maskCell]

theorem sensitiveColumns_eq :
    sensitiveColumns letters columns = (columns.filter fun c => Sensitive letters c.name).map (·.name) := by
  unfold sensitiveColumns
  congr 2
  funext c
  rw [Bool.eq_iff_iff, decide_eq_true_eq]
  exact isSome_rule_iff

theorem maskRow_eq_self (hNone : sensitiveColumns letters columns = [])
    (row : List (Option Value)) : maskRow letters hashes values columns row = row := by
  apply ext_getElem?
  intro i
  apply (keepsRow_maskRow row).other
  intro c hColumn hSensitive
  rw [sensitiveColumns_eq, map_eq_nil_iff, filter_eq_nil_iff] at hNone
  exact hNone c (mem_of_getElem? hColumn) (decide_eq_true hSensitive)

theorem applyWarehouseMasking_some (res : ExportResult Value) :
    applyWarehouseMasking letters hashes values (some res) =
      ((sensitiveColumns letters res.columns).insertionSort (· ≤ ·),
        some { res with rows := res.rows.map (maskRow letters hashes values res.columns) }) := by
  rw [applyWarehouseMasking]
  split
  · next hNone =>
    have hSame : maskRow letters hashes values res.columns = id := funext (maskRow_eq_self hNone)
    simp [hNone, hSame]
  · rfl

theorem masksExactly (res : ExportResult Value) :
    MasksExactly letters res ((sensitiveColumns letters res.columns).insertionSort (· ≤ ·))
      { res with rows := res.rows.map (maskRow letters hashes values res.columns) } where
  apart := rfl
  rows := by
    rw [forall₂_map_right_iff, forall₂_same]
    exact fun row _ => keepsRow_maskRow row
  sorted := pairwise_insertionSort (· ≤ ·) _
  columns := by
    rw [← sensitiveColumns_eq]
    exact perm_insertionSort (· ≤ ·) _

/-- Two values of one cell with credentials are masked alike, unless it is taken for the cell of
an email address. -/
theorem maskCell_eq {first second : Option (Option Value)}
    (hSame : SameCell letters columns[i]? first second)
    (hEmail : ∀ c, columns[i]? = some c → Mentions letters c.name .email →
      Credential letters c.name → ∀ v w, pseudonym letters hashes v = pseudonym letters hashes w) :
    first.map (maskCell letters hashes values (ruleByCol letters columns i)) =
      second.map (maskCell letters hashes values (ruleByCol letters columns i)) := by
  obtain rfl | ⟨⟨c, hColumn, hCredential⟩, v, w, rfl, rfl⟩ := hSame
  · rfl
  have hRule : ruleByCol letters columns i = warehouseSensitiveRule letters c.name := by simp [ruleByCol, hColumn]
  rw [hRule]
  by_cases hBoth : Mentions letters c.name .email
  · rw [rule_of_email hBoth]
    simp only [map_some, maskCell, maskWarehouseValue]
    rw [hEmail c hColumn hBoth hCredential (values.format v) (values.format w)]
  · obtain h | h | h := rule_of_credential hCredential hBoth <;> rw [h] <;> rfl

theorem maskRow_eq {row other : List (Option Value)}
    (hSame : ∀ i : Nat, SameCell letters columns[i]? row[i]? other[i]?)
    (hEmail : ∀ c ∈ columns, Mentions letters c.name .email → Credential letters c.name →
      ∀ v w, pseudonym letters hashes v = pseudonym letters hashes w) :
    maskRow letters hashes values columns row = maskRow letters hashes values columns other := by
  apply ext_getElem?
  intro i
  rw [getElem?_maskRow, getElem?_maskRow]
  exact maskCell_eq (hSame i) fun c hColumn => hEmail c (mem_of_getElem? hColumn)

/-- A result with one row, which holds a text in the column with this index and nothing else. -/
def oneCell (values : CellValues Value) (columns : List ColumnMeta) (i : Nat) (text : String) :
    ExportResult Value where
  columns := columns
  rows := [(List.range columns.length).map fun j => if j = i then some (values.ofText text) else none]

theorem getElem?_oneCell (hi : i < columns.length) (text : String) (j : Nat) :
    ((List.range columns.length).map fun j => if j = i then some (values.ofText text) else none)[j]? =
      if j = i then some (some (values.ofText text)) else if j < columns.length then some none
        else none := by
  rw [getElem?_map]
  by_cases hj : j < columns.length
  · rw [getElem?_range hj]
    by_cases hji : j = i <;> simp [hji, hj]
  · rw [getElem?_eq_none (by simpa using hj)]
    have hji : j ≠ i := by
      rintro rfl
      exact hj hi
    simp [hji, hj]

/-- The export does not depend on credentials unless some column with credentials also looks like
one with email addresses: such a column gets the pseudonyms of its values. -/
theorem masking_hides_credentials_iff (letters : CaseMapping) (hashes : Hashes)
    (values : CellValues Value) (columns : List ColumnMeta) :
    ((∀ first second : ExportResult Value, first.columns = columns →
        SameButCredentials letters first second →
        applyWarehouseMasking letters hashes values (some first) =
          applyWarehouseMasking letters hashes values (some second)) ∧
      ∀ res : ExportResult Value, res.columns = columns →
        ∃ masked out, applyWarehouseMasking letters hashes values (some res) = (masked, some out) ∧
          MasksExactly letters res masked out) ↔
      ∀ c ∈ columns, Mentions letters c.name .email → Credential letters c.name →
        ∀ v w, pseudonym letters hashes v = pseudonym letters hashes w := by
  constructor
  · rintro ⟨hHides, -⟩ c hIn hEmail hCredential v w
    obtain ⟨i, hi, hColumn⟩ := getElem_of_mem hIn
    have hColumn : columns[i]? = some c := by rw [getElem?_eq_getElem hi, hColumn]
    have hSame : SameButCredentials letters (oneCell values columns i v) (oneCell values columns i w) := by
      refine ⟨rfl, List.Forall₂.cons ?_ List.Forall₂.nil⟩
      intro j
      rw [getElem?_oneCell hi, getElem?_oneCell hi]
      by_cases hj : j = i
      · subst hj
        exact .inr ⟨⟨c, hColumn, hCredential⟩, _, _, if_pos rfl, if_pos rfl⟩
      · exact .inl (by simp [hj])
    have hOut := hHides _ _ rfl hSame
    rw [applyWarehouseMasking_some, applyWarehouseMasking_some] at hOut
    have hRule : ruleByCol letters columns i = some .email := by
      simp [ruleByCol, hColumn, rule_of_email hEmail]
    have hRows : maskRow letters hashes values columns _ = maskRow letters hashes values columns _ :=
      head_eq_of_cons_eq (congrArg ExportResult.rows (Option.some.inj (congrArg Prod.snd hOut)))
    have hCell := congrArg (·[i]?) hRows
    simp only [getElem?_maskRow, getElem?_oneCell hi, if_true, hRule, map_some, maskCell,
      maskWarehouseValue, values.format_ofText, Option.some.injEq] at hCell
    exact values.ofText_injective hCell
  · intro hEmail
    refine ⟨?_, fun res _ => ⟨_, _, applyWarehouseMasking_some res, masksExactly res⟩⟩
    rintro first second rfl ⟨hApart, hRows⟩
    have hMasked : first.rows.map (maskRow letters hashes values first.columns) =
        second.rows.map (maskRow letters hashes values first.columns) := by
      rw [← forall₂_eq_eq_eq, forall₂_map_left_iff, forall₂_map_right_iff]
      exact hRows.imp fun row other hSame => maskRow_eq hSame hEmail
    rw [applyWarehouseMasking_some, applyWarehouseMasking_some, ← hApart]
    simp only [hMasked]

end

namespace Sample

def firstBytes (message : Bytes) : Digest := ⟨(message ++ List.replicate 32 0).take 32, by simp⟩

def leading : Hashes := ⟨fun _ message => firstBytes message, firstBytes⟩

def texts : CellValues String := ⟨id, id, fun _ => rfl⟩

def mailbox (password : String) : ExportResult String where
  columns := [⟨"id", "TEXT"⟩, ⟨"Email_Password", "TEXT"⟩]
  rows := [[some "1", some password]]

/-- The rule for email addresses comes first, so the column gets pseudonyms that tell one
password from another. -/
theorem mailbox_password_shows :
    SameButCredentials .ascii (mailbox "swordfish") (mailbox "opensesame") ∧
      applyWarehouseMasking .ascii leading texts (some (mailbox "swordfish")) =
        (["Email_Password"], some (mailbox "user_73776f72@anonymized.internal")) ∧
      applyWarehouseMasking .ascii leading texts (some (mailbox "opensesame")) =
        (["Email_Password"], some (mailbox "user_6f70656e@anonymized.internal")) := by
  refine ⟨⟨rfl, List.Forall₂.cons ?_ List.Forall₂.nil⟩, by decide +kernel, by decide +kernel⟩
  intro i
  match i with
  | 0 => exact .inl rfl
  | 1 =>
    have hPassword : Mentions .ascii "Email_Password" .password := by decide +kernel
    exact .inr ⟨⟨_, rfl, .inl hPassword⟩, _, _, rfl, rfl⟩
  | _ + 2 => exact .inl rfl

end Sample

end DBVault.ProductExperience.Warehouse
