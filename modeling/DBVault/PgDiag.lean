import DBVault.Domain
import DBVault.Sql.Grants
import DBVault.Text.Words

/-! Permission failures of `pg_dump`: the objects an error text names, the audit of what the
backup role cannot read, and the statements that grant the missing privileges and revoke them
again. -/
namespace DBVault.PgDiag
open Text

structure DeniedObjects where
  (tables sequences schemas : List (List Char))
  deriving DecidableEq

namespace DeniedObjects

def none : DeniedObjects := ⟨[], [], []⟩

def isEmpty (o : DeniedObjects) : Bool := o.tables.isEmpty && o.sequences.isEmpty && o.schemas.isEmpty

def count (o : DeniedObjects) : Nat := o.tables.length + o.sequences.length + o.schemas.length

end DeniedObjects

def folds (letter c : Char) : Bool :=
  c.toLower = letter || (letter = 's' && c = '\u017f') || (letter = 'k' && c = '\u212a')

def afterLiteral : List Char → List Char → Option (List Char)
  | [], text => some text
  | _ :: _, [] => none
  | letter :: letters, c :: text => if folds letter c then afterLiteral letters text else none

/-- `[A-Za-z_]`. -/
def startsWord (c : Char) : Bool := c.isAlpha || c = '_' || c = '\u017f' || c = '\u212a'

/-- `[\w$]`. -/
def inWord (c : Char) : Bool := startsWord c || c.isDigit || c = '$'

/-- `\s`. -/
def isBlank (c : Char) : Bool := ['\t', '\n', '\x0c', '\r', ' '].contains c

/-- `[A-Za-z_][\w$]*`. -/
def matchWord : List Char → Option (List Char)
  | [] => none
  | c :: text => if startsWord c then some (c :: text.takeWhile inWord) else none

/-- `"[^"]+"`. -/
def matchQuoted : List Char → Option (List Char)
  | '"' :: text =>
    let inner := text.takeWhile (· ≠ '"')
    if inner ≠ [] ∧ inner.length < text.length then some ('"' :: (inner ++ ['"'])) else none
  | _ => none

/-- One part, and after a dot a second one of the same form. -/
def matchDotted (part : List Char → Option (List Char)) (text : List Char) : Option (List Char) :=
  match part text with
  | none => none
  | some first =>
    match text.drop first.length with
    | '.' :: more =>
      match part more with
      | some second => some (first ++ '.' :: second)
      | none => some first
    | _ => some first

def matchName (text : List Char) : Option (List Char) :=
  (matchDotted matchWord text).or (matchDotted matchQuoted text)

/-- What the two groups of the pattern hold, and how much of the text they end. -/
structure Match where
  (kind name : List Char)
  length : Nat
  deriving DecidableEq

def objectKinds : List (List Char) :=
  ["table", "sequence", "schema", "relation", "view", "materialized view"].map String.toList

def matchKind (rest : List Char) (kind : List Char) : Option Match := do
  let after ← afterLiteral kind rest
  let blanks := after.takeWhile isBlank
  if blanks = [] then none
  else
    let name ← matchName (after.drop blanks.length)
    some ⟨rest.take kind.length, name, kind.length + blanks.length + name.length⟩

/-- A match that begins here: with the kind of the object, or else without. -/
def matchAt (text : List Char) : Option Match := do
  let lead := "permission denied for ".toList
  let rest ← afterLiteral lead text
  let found ← (objectKinds.findSome? (matchKind rest)).or
    ((matchName rest).map fun name => ⟨[], name, name.length⟩)
  some { found with length := lead.length + found.length }

/-- `FindAllStringSubmatch`: the characters of a match are passed over. -/
def findAll : Nat → List Char → List Match
  | _, [] => []
  | passed + 1, _ :: text => findAll passed text
  | 0, c :: text =>
    match matchAt (c :: text) with
    | some found => found :: findAll (found.length - 1) text
    | none => findAll 0 text

/-- One turn of the loop of `DeniedObjectsFrom`, with the keys seen so far. -/
def noteMatch (state : DeniedObjects × List (List Char)) (found : Match) : DeniedObjects × List (List Char) :=
  let (out, seen) := state
  let name := trim found.name
  let kind := (trim found.kind).map Char.toLower
  let key := kind ++ '|' :: name
  if name = [] ∨ key ∈ seen then (out, seen)
  else if kind = "sequence".toList then
    ({ out with sequences := out.sequences ++ [name] }, key :: seen)
  else if kind = "schema".toList then ({ out with schemas := out.schemas ++ [name] }, key :: seen)
  else ({ out with tables := out.tables ++ [name] }, key :: seen)

def deniedObjectsFrom (stderr : List Char) : DeniedObjects := ((findAll 0 stderr).foldl noteMatch (.none, [])).1

def splitAuditList (rows : List Char) : List (List Char) := ((rows.splitOn ',').map trim).filter (· ≠ [])

/-- `AuditObjects`, from what `psql` answers to its three queries. -/
def auditObjects (tables sequences schemas : Result (List Char)) : Result DeniedObjects :=
  let list (rows : Result (List Char)) := (rows.toOption.map splitAuditList).getD []
  let out : DeniedObjects := ⟨list tables, list sequences, list schemas⟩
  match tables with
  | .error e => if out.isEmpty then .error e else .ok out
  | .ok _ => .ok out

/-- `splitQualifiedIdent`, with what has been read of the part at hand, its last character
first. -/
def splitQualifiedFrom : Bool → List Char → List Char → List (List Char)
  | _, cur, [] => if cur = [] then [] else [cur.reverse]
  | inQuote, cur, c :: rest =>
    if c = '"' then splitQualifiedFrom (!inQuote) (c :: cur) rest
    else if c = '.' ∧ inQuote = false then cur.reverse :: splitQualifiedFrom inQuote [] rest
    else splitQualifiedFrom inQuote (c :: cur) rest

def splitQualifiedIdent (name : List Char) : List (List Char) := splitQualifiedFrom false [] name

/-- `strings.ReplaceAll` of two quotation marks by one. -/
def unescape : List Char → List Char
  | '"' :: '"' :: rest => '"' :: unescape rest
  | c :: rest => c :: unescape rest
  | [] => []

/-- `plainIdent`. -/
def isPlainIdent : List Char → Bool
  | [] => false
  | c :: rest => (c.isAlpha || c = '_') && rest.all fun d => d.isAlpha || d.isDigit || d = '_' || d = '$'

/-- The name within its quotation marks or of a plain identifier; empty if it is neither. -/
def cleanIdentPart (part : List Char) : List Char :=
  let p := trim part
  if p = [] ∨ p.any (·.toNat < 32) then []
  else if p.head? = some '"' ∧ p.getLast? = some '"' ∧ 2 ≤ p.length then
    unescape p.tail.dropLast
  else if isPlainIdent p then p
  else []

def pgQuoteIdent (name : List Char) : List Char := Sql.quote name

def sanitizeQualified (name : List Char) : List Char :=
  let parts := (splitQualifiedIdent (trim name)).map cleanIdentPart
  if trim name = [] ∨ parts = [] ∨ [] ∈ parts then []
  else ['.'].intercalate (parts.map pgQuoteIdent)

def sanitizeSchema (name : List Char) : List Char :=
  let clean := cleanIdentPart name
  if clean = [] then [] else pgQuoteIdent clean

structure StmtAndID where
  (id stmt : List Char)
  deriving DecidableEq

/-- One loop of `elevationStatements`: names that are not identifiers are left out. -/
def statementsFor (spell : List Char → List Char) (stmt : List Char → List Char)
    (names : List (List Char)) : List StmtAndID :=
  names.filterMap fun name =>
    let q := spell name
    if q = [] then none else some ⟨q, stmt q⟩

def elevationStatements (obj : DeniedObjects) (grantee : List Char) (grant : Bool) : List StmtAndID :=
  let role := pgQuoteIdent grantee
  if grant then
    statementsFor sanitizeSchema
      (fun q => "GRANT USAGE ON SCHEMA ".toList ++ q ++ " TO ".toList ++ role) obj.schemas ++
    statementsFor sanitizeQualified
      (fun q => "GRANT SELECT ON ".toList ++ q ++ " TO ".toList ++ role) obj.tables ++
    statementsFor sanitizeQualified
      (fun q => "GRANT USAGE, SELECT ON ".toList ++ q ++ " TO ".toList ++ role) obj.sequences
  else
    statementsFor sanitizeQualified
      (fun q => "REVOKE SELECT ON ".toList ++ q ++ " FROM ".toList ++ role) obj.tables ++
    statementsFor sanitizeQualified
      (fun q => "REVOKE USAGE, SELECT ON ".toList ++ q ++ " FROM ".toList ++ role) obj.sequences ++
    -- the schemas last: the objects in them are still being revoked before
    statementsFor sanitizeSchema
      (fun q => "REVOKE USAGE ON SCHEMA ".toList ++ q ++ " FROM ".toList ++ role) obj.schemas

/-- The text `psql` is given. -/
def elevationScript (obj : DeniedObjects) (grantee : List Char) (grant : Bool) : List Char :=
  Sql.script ((elevationStatements obj grantee grant).map StmtAndID.stmt)

section Run
variable {σ : Type} (psql : List Char → σ → Result Unit × σ)

/-- `Elevate`, over the connection of `user`. -/
def elevate (user grantee : List Char) (obj : DeniedObjects) (s : σ) : Result (List (List Char)) × σ :=
  let grantee := trim grantee
  if grantee = [] then (.error (.other "backup role for elevation is required"), s)
  else if grantee = user then
    (.error (.other "elevation role must differ from the backup role"), s)
  else if elevationStatements obj grantee true = [] then
    (.error (.other "no grantable objects (only valid identifiers are elevated)"), s)
  else
    match psql (elevationScript obj grantee true) s with
    | (.error e, s) => (.error e, s)
    | (.ok _, s) => (.ok ((elevationStatements obj grantee true).map StmtAndID.id), s)

def revoke (user grantee : List Char) (obj : DeniedObjects) (s : σ) : Result Unit × σ :=
  let grantee := trim grantee
  if grantee = [] ∨ grantee = user then (.error (.other "invalid revoke parameters"), s)
  else if elevationStatements obj grantee false = [] then (.ok (), s)
  else psql (elevationScript obj grantee false) s

end Run

end DBVault.PgDiag
