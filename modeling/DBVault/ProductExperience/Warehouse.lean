import DBVault.BIConnections
import Mathlib.Data.List.Dedup
import Mathlib.Data.List.Infix

/-! Synchronisation of a source table with the warehouse: rows are extracted through the
client of the database, written to Parquet files, and found again through the evidence that is
recorded about them. -/
namespace DBVault.ProductExperience.Warehouse
open List Text BI

inductive SyncMode where
  | full | incremental
  deriving DecidableEq

inductive WatermarkType where
  | unknown | datetime | date | integer | text
  deriving DecidableEq

inductive SyncStatus where
  | unset | succeeded | succeededUnverified
  deriving DecidableEq

structure ColumnMeta where
  (name type : String)
  deriving DecidableEq

/-- The values of a row; `NULL` is none. -/
abbrev Row := List (Option String)

structure QueryResult where
  columns : List ColumnMeta
  rows : List Row
  deriving DecidableEq

structure WarehouseSyncOptions where
  incremental : Bool
  watermarkColumn : String := ""

structure WarehouseDataset where
  watermarkColumn : String
  watermarkType : WatermarkType
  lastWatermarkValue : String
  lastSyncMode : SyncMode
  columns : List ColumnMeta
  (rowCount bytesRaw bytesParquet : Int)
  parquetPaths : List String
  schemaVerified : Bool
  lastSyncAt : Time
  lastSyncStatus : SyncStatus
  deriving DecidableEq

/-- `strings.Split(strings.TrimSpace(out), "\n")`. -/
def outputLines (out : String) : List String := ((trimSpace out).toList.splitOn '\n').map String.ofList

def splitTabs (line : String) : List String := (line.toList.splitOn '\t').map String.ofList

/-- The fields of a line from the middle of one on: whether it is quoted, and what of it was read. -/
def splitFields : Bool → List Char → List Char → List String
  | _, cur, [] => [String.ofList cur]
  | true, cur, '"' :: '"' :: rest => splitFields true (cur ++ ['"']) rest
  | inQuote, cur, c :: rest =>
    if c = '"' then splitFields (!inQuote) cur rest
    else if c = ',' ∧ inQuote = false then String.ofList cur :: splitFields inQuote [] rest
    else splitFields inQuote (cur ++ [c]) rest

def splitCSVLine (line : String) : List String := splitFields false [] line.toList

/-- `strings.Trim(h, "\"")`. -/
def trimQuotes (text : String) : String :=
  String.ofList ((text.toList.dropWhile (· == '"')).reverse.dropWhile (· == '"')).reverse

/-- A row as wide as the header; `missing` says which texts are read as `NULL`. -/
def rowOf (missing : String → Bool) (columns : List ColumnMeta) (parts : List String) : Row :=
  (List.range columns.length).map fun i => parts[i]?.filter fun v => !missing v

def parseMySQLBatchOutput (out : String) : QueryResult :=
  match outputLines out with
  | [] => ⟨[], []⟩
  | first :: lines =>
    let columns := (splitTabs (trimSpace first)).map fun h => ⟨h, "TEXT"⟩
    ⟨columns, (lines.filter (· ≠ "")).map fun line => rowOf (fun v => v = "NULL") columns (splitTabs line)⟩

def parseCSVOutput (out : String) : QueryResult :=
  match outputLines out with
  | [] => ⟨[], []⟩
  | first :: lines =>
    let columns := (((trimSpace first).toList.splitOn ',').map String.ofList).map fun h => ⟨trimQuotes h, "TEXT"⟩
    ⟨columns, (lines.filter (· ≠ "")).map fun line =>
      rowOf (fun v => v = "" || v = "NULL") columns (splitCSVLine line)⟩

section
variable (letters : CaseMapping)

/-- The type of a column in the output of `SHOW COLUMNS`. A later line wins. -/
def fieldType (out name : String) : Option String :=
  ((outputLines out).tail.filterMap fun line =>
    match splitTabs line with
    | field :: type :: _ =>
      if letters.toLower (trimSpace field) = letters.toLower name then some (trimSpace type) else none
    | _ => none).getLast?

def enrichColumnTypesFromFieldList (columns : List ColumnMeta) (out : String) : List ColumnMeta :=
  columns.map fun c =>
    match fieldType letters out c.name with
    | some type => if type ≠ "" then { c with type := type } else c
    | none => c

def columnIndex (columns : List ColumnMeta) (name : String) : Option Nat :=
  columns.findIdx? fun c => letters.equalFold c.name name

/-- `findColumn`, with the empty name for none. -/
def findColumn (columns : List ColumnMeta) (name : String) : String :=
  ((columns.find? fun c => letters.equalFold c.name name && isIdentifier c.name).map (·.name)).getD ""

def detectWatermarkColumn (columns : List ColumnMeta) : String :=
  let found := ["updated_at", "last_modified", "created_at", "id"].map (findColumn letters columns)
  (found.find? (· ≠ "")).getD ""

def containsText (text part : String) : Bool := decide (part.toList <:+: text.toList)

def classifyWatermarkType (columns : List ColumnMeta) (name : String) : WatermarkType :=
  match (columnIndex letters columns name).bind fun idx => columns[idx]? with
  | none => .unknown
  | some column =>
    let t := letters.toLower column.type
    if containsText t "timestamp" || containsText t "datetime" then .datetime
    else if containsText t "date" then .date
    else if containsText t "int" || containsText t "serial" || containsText t "bigserial" then .integer
    else .text

end

/-- `strconv.ParseInt(s, 10, 64)`. -/
def parseInt (text : String) : Option Int :=
  match text.toList with
  | '+' :: digits =>
    ((Json.natOfDigits digits).map fun n : Nat => (n : Int)).filter fun n => decide (Json.IsInt64 n)
  | chars => Json.parseInt chars

def watermarkGreater (a b : String) (type : WatermarkType) : Bool :=
  match type, parseInt a, parseInt b with
  | .integer, some m, some n => decide (m > n)
  | _, _, _ => decide (b < a)

/-- The loop over the extracted rows that finds the next watermark. -/
def nextWatermark (letters : CaseMapping) (result : QueryResult) (column : String)
    (type : WatermarkType) (last : String) : String :=
  match columnIndex letters result.columns column with
  | none => last
  | some idx =>
    result.rows.foldl (fun watermark row =>
      match row[idx]? with
      | some (some v) => if watermark = "" || watermarkGreater v watermark type then v else watermark
      | _ => watermark) last

inductive Extract where
  | all
  | past (column value : String)
  deriving DecidableEq

def buildWarehouseExtractQuery (mode : SyncMode) (watermarkColumn lastWatermark : String) : Extract :=
  if mode ≠ .incremental ∨ watermarkColumn = "" then .all else .past watermarkColumn lastWatermark

inductive Engine where
  | postgres | mysql
  deriving DecidableEq

structure Source where
  letters : CaseMapping
  engine : Engine
  (databaseID tableName : String)
  /-- The directory of the table below `lakehouse`. -/
  dir : String
  /-- `%q`. -/
  quote : String → String
  /-- Whether the database finds a row when it looks for those past a value of a column. -/
  past : String → String → Row → Bool
  /-- The rows the database answers with. -/
  answer : Extract → List Row → List Row
  answer_all : ∀ table, (answer .all table).Perm table
  answer_past : ∀ column value table,
    (answer (.past column value) table).Perm (table.filter (past column value))
  /-- What the client prints for the rows. -/
  print : List Row → String

namespace Source
variable (source : Source)

/-- `executeLiveDBQuery`, with the output of `SHOW COLUMNS` if there is one. -/
def executeLiveDBQuery (query : Extract) (table : List Row) (shown : Option String) : QueryResult :=
  let out := source.print (source.answer query table)
  match source.engine, shown with
  | .mysql, some fields =>
    let result := parseMySQLBatchOutput out
    { result with columns := enrichColumnTypesFromFieldList source.letters result.columns fields }
  | .mysql, none => parseMySQLBatchOutput out
  | .postgres, _ => parseCSVOutput out

def resolveWarehouseSyncMode (opts : WarehouseSyncOptions) (prev : Option WarehouseDataset) :
    Result (SyncMode × String × String) :=
  let named := trimSpace opts.watermarkColumn
  match prev with
  | none => .ok (.full, named, "")
  | some ds =>
    let column := if named = "" then ds.watermarkColumn else named
    if opts.incremental = true ∧ ds.lastSyncStatus ≠ .unset ∧ column ≠ "" ∧ ds.lastWatermarkValue ≠ "" then
      if isIdentifier column then .ok (.incremental, column, ds.lastWatermarkValue)
      else .error (.other ("watermark column " ++ source.quote column ++ " is not a safe identifier"))
    else .ok (.full, column, "")

end Source

/-- What becomes of the Parquet file: it is written, or something is left in its place. -/
inductive WriteOutcome where
  | written (rawBytes : Int)
  | failed (cause : String) (left : Option (List Row))

/-- What becomes of the evidence; a failure may come after it was recorded. -/
inductive UpsertOutcome where
  | recorded
  | failed (cause : String) (recorded : Bool)

/-- A run of `syncWarehouseTable`: its options and what happens to it. -/
structure SyncCall where
  opts : WarehouseSyncOptions
  now : Time
  /-- Whether the evidence can be read. -/
  evidenceRead : Bool := true
  /-- Why the query failed. -/
  queryError : Option String := none
  /-- The output of `SHOW COLUMNS`. -/
  shown : Option String := none
  /-- Why the rows could not be materialised or a directory not be made. -/
  prepareError : Option String := none
  write : WriteOutcome := .written 0
  /-- The size of the file, or why it could not be found. -/
  size : Except String Int := .ok 0
  /-- The columns and the number of rows found in the file. -/
  inspected : Option (List ColumnMeta × Int) := none
  upsert : UpsertOutcome := .recorded

/-- The table, the Parquet files by their paths and the evidence about the table. -/
structure State where
  table : List Row
  files : String → Option (List Row)
  evidence : Option WarehouseDataset

inductive Step where
  | append (row : Row)
  | sync (call : SyncCall)

def parquetColumnsMatch (letters : CaseMapping) (onDisk extracted : List ColumnMeta) : Bool :=
  onDisk.length = extracted.length &&
    (onDisk.zip extracted).all fun pair => letters.equalFold pair.1.name pair.2.name

/-- `now.UTC().Format("2006-01-02")`. -/
def dayText (t : Time) : String := t.fields.year ++ "-" ++ t.fields.month ++ "-" ++ t.fields.day

namespace Source
variable (source : Source)

def parquetPath (mode : SyncMode) (type : WatermarkType) (now : Time) : String :=
  match mode with
  | .full => source.dir ++ "/data.parquet"
  | .incremental =>
    let name := "part-" ++ decimal now ++ ".parquet"
    if type = .date then source.dir ++ "/dt=" ++ dayText now ++ "/" ++ name
    else source.dir ++ "/" ++ name

def upsertWarehouseEvidence (s : State) (ds : WarehouseDataset) : UpsertOutcome → Result Unit × State
  | .recorded => (.ok (), { s with evidence := some ds })
  | .failed cause true => (.error (.other cause), { s with evidence := some ds })
  | .failed cause false => (.error (.other cause), s)

def failure (what cause : String) : GoError :=
  .other (what ++ " " ++ source.databaseID ++ "." ++ source.tableName ++ ": " ++ cause)

/-- What is recorded about a file that was written. -/
def datasetOf (c : SyncCall) (mode : SyncMode) (prev : Option WarehouseDataset)
    (column last path : String) (type : WatermarkType) (result : QueryResult) (rawBytes size : Int) :
    WarehouseDataset :=
  let onDisk := (c.inspected.map (·.1)).getD []
  let schemaVerified := match c.inspected with
    | some (columns, rows) => rows = result.rows.length &&
        parquetColumnsMatch source.letters columns result.columns
    | none => false
  let ds : WarehouseDataset :=
    { watermarkColumn := column
      watermarkType := type
      lastWatermarkValue := nextWatermark source.letters result column type last
      lastSyncMode := mode
      columns := if onDisk = [] then result.columns else onDisk
      rowCount := result.rows.length
      bytesRaw := rawBytes
      bytesParquet := size
      parquetPaths := [path]
      schemaVerified := schemaVerified
      lastSyncAt := c.now
      lastSyncStatus := if schemaVerified then .succeeded else .succeededUnverified }
  match mode, prev with
  | .incremental, some p =>
    { ds with
      rowCount := p.rowCount + result.rows.length
      bytesRaw := p.bytesRaw + rawBytes
      bytesParquet := p.bytesParquet + size
      parquetPaths := p.parquetPaths ++ [path]
      columns := if c.inspected = none then p.columns else ds.columns
      schemaVerified := if c.inspected = none then p.schemaVerified else schemaVerified }
  | _, _ => ds

/-- `syncWarehouseTable` from the extracted rows on. -/
def storeExtracted (s : State) (c : SyncCall) (mode : SyncMode) (prev : Option WarehouseDataset)
    (column last : String) (result : QueryResult) : Result Unit × State :=
  let column := if mode = .full ∧ column = "" then
    detectWatermarkColumn source.letters result.columns else column
  let type := classifyWatermarkType source.letters result.columns column
  let path := source.parquetPath mode type c.now
  match c.prepareError, c.write with
  | some cause, _ => (.error (.other cause), s)
  | none, .failed cause left =>
    (.error (source.failure "write" cause), { s with files := Function.update s.files path left })
  | none, .written rawBytes =>
    let s := { s with files := Function.update s.files path (some result.rows) }
    match c.size with
    | .error cause => (.error (source.failure "verify" cause), s)
    | .ok size =>
      upsertWarehouseEvidence s
        (source.datasetOf c mode prev column last path type result rawBytes size) c.upsert

/-- `getWarehouseEvidence`: evidence that cannot be read counts as none. -/
def getWarehouseEvidence (s : State) (c : SyncCall) : Option WarehouseDataset :=
  if c.evidenceRead then s.evidence else none

def syncWarehouseTable (s : State) (c : SyncCall) : Result Unit × State :=
  let prev := getWarehouseEvidence s c
  match source.resolveWarehouseSyncMode c.opts prev, c.queryError with
  | .error err, _ => (.error err, s)
  | .ok _, some cause => (.error (source.failure "extract" cause), s)
  | .ok (mode, column, last), none =>
    let result := source.executeLiveDBQuery (buildWarehouseExtractQuery mode column last) s.table c.shown
    if result.columns = [] then
      (.error (.other ("extract " ++ source.databaseID ++ "." ++ source.tableName ++
        " returned no column metadata")), s)
    else
      match mode, prev, result.rows with
      | .incremental, some p, [] =>
        upsertWarehouseEvidence s { p with lastSyncMode := mode, lastSyncAt := c.now } c.upsert
      | _, _, _ => source.storeExtracted s c mode prev column last result

def step (s : State) : Step → State
  | .append row => { s with table := s.table ++ [row] }
  | .sync call => (source.syncWarehouseTable s call).2

def run (steps : List Step) : State := steps.foldl source.step ⟨[], fun _ => none, none⟩

variable {source}

variable (source) in
def readBack (rows : List Row) : List Row :=
  match source.engine with
  | .mysql => (parseMySQLBatchOutput (source.print rows)).rows
  | .postgres => (parseCSVOutput (source.print rows)).rows

theorem executeLiveDBQuery_rows (query : Extract) (table : List Row) (shown : Option String) :
    (source.executeLiveDBQuery query table shown).rows = source.readBack (source.answer query table) := by
  unfold executeLiveDBQuery readBack
  cases source.engine <;> cases shown <;> rfl

variable (source) in
def partPath (s : State) (c : SyncCall) (column last : String) : String :=
  let result := source.executeLiveDBQuery (.past column last) s.table c.shown
  source.parquetPath .incremental (classifyWatermarkType source.letters result.columns column) c.now

variable {s : State} {c : SyncCall} {prev : Option WarehouseDataset}

theorem upsertWarehouseEvidence_ok {ds : WarehouseDataset} {outcome : UpsertOutcome}
    (hOk : (upsertWarehouseEvidence s ds outcome).1 = .ok ()) :
    (upsertWarehouseEvidence s ds outcome).2 = { s with evidence := some ds } := by
  cases outcome with
  | recorded => rfl
  | failed cause recorded => cases recorded <;> cases hOk

theorem datasetOf_incremental (p : WarehouseDataset) (column last path : String)
    (type : WatermarkType) (result : QueryResult) (rawBytes size : Int) :
    (source.datasetOf c .incremental (some p) column last path type result rawBytes
      size).parquetPaths = p.parquetPaths ++ [path] := rfl

variable {column : String} {result : QueryResult} {last : String}

theorem storeExtracted_ok {mode : SyncMode}
    (hOk : (source.storeExtracted s c mode prev column last result).1 = .ok ()) :
    ∃ used path rawBytes size, (mode = .incremental → used = column) ∧ c.size = .ok size ∧
      path = source.parquetPath mode (classifyWatermarkType source.letters result.columns used) c.now ∧
      (source.storeExtracted s c mode prev column last result).2 = { s with
          files := Function.update s.files path (some result.rows)
          evidence := some (source.datasetOf c mode prev used last path
            (classifyWatermarkType source.letters result.columns used) result rawBytes size) } := by
  unfold storeExtracted at hOk ⊢
  cases hPrepare : c.prepareError with
  | some cause => simp [hPrepare] at hOk
  | none =>
    cases hWrite : c.write with
    | failed cause left => simp [hPrepare, hWrite] at hOk
    | written rawBytes =>
      cases hSize : c.size with
      | error cause => simp [hPrepare, hWrite, hSize] at hOk
      | ok size =>
        simp only [hPrepare, hWrite, hSize] at hOk ⊢
        refine ⟨_, _, rawBytes, size, fun hMode => ?_, rfl, rfl, upsertWarehouseEvidence_ok hOk⟩
        rw [if_neg (by simp [hMode])]

theorem resolveWarehouseSyncMode_incremental {opts : WarehouseSyncOptions}
    (hResolve : source.resolveWarehouseSyncMode opts prev = .ok (.incremental, column, last)) :
    (∃ p, prev = some p) ∧ column ≠ "" := by
  unfold resolveWarehouseSyncMode at hResolve
  cases prev with
  | none => simp at hResolve
  | some p =>
    refine ⟨⟨p, rfl⟩, ?_⟩
    dsimp only at hResolve
    generalize (if trimSpace opts.watermarkColumn = "" then p.watermarkColumn
      else trimSpace opts.watermarkColumn) = chosen at hResolve
    split at hResolve
    · next hCondition =>
      split at hResolve
      · obtain ⟨rfl, -⟩ : chosen = column ∧ p.lastWatermarkValue = last := by simpa using hResolve
        exact hCondition.2.2.1
      · cases hResolve
    · simp at hResolve

/-- What a sync that succeeds does: it refreshes the table, finds nothing new, or adds rows. -/
inductive Succeeds (source : Source) (s : State) (c : SyncCall) : Prop where
  | full (column last : String)
      (resolved : source.resolveWarehouseSyncMode c.opts (getWarehouseEvidence s c) =
        .ok (.full, column, last))
      (same : source.syncWarehouseTable s c = source.storeExtracted s c .full
        (getWarehouseEvidence s c) column last (source.executeLiveDBQuery .all s.table c.shown))
  | unchanged (p : WarehouseDataset) (column last : String) (prev : getWarehouseEvidence s c = some p)
      (resolved : source.resolveWarehouseSyncMode c.opts (some p) = .ok (.incremental, column, last))
      (nothing : source.readBack (source.answer (.past column last) s.table) = [])
      (same : source.syncWarehouseTable s c = upsertWarehouseEvidence s
        { p with lastSyncMode := .incremental, lastSyncAt := c.now } c.upsert)
  | appended (p : WarehouseDataset) (column last : String) (prev : getWarehouseEvidence s c = some p)
      (resolved : source.resolveWarehouseSyncMode c.opts (some p) = .ok (.incremental, column, last))
      (something : source.readBack (source.answer (.past column last) s.table) ≠ [])
      (same : source.syncWarehouseTable s c = source.storeExtracted s c .incremental (some p)
        column last (source.executeLiveDBQuery (.past column last) s.table c.shown))

theorem succeeds (hOk : (source.syncWarehouseTable s c).1 = .ok ()) : source.Succeeds s c := by
  cases hResolve : source.resolveWarehouseSyncMode c.opts (getWarehouseEvidence s c) with
  | error err => simp [syncWarehouseTable, hResolve] at hOk
  | ok plan =>
    obtain ⟨mode, column, last⟩ := plan
    cases hQuery : c.queryError with
    | some cause => simp [syncWarehouseTable, hResolve, hQuery] at hOk
    | none =>
      cases mode with
      | full =>
        have hBuild : buildWarehouseExtractQuery .full column last = .all := by simp [buildWarehouseExtractQuery]
        refine .full column last hResolve ?_
        simp only [syncWarehouseTable, hResolve, hQuery, hBuild] at hOk ⊢
        split at hOk
        · cases hOk
        · rw [if_neg ‹_›]
      | incremental =>
        obtain ⟨⟨p, hPrev⟩, hColumn⟩ := resolveWarehouseSyncMode_incremental hResolve
        have hBuild : buildWarehouseExtractQuery .incremental column last = .past column last := by
          simp [buildWarehouseExtractQuery, hColumn]
        have hRows := source.executeLiveDBQuery_rows (.past column last) s.table c.shown
        rw [hPrev] at hResolve
        simp only [syncWarehouseTable, hPrev, hResolve, hQuery, hBuild] at hOk
        split at hOk
        · cases hOk
        · next hColumns =>
          cases hRead : source.readBack (source.answer (.past column last) s.table) with
          | nil =>
            refine .unchanged p column last hPrev hResolve hRead ?_
            simp only [syncWarehouseTable, hPrev, hResolve, hQuery, hBuild, if_neg hColumns, hRows, hRead]
          | cons row rest =>
            refine .appended p column last hPrev hResolve (by simp [hRead]) ?_
            simp only [syncWarehouseTable, hPrev, hResolve, hQuery, hBuild, if_neg hColumns, hRows, hRead]

end Source

namespace Sample

def past (column value : String) : Row → Bool
  | [some v] => column = "id" &&
      (match parseInt v, parseInt value with
        | some m, some n => decide (m > n)
        | _, _ => false)
  | _ => false

/-- A table with one integer column, printed as `psql --csv` does. -/
def orders : Source where
  letters := .ascii
  engine := .postgres
  databaseID := "shop"
  tableName := "orders"
  dir := "lakehouse/db=shop/tbl=orders"
  quote := id
  past := past
  answer
    | .all, table => table
    | .past column value, table => table.filter (past column value)
  answer_all _ := .refl _
  answer_past _ _ _ := .refl _
  print rows := "id\n" ++ String.join (rows.map fun row => ((row.head?.join).getD "") ++ "\n")

def row (id : String) : Row := [some id]

def full : Step := .sync { opts := ⟨false, "id"⟩, now := 1 }

def incremental (now : Time) : SyncCall := { opts := ⟨true, ""⟩, now := now }

def steps : List Step := [.append (row "9"), full, .append (row "10"), .sync (incremental 2)]

end Sample

end DBVault.ProductExperience.Warehouse
