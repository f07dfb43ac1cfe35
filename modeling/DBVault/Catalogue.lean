import DBVault.Domain
import DBVault.Interaction.Calls
import DBVault.Queue.Table
import Mathlib.Data.List.Sort

/-! The catalogues of snapshots: in memory, in a JSON file and in SQLite. -/
namespace DBVault.Catalogue
open Keyed Interaction

/-- The order in which a map is gone through, or in which rows come that no order is asked of. -/
structure Arrangement (α : Type) where
  apply : List α → List α
  perm : ∀ items, (apply items).Perm items

def Arrangement.kept (α : Type) : Arrangement α := ⟨id, .refl⟩

inductive Call where
  | createSnapshot (snap : Snapshot) (links : List SnapshotChunk)
  | getSnapshot (id : String)
  | listSnapshots (sourceID : String)
  | findSnapshotByRoot (sourceID rootDigest : String)

inductive Answer where
  | created (result : Result Unit)
  | got (result : Result (Snapshot × List SnapshotChunk))
  | listed (snaps : List Snapshot)
  | found (snap : Option Snapshot)

def live (status : SnapshotStatus) : Bool := status = .committed || status = .protectedSnapshot

/-- The maps of the catalogue in memory, which the one in a file also has. -/
structure Maps where
  snapshots : Table Snapshot.id
  links : String → List SnapshotChunk

namespace Maps

def empty : Maps := ⟨.empty, fun _ => []⟩

variable (m : Maps)

def createSnapshot (snap : Snapshot) (links : List SnapshotChunk) : Maps where
  snapshots := m.snapshots.store snap
  links := Function.update m.links snap.id links

def getSnapshot (notFound : GoError) (id : String) : Result (Snapshot × List SnapshotChunk) :=
  match m.snapshots.find id with
  | none => .error notFound
  | some snap => .ok (snap, m.links id)

def ofSource (order : Arrangement Snapshot) (sourceID : String) : List Snapshot :=
  (order.apply m.snapshots.rows).filter fun s => sourceID = "" || s.sourceID = sourceID

def withRoot (order : Arrangement Snapshot) (counts : SnapshotStatus → Bool)
    (sourceID rootDigest : String) : Option Snapshot :=
  (order.apply m.snapshots.rows).find? fun s =>
    s.sourceID = sourceID && s.rootDigest = rootDigest && counts s.status

end Maps

/-- A search by root looks for committed snapshots only. -/
def Memory.perform (m : Maps) : Arrangement Snapshot × Call → Answer × Maps
  | (_, .createSnapshot snap links) => (.created (.ok ()), m.createSnapshot snap links)
  | (_, .getSnapshot id) => (.got (m.getSnapshot (.other "snapshot not found") id), m)
  | (order, .listSnapshots sourceID) => (.listed (m.ofSource order sourceID), m)
  | (order, .findSnapshotByRoot sourceID rootDigest) =>
    (.found (m.withRoot order (· = .committed) sourceID rootDigest), m)

def memory : Component Maps (Arrangement Snapshot × Call) Answer := ⟨.empty, Memory.perform⟩

namespace Restricted

def newestFirst (snaps : List Snapshot) : List Snapshot := snaps.insertionSort fun s t => s.createdAt ≥ t.createdAt

/-- Every change is written to the file; no write fails. -/
def perform (m : Maps) : Arrangement Snapshot × Call → Answer × Maps
  | (_, .createSnapshot snap links) => (.created (.ok ()), m.createSnapshot snap links)
  | (_, .getSnapshot id) => (.got (m.getSnapshot .notExist id), m)
  | (order, .listSnapshots sourceID) => (.listed (newestFirst (m.ofSource order sourceID)), m)
  | (order, .findSnapshotByRoot sourceID rootDigest) => (.found (m.withRoot order live sourceID rootDigest), m)

end Restricted

def restricted : Component Maps (Arrangement Snapshot × Call) Answer := ⟨.empty, Restricted.perform⟩

/-- A row of `snapshots`. The time is a text. The JSON text reads back as the snapshot where
`json.Marshal` writes it, which it does if the years of the times have four digits. -/
structure SnapshotRow where
  (id sourceID repositoryID rootDigest : String)
  status : SnapshotStatus
  createdAt : String
  json : Snapshot
  deriving DecidableEq

def SnapshotRow.of (snap : Snapshot) : SnapshotRow where
  id := snap.id
  sourceID := snap.sourceID
  repositoryID := snap.repositoryID
  rootDigest := snap.rootDigest
  status := snap.status
  createdAt := snap.createdAt.rfc3339Nano
  json := snap

def SnapshotRow.root (row : SnapshotRow) : String × String := (row.sourceID, row.rootDigest)

/-- A row of `snapshot_chunks`. -/
structure LinkRow where
  snapshotID : String
  sequence : Int
  json : SnapshotChunk
  deriving DecidableEq

def LinkRow.of (link : SnapshotChunk) : LinkRow := ⟨link.snapshotID, link.sequence, link⟩

def LinkRow.key (row : LinkRow) : String × Int := (row.snapshotID, row.sequence)

/-- The two tables, with their primary keys and the index on live snapshots. -/
structure Database where
  snapshots : Table SnapshotRow.id
  links : Table LinkRow.key
  liveDistinct : ((snapshots.rows.filter (live ·.status)).map SnapshotRow.root).Nodup

namespace Database

def empty : Database := ⟨.empty, .empty, List.nodup_nil⟩

def uniqueFailed (columns : String) : GoError := .other ("UNIQUE constraint failed: " ++ columns)

def indexed (db : Database) (row : SnapshotRow) : Prop :=
  row.root ∈ (db.snapshots.rows.filter (live ·.status)).map SnapshotRow.root

instance (db : Database) (row : SnapshotRow) : Decidable (db.indexed row) := inferInstanceAs (Decidable (_ ∈ _))

def insertSnapshot (db : Database) (row : SnapshotRow) : Result Database :=
  if hID : row.id ∈ db.snapshots.rows.map SnapshotRow.id then .error (uniqueFailed "snapshots.id")
  else if hRoot : live row.status = true ∧ db.indexed row then
    .error (uniqueFailed "snapshots.source_id, snapshots.root_digest")
  else .ok
    { db with
      snapshots := db.snapshots.insert row hID
      liveDistinct := by
        cases hLive : live row.status with
        | false => simpa [Table.insert, hLive] using db.liveDistinct
        | true =>
          have hNew : ¬ db.indexed row := fun hIndexed => hRoot ⟨hLive, hIndexed⟩
          have hRoots := db.liveDistinct.concat hNew
          simpa [Table.insert, hLive] using hRoots }

def insertLink (db : Database) (row : LinkRow) : Result Database :=
  if hKey : row.key ∈ db.links.rows.map LinkRow.key then
    .error (uniqueFailed "snapshot_chunks.snapshot_id, snapshot_chunks.sequence")
  else .ok { db with links := db.links.insert row hKey }

def createSnapshot (db : Database) (snap : Snapshot) (links : List SnapshotChunk) : Result Database := do
  let db ← db.insertSnapshot (.of snap)
  (links.map LinkRow.of).foldlM insertLink db

def getSnapshot (db : Database) (id : String) : Result (Snapshot × List SnapshotChunk) :=
  match db.snapshots.find id with
  | none => .error (.other "sql: no rows in result set")
  | some row =>
    let rows := (db.links.rows.filter (·.snapshotID = id)).insertionSort fun l l' => l.sequence ≤ l'.sequence
    .ok (row.json, rows.map (·.json))

def listSnapshots (db : Database) (order : Arrangement SnapshotRow) (sourceID : String) : List Snapshot :=
  let rows := (order.apply db.snapshots.rows).filter fun row => sourceID = "" || row.sourceID = sourceID
  (rows.insertionSort fun row row' => row.createdAt ≥ row'.createdAt).map (·.json)

def findSnapshotByRoot (db : Database) (order : Arrangement SnapshotRow)
    (sourceID rootDigest : String) : Option Snapshot :=
  ((order.apply db.snapshots.rows).find? fun row =>
    row.sourceID = sourceID && row.rootDigest = rootDigest && live row.status).map (·.json)

/-- A transaction that fails leaves the tables as they were. -/
def perform (db : Database) : Arrangement SnapshotRow × Call → Answer × Database
  | (_, .createSnapshot snap links) =>
    match db.createSnapshot snap links with
    | .ok after => (.created (.ok ()), after)
    | .error err => (.created (.error err), db)
  | (_, .getSnapshot id) => (.got (db.getSnapshot id), db)
  | (order, .listSnapshots sourceID) => (.listed (db.listSnapshots order sourceID), db)
  | (order, .findSnapshotByRoot sourceID rootDigest) =>
    (.found (db.findSnapshotByRoot order sourceID rootDigest), db)

end Database

def production : Component Database (Arrangement SnapshotRow × Call) Answer := ⟨.empty, Database.perform⟩

end DBVault.Catalogue
