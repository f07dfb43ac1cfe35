import DBVault.Restore.OnDisk
import DBVault.Storage.Spelling

/-! `replication.Service.Replicate`: copy the chunks of a snapshot to another store, then its
manifest, its signature and its completion record. -/
namespace DBVault.Replication
open Text Text.Path Interaction Backup

inductive Request where
  | getSnapshot (id : String)
  | get (key : String)
  | head (key : String)
  | put (key : String) (body : Stream)

abbrev Reply : Request → Type
  | .getSnapshot _ => Result (Snapshot × List SnapshotChunk)
  | .get _ => Result Stream
  | .head _ | .put .. => Result StoredObject

/-- The stores, with the directories of a replica on a file system. -/
structure Stores where
  (primary replica : World)
  made : List Address

def Stores.disk (s : Stores) : Disk := ⟨s.replica, s.made⟩

/-- `Put` with `IfNotExists` of what a reader delivers. If it breaks off nothing is stored; the
filesystem adapter does not read it for an object that is there. -/
def putStream (R : Ports) (w : World) (key : String) (body : Stream) (c : Choice) :
    Result StoredObject × World :=
  match body.ending with
  | none =>
    w.putObject R.backend
      { key := key, body := body.bytes, contentType := "application/octet-stream"
        ifNotExists := true } c
  | some err =>
    match R.backend, w.findObject R.backend key with
    | .filesystem, .ok bytes => (reading c (.ok ⟨key, bytes.length⟩), w)
    | _, _ => (.error err, w)

/-- One request, with the ports of the primary and of the replica. -/
def perform (P R : Ports) (s : Stores) : (request : Request) → Choice → Reply request × Stores
  | .getSnapshot id, c => ((DBVault.perform P s.primary (.getSnapshot id) c).1, s)
  | .get key, c => ((DBVault.perform P s.primary (.get key) c).1, s)
  | .head key, c => ((s.disk.perform R (.head key) c).1, s)
  | .put key body, c =>
    match s.disk.obstacle R key with
    | some .file => (.error (.other "not a directory"), s)
    | some .directory => (reading c (.ok ⟨key, c.pick⟩), s)
    | none =>
      let put := putStream R s.replica key body c
      (put.1, { s with replica := put.2, made := s.disk.mkdirs R key c })

abbrev ask (request : Request) : Program Reply (Reply request) := Program.ask request

abbrev stores (P R : Ports) : Environment Reply Stores Choice := ⟨perform P R, fun _ _ _ => True⟩

/-- `replication.Result`. -/
structure Replicated where
  (snapshotID destinationID : String := "")
  (copiedObjects reusedObjects : Nat := 0)
  deriving DecidableEq

abbrev Step (α : Type) := Attempt Reply (Replicated × GoError) α

def orReturn {α : Type} (res : Replicated) (p : Program Reply (Result α)) : Step α :=
  ExceptT.mk do
    match ← p with
    | .ok value => pure (.ok value)
    | .error err => pure (.error (res, err))

def copyObject (key : String) : Program Reply (Result Unit) := do
  match ← ask (.get key) with
  | .error err => pure (.error err)
  | .ok r => do
      match ← ask (.put key r) with
      | .error err => pure (.error err)
      | .ok _ => pure (.ok ())

def readObject (key : String) : Program Reply (Result Bytes) := do
  match ← ask (.get key) with
  | .error err => pure (.error err)
  | .ok r => pure r.readAll

def copyChunk (res : Replicated) (key : String) : Step Replicated := do
  match ← ExceptT.lift (ask (.head key)) with
  | .ok _ => pure { res with reusedObjects := res.reusedObjects + 1 }
  | .error _ => do
      orReturn res (copyObject key)
      pure { res with copiedObjects := res.copiedObjects + 1 }

def copyChunks (res : Replicated) : List String → Step Replicated
  | [] => pure res
  | key :: rest => do
      let res ← copyChunk res key
      copyChunks res rest

def copyFiles (res : Replicated) : List String → Step Unit
  | [] => pure ()
  | key :: rest => do
      orReturn res (copyObject key)
      copyFiles res rest

structure Service where
  hasPrimary : Bool
  replicas : List String

def checkStores (s : Service) (destinationID : String) : Result Unit :=
  if s.hasPrimary = false then .error (newError .configurationInvalid "primary store missing")
  else if destinationID ∉ s.replicas then
    .error (newError .configurationInvalid "replica store missing")
  else .ok ()

def decode (payload : Bytes) : Result SnapshotManifest :=
  (SnapshotManifest.unmarshal payload).mapError GoError.json

def readManifest (s : Service) (snapshotID destinationID : String) : Step (Snapshot × SnapshotManifest) := do
  orReturn {} (pure (checkStores s destinationID))
  let (snap, _) ← orReturn {} (ask (.getSnapshot snapshotID))
  let payload ← orReturn {} (readObject snap.manifestObjectKey)
  let man ← orReturn {} (pure (decode payload))
  pure (snap, man)

def copySnapshot (res : Replicated) (snap : Snapshot) (man : SnapshotManifest) : Step Replicated := do
  let res ← copyChunks res (man.chunks.map (·.objectKey))
  copyFiles res [snap.manifestObjectKey, signatureKey snap, snap.completionObjectKey]
  pure res

def replicate (s : Service) (snapshotID destinationID : String) : Step Replicated := do
  let (snap, man) ← readManifest s snapshotID destinationID
  copySnapshot { snapshotID := snapshotID, destinationID := destinationID } snap man

end DBVault.Replication
