import DBVault.Ports

/-! `backup.Service.Create`: snapshot the source, cut it into chunks, upload
what the store does not have, publish manifest, signature and completion
record in this order, and enter the snapshot into the catalogue. -/
namespace DBVault.Backup
open Text Interaction

structure Service where
  ports : Ports
  dedupKey : Bytes
  repository : Repository
  targetChunkBytes : Int

structure Command where
  source : Source
  trigger : BackupTrigger

structure CreateResult where
  run : BackupRun
  snapshot : Option Snapshot := none
  duplicate : Bool := false

/-- What `fail` is called with. -/
structure Failure where
  run : BackupRun
  code : ErrorCode
  err : GoError

abbrev Step (α : Type) := Attempt Answer Failure α

/-- Go on with an answer, or `return s.fail(ctx, run, code, err)`. -/
def orFail {α : Type} (run : BackupRun) (code : ErrorCode) (p : Prog (Result α)) : Step α :=
  ExceptT.mk (p >>= fun answer =>
    match answer with
    | .ok value => pure (.ok value)
    | .error err => pure (.error ⟨run, code, err⟩))

def call (op : Op) : Step (Answer op) := ExceptT.lift (ask op)

def isObjectNotFound : GoError → Bool
  | .notExist => true
  | .app .chunkMissing _ _ => true
  | _ => false

def chunkFileName (chunkID : String) : String := chunkID ++ ".dvchunk"

/-- `chunkObjectKey`; short identifiers are padded for the two directories. -/
def chunkObjectKey (sourceID keyVersion chunkID : String) : String :=
  let p := List.replicate (4 - chunkID.toList.length) '0' ++ chunkID.toList
  let file := keyVersion ++ "/" ++ String.ofList (p.take 2) ++ "/" ++
    String.ofList ((p.drop 2).take 2) ++ "/" ++ chunkFileName chunkID
  if sourceID ≠ "" then sourceID ++ "/chunks/" ++ file else "chunks/" ++ file

def snapshotKey (sourceID snapshotID file : String) : String :=
  sourceID ++ "/snapshots/" ++ snapshotID ++ "/" ++ file

def manifestKey (sourceID snapshotID : String) : String := snapshotKey sourceID snapshotID "manifest.json"

def sigKey (sourceID snapshotID : String) : String := snapshotKey sourceID snapshotID "manifest.sig"

def completeKey (sourceID snapshotID : String) : String := snapshotKey sourceID snapshotID "complete.json"

namespace Service
variable (s : Service)

def engine (cmd : Command) : String :=
  let engine := s.ports.toLower cmd.source.driver
  if engine = "" then "sqlite" else engine

def snapshotMode (cmd : Command) : SnapshotMode := if s.engine cmd = "sqlite" then .onlineBackup else .logical

def target : Int := if s.targetChunkBytes = 0 then 4 * 1024 * 1024 else s.targetChunkBytes

abbrev Identified := PlainChunk × String

def identify (art : Artifact) (chs : List PlainChunk) : List Identified :=
  chs.map fun ch => (ch, s.ports.hashes.chunkID s.dedupKey art.metadata.pageSize ch.data)

def rootOf (art : Artifact) (ids : List Identified) : String :=
  s.ports.hashes.rootDigest s.dedupKey (ids.map fun x => (x.2, x.1.plaintextSize)) art.size
    art.metadata.pageSize

def chunkKey (cmd : Command) (chunkID : String) : String := chunkObjectKey cmd.source.id s.repository.keyID chunkID

def chunkInfo (cmd : Command) (x : Identified) : ChunkInfo where
  sequence := x.1.sequence
  chunkID := x.2
  objectKey := s.chunkKey cmd x.2
  pageStart := x.1.pageStart
  pageCount := x.1.pageCount
  plaintextSize := x.1.plaintextSize
  compression := s.ports.compressorName
  keyID := s.repository.keyID

def snapshotChunk (snapID : String) (x : Identified) : SnapshotChunk where
  snapshotID := snapID
  chunkID := x.2
  repositoryID := s.repository.id
  sequence := x.1.sequence
  pageStart := x.1.pageStart
  pageCount := x.1.pageCount
  plaintextSize := x.1.plaintextSize

def chunkRecord (cmd : Command) (now : Time) (x : Identified) : ChunkRecord where
  id := x.2
  repositoryID := s.repository.id
  keyVersion := s.repository.keyID
  compression := s.ports.compressorName
  plaintextSize := x.1.plaintextSize
  objectKey := s.chunkKey cmd x.2
  createdAt := now

def manifest (cmd : Command) (art : Artifact) (ids : List Identified) (snapID : String)
    (now : Time) : SnapshotManifest where
  format := "dbvault-snapshot"
  formatVersion := 1
  repositoryID := s.repository.id
  snapshotID := snapID
  sourceID := cmd.source.id
  database :=
    { engine := s.engine cmd
      sqliteVersion := art.metadata.engineVersion
      pageSize := art.metadata.pageSize
      pageCount := art.metadata.pageCount
      logicalSize := art.size
      schemaDigest := art.metadata.schemaDigest }
  snapshot :=
    { mode := (s.snapshotMode cmd).text
      createdAt := now.rfc3339Nano
      rootDigest := s.rootOf art ids
      chunking := [("strategy", .str "sqlite-pages-v1"), ("target_size", int s.target)] }
  chunks := ids.map (s.chunkInfo cmd)

def completion (snapID : String) (payload : Bytes) (committedAt : Time) : Completion where
  format := "dbvault-completion"
  formatVersion := 1
  snapshotID := snapID
  manifestDigest := (s.ports.hashes.sha256 payload).hex
  committedAt := committedAt.rfc3339Nano

structure Upload where
  run : BackupRun
  (compressedBytes uniqueBytes : Int := 0)

def chunkRequest (key : String) (body : Bytes) : PutObjectRequest where
  key := key
  body := body
  contentType := "application/octet-stream"
  ifNotExists := true

/-- Compress, encrypt and put one chunk the store does not have. -/
def uploadChunk (cmd : Command) (up : Upload) (x : Identified) : Step Upload := do
  let compressed ← orFail up.run .snapshotFailed (ask (.compress x.1.data))
  let enc ← orFail up.run .snapshotFailed (ask (.encryptChunk x.2 compressed))
  let stored ← orFail up.run .storageUnavailable (ask (.put (chunkRequest (s.chunkKey cmd x.2) enc)))
  pure { up with
    uniqueBytes := up.uniqueBytes + stored.size
    compressedBytes := up.compressedBytes + compressed.length }

def storeChunk (cmd : Command) (up : Upload) (x : Identified) : Step Upload := do
  let found ← call (.head (s.chunkKey cmd x.2))
  match found with
  | .ok _ => pure { up with run := { up.run with
      reusedBytes := up.run.reusedBytes + x.1.plaintextSize } }
  | .error err =>
    if isObjectNotFound err then s.uploadChunk cmd up x
    else throw ⟨up.run, .storageUnavailable, err⟩

def storeChunks (cmd : Command) : List Identified → Upload → Step Upload
  | [], up => pure up
  | x :: rest, up => do
      let up ← s.storeChunk cmd up x
      storeChunks cmd rest up

def manifestRequest (cmd : Command) (snapID : String) (payload : Bytes) : PutObjectRequest where
  key := manifestKey cmd.source.id snapID
  body := payload
  contentType := "application/json"
  ifNotExists := true

def sigRequest (cmd : Command) (snapID : String) (sig : Bytes) : PutObjectRequest where
  key := sigKey cmd.source.id snapID
  body := sig
  contentType := "application/octet-stream"
  ifNotExists := true

def completeRequest (cmd : Command) (snapID : String) (payload : Bytes) : PutObjectRequest where
  key := completeKey cmd.source.id snapID
  body := payload
  contentType := "application/json"
  ifNotExists := true

def snapshot (cmd : Command) (art : Artifact) (ids : List Identified) (snapID : String) (now : Time)
    (up : Upload) (committed : Time) : Snapshot where
  id := snapID
  sourceID := cmd.source.id
  repositoryID := s.repository.id
  status := .committed
  snapshotMode := s.snapshotMode cmd
  databaseSize := art.size
  pageSize := art.metadata.pageSize
  pageCount := art.metadata.pageCount
  rootDigest := s.rootOf art ids
  schemaDigest := art.metadata.schemaDigest
  chunkCount := ids.length
  uniqueChunkCount := ids.length
  compressedBytes := up.compressedBytes
  uniqueUploadedBytes := up.uniqueBytes
  createdAt := now
  committedAt := some committed
  verifiedAt := some committed
  manifestObjectKey := manifestKey cmd.source.id snapID
  completionObjectKey := completeKey cmd.source.id snapID

/-- From the manifest to the catalogue entry. -/
def publish (cmd : Command) (art : Artifact) (ids : List Identified) (snapID : String) (now : Time)
    (up : Upload) : Step CreateResult := do
  let payload := (s.manifest cmd art ids snapID now).marshal
  let sig ← orFail up.run .manifestInvalid (ask (.sign payload))
  let _ ← orFail up.run .storageUnavailable (ask (.put (manifestRequest cmd snapID payload)))
  let _ ← orFail up.run .storageUnavailable (ask (.put (sigRequest cmd snapID sig)))
  let completedAt ← call .now
  let compPayload := (s.completion snapID payload completedAt).marshal
  let _ ← orFail up.run .storageUnavailable (ask (.put (completeRequest cmd snapID compPayload)))
  let committed ← call .now
  let snap := s.snapshot cmd art ids snapID now up committed
  let _ ← orFail up.run .manifestInvalid
    (ask (.createSnapshot snap (ids.map (s.snapshotChunk snapID)) (ids.map (s.chunkRecord cmd now))))
  let t ← call .now
  let run := { up.run with
    status := .committed
    snapshotID := some snapID
    uniqueBytes := up.uniqueBytes
    completedAt := some t }
  let _ ← call (.updateBackupRun run)
  pure { run := run, snapshot := some snap }

def duplicate (run : BackupRun) (existing : Snapshot) : Step CreateResult := do
  let t ← call .now
  let run := { run with
    status := .duplicate
    duplicateOf := some existing.id
    completedAt := some t }
  let _ ← call (.updateBackupRun run)
  pure { run := run, snapshot := some existing, duplicate := true }

def commit (cmd : Command) (art : Artifact) (ids : List Identified) (now : Time) (run : BackupRun) :
    Step CreateResult := do
  let snapID ← call (.newID "snap")
  let run := { run with status := .uploading }
  let _ ← call (.updateBackupRun run)
  let up ← s.storeChunks cmd ids { run := run }
  s.publish cmd art ids snapID now up

def attemptCreate (cmd : Command) : Step CreateResult := do
  let now ← call .now
  let runID ← call (.newID "run")
  let run : BackupRun :=
    { id := runID, sourceID := cmd.source.id, repositoryID := s.repository.id,
      trigger := cmd.trigger, status := .snapshotting, startedAt := now }
  let _ ← call (.createBackupRun run)
  let dir ← orFail run .scratchInsufficient (ask (.reserve runID))
  let art ← orFail run .snapshotFailed (ask (.sourceSnapshot ⟨runID, cmd.source, dir, s.snapshotMode cmd⟩))
  let run := { run with sourceSize := art.size, status := .chunking }
  let _ ← call (.updateBackupRun run)
  let file ← orFail run .chunkReadFailed (ask (.openArtifact art))
  let chs ← orFail run .chunkReadFailed (pure (chunks art.metadata.pageSize s.target file))
  let ids := s.identify art chs
  let found ← call (.findSnapshotByRoot cmd.source.id (s.rootOf art ids))
  match found with
  | .ok (some existing) => duplicate run existing
  | _ => s.commit cmd art ids now run

def fail (failure : Failure) : Prog (CreateResult × Option GoError) := do
  let t ← ask .now
  let run := { failure.run with
    status := .failed
    errorCode := failure.code.text
    errorMessage := failure.err.text
    completedAt := some t }
  let _ ← ask (.updateBackupRun run)
  pure ({ run := run }, some failure.err)

def create (cmd : Command) : Prog (CreateResult × Option GoError) := do
  match ← (s.attemptCreate cmd).run with
  | .ok result => pure (result, none)
  | .error failure => fail failure

end Service

end DBVault.Backup
