import DBVault.Remote

/-! `restore.Service.Restore`: check the manifest, then write its chunks to a
temporary file beside the target and put that in the target's place. -/
namespace DBVault.Restore
open Text Text.Path Interaction RemoteService

abbrev Service := RemoteService

def wording : Wording where
  code := .manifestInvalid
  manifestMissing := id
  badSignature := "manifest signature verification failed"
  digestMismatch := "completion digest does not match manifest"

def checkID (snap : Snapshot) (man : SnapshotManifest) : Result Unit :=
  if snap.id ≠ "" ∧ man.snapshotID ≠ snap.id then
    .error (newError .manifestInvalid "manifest snapshot mismatch")
  else .ok ()

def readAndVerifyManifest (s : Service) (snap : Snapshot) : Attempted (Bytes × SnapshotManifest) := do
  let payload ← s.readSigned wording snap
  let man ← orReturn (pure (parseManifest payload))
  orReturn (pure (checkID snap man))
  orReturn (pure (s.checkRoot wording man))
  pure (payload, man)

/-- Go's `int64` product. -/
def mulInt64 (m n : Int) : Int := (m * n).bmod (2 ^ 64)

def offset (man : SnapshotManifest) (ch : ChunkInfo) : Int := mulInt64 ch.pageStart man.database.pageSize

/-- The identifier of a chunk is only checked with a key and a page size. -/
def checkChunk (s : Service) (man : SnapshotManifest) (ch : ChunkInfo) (plain : Bytes) : Result Unit :=
  if s.dedupKey.length > 0 ∧ man.database.pageSize > 0 then
    let computed := s.ports.hashes.chunkID s.dedupKey man.database.pageSize plain
    if computed ≠ ch.chunkID then
      .error (newError .chunkAuthenticationFailed
        ("chunk hash mismatch: expected " ++ ch.chunkID ++ ", got " ++ computed))
    else .ok ()
  else .ok ()

def openChunk (s : Service) (man : SnapshotManifest) (ch : ChunkInfo) (encrypted : Bytes) : Result Bytes := do
  let compressed ← (s.ports.decryptChunk ch.chunkID encrypted).mapError fun err =>
    newError .chunkAuthenticationFailed "chunk authentication failed" (some err)
  let plain ← s.ports.decompress compressed
  checkChunk s man ch plain
  pure plain

def restoreChunk (s : Service) (man : SnapshotManifest) (tmp : String) (ch : ChunkInfo) : Attempted Unit := do
  let encrypted ← readObject ch.objectKey id id
  let plain ← orReturn (pure (openChunk s man ch encrypted))
  orReturn (ask (.writeAt tmp plain (offset man ch)))

def restoreChunks (s : Service) (man : SnapshotManifest) (tmp : String) : List ChunkInfo → Attempted Unit
  | [] => pure ()
  | ch :: rest => do
      restoreChunk s man tmp ch
      restoreChunks s man tmp rest

def tmpPath (target : String) : String := target ++ ".dbvault-restore-tmp"

def rollbackPath (target : String) (t : Time) : String := target ++ ".dbvault-rollback-" ++ t.basic

/-- `filepath.Dir`. -/
def dirOf (p : String) : String := String.ofList (clean (p.toList.reverse.dropWhile (· ≠ '/')).reverse)

def sqliteHeader : Bytes := utf8 "SQLite format 3\x00"

def checkHeader (file : Stream) : Result Unit :=
  match file.readFull 16 with
  | .full header _ =>
    if header = sqliteHeader then .ok ()
    else .error (newError .verificationFailed "restored file is not a SQLite database")
  | .short _ => .error (.other "unexpected EOF")
  | .eof => .error (.other "EOF")
  | .failed err => .error err

def validateSQLiteHeader (path : String) : Attempted Unit := do
  let file ← orReturn (ask (.openFile path))
  orReturn (pure (checkHeader file))

def setSize (man : SnapshotManifest) (tmp : String) : Attempted Unit :=
  if man.database.logicalSize > 0 then orReturn (ask (.truncate tmp man.database.logicalSize))
  else pure ()

def validate (man : SnapshotManifest) (tmp : String) : Attempted Unit :=
  if man.database.engine = "" ∨ man.database.engine = "sqlite" then validateSQLiteHeader tmp
  else pure ()

def fill (s : Service) (man : SnapshotManifest) (tmp : String) : Attempted Unit := do
  setSize man tmp
  restoreChunks s man tmp man.chunks
  orReturn (ask (.sync tmp))
  orReturn (ask (.close tmp))
  validate man tmp

def keepOld (target : String) (replace : Bool) : Attempted Unit :=
  if replace then do
    match ← ExceptT.lift (ask (.stat target)) with
    | .ok _ => do
        let t ← ExceptT.lift (ask .now)
        orReturn (ask (.rename target (rollbackPath target t)))
    | .error _ => pure ()
  else pure ()

/-- The deferred clean-up: what fails after the temporary file was opened closes
and removes it. -/
def cleaningUp (tmp : String) (body : Attempted Unit) : Attempted Unit :=
  ExceptT.mk do
    match ← body.run with
    | .ok value => pure (.ok value)
    | .error err => do
        let _ ← ask (.close tmp)
        let _ ← ask (.remove tmp)
        pure (.error err)

def checkTarget (replace : Bool) (stat : Result Unit) : Result Unit :=
  match stat with
  | .ok _ => if replace then .ok () else .error (newError .manifestInvalid "target exists; pass replace")
  | .error _ => .ok ()

def restore (s : Service) (id target : String) (replace : Bool) : Attempted Unit := do
  let stat ← ExceptT.lift (ask (.stat target))
  orReturn (pure (checkTarget replace stat))
  let (snap, _) ← orReturn (ask (.getSnapshot id))
  let (_, man) ← readAndVerifyManifest s snap
  orReturn (ask (.mkdirAll (dirOf target)))
  let tmp := tmpPath target
  let _ ← ExceptT.lift (ask (.remove tmp))
  orReturn (ask (.openTrunc tmp))
  cleaningUp tmp do
    fill s man tmp
    keepOld target replace
    orReturn (ask (.rename tmp target))

end DBVault.Restore
