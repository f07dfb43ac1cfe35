import DBVault.Json.Decode

/-! The records of the `domain` package that backups, restores and collection
read or write, with Go's errors and UTC times. -/
namespace DBVault
open Text

inductive ErrorCode where
  | configurationInvalid
  | scratchInsufficient
  | snapshotFailed
  | chunkReadFailed
  | storageUnavailable
  | manifestInvalid
  | chunkMissing
  | chunkAuthenticationFailed
  | verificationFailed
  | gcPlanStale
  | jobUnavailable
  | recoveryWindowUnavailable
  deriving DecidableEq

def ErrorCode.text : ErrorCode → String
  | .configurationInvalid => "configuration_invalid"
  | .scratchInsufficient => "scratch_insufficient"
  | .snapshotFailed => "snapshot_failed"
  | .chunkReadFailed => "chunk_read_failed"
  | .storageUnavailable => "storage_unavailable"
  | .manifestInvalid => "manifest_invalid"
  | .chunkMissing => "chunk_missing"
  | .chunkAuthenticationFailed => "chunk_authentication_failed"
  | .verificationFailed => "verification_failed"
  | .gcPlanStale => "gc_plan_stale"
  | .jobUnavailable => "job_unavailable"
  | .recoveryWindowUnavailable => "recovery_window_unavailable"

/-- A Go `error`: a missing file, an `AppError`, a JSON error, or a text. -/
inductive GoError where
  | notExist
  | app (code : ErrorCode) (message : String) (cause : Option GoError)
  | json (cause : Json.DecodeError)
  | other (message : String)

def newError (code : ErrorCode) (message : String) (cause : Option GoError := none) : GoError :=
  .app code message cause

def GoError.text : GoError → String
  | .notExist => "file does not exist"
  | .app code message none => code.text ++ ": " ++ message
  | .app code message (some cause) => code.text ++ ": " ++ message ++ ": " ++ cause.text
  | .json .notWellFormed => "json: invalid syntax"
  | .json .mismatch => "json: cannot unmarshal"
  | .other message => message

abbrev Result (α : Type) := Except GoError α

variable {α : Type} {x : Result α}

theorem bind_eq_ok {β : Type} {f : α → Result β} {out : β}
    (hBind : (x >>= f) = .ok out) : ∃ value, x = .ok value ∧ f value = .ok out := by
  cases x with
  | error err => cases hBind
  | ok value => exact ⟨value, rfl, hBind⟩

theorem eq_ok_of_toOption {value : α} (hSome : x.toOption = some value) : x = .ok value := by
  cases x with
  | error err => cases hSome
  | ok found => rw [Option.some.inj hSome]

/-- Nanoseconds since the Unix epoch, in UTC as `SystemClock` returns them. -/
abbrev Time := Int

namespace Time

def nanosPerSecond : Int := 1000000000

def hour : Int := 3600 * nanosPerSecond

def zero : Time := -62135596800 * nanosPerSecond

def padded (width : Nat) (n : Nat) : String :=
  let digits := Nat.toDigits 10 n
  String.ofList (List.replicate (width - digits.length) '0' ++ digits)

/-- Year, month and day of a day number, days since 1970-01-01. -/
def civil (day : Int) : Int × Nat × Nat :=
  let shifted := day + 719468
  let era := shifted / 146097
  let dayOfEra := (shifted % 146097).toNat
  let yearOfEra := (dayOfEra - dayOfEra / 1460 + dayOfEra / 36524 - dayOfEra / 146096) / 365
  let dayOfYear := dayOfEra - (365 * yearOfEra + yearOfEra / 4 - yearOfEra / 100)
  let monthIndex := (5 * dayOfYear + 2) / 153
  let dayOfMonth := dayOfYear - (153 * monthIndex + 2) / 5 + 1
  let month := if monthIndex < 10 then monthIndex + 3 else monthIndex - 9
  let year := yearOfEra + era * 400 + (if month ≤ 2 then 1 else 0)
  (year, month, dayOfMonth)

/-- `.999999999`: the fraction without trailing zeros, or nothing. -/
def fraction (nanos : Nat) : String :=
  if nanos = 0 then ""
  else
    let digits := (padded 9 nanos).toList
    "." ++ String.ofList (digits.reverse.dropWhile (· == '0')).reverse

def yearText (year : Int) : String := if year < 0 then "-" ++ padded 4 year.natAbs else padded 4 year.natAbs

structure Fields where
  (year month day hour minute second : String)
  nanos : Nat

def fields (t : Time) : Fields :=
  let seconds := t / nanosPerSecond
  let (year, month, day) := civil (seconds / 86400)
  let ofDay := (seconds % 86400).toNat
  { year := yearText year, month := padded 2 month, day := padded 2 day,
    hour := padded 2 (ofDay / 3600), minute := padded 2 (ofDay / 60 % 60),
    second := padded 2 (ofDay % 60), nanos := (t % nanosPerSecond).toNat }

/-- Layout `2006-01-02T15:04:05.999999999Z07:00`. -/
def rfc3339Nano (t : Time) : String :=
  let f := fields t
  f.year ++ "-" ++ f.month ++ "-" ++ f.day ++ "T" ++ f.hour ++ ":" ++ f.minute ++ ":" ++ f.second ++
    fraction f.nanos ++ "Z"

/-- Layout `20060102150405`. -/
def compact (t : Time) : String :=
  let f := fields t
  f.year ++ f.month ++ f.day ++ f.hour ++ f.minute ++ f.second

/-- Layout `20060102T150405Z`. -/
def basic (t : Time) : String :=
  let f := fields t
  f.year ++ f.month ++ f.day ++ "T" ++ f.hour ++ f.minute ++ f.second ++ "Z"

example : rfc3339Nano 1700000000120000000 = "2023-11-14T22:13:20.12Z" := by decide

end Time

inductive BackupTrigger where
  | schedule | manual | retry
  deriving DecidableEq

inductive BackupRunStatus where
  | scheduled | snapshotting | chunking | uploading | publishing | committed | duplicate | failed
  deriving DecidableEq

inductive SnapshotStatus where
  | building | committed | protectedSnapshot | tombstoned | deleted | corrupted
  deriving DecidableEq

inductive SnapshotMode where
  | onlineBackup | vacuumInto | logical
  deriving DecidableEq

def SnapshotMode.text : SnapshotMode → String
  | .onlineBackup => "online_backup"
  | .vacuumInto => "vacuum_into"
  | .logical => "logical"

structure Source where
  (id driver : String)
  deriving DecidableEq

/-- A repository as far as its writers look at it: its identity and the key
its chunks are filed under. -/
structure Repository where
  (id keyID : String)
  deriving DecidableEq

structure BackupRun where
  (id sourceID repositoryID : String)
  trigger : BackupTrigger
  status : BackupRunStatus
  (snapshotID duplicateOf : Option String := none)
  (sourceSize uniqueBytes reusedBytes : Int := 0)
  (errorCode errorMessage : String := "")
  startedAt : Time
  completedAt : Option Time := none
  deriving DecidableEq

structure Snapshot where
  (id sourceID repositoryID : String)
  status : SnapshotStatus
  snapshotMode : SnapshotMode
  (databaseSize pageSize pageCount : Int)
  (rootDigest schemaDigest : String)
  (chunkCount uniqueChunkCount compressedBytes uniqueUploadedBytes : Int)
  createdAt : Time
  (committedAt verifiedAt : Option Time)
  (manifestObjectKey completionObjectKey : String)
  deriving DecidableEq

structure ChunkRecord where
  (id repositoryID keyVersion compression : String)
  plaintextSize : Int
  objectKey : String
  createdAt : Time
  deriving DecidableEq

structure SnapshotChunk where
  (snapshotID chunkID repositoryID : String)
  (sequence pageStart pageCount plaintextSize : Int)
  deriving DecidableEq

end DBVault
