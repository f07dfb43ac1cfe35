import DBVault.Domain
import DBVault.Queue.Table
import Mathlib.Data.Prod.Lex
import Mathlib.Data.String.Basic

/-! The job queue: jobs and what can happen to one, and the queue that is kept
in memory. -/
namespace DBVault.Queue
open Text Keyed

inductive JobType where
  | unset | backup | verify | restoreDrill | restore | replication | retention | garbageCollection
  | repositoryScan | repositoryRepair | warehouseSync
  deriving DecidableEq

inductive JobStatus where
  | unset | pending | leased | running | retrying | succeeded | failed | cancelled | interrupted
  | deadLetter
  deriving DecidableEq

structure Job where
  id : String
  type : JobType := .unset
  status : JobStatus := .unset
  resourceID : String := ""
  (payloadJSON resultJSON : Bytes := [])
  (attempt maximumAttempts priority : Int := 0)
  availableAt : Time := .zero
  leaseOwner : String := ""
  (leaseExpiresAt startedAt completedAt : Option Time := none)
  (lastErrorCode lastError : String := "")
  (createdAt updatedAt : Time := .zero)
  deriving DecidableEq

structure JobFailure where
  code : ErrorCode
  message : String
  retryable : Bool
  deriving DecidableEq

def JobStatus.terminal : JobStatus → Bool
  | .succeeded | .failed | .cancelled | .deadLetter => true
  | _ => false

def Job.terminal (j : Job) : Bool := j.status.terminal

def retryDelay (attempt : Int) : Int :=
  if attempt ≤ 1 then 30 * Time.nanosPerSecond
  else if attempt = 2 then 120 * Time.nanosPerSecond
  else if attempt = 3 then 600 * Time.nanosPerSecond
  else if attempt = 4 then 1800 * Time.nanosPerSecond
  else 2 * Time.hour

def defaultMaximumAttempts : Int := 5

namespace Job

/-- The fields a new job gets if it comes without them. -/
def withDefaults (now : Time) (job : Job) : Job :=
  { job with
    status := if job.status = .unset then .pending else job.status
    maximumAttempts := if job.maximumAttempts = 0 then defaultMaximumAttempts else job.maximumAttempts
    availableAt := if job.availableAt = .zero then now else job.availableAt
    createdAt := if job.createdAt = .zero then now else job.createdAt
    updatedAt := now }

def leaseTo (now : Time) (workerID : String) (leaseDuration : Int) (j : Job) : Job :=
  { j with
    leaseOwner := workerID, leaseExpiresAt := some (now + leaseDuration), status := .leased
    updatedAt := now }

def renew (now : Time) (leaseDuration : Int) (j : Job) : Job :=
  { j with leaseExpiresAt := some (now + leaseDuration), updatedAt := now }

def complete (now : Time) (resultJSON : Bytes) (j : Job) : Job :=
  { j with
    status := .succeeded, resultJSON := resultJSON, completedAt := some now, updatedAt := now }

/-- One more attempt has failed: the job is tried again after a delay, or has
used up its attempts, or is not worth trying again. -/
def fail (now : Time) (failure : JobFailure) (j : Job) : Job :=
  let j := { j with
    attempt := j.attempt + 1, lastErrorCode := failure.code.text, lastError := failure.message
    updatedAt := now }
  if failure.retryable ∧ j.attempt < j.maximumAttempts then
    { j with status := .retrying, availableAt := now + retryDelay j.attempt }
  else if failure.retryable then { j with status := .deadLetter, completedAt := some now }
  else { j with status := .failed, completedAt := some now }

theorem fail_keeps (now : Time) (failure : JobFailure) (j : Job) :
    (j.fail now failure).id = j.id ∧ (j.fail now failure).leaseOwner = j.leaseOwner ∧
      (j.fail now failure).leaseExpiresAt = j.leaseExpiresAt := by
  simp only [fail]
  split_ifs <;> exact ⟨rfl, rfl, rfl⟩

theorem fail_status (now : Time) (failure : JobFailure) (j : Job) :
    (j.fail now failure).status =
      if failure.retryable then if j.attempt + 1 < j.maximumAttempts then .retrying else .deadLetter
      else .failed := by
  simp only [fail]
  split_ifs <;> simp_all

theorem fail_attempt (now : Time) (failure : JobFailure) (j : Job) :
    (j.fail now failure).attempt = j.attempt + 1 := by
  simp only [fail]
  split_ifs <;> rfl

theorem complete_eq_self {now : Time} {resultJSON : Bytes} {j : Job} :
    j.complete now resultJSON = j ↔ j.status = .succeeded ∧ j.resultJSON = resultJSON ∧
      j.completedAt = some now ∧ j.updatedAt = now := by
  obtain ⟨⟩ := j
  simp only [complete, Job.mk.injEq, true_and]
  constructor
  · rintro ⟨rfl, rfl, rfl, rfl⟩
    exact ⟨rfl, rfl, rfl, rfl⟩
  · rintro ⟨rfl, rfl, rfl, rfl⟩
    exact ⟨rfl, rfl, rfl, rfl⟩

def cancel (now : Time) (j : Job) : Job :=
  { j with status := .cancelled, completedAt := some now, updatedAt := now }

def interrupt (now : Time) (j : Job) : Job :=
  { j with
    status := .interrupted, leaseOwner := "", leaseExpiresAt := none, availableAt := now
    updatedAt := now }

end Job

/-- The fields of a schedule's `Spec` that name its job. -/
structure Spec where
  (id sourceID operation : String)
  deriving DecidableEq

/-- `json.Marshal` of a map to strings whose keys are in order. -/
def marshalStrings (members : List (String × String)) : Bytes :=
  let texts := members.map fun (name, value) => Json.quote name ++ ':' :: Json.quote value
  encodeRunes ('\x7b' :: ((texts.intersperse [',']).flatten ++ ['\x7d']))

def jobForFire (spec : Spec) (fire : Time) : Job where
  id := "sched-" ++ spec.id ++ "-" ++ toString (fire / Time.nanosPerSecond)
  type := if spec.operation = "warehouse_sync" then .warehouseSync else .backup
  status := .pending
  resourceID := spec.sourceID
  payloadJSON := marshalStrings
    [("operation", spec.operation), ("schedule", spec.id), ("source", spec.sourceID)]
  priority := 0

/-- The calls of `ports.JobQueue`. Jobs of equal priority and creation time have
no order of their own; `tie` stands for the one they are taken in. -/
inductive QueueCall where
  | enqueue (job : Job)
  | leaseNext (workerID : String) (types : List JobType) (leaseDuration : Int) (tie : String → Nat)
  | renew (jobID workerID : String) (leaseDuration : Int)
  | complete (jobID : String) (resultJSON : Bytes)
  | fail (jobID : String) (failure : JobFailure)
  | cancel (jobID : String)
  | recoverExpired

inductive QueueAnswer where
  | settled (result : Result Unit)
  | leased (job : Option Job)
  | recovered (jobIDs : List String)

def jobNotFound : GoError := newError .jobUnavailable "job not found"

abbrev MemoryCore := Table Job.id

namespace MemoryCore
variable (c : MemoryCore) (now : Time)

def enqueueLocked (job : Job) : Result Unit × MemoryCore :=
  match c.find job.id with
  | some existing => (.ok (), if existing.terminal then c.store (job.withDefaults now) else c)
  | none => (.ok (), c.store (job.withDefaults now))

/-- The jobs `LeaseNext` may hand out. -/
def candidate (types : List JobType) (j : Job) : Bool :=
  !j.terminal && (types.isEmpty || types.contains j.type) && decide (j.availableAt ≤ now) &&
    match j.leaseExpiresAt with
    | some expiry => decide (expiry ≤ now)
    | none => true

def rank (tie : String → Nat) (j : Job) : ℤ ×ₗ Time ×ₗ ℕ ×ₗ String :=
  toLex (-j.priority, toLex (j.createdAt, toLex (tie j.id, j.id)))

def leaseNextLocked (workerID : String) (types : List JobType) (leaseDuration : Int)
    (tie : String → Nat) : Option Job × MemoryCore :=
  match c.first (candidate now types) (rank tie) with
  | none => (none, c)
  | some j =>
    let j := j.leaseTo now workerID leaseDuration
    (some j, c.store j)

def update (jobID : String) (f : Job → Result Job) : Result Unit × MemoryCore :=
  match c.find jobID with
  | none => (.error jobNotFound, c)
  | some j =>
    match f j with
    | .error err => (.error err, c)
    | .ok j => (.ok (), c.store j)

def renewLocked (jobID workerID : String) (leaseDuration : Int) : Result Unit × MemoryCore :=
  update c jobID fun j =>
    if j.leaseOwner ≠ workerID then .error (newError .jobUnavailable "job lease owner mismatch")
    else .ok (j.renew now leaseDuration)

def completeLocked (jobID : String) (resultJSON : Bytes) : Result Unit × MemoryCore :=
  update c jobID fun j => .ok (j.complete now resultJSON)

def failLocked (jobID : String) (failure : JobFailure) : Result Unit × MemoryCore :=
  update c jobID fun j => .ok (j.fail now failure)

def cancelLocked (jobID : String) : Result Unit × MemoryCore := update c jobID fun j => .ok (j.cancel now)

def expired (j : Job) : Bool :=
  (match j.leaseExpiresAt with
    | some expiry => decide (expiry < now)
    | none => false) && !j.terminal

def recoverExpiredLocked : List String × MemoryCore :=
  ((c.rows.filter (expired now)).map (·.id),
    c.modify (fun j => if expired now j then j.interrupt now else j) fun j => by split <;> rfl)

def perform : QueueCall → QueueAnswer × MemoryCore
  | .enqueue job => (enqueueLocked c now job).map .settled id
  | .leaseNext workerID types leaseDuration tie =>
    (leaseNextLocked c now workerID types leaseDuration tie).map .leased id
  | .renew jobID workerID leaseDuration => (renewLocked c now jobID workerID leaseDuration).map .settled id
  | .complete jobID resultJSON => (completeLocked c now jobID resultJSON).map .settled id
  | .fail jobID failure => (failLocked c now jobID failure).map .settled id
  | .cancel jobID => (cancelLocked c now jobID).map .settled id
  | .recoverExpired => (recoverExpiredLocked c now).map .recovered id

end MemoryCore

namespace Sample

def job : Job := jobForFire ⟨"nightly", "orders", "logical_backup"⟩ (1700000000 * Time.nanosPerSecond)

def clock (seconds : Int) : Time := (1700000000 + seconds) * Time.nanosPerSecond

end Sample

end DBVault.Queue
