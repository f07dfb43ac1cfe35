import DBVault.Queue.LifeCycle

/-! The durable queue: one row of the `jobs` table for each job, with columns
that the statements look at and the whole job as JSON. Times are TEXT, compared
as such. A time of the years 0 to 9999 is written and read back without loss, and
JSON is what was marshalled, so rows hold the values; a comparison goes through the text. -/
namespace DBVault.Queue
open List Keyed Table

/-- The column `lease_expires_at`. -/
inductive TimeColumn where
  | null
  | empty
  | time (t : Time)
  deriving DecidableEq

namespace TimeColumn

/-- `IS NULL`. -/
def isNull : TimeColumn → Bool
  | .null => true
  | _ => false

/-- `column <= ?`; a comparison with NULL is not true, and the empty text comes
before all others. -/
def le (now : Time) : TimeColumn → Bool
  | .null => false
  | .empty => true
  | .time t => t.rfc3339Nano ≤ now.rfc3339Nano

/-- `column < ?`. -/
def lt (now : Time) : TimeColumn → Bool
  | .null => false
  | .empty => true
  | .time t => t.rfc3339Nano < now.rfc3339Nano

def scanned : TimeColumn → Option Time
  | .time t => some t
  | _ => none

def ofOption : Option Time → TimeColumn
  | some t => .time t
  | none => .empty

end TimeColumn

structure JobRow where
  id : String
  type : JobType
  status : JobStatus
  resourceID : String
  (priority attempt maximumAttempts : Int)
  availableAt : Time
  leaseOwner : String
  leaseExpiresAt : TimeColumn
  (createdAt updatedAt : Time)
  json : Job
  /-- The JSON is that of the job the row is filed under. -/
  sameID : json.id = id
  /-- No statement writes NULL. -/
  written : leaseExpiresAt.isNull = false

/-- `scanJob`: the JSON overwrites what was read from the columns, except for the
lease. -/
def JobRow.scanJob (row : JobRow) : Job :=
  { row.json with
    leaseOwner := row.leaseOwner, leaseExpiresAt := row.leaseExpiresAt.scanned }

def jobArgs (j : Job) : JobRow where
  id := j.id
  type := j.type
  status := j.status
  resourceID := j.resourceID
  priority := j.priority
  attempt := j.attempt
  maximumAttempts := j.maximumAttempts
  availableAt := j.availableAt
  leaseOwner := j.leaseOwner
  leaseExpiresAt := .ofOption j.leaseExpiresAt
  createdAt := j.createdAt
  updatedAt := j.updatedAt
  json := j
  sameID := rfl
  written := by cases j.leaseExpiresAt <;> rfl

/-- The production `Queue`. -/
abbrev SqliteQueue := Table JobRow.id

namespace SqliteQueue
variable (q : SqliteQueue) (now : Time)

def enqueue (job : Job) : Result Unit × SqliteQueue :=
  match q.find job.id with
  | some row => (.ok (), if row.scanJob.terminal then q.store (jobArgs job) else q)
  | none => (.ok (), q.store (jobArgs job))

/-- The rows the `SELECT` of `LeaseNext` finds. -/
def selectable (types : List JobType) (row : JobRow) : Bool :=
  [JobStatus.pending, .retrying, .interrupted].contains row.status &&
    decide (row.availableAt.rfc3339Nano ≤ now.rfc3339Nano) &&
    (row.leaseExpiresAt.isNull || row.leaseExpiresAt.le now) &&
    (types.isEmpty || types.contains row.type)

/-- `ORDER BY priority DESC, created_at ASC`. -/
def rank (tie : String → Nat) (row : JobRow) : ℤ ×ₗ String ×ₗ ℕ ×ₗ String :=
  toLex (-row.priority, toLex (row.createdAt.rfc3339Nano, toLex (tie row.id, row.id)))

/-- The `UPDATE` of `LeaseNext`, which leaves the JSON as it was. -/
def leaseRow (workerID : String) (leaseDuration : Int) (row : JobRow) : JobRow :=
  { row with
    status := .leased, leaseOwner := workerID, leaseExpiresAt := .time (now + leaseDuration)
    updatedAt := now, written := rfl }

/-- The job `LeaseNext` returns for the row it found. -/
def leasedJob (workerID : String) (leaseDuration : Int) (row : JobRow) : Job :=
  { row.scanJob with
    leaseOwner := workerID, leaseExpiresAt := some (now + leaseDuration), status := .leased }

def leaseNext (workerID : String) (types : List JobType) (leaseDuration : Int)
    (tie : String → Nat) : Option Job × SqliteQueue :=
  match q.first (selectable now types) (rank tie) with
  | none => (none, q)
  | some row =>
    (some (leasedJob now workerID leaseDuration row), q.store (leaseRow now workerID leaseDuration row))

/-- The `UPDATE` of `Renew`. -/
def renewRow (leaseDuration : Int) (row : JobRow) : JobRow :=
  { row with
    leaseExpiresAt := .time (now + leaseDuration), updatedAt := now, written := rfl }

def renew (jobID workerID : String) (leaseDuration : Int) : Result Unit × SqliteQueue :=
  let refused := newError .jobUnavailable "job lease owner mismatch or job not found"
  match q.find jobID with
  | none => (.error refused, q)
  | some row =>
    if row.leaseOwner = workerID then (.ok (), q.store (renewRow now leaseDuration row))
    else (.error refused, q)

/-- `loadLocked`, a change and the `UPSERT`. -/
def update (jobID : String) (f : Job → Job) : Result Unit × SqliteQueue :=
  match q.find jobID with
  | none => (.error jobNotFound, q)
  | some row => (.ok (), q.store (jobArgs (f row.scanJob)))

def complete (jobID : String) (resultJSON : List UInt8) : Result Unit × SqliteQueue :=
  update q jobID (Job.complete now resultJSON)

def fail (jobID : String) (failure : JobFailure) : Result Unit × SqliteQueue :=
  update q jobID (Job.fail now failure)

def cancel (jobID : String) : Result Unit × SqliteQueue := update q jobID (Job.cancel now)

/-- The rows the `SELECT` of `RecoverExpired` finds. -/
def expired (row : JobRow) : Bool :=
  !row.leaseExpiresAt.isNull && row.leaseExpiresAt.lt now && !row.status.terminal

def recoverExpired : List String × SqliteQueue :=
  ((q.rows.filter (expired now)).map (·.id),
    q.modify (fun row => if expired now row then jobArgs (row.scanJob.interrupt now) else row)
      fun row => by
        split
        · exact row.sameID
        · rfl)

def perform : QueueCall → QueueAnswer × SqliteQueue
  | .enqueue job => (enqueue q job).map .settled id
  | .leaseNext workerID types leaseDuration tie =>
    (leaseNext q now workerID types leaseDuration tie).map .leased id
  | .renew jobID workerID leaseDuration => (renew q now jobID workerID leaseDuration).map .settled id
  | .complete jobID resultJSON => (complete q now jobID resultJSON).map .settled id
  | .fail jobID failure => (fail q now jobID failure).map .settled id
  | .cancel jobID => (cancel q now jobID).map .settled id
  | .recoverExpired => (recoverExpired q now).map .recovered id

end SqliteQueue

def JobRow.job (row : JobRow) : Job := { row.scanJob with status := row.status, updatedAt := row.updatedAt }

/-- Only the columns know that a job was leased: its status in the JSON may be an
older one, but is terminal exactly if the column's is. -/
def JobRow.Coherent (row : JobRow) : Prop := row.json.status.terminal = row.status.terminal

namespace SqliteQueue

def Coherent (q : SqliteQueue) : Prop := ∀ row ∈ q.rows, row.Coherent

def model : QueueModel where
  State := SqliteQueue
  start := .empty
  perform := SqliteQueue.perform
  find q id := (q.find id).map JobRow.job

variable {q : SqliteQueue} {now : Time}

theorem job_jobArgs (j : Job) : (jobArgs j).job = j := by
  obtain ⟨⟩ := j
  simp only [JobRow.job, JobRow.scanJob, jobArgs, Job.mk.injEq, true_and, and_true]
  rename_i leaseExpiresAt _ _ _ _ _ _
  cases leaseExpiresAt <;> rfl

theorem coherent_jobArgs (j : Job) : (jobArgs j).Coherent := rfl

variable {row : JobRow}

theorem terminal_scanJob (h : row.Coherent) : row.scanJob.terminal = row.job.terminal := h

theorem rank_key (tie : String → Nat) (row row' : JobRow) (h : rank tie row = rank tie row') :
    row.id = row'.id := by
  simp only [rank, EmbeddingLike.apply_eq_iff_eq, Prod.mk.injEq] at h
  exact h.2.2.2

theorem selectable_live (h : selectable now types row = true) : row.status.terminal = false := by
  simp only [selectable, Bool.and_eq_true, contains_iff_mem, mem_cons, not_mem_nil, or_false] at h
  rcases h.1.1.1 with h | h | h <;> rw [h] <;> rfl

theorem Coherent.store (hCoherent : q.Coherent) (hRow : row.Coherent) : Coherent (q.store row) := by
  intro other hOther
  rcases mem_store.mp hOther with rfl | ⟨hOld, -⟩
  · exact hRow
  · exact hCoherent other hOld

variable {job : Job}

theorem enqueue_live (hFind : q.find job.id = some row)
    (hLive : row.scanJob.terminal = false) : enqueue q job = (.ok (), q) := by
  simp [enqueue, hFind, hLive]

theorem enqueue_stores (hOld : ∀ row, q.find job.id = some row → row.scanJob.terminal = true) :
    enqueue q job = (.ok (), q.store (jobArgs job)) := by
  unfold enqueue
  cases hFind : q.find job.id with
  | none => rfl
  | some row => simp [hOld row hFind]

variable {f : Job → Job} {jobID : String}

theorem update_none (hFind : q.find jobID = none) : update q jobID f = (.error jobNotFound, q) := by
  simp [update, hFind]

theorem update_some (hFind : q.find jobID = some row) :
    update q jobID f = (.ok (), q.store (jobArgs (f row.scanJob))) := by
  simp [update, hFind]

theorem coherent_enqueue (job : Job) (h : Coherent q) : Coherent (enqueue q job).2 := by
  by_cases hLive : ∃ row, q.find job.id = some row ∧ row.scanJob.terminal = false
  · obtain ⟨row, hFind, hLive⟩ := hLive
    rwa [enqueue_live hFind hLive]
  · rw [enqueue_stores (by simpa using hLive)]
    exact h.store (coherent_jobArgs job)

theorem coherent_update (h : Coherent q) : Coherent (update q jobID f).2 := by
  cases hFind : q.find jobID with
  | none => rwa [update_none hFind]
  | some row =>
    rw [update_some hFind]
    exact h.store (coherent_jobArgs _)

theorem coherent_leaseNext (workerID : String) (types : List JobType) (leaseDuration : Int)
    (tie : String → Nat) (h : Coherent q) :
    Coherent (leaseNext q now workerID types leaseDuration tie).2 := by
  unfold leaseNext
  cases hFirst : q.first (selectable now types) (rank tie) with
  | none => exact h
  | some row =>
    obtain ⟨hMem, hSelectable, -⟩ := (first_eq_some (rank_key tie)).mp hFirst
    refine h.store ?_
    have hRow : row.json.status.terminal = row.status.terminal := h row hMem
    rw [selectable_live hSelectable] at hRow
    exact hRow

theorem coherent_renew (jobID workerID : String) (leaseDuration : Int) (h : Coherent q) :
    Coherent (renew q now jobID workerID leaseDuration).2 := by
  unfold renew
  cases hFind : q.find jobID with
  | none => exact h
  | some row =>
    have hRow : row.Coherent := h row (find_eq_some.mp hFind).1
    by_cases hOwner : row.leaseOwner = workerID
    · simp only [hOwner, if_true]
      exact h.store hRow
    · simp only [hOwner, if_false]
      exact h

theorem coherent_recoverExpired (h : Coherent q) : Coherent (recoverExpired q now).2 := by
  intro row hRow
  obtain ⟨old, hOld, rfl⟩ := mem_map.mp hRow
  split
  · exact coherent_jobArgs _
  · exact h old hOld

theorem keeps_coherent (call : QueueCall) (h : Coherent q) : Coherent (q.perform now call).2 := by
  cases call with
  | enqueue job => exact coherent_enqueue job h
  | leaseNext workerID types leaseDuration tie => exact coherent_leaseNext workerID types leaseDuration tie h
  | renew jobID workerID leaseDuration => exact coherent_renew jobID workerID leaseDuration h
  | complete jobID resultJSON => exact coherent_update h
  | fail jobID failure => exact coherent_update h
  | cancel jobID => exact coherent_update h
  | recoverExpired => exact coherent_recoverExpired h

theorem enqueue_step (h : Coherent q) (job : Job) (id : String) :
    JobStep now id (.enqueue job) (.settled (enqueue q job).1) ((q.find id).map JobRow.job)
      (((enqueue q job).2.find id).map JobRow.job) := by
  have hTerminal : ∀ row, q.find job.id = some row → row.scanJob.terminal = row.job.terminal :=
    fun row hFind => terminal_scanJob (h row (find_eq_some.mp hFind).1)
  by_cases hLive : ∃ row, q.find job.id = some row ∧ row.scanJob.terminal = false
  · obtain ⟨row, hFind, hLive⟩ := hLive
    rw [enqueue_live hFind hLive]
    refine step_keep _ rfl ?_ id
    rw [hFind]
    exact .kept rfl ((hTerminal row hFind).symm.trans hLive)
  · have hOld : ∀ row, q.find job.id = some row → row.scanJob.terminal = true := by simpa using hLive
    rw [enqueue_stores hOld]
    refine step_store _ rfl ?_ id
    rw [job_jobArgs]
    refine .stored rfl ?_ ⟨rfl, rfl, rfl⟩
    intro j hJob
    obtain ⟨row, hFind, rfl⟩ := Option.map_eq_some_iff.mp hJob
    exact (hTerminal row hFind).symm.trans (hOld row hFind)

theorem leaseNext_step (workerID : String) (types : List JobType) (leaseDuration : Int)
    (tie : String → Nat) (id : String) :
    JobStep now id (.leaseNext workerID types leaseDuration tie)
      (.leased (leaseNext q now workerID types leaseDuration tie).1) ((q.find id).map JobRow.job)
      (((leaseNext q now workerID types leaseDuration tie).2.find id).map JobRow.job) := by
  unfold leaseNext
  cases hFirst : q.first (selectable now types) (rank tie) with
  | none => exact .passed (by simp [QueueCall.subjects])
  | some row =>
    obtain ⟨hMem, hSelectable, -⟩ := (first_eq_some (rank_key tie)).mp hFirst
    have hFind : q.find (leaseRow now workerID leaseDuration row).id = some row := mem_rows.mp hMem
    have hGiven : (leasedJob now workerID leaseDuration row).id =
      (leaseRow now workerID leaseDuration row).id := row.sameID
    have hLive : row.job.terminal = false := selectable_live hSelectable
    have hStep : JobStep now (leaseRow now workerID leaseDuration row).id
        (.leaseNext workerID types leaseDuration tie)
        (.leased (some (leasedJob now workerID leaseDuration row))) (some row.job)
        (some (row.job.leaseTo now workerID leaseDuration)) := .leased hGiven hLive
    have hSubject : (QueueCall.leaseNext workerID types leaseDuration tie).subjects
        (.leased (some (leasedJob now workerID leaseDuration row))) =
          [(leaseRow now workerID leaseDuration row).id] := congrArg ([·]) hGiven
    refine step_store JobRow.job hSubject ?_ id
    rw [hFind]
    exact hStep

theorem renew_step (jobID workerID : String) (leaseDuration : Int) (id : String) :
    JobStep now id (.renew jobID workerID leaseDuration)
      (.settled (renew q now jobID workerID leaseDuration).1) ((q.find id).map JobRow.job)
      (((renew q now jobID workerID leaseDuration).2.find id).map JobRow.job) := by
  unfold renew
  cases hFind : q.find jobID with
  | none =>
    refine step_keep _ rfl ?_ id
    rw [hFind]
    exact .missing
  | some row =>
    by_cases hOwner : row.leaseOwner = workerID
    · simp only [hOwner, if_true]
      obtain ⟨hMem, rfl⟩ := find_eq_some.mp hFind
      have hStep : JobStep now row.id (.renew row.id workerID leaseDuration) (.settled (.ok ()))
          (some row.job) (some (row.job.renew now leaseDuration)) := .renewed hOwner
      have hRow : q.find (renewRow now leaseDuration row).id = some row := hFind
      refine step_store JobRow.job rfl ?_ id
      rw [hRow]
      exact hStep
    · simp only [hOwner, if_false]
      refine step_keep _ rfl ?_ id
      rw [hFind]
      exact .refused (by simpa [JobRow.job, JobRow.scanJob] using hOwner)

/-- The statements that load a job, change it and write it back. What they
change includes all that the JSON may be behind in. -/
theorem update_step (hSubject : ∀ answer, call.subjects answer = [jobID])
    (hKey : ∀ j, (f j).id = j.id) (hScan : ∀ row : JobRow, f row.scanJob = f row.job)
    (hOk : ∀ j, JobStep now jobID call (.settled (.ok ())) (some j) (some (f j))) (id : String) :
    JobStep now id call (.settled (update q jobID f).1) ((q.find id).map JobRow.job)
      (((update q jobID f).2.find id).map JobRow.job) := by
  cases hFind : q.find jobID with
  | none =>
    rw [update_none hFind]
    refine step_keep _ (hSubject _) ?_ id
    rw [hFind]
    exact .missing
  | some row =>
    rw [update_some hFind]
    have hID : (jobArgs (f row.scanJob)).id = jobID :=
      (hKey row.scanJob).trans (row.sameID.trans (find_eq_some.mp hFind).2)
    refine step_store _ ((hSubject _).trans (by rw [hID])) ?_ id
    rw [hID, hFind, job_jobArgs, hScan]
    exact hOk row.job

theorem expired_live (h : expired now row = true) : row.job.terminal = false := by
  simp only [expired, Bool.and_eq_true, Bool.not_eq_true'] at h
  exact h.2

theorem lawful : model.Lawful Coherent where
  start := by simp [Coherent, model, Table.empty]
  find_start _ := rfl
  keeps _ call h := keeps_coherent call h
  step := by
    intro q now call id h
    cases call with
    | enqueue job => exact enqueue_step h job id
    | leaseNext workerID types leaseDuration tie => exact leaseNext_step workerID types leaseDuration tie id
    | renew jobID workerID leaseDuration => exact renew_step jobID workerID leaseDuration id
    | complete jobID resultJSON =>
      exact update_step (f := Job.complete now resultJSON) (fun _ => rfl) (fun _ => rfl)
        (fun _ => rfl) (fun _ => .completed) id
    | fail jobID failure =>
      exact update_step (fun _ => rfl) (fun j => (j.fail_keeps now failure).1) (fun _ => rfl) (fun _ => .failed) id
    | cancel jobID =>
      exact update_step (f := Job.cancel now) (fun _ => rfl) (fun _ => rfl) (fun _ => rfl) (fun _ => .cancelled) id
    | recoverExpired =>
      have hKey : ∀ row : JobRow,
          (if expired now row then jobArgs (row.scanJob.interrupt now) else row).id = row.id := by
        intro row
        split
        · exact row.sameID
        · rfl
      exact step_recover JobRow.job hKey (fun _ => expired_live) (fun _ => job_jobArgs _) id

end SqliteQueue

/-- The two queues: `New` gives one in memory, `Open` one that is durable. -/
inductive QueueKind where
  | memory | durable
  deriving DecidableEq

def QueueKind.model : QueueKind → QueueModel
  | .memory => MemoryCore.model
  | .durable => SqliteQueue.model

theorem QueueKind.lawful (kind : QueueKind) : ∃ inv, kind.model.Lawful inv := by
  cases kind with
  | memory => exact ⟨_, MemoryCore.lawful⟩
  | durable => exact ⟨_, SqliteQueue.lawful⟩

end DBVault.Queue
