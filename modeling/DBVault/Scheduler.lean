import DBVault.Queue.Sweep
import DBVault.Queue.Workers
import DBVault.Scheduler.Cron

/-! The job runtime of a process: the scheduler that enqueues the occurrences of
schedules, and the workers that execute jobs and report them back to it. -/
namespace DBVault.Scheduling
open Queue

/-- A `Spec` with when it is due. -/
structure Schedule extends Spec where
  (cron timezone : String := "")
  everySeconds : Int := 0
  deriving DecidableEq

structure System where
  parseCron : String → Option CronExpr
  (utc localZone : Location)
  zone : String → Option Location

def System.loadLocation (system : System) (name : String) : Option Location :=
  if name = "" ∨ name = "UTC" then some system.utc
  else if name = "Local" then some system.localZone
  else system.zone name

structure Scheduler where
  specs : List Schedule
  exprs : String → Option CronExpr
  locs : String → Option Location
  inflight : String → Option String
  (lastFire baseline : String → Time)

namespace Scheduler

def empty (specs : List Schedule) : Scheduler where
  specs := specs
  exprs _ := none
  locs _ := none
  inflight _ := none
  lastFire _ := Time.zero
  baseline _ := Time.zero

/-- What `New` notes of a cron schedule. A zone that cannot be loaded is UTC. -/
def register (system : System) (now : Time) (s : Scheduler) (spec : Schedule) : Scheduler :=
  if spec.cron = "" then s
  else
    { s with
      baseline := Function.update s.baseline spec.id now
      exprs :=
        match system.parseCron spec.cron with
        | some e => Function.update s.exprs spec.id (some e)
        | none => s.exprs
      locs := Function.update s.locs spec.id (some ((system.loadLocation spec.timezone).getD system.utc)) }

def new (system : System) (specs : List Schedule) (now : Time) : Scheduler :=
  specs.foldl (register system now) (empty specs)

theorem new_keeps {α : Type} (field : Scheduler → α) {system : System} {now : Time}
    (hKeeps : ∀ s spec, field (register system now s spec) = field s) (specs : List Schedule) :
    field (new system specs now) = field (empty specs) := by
  suffices hFold : ∀ s, field (specs.foldl (register system now) s) = field s from hFold _
  induction specs with
  | nil => exact fun _ => rfl
  | cons spec rest ih =>
    intro s
    rw [List.foldl_cons, ih, hKeeps]

/-- The product of a number of seconds and `time.Second`. -/
def windowOf (everySeconds : Int) : Int := (everySeconds * Time.nanosPerSecond).bmod (2 ^ 64)

def searchFrom (s : Scheduler) (scheduleID : String) (now : Time) : Time :=
  if s.lastFire scheduleID = Time.zero then
    if s.baseline scheduleID = Time.zero then now else s.baseline scheduleID
  else s.lastFire scheduleID

def dueFire (system : System) (s : Scheduler) (spec : Schedule) (now : Time) : Option Time :=
  if spec.cron ≠ "" then
    match s.exprs spec.id with
    | none => none
    | some e =>
      let next := e.nextAfter (s.searchFrom spec.id now) ((s.locs spec.id).getD system.utc)
      if next = Time.zero ∨ now < next then none else some next
  else
    let window := windowOf spec.everySeconds
    if window ≤ 0 then none
    else
      let current := truncate now window
      if s.lastFire spec.id ≠ Time.zero ∧ current ≤ s.lastFire spec.id then none else some current

def live (s : Scheduler) (scheduleID : String) : Bool := (s.inflight scheduleID).isSome

/-- `Settle`, for every schedule the job is in flight for. -/
def settle (s : Scheduler) (jobID : String) : Scheduler :=
  { s with inflight := fun id => if s.inflight id = some jobID then none else s.inflight id }

def markInflight (s : Scheduler) (scheduleID jobID : String) : Scheduler :=
  { s with inflight := Function.update s.inflight scheduleID (some jobID) }

def setLastFire (s : Scheduler) (scheduleID : String) (t : Time) : Scheduler :=
  { s with lastFire := Function.update s.lastFire scheduleID t }

end Scheduler

def Schedule.job (spec : Schedule) (fire : Time) : Job := jobForFire spec.toSpec fire

/-- Where `Run` stands: before or in its recovery of leases, or before the step of a
`Tick` that is to come next. -/
inductive Phase where
  | starting
  | recovering (now : Time) (found : List Job)
  | waiting
  | dueCheck (now : Time) (specs : List Schedule)
  | liveCheck (now : Time) (spec : Schedule) (fire : Time) (rest : List Schedule)
  | enqueue (now : Time) (spec : Schedule) (fire : Time) (rest : List Schedule)
  | setLastFire (now : Time) (spec : Schedule) (fire : Time) (rest : List Schedule)
  | markInflight (now : Time) (spec : Schedule) (fire : Time) (rest : List Schedule)

/-- No `Tick` is under way. -/
def Phase.idle : Phase → Bool
  | .starting | .recovering .. | .waiting => true
  | _ => false

/-- A worker waits for a job, executes one with a heartbeat next to it, or has settled
one and is about to report that. -/
inductive Worker where
  | idle
  | executing (job : Job) (heartbeat : Bool)
  | reporting (jobID : String)

inductive Event where
  | booted (specs : List Schedule)
  /-- `Enqueue` of a `Tick` has returned. -/
  | enqueued (spec : Schedule) (fire : Time)
  | marked (scheduleID jobID : String)
  | leased (worker : Nat) (jobID : String)
  /-- A worker has settled the job, which was left with the status. -/
  | settled (worker : Nat) (jobID : String) (status : JobStatus)
  | reported (worker : Nat) (jobID : String)
  /-- A recovery was made at once. -/
  | recovered (jobIDs : List String)
  /-- The `SELECT` of a recovery. -/
  | selected (jobIDs : List String)
  /-- The transaction of a recovery for a job it has found. -/
  | interrupted (jobID : String)
  deriving DecidableEq

/-- The process and the queue, which stays when the process ends. All that has happened
is kept, the last event first. -/
structure Runtime (kind : QueueKind) where
  queue : kind.model.State
  scheduler : Scheduler
  phase : Phase
  workers : Nat → Worker
  count : Int
  stopped : Bool
  past : List Event

inductive Action where
  /-- The process ends, if there is one, and another is started. -/
  | boot (specs : List Schedule) (workers : Int)
  /-- The next step of the scheduler's `Run`. -/
  | run
  | lease (worker : Nat) (tie : String → Nat)
  | heartbeat (worker : Nat)
  | heartbeatLost (worker : Nat)
  | settle (worker : Nat) (outcome : Except String (List UInt8))
  | report (worker : Nat)
  | stop
  /-- A job that no schedule has fired. -/
  | enqueue (job : Job)

def scheduledPrefix : List Char := ['s', 'c', 'h', 'e', 'd', '-']

def scheduled (jobID : String) : Bool := scheduledPrefix.isPrefixOf jobID.toList

/-- The job types `startJobRuntime` gives to its workers. -/
def jobTypes : List JobType := [.backup, .garbageCollection, .warehouseSync]

/-- The lease duration `NewWorkerPool` falls back to. -/
def leaseDuration : Int := (newWorkerPool {}).leaseDuration

/-- `RecoverExpired` up to where other calls may come in between: all of it for the
queue in memory, the `SELECT` for the durable one. -/
def beginRecovery : (kind : QueueKind) → kind.model.State → Time → Event × kind.model.State × List Job
  | .memory, c, now =>
    let (ids, next) := MemoryCore.recoverExpiredLocked c now
    (.recovered ids, next, [])
  | .durable, q, now =>
    let found := SqliteQueue.select q now
    (.selected (found.map (·.id)), q, found)

def writeBack : (kind : QueueKind) → kind.model.State → Time → Job → kind.model.State
  | .memory, c, _, _ => c
  | .durable, q, now, j => SqliteQueue.writeBack q now j

namespace Runtime
variable {kind : QueueKind}

def start (kind : QueueKind) : Runtime kind where
  queue := kind.model.start
  scheduler := .empty []
  phase := .waiting
  workers _ := .idle
  count := 0
  stopped := false
  past := []

def reaches (s : Runtime kind) : Bool := !(s.stopped && decide (kind = .durable))

def call (s : Runtime kind) (now : Time) (call : QueueCall) : Runtime kind :=
  { s with queue := (kind.model.perform s.queue now call).2 }

def answer (s : Runtime kind) (now : Time) (call : QueueCall) : QueueAnswer :=
  (kind.model.perform s.queue now call).1

def turn (s : Runtime kind) (worker : Nat) (next : Worker) : Runtime kind :=
  { s with workers := Function.update s.workers worker next }

def note (s : Runtime kind) (event : Event) : Runtime kind := { s with past := event :: s.past }

def enter (s : Runtime kind) (phase : Phase) : Runtime kind := { s with phase := phase }

def job (s : Runtime kind) (jobID : String) : Option Job := kind.model.find s.queue jobID

def runStep (system : System) (s : Runtime kind) (now : Time) : Runtime kind :=
  match s.phase with
  | .starting =>
    if s.reaches then
      let (event, queue, found) := beginRecovery kind s.queue now
      { s with queue := queue, phase := .recovering now found, past := event :: s.past }
    else s.enter .waiting
  | .recovering _ [] => s.enter .waiting
  | .recovering time (j :: rest) =>
    if s.reaches then
      { s with
        queue := writeBack kind s.queue time j
        phase := .recovering time rest
        past := .interrupted j.id :: s.past }
    else s.enter .waiting
  | .waiting => s.enter (.dueCheck now s.scheduler.specs)
  | .dueCheck _ [] => s.enter .waiting
  | .dueCheck time (spec :: rest) =>
    match s.scheduler.dueFire system spec time with
    | none => s.enter (.dueCheck time rest)
    | some fire => s.enter (.liveCheck time spec fire rest)
  | .liveCheck time spec fire rest =>
    if s.scheduler.live spec.id then s.enter (.dueCheck time rest)
    else s.enter (.enqueue time spec fire rest)
  | .enqueue time spec fire rest =>
    if s.reaches then
      ((s.call now (.enqueue (spec.job fire))).note (.enqueued spec fire)).enter
        (.setLastFire time spec fire rest)
    else s.enter (.dueCheck time rest)
  | .setLastFire time spec fire rest =>
    { s with scheduler := s.scheduler.setLastFire spec.id fire }.enter (.markInflight time spec fire rest)
  | .markInflight time spec fire rest =>
    ({ s with scheduler := s.scheduler.markInflight spec.id (spec.job fire).id }.note
      (.marked spec.id (spec.job fire).id)).enter (.dueCheck time rest)

def step (system : System) (s : Runtime kind) (now : Time) : Action → Runtime kind
  | .boot specs workers =>
    { s with
      scheduler := .new system specs now
      phase := .starting
      workers := fun _ => .idle
      count := if workers ≤ 0 then 1 else workers
      stopped := false
      past := .booted specs :: s.past }
  | .run => s.runStep system now
  | .lease worker tie =>
    match s.workers worker with
    | .idle =>
      if worker < s.count ∧ s.reaches then
        let call := .leaseNext (workerID worker) jobTypes leaseDuration tie
        match s.answer now call with
        | .leased (some given) =>
          ((s.call now call).note (.leased worker given.id)).turn worker (.executing given true)
        | _ => s.call now call
      else s
    | _ => s
  | .heartbeat worker =>
    match s.workers worker with
    | .executing job true =>
      if s.reaches then
        let call := .renew job.id (workerID worker) leaseDuration
        match s.answer now call with
        | .settled (.ok ()) => s.call now call
        | _ => (s.call now call).turn worker (.executing job false)
      else s.turn worker (.executing job false)
    | _ => s
  | .heartbeatLost worker =>
    match s.workers worker with
    | .executing job _ => s.turn worker (.executing job false)
    | _ => s
  | .settle worker outcome =>
    match s.workers worker with
    | .executing job _ =>
      if s.reaches then
        let settled := s.call now (settlement s.stopped job outcome)
        (settled.note (.settled worker job.id (((settled.job job.id).map (·.status)).getD .unset))).turn
          worker (.reporting job.id)
      else s.turn worker (.reporting job.id)
    | _ => s
  | .report worker =>
    match s.workers worker with
    | .reporting jobID =>
      ({ s with scheduler := s.scheduler.settle jobID }.note (.reported worker jobID)).turn worker .idle
    | _ => s
  | .stop => { s with stopped := true }
  | .enqueue job => if scheduled job.id then s else s.call now (.enqueue job)

def run (kind : QueueKind) (system : System) (actions : List (Time × Action)) : Runtime kind :=
  actions.foldl (fun s timed => s.step system timed.1 timed.2) (start kind)

theorem run_snoc (system : System) (actions : List (Time × Action)) (timed : Time × Action) :
    run kind system (actions ++ [timed]) = (run kind system actions).step system timed.1 timed.2 := by
  simp [run]

end Runtime

end DBVault.Scheduling
