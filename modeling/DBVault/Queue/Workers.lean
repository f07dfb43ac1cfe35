import DBVault.Queue.Lease
import DBVault.Queue.Sqlite

/-! The workers that execute jobs, and whose settlement of a job counts. -/
namespace DBVault.Queue

structure WorkerOptions where
  workers : Int := 0
  types : List JobType := []
  leaseDuration : Int := 0

def newWorkerPool (opts : WorkerOptions) : WorkerOptions where
  workers := if opts.workers ≤ 0 then 1 else opts.workers
  types := if opts.types.isEmpty then [.backup] else opts.types
  leaseDuration := if opts.leaseDuration ≤ 0 then 300 * Time.nanosPerSecond else opts.leaseDuration

/-- The name `Start` gives to a worker. -/
def workerID (worker : Nat) : String := "worker-" ++ toString (worker + 1)

/-- A worker waits for a job, or executes one; next to that goes its heartbeat,
until a `Renew` fails. -/
inductive Activity where
  | idle
  | executing (job : Job) (heartbeat : Bool)
  deriving DecidableEq

/-- The workers and the queue. When the context of the pool is cancelled, its
calls no longer get to the durable queue; the queue in memory ignores it. -/
structure Pool (kind : QueueKind) where
  queue : Logged kind.model
  activity : Nat → Activity
  stopped : Bool

inductive PoolAction where
  /-- `step` begins. -/
  | lease (worker : Nat) (tie : String → Nat)
  | heartbeat (worker : Nat)
  /-- A `Renew` that fails before it gets to the queue. -/
  | heartbeatLost (worker : Nat)
  /-- The executor returns a result or an error, and `step` ends. -/
  | settle (worker : Nat) (outcome : Except String (List UInt8))
  | stop
  /-- A call that does not come from the pool. -/
  | elsewhere (call : QueueCall)

def settlement (stopped : Bool) (job : Job) : Except String (List UInt8) → QueueCall
  | .ok resultJSON => .complete job.id resultJSON
  | .error message => .fail job.id ⟨.jobUnavailable, message, !stopped⟩

namespace Pool
variable {kind : QueueKind}

def start (kind : QueueKind) : Pool kind where
  queue := kind.model.logged []
  activity _ := .idle
  stopped := false

def reaches (p : Pool kind) : Bool := !(p.stopped && decide (kind = .durable))

def call (p : Pool kind) (now : Time) (call : QueueCall) : Pool kind :=
  { p with queue := kind.model.log p.queue (now, call) }

def turn (p : Pool kind) (worker : Nat) (activity : Activity) : Pool kind :=
  { p with activity := Function.update p.activity worker activity }

def step (opts : WorkerOptions) (p : Pool kind) (now : Time) : PoolAction → Pool kind
  | .lease worker tie =>
    if worker < opts.workers ∧ p.activity worker = .idle ∧ p.reaches then
      let call := .leaseNext (workerID worker) opts.types opts.leaseDuration tie
      match (kind.model.perform p.queue.state now call).1 with
      | .leased (some job) => (p.call now call).turn worker (.executing job true)
      | _ => p.call now call
    else p
  | .heartbeat worker =>
    match p.activity worker with
    | .executing job true =>
      if p.reaches then
        let call := .renew job.id (workerID worker) opts.leaseDuration
        match (kind.model.perform p.queue.state now call).1 with
        | .settled (.ok ()) => p.call now call
        | _ => (p.call now call).turn worker (.executing job false)
      else p.turn worker (.executing job false)
    | _ => p
  | .heartbeatLost worker =>
    match p.activity worker with
    | .executing job _ => p.turn worker (.executing job false)
    | .idle => p
  | .settle worker outcome =>
    match p.activity worker with
    | .executing job _ =>
      if p.reaches then (p.call now (settlement p.stopped job outcome)).turn worker .idle
      else p.turn worker .idle
    | .idle => p
  | .stop => { p with stopped := true }
  | .elsewhere call => p.call now call

def run (kind : QueueKind) (opts : WorkerOptions) (actions : List (Time × PoolAction)) : Pool kind :=
  actions.foldl (fun p timed => p.step (newWorkerPool opts) timed.1 timed.2) (start kind)

/-- The queue has seen nothing but calls, and it has the jobs that are executed. -/
structure Sound (p : Pool kind) : Prop where
  logged : ∃ calls, p.queue = kind.model.logged calls
  present : ∀ worker job heartbeat, p.activity worker = .executing job heartbeat →
    (kind.model.find p.queue.state job.id).isSome = true

theorem sound_start : Sound (start kind) := ⟨⟨[], rfl⟩, fun _ _ _ h => Activity.noConfusion h⟩

variable {p : Pool kind} {now : Time}

theorem Sound.jobStep (h : p.Sound) (call : QueueCall) (id : String) :
    JobStep now id call (kind.model.perform p.queue.state now call).1
      (kind.model.find p.queue.state id) (kind.model.find (p.call now call).queue.state id) := by
  obtain ⟨inv, hLawful⟩ := kind.lawful
  obtain ⟨calls, hQueue⟩ := h.logged
  have hInv : inv p.queue.state := hQueue ▸ hLawful.logged_inv calls
  exact hLawful.step now call id hInv

theorem Sound.call (h : p.Sound) (call : QueueCall) : (p.call now call).Sound where
  logged := by
    obtain ⟨calls, hQueue⟩ := h.logged
    refine ⟨calls ++ [(now, call)], ?_⟩
    rw [QueueModel.logged_snoc, ← hQueue]
    rfl
  present worker job heartbeat hExecuting :=
    (h.jobStep call job.id).present (h.present worker job heartbeat hExecuting)

theorem Sound.turn (h : p.Sound) {activity : Activity}
    (hPresent : ∀ job heartbeat, activity = .executing job heartbeat →
      (kind.model.find p.queue.state job.id).isSome = true) : (p.turn worker activity).Sound where
  logged := h.logged
  present other job heartbeat hExecuting := by
    by_cases hOther : other = worker
    · subst hOther
      simp only [Pool.turn, Function.update_self] at hExecuting
      exact hPresent job heartbeat hExecuting
    · simp only [Pool.turn, Function.update_of_ne hOther] at hExecuting
      exact h.present other job heartbeat hExecuting

theorem Sound.turn_idle (h : p.Sound) (worker : Nat) : (p.turn worker .idle).Sound :=
  h.turn fun _ _ hNot => Activity.noConfusion hNot

theorem Sound.turn_same (h : p.Sound) {job : Job}
    (hPresent : (kind.model.find p.queue.state job.id).isSome = true) (heartbeat : Bool) :
    (p.turn worker (.executing job heartbeat)).Sound := by
  apply h.turn
  rintro job' heartbeat' hSame
  cases hSame
  exact hPresent

theorem Sound.step (opts : WorkerOptions) (h : p.Sound) (action : PoolAction) :
    (p.step opts now action).Sound := by
  cases action with
  | lease worker tie =>
    simp only [Pool.step]
    split
    · split
      · rename_i job hGiven
        refine (h.call _).turn_same ?_ true
        have hStep := @Sound.jobStep _ _ now h
          (.leaseNext (workerID worker) opts.types opts.leaseDuration tie) job.id
        rw [hGiven] at hStep
        exact hStep.present_given
      · exact h.call _
    · exact h
  | heartbeat worker =>
    simp only [Pool.step]
    split
    · rename_i job hExecuting
      have hPresent := h.present worker job true hExecuting
      split
      · split
        · exact h.call _
        · exact (h.call _).turn_same ((h.jobStep _ _).present hPresent) false
      · exact h.turn_same hPresent false
    · exact h
  | heartbeatLost worker =>
    simp only [Pool.step]
    split
    · rename_i job heartbeat hExecuting
      exact h.turn_same (h.present worker job heartbeat hExecuting) false
    · exact h
  | settle worker outcome =>
    simp only [Pool.step]
    split
    · split
      · exact (h.call _).turn_idle worker
      · exact h.turn_idle worker
    · exact h
  | stop => exact ⟨h.logged, h.present⟩
  | elsewhere call => exact h.call call

theorem sound_run (opts : WorkerOptions) (actions : List (Time × PoolAction)) : (run kind opts actions).Sound := by
  induction actions using List.reverseRecOn with
  | nil => exact sound_start
  | append_singleton actions timed ih =>
    rw [run, List.foldl_append]
    exact ih.step _ timed.2

def Unchallenged (p : Pool kind) (worker : Nat) (job : Job) : Prop :=
  lastOwner job.id p.queue.past = some (workerID worker)

/-- The job has been completed with the same result at the same time already. -/
def Repeated (p : Pool kind) (now : Time) (job : Job) (outcome : Except String (List UInt8)) : Prop :=
  ∃ resultJSON j, outcome = .ok resultJSON ∧ kind.model.find p.queue.state job.id = some j ∧
    j.status = .succeeded ∧ j.resultJSON = resultJSON ∧ j.completedAt = some now ∧ j.updatedAt = now

theorem Sound.owner_iff (h : p.Sound) {job j : Job}
    (hFind : kind.model.find p.queue.state job.id = some j) :
    j.leaseOwner = workerID worker ↔ p.Unchallenged worker job := by
  obtain ⟨inv, hLawful⟩ := kind.lawful
  obtain ⟨calls, hQueue⟩ := h.logged
  have hOwner := hLawful.lastOwner_eq calls job.id
  rw [← hQueue] at hOwner
  rw [Unchallenged, hOwner j hFind, Option.some.injEq]

theorem Sound.settled_same_iff (h : p.Sound) {job j : Job} {stopped : Bool}
    {outcome : Except String (List UInt8)} (hFind : kind.model.find p.queue.state job.id = some j) :
    kind.model.find (p.call now (settlement stopped job outcome)).queue.state job.id = some j ↔
      p.Repeated now job outcome := by
  cases outcome with
  | ok resultJSON =>
    have hStep := @Sound.jobStep _ _ now h (.complete job.id resultJSON) job.id
    rw [hFind] at hStep
    rw [settlement, hStep.complete_eq, Option.some.injEq, Job.complete_eq_self]
    constructor
    · exact fun hSame => ⟨resultJSON, j, rfl, hFind, hSame⟩
    · rintro ⟨_, j', hOutcome, hFind', hSame⟩
      cases hOutcome
      cases hFind.symm.trans hFind'
      exact hSame
  | error message =>
    have hStep := @Sound.jobStep _ _ now h (.fail job.id ⟨.jobUnavailable, message, !stopped⟩) job.id
    rw [hFind] at hStep
    rw [settlement, hStep.fail_eq, Option.some.injEq]
    refine iff_of_false ?_ (by simp [Repeated])
    intro hSame
    have hAttempt := congrArg Job.attempt hSame
    rw [Job.fail_attempt] at hAttempt
    omega

/-- In every run of the pool, a settlement takes effect only for the owner of the
job exactly if the job is still the worker's by all that was done to it, the
call does not get to the queue, or it repeats what is there. -/
theorem settlement_by_owner_iff (kind : QueueKind) (opts : WorkerOptions) (actions : List (Time × PoolAction))
    (now : Time) (worker : Nat) (job : Job) (heartbeat : Bool) (outcome : Except String (List UInt8))
    (hExecuting : (run kind opts actions).activity worker = .executing job heartbeat) :
    ((kind.model.find (run kind opts actions).queue.state job.id).map (·.leaseOwner) =
          some (workerID worker) ∨
        kind.model.find ((run kind opts actions).step (newWorkerPool opts) now
            (.settle worker outcome)).queue.state job.id =
          kind.model.find (run kind opts actions).queue.state job.id) ↔
      (run kind opts actions).Unchallenged worker job ∨
        (kind = .durable ∧ (run kind opts actions).stopped = true) ∨
        (run kind opts actions).Repeated now job outcome := by
  have hSound : (run kind opts actions).Sound := sound_run opts actions
  generalize run kind opts actions = p at *
  obtain ⟨j, hFind⟩ := Option.isSome_iff_exists.mp (hSound.present worker job heartbeat hExecuting)
  simp only [step, hExecuting, hFind, Option.map_some, Option.some.injEq, hSound.owner_iff hFind]
  have hUnreached : p.reaches = false ↔ kind = .durable ∧ p.stopped = true := by
    simp [reaches, and_comm]
  cases hReaches : p.reaches with
  | true =>
    rw [← hUnreached, hReaches]
    simp only [if_true, Bool.true_eq_false, false_or]
    exact or_congr_right (hSound.settled_same_iff hFind)
  | false =>
    have hSame : kind.model.find (p.turn worker .idle).queue.state job.id = some j := hFind
    simp [hUnreached.mp hReaches, hSame]

end Pool

namespace Sample

def options : WorkerOptions := { workers := 2, leaseDuration := 10 * Time.nanosPerSecond }

def leasedByOne : List (Time × PoolAction) :=
  [(clock 0, .elsewhere (.enqueue job)), (clock 1, .lease 0 fun _ => 0)]

def leasedByBoth : List (Time × PoolAction) :=
  leasedByOne ++ [(clock 5, .heartbeatLost 0), (clock 20, .elsewhere .recoverExpired),
    (clock 21, .lease 1 fun _ => 0)]

end Sample

open Sample in
theorem Pool.settlement_by_owner_sample :
    (MemoryCore.model.find (run .memory options leasedByOne).queue.state job.id).map (·.leaseOwner) =
        some "worker-1" ∨
      MemoryCore.model.find ((run .memory options leasedByOne).step (newWorkerPool options) (clock 3)
          (.settle 0 (.ok []))).queue.state job.id =
        MemoryCore.model.find (run .memory options leasedByOne).queue.state job.id :=
  (settlement_by_owner_iff .memory options leasedByOne (clock 3) 0
    ((job.withDefaults (clock 0)).leaseTo (clock 1) "worker-1" (10 * Time.nanosPerSecond)) true (.ok [])
    (by decide +kernel)).mpr (.inl (show lastOwner _ _ = _ by decide +kernel))

open Sample in
/-- In either queue the first worker, which executes the job still, settles it
under the lease of the second. -/
theorem Pool.settled_by_superseded :
    ([QueueKind.memory, .durable].map fun kind =>
      let p := run kind options leasedByBoth
      let settled := p.step (newWorkerPool options) (clock 22) (.settle 0 (.ok []))
      ((kind.model.find p.queue.state job.id).map fun j => (j.status, j.leaseOwner),
        (kind.model.find settled.queue.state job.id).map fun j => (j.status, j.leaseOwner))) =
      [(some (.leased, "worker-2"), some (.succeeded, "worker-2")),
        (some (.leased, "worker-2"), some (.succeeded, "worker-2"))] := by
  decide +kernel

end DBVault.Queue
