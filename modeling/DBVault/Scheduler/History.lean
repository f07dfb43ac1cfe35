import DBVault.Scheduler

/-! What is known of the jobs and the scheduler from what has happened. -/
namespace DBVault.Scheduling
open List Queue SqliteQueue QueueCall Keyed.Table

def Event.leaves (id : String) : Event → Option Bool
  | .enqueued spec fire => if (spec.job fire).id = id then some true else none
  | .leased _ jobID | .interrupted jobID => if jobID = id then some true else none
  | .settled _ jobID status => if jobID = id then some !status.terminal else none
  | .recovered jobIDs => if id ∈ jobIDs then some true else none
  | _ => none

def liveBy (id : String) (past : List Event) : Option Bool := past.findSome? (Event.leaves id)

@[simp]
theorem liveBy_cons (id : String) (event : Event) (past : List Event) :
    liveBy id (event :: past) = (event.leaves id).or (liveBy id past) := by
  rw [liveBy, findSome?_cons]
  cases event.leaves id <;> rfl

def inflightBy (scheduleID : String) : List Event → Option String
  | [] => none
  | .booted _ :: _ => none
  | .marked id jobID :: past => if id = scheduleID then some jobID else inflightBy scheduleID past
  | .reported _ jobID :: past =>
    if inflightBy scheduleID past = some jobID then none else inflightBy scheduleID past
  | _ :: past => inflightBy scheduleID past

def enqueuedFor (scheduleID : String) : List Event → List String
  | [] => []
  | .booted _ :: _ => []
  | .enqueued spec fire :: past =>
    if spec.id = scheduleID then (spec.job fire).id :: enqueuedFor scheduleID past
    else enqueuedFor scheduleID past
  | _ :: past => enqueuedFor scheduleID past

/-- The schedule and the job of a `Tick` between its `Enqueue` and its mark. -/
def pending : List Event → Option (String × String)
  | [] => none
  | .booted _ :: _ | .marked .. :: _ => none
  | .enqueued spec fire :: _ => some (spec.id, (spec.job fire).id)
  | _ :: past => pending past

/-- The recovery of the process has found the job, in the last `SELECT` there was. -/
def FoundIn (jobID : String) (past : List Event) : Prop :=
  ∃ later jobIDs earlier, past = later ++ .selected jobIDs :: earlier ∧ jobID ∈ jobIDs ∧
    ∀ event ∈ later, ∀ others, event ≠ .selected others

/-- What the past must be for an event to happen. -/
def Legal (past : List Event) : Event → Prop
  | .enqueued spec _ => pending past = none ∧ inflightBy spec.id past = none
  | .marked scheduleID jobID => pending past = some (scheduleID, jobID)
  | .leased _ jobID => scheduled jobID → liveBy jobID past = some true
  | .settled _ jobID _ => scheduled jobID → (liveBy jobID past).isSome
  | .recovered jobIDs | .selected jobIDs => ∀ jobID ∈ jobIDs, scheduled jobID → liveBy jobID past = some true
  | .interrupted jobID => (∀ scheduleID, enqueuedFor scheduleID past = []) ∧ FoundIn jobID past
  | _ => True

inductive Lawful : List Event → Prop where
  | nil : Lawful []
  | cons {past event} (past_lawful : Lawful past) (legal : Legal past event) :
      Lawful (event :: past)

def Event.byWorker : Event → Bool
  | .leased .. | .settled .. | .reported .. => true
  | _ => false

section
variable {event : Event} {past : List Event}

theorem pending_worker (hWorker : event.byWorker) : pending (event :: past) = pending past := by
  cases event <;> first | rfl | cases hWorker

theorem enqueuedFor_worker (hWorker : event.byWorker) (scheduleID : String) :
    enqueuedFor scheduleID (event :: past) = enqueuedFor scheduleID past := by
  cases event <;> first | rfl | cases hWorker

theorem inflightBy_worker (hWorker : event.byWorker)
    (hNone : inflightBy scheduleID past = none) : inflightBy scheduleID (event :: past) = none := by
  cases event with
  | leased | settled => exact hNone
  | reported worker jobID => simp [inflightBy, hNone]
  | _ => cases hWorker

theorem FoundIn.worker {jobID : String} (found : FoundIn jobID past) (hWorker : event.byWorker) :
    FoundIn jobID (event :: past) := by
  obtain ⟨later, jobIDs, earlier, rfl, hIn, hLater⟩ := found
  refine ⟨event :: later, jobIDs, earlier, rfl, hIn, ?_⟩
  intro other hOther others
  rcases mem_cons.mp hOther with rfl | hOther
  · rintro rfl
    cases hWorker
  · exact hLater other hOther others

end

def Action.scheduling : Action → Bool
  | .boot .. | .run => true
  | _ => false

namespace Runtime
variable {kind : QueueKind} {s : Runtime kind} {system : System} {now : Time}

/-- The scheduler is as it was, but for the jobs in flight, and at most one event of a
worker was added. -/
structure SameSchedule (s next : Runtime kind) : Prop where
  phase : next.phase = s.phase
  specs : next.scheduler.specs = s.scheduler.specs
  lastFire : next.scheduler.lastFire = s.scheduler.lastFire
  baseline : next.scheduler.baseline = s.scheduler.baseline
  past : next.past = s.past ∨ ∃ event, event.byWorker ∧ next.past = event :: s.past

theorem SameSchedule.refl (s : Runtime kind) : s.SameSchedule s := ⟨rfl, rfl, rfl, rfl, Or.inl rfl⟩

theorem step_sameSchedule (hAction : action.scheduling = false) : s.SameSchedule (s.step system now action) := by
  cases action with
  | boot | run => cases hAction
  | lease worker tie =>
    simp only [step]
    split
    · split
      · split
        · exact ⟨rfl, rfl, rfl, rfl, Or.inr ⟨_, rfl, rfl⟩⟩
        · exact ⟨rfl, rfl, rfl, rfl, Or.inl rfl⟩
      · exact .refl s
    · exact .refl s
  | heartbeat worker =>
    simp only [step]
    split
    · split
      · split <;> exact ⟨rfl, rfl, rfl, rfl, Or.inl rfl⟩
      · exact ⟨rfl, rfl, rfl, rfl, Or.inl rfl⟩
    · exact .refl s
  | heartbeatLost worker =>
    simp only [step]
    split
    · exact ⟨rfl, rfl, rfl, rfl, Or.inl rfl⟩
    · exact .refl s
  | settle worker outcome =>
    simp only [step]
    split
    · split
      · exact ⟨rfl, rfl, rfl, rfl, Or.inr ⟨_, rfl, rfl⟩⟩
      · exact ⟨rfl, rfl, rfl, rfl, Or.inl rfl⟩
    · exact .refl s
  | report worker =>
    simp only [step]
    split
    · exact ⟨rfl, rfl, rfl, rfl, Or.inr ⟨_, rfl, rfl⟩⟩
    · exact .refl s
  | stop => exact ⟨rfl, rfl, rfl, rfl, Or.inl rfl⟩
  | enqueue job =>
    simp only [step]
    split
    · exact .refl s
    · exact ⟨rfl, rfl, rfl, rfl, Or.inl rfl⟩

end Runtime

def WellKept : (kind : QueueKind) → kind.model.State → Prop
  | .memory, _ => True
  | .durable, q => SqliteQueue.Coherent q

theorem lawful_wellKept (kind : QueueKind) : kind.model.Lawful (WellKept kind) := by
  cases kind with
  | memory => exact MemoryCore.lawful
  | durable => exact SqliteQueue.lawful

def liveIn {kind : QueueKind} (queue : kind.model.State) (id : String) : Option Bool :=
  ((kind.model.find queue id).map (·.terminal)).map not

variable {kind : QueueKind} {queue : kind.model.State}

theorem liveIn_eq {id : String} {terminal : Bool}
    (hFind : (kind.model.find queue id).map (·.terminal) = some terminal) :
    liveIn queue id = some !terminal :=
  congrArg (Option.map not) hFind

variable {job : Job}

theorem memory_enqueue_live (c : MemoryCore) (now : Time) (hNew : job.status = .pending) :
    ∃ j, (MemoryCore.enqueueLocked c now job).2.find job.id = some j ∧ j.terminal = false := by
  by_cases hOld : ∃ existing, c.find job.id = some existing ∧ existing.terminal = false
  · obtain ⟨existing, hFind, hLive⟩ := hOld
    rw [MemoryCore.enqueueLocked_live hFind hLive]
    exact ⟨existing, hFind, hLive⟩
  · rw [MemoryCore.enqueueLocked_stores (by simpa using hOld), find_store]
    refine ⟨job.withDefaults now, if_pos rfl, ?_⟩
    simp [Job.terminal, Job.withDefaults, hNew, JobStatus.terminal]

theorem durable_enqueue_live {q : SqliteQueue} (hQueue : q.Coherent) (hNew : job.status = .pending) :
    ∃ row, (SqliteQueue.enqueue q job).2.find job.id = some row ∧ row.job.terminal = false := by
  by_cases hOld : ∃ row, q.find job.id = some row ∧ row.scanJob.terminal = false
  · obtain ⟨row, hFind, hLive⟩ := hOld
    rw [SqliteQueue.enqueue_live hFind hLive]
    refine ⟨row, hFind, ?_⟩
    rwa [← terminal_scanJob (hQueue row (find_eq_some.mp hFind).1)]
  · rw [enqueue_stores (by simpa using hOld), find_store]
    refine ⟨jobArgs job, if_pos rfl, ?_⟩
    rw [job_jobArgs]
    simp [Job.terminal, hNew, JobStatus.terminal]

theorem enqueue_live (hQueue : WellKept kind queue) (now : Time) (hNew : job.status = .pending) :
    liveIn (kind.model.perform queue now (.enqueue job)).2 job.id = some true := by
  cases kind with
  | memory =>
    obtain ⟨j, hFind, hLive⟩ := memory_enqueue_live queue now hNew
    refine (liveIn_eq ?_ : _ = some !false)
    exact (congrArg (Option.map fun j => j.terminal) (congrArg (Option.map fun j => j) hFind)).trans
      (congrArg some hLive)
  | durable =>
    obtain ⟨row, hFind, hLive⟩ := durable_enqueue_live hQueue hNew
    refine (liveIn_eq ?_ : _ = some !false)
    exact (congrArg (Option.map fun j => j.terminal) (congrArg (Option.map JobRow.job) hFind)).trans
      (congrArg some hLive)

variable {queue : QueueKind.durable.model.State}

theorem find_writeBack (now : Time) (j : Job)
    (id : String) : QueueKind.durable.model.find (writeBack .durable queue now j) id =
      if id = j.id then some (j.interrupt now) else QueueKind.durable.model.find queue id :=
  Shared.job_writeBack id

theorem liveIn_writeBack (now : Time) (j : Job)
    (id : String) : liveIn (writeBack .durable queue now j) id =
      if id = j.id then some true else liveIn queue id := by
  unfold liveIn
  rw [find_writeBack]
  split <;> rfl

theorem wellKept_writeBack (hQueue : WellKept .durable queue)
    (now : Time) (j : Job) : WellKept .durable (writeBack .durable queue now j) :=
  SqliteQueue.Coherent.store hQueue (coherent_jobArgs _)

theorem liveIn_selected {now : Time} {j : Job}
    (hFound : j ∈ select queue now) : liveIn queue j.id = some true := by
  obtain ⟨row, hRow, rfl⟩ := mem_map.mp hFound
  obtain ⟨hMem, hExpired⟩ := mem_filter.mp hRow
  have hFind : QueueKind.durable.model.find queue row.scanJob.id = some row.job := by
    have hKey : find queue row.scanJob.id = some row := by
      rw [show row.scanJob.id = row.id from row.sameID]
      exact mem_rows.mp hMem
    exact congrArg (Option.map JobRow.job) hKey
  simp [liveIn, hFind, expired_live hExpired]

/-- What the past is when `Run` stands where it does. -/
def PhaseFits (kind : QueueKind) (past : List Event) : Phase → Prop
  | .starting => pending past = none ∧ ∀ scheduleID, enqueuedFor scheduleID past = []
  | .recovering _ found =>
    pending past = none ∧ (∀ scheduleID, enqueuedFor scheduleID past = []) ∧
      ∀ j ∈ found, kind = .durable ∧ FoundIn j.id past
  | .enqueue _ spec _ _ => pending past = none ∧ inflightBy spec.id past = none
  | .setLastFire _ spec fire _ | .markInflight _ spec fire _ => pending past = some (spec.id, (spec.job fire).id)
  | _ => pending past = none

theorem PhaseFits.worker {past : List Event} {phase : Phase} {event : Event}
    (fits : PhaseFits kind past phase) (hWorker : event.byWorker) : PhaseFits kind (event :: past) phase := by
  cases phase with
  | starting =>
    exact ⟨(pending_worker hWorker).trans fits.1, fun id => (enqueuedFor_worker hWorker id).trans (fits.2 id)⟩
  | recovering now found =>
    exact ⟨(pending_worker hWorker).trans fits.1,
      fun id => (enqueuedFor_worker hWorker id).trans (fits.2.1 id),
      fun j hFound => ⟨(fits.2.2 j hFound).1, (fits.2.2 j hFound).2.worker hWorker⟩⟩
  | enqueue now spec fire rest => exact ⟨(pending_worker hWorker).trans fits.1, inflightBy_worker hWorker fits.2⟩
  | setLastFire | markInflight => exact (pending_worker hWorker).trans fits
  | waiting | dueCheck | liveCheck => exact (pending_worker hWorker).trans fits

/-- The state is what the past says, and the past is one that can be. -/
structure Runtime.Sound {kind : QueueKind} (s : Runtime kind) : Prop where
  queue : WellKept kind s.queue
  known : ∀ id, scheduled id → liveIn s.queue id = liveBy id s.past
  present : ∀ worker job heartbeat, s.workers worker = .executing job heartbeat →
    (kind.model.find s.queue job.id).isSome
  inflight : ∀ scheduleID, s.scheduler.inflight scheduleID = inflightBy scheduleID s.past
  phase : PhaseFits kind s.past s.phase
  lawful : Lawful s.past

namespace Runtime
variable {kind : QueueKind} {s : Runtime kind} {system : System} {now : Time}

theorem sound_start (kind : QueueKind) : (start kind).Sound where
  queue := (lawful_wellKept kind).start
  known id _ := by simp [start, liveIn, (lawful_wellKept kind).find_start, liveBy]
  present _ _ _ h := Worker.noConfusion h
  inflight _ := rfl
  phase := rfl
  lawful := .nil

section
variable (sound : s.Sound)
include sound

theorem Sound.jobStep (now : Time) (call : QueueCall) (id : String) :
    JobStep now id call (s.answer now call) (kind.model.find s.queue id)
      (kind.model.find (s.call now call).queue id) :=
  (lawful_wellKept kind).step now call id sound.queue

theorem Sound.liveIn_other (now : Time) (call : QueueCall) {id : String}
    (hOther : id ∉ call.subjects (s.answer now call)) :
    liveIn (s.call now call).queue id = liveIn s.queue id := by
  unfold liveIn
  rw [(sound.jobStep now call id).other hOther]

variable {worker : Nat} {next : Worker}

theorem Sound.worker_call (now : Time) (call : QueueCall) {event : Event} (hWorker : event.byWorker)
    (hReports : ∀ worker jobID, event ≠ .reported worker jobID) (hLegal : Legal s.past event)
    (hKnown : ∀ id, scheduled id → liveIn (s.call now call).queue id = liveBy id (event :: s.past))
    (hPresent : ∀ job heartbeat, next = .executing job heartbeat →
      (kind.model.find (s.call now call).queue job.id).isSome) :
    (((s.call now call).note event).turn worker next).Sound where
  queue := (lawful_wellKept kind).keeps now call sound.queue
  known := hKnown
  present other job heartbeat hExecuting := by
    by_cases hOther : other = worker
    · subst hOther
      exact hPresent job heartbeat (by simpa [turn] using hExecuting)
    · exact (sound.jobStep now call job.id).present
        (sound.present other job heartbeat (by simpa [turn, note, Runtime.call, hOther] using hExecuting))
  inflight id := by
    refine (sound.inflight id).trans ?_
    cases event with
    | reported worker jobID => exact absurd rfl (hReports worker jobID)
    | leased | settled => rfl
    | _ => cases hWorker
  phase := sound.phase.worker hWorker
  lawful := .cons sound.lawful hLegal

theorem Sound.quiet_call (now : Time) (call : QueueCall)
    (hQuiet : ∀ id, scheduled id → liveIn (s.call now call).queue id = liveIn s.queue id) :
    (s.call now call).Sound :=
  { sound with
    queue := (lawful_wellKept kind).keeps now call sound.queue
    known := fun id hScheduled => (hQuiet id hScheduled).trans (sound.known id hScheduled)
    present := fun worker job heartbeat hExecuting =>
      (sound.jobStep now call job.id).present (sound.present worker job heartbeat hExecuting) }

theorem Sound.turn
    (hPresent : ∀ job heartbeat, next = .executing job heartbeat → (kind.model.find s.queue job.id).isSome) :
     (s.turn worker next).Sound :=
  { sound with
    present := by
      intro other job heartbeat hExecuting
      by_cases hOther : other = worker
      · subst hOther
        exact hPresent job heartbeat (by simpa [Runtime.turn] using hExecuting)
      · exact sound.present other job heartbeat (by simpa [Runtime.turn, hOther] using hExecuting) }

theorem Sound.enter {phase : Phase} (hFits : PhaseFits kind s.past phase) : (s.enter phase).Sound :=
  { sound with phase := hFits }

theorem Sound.lease (worker : Nat) (tie : String → Nat) : (s.step system now (.lease worker tie)).Sound := by
  simp only [step]
  split
  · split
    · split
      · rename_i given hGiven
        have hStep := sound.jobStep now (.leaseNext (workerID worker) jobTypes leaseDuration tie)
        rw [hGiven] at hStep
        have hLive := (hStep given.id).given_live
        refine sound.worker_call now _ rfl (fun _ _ h => Event.noConfusion h) ?_ ?_ ?_
        · intro hScheduled
          rw [← sound.known given.id hScheduled]
          exact (liveIn_eq hLive.1 : _ = some !false)
        · intro id hScheduled
          by_cases hID : given.id = id
          · subst hID
            simpa [Event.leaves] using (liveIn_eq hLive.2 : _ = some !false)
          · rw [sound.liveIn_other now _ (by simpa [hGiven, subjects] using Ne.symm hID),
              sound.known id hScheduled]
            simp [Event.leaves, hID]
        · rintro job heartbeat ⟨⟩
          exact (hStep given.id).present_given
      · rename_i hNone
        refine sound.quiet_call now _ fun id _ => sound.liveIn_other now _ ?_
        generalize s.answer now _ = answer at hNone
        cases answer with
        | leased given =>
          cases given with
          | none => simp [subjects]
          | some given => exact absurd rfl (hNone given)
        | _ => simp [subjects]
    · exact sound
  · exact sound

theorem Sound.heartbeat (worker : Nat) : (s.step system now (.heartbeat worker)).Sound := by
  simp only [step]
  split
  · rename_i job hExecuting
    have hPresent := sound.present worker job true hExecuting
    have hSame : ∀ (next : Runtime kind), next.Sound →
        (kind.model.find next.queue job.id).isSome → (next.turn worker (.executing job false)).Sound := by
      intro next hNext hFind
      refine hNext.turn ?_
      rintro _ _ ⟨⟩
      exact hFind
    have hCall : (s.call now (.renew job.id (workerID worker) leaseDuration)).Sound := by
      refine sound.quiet_call now _ fun id _ => ?_
      by_cases hID : id = job.id
      · subst hID
        exact congrArg (Option.map not) (sound.jobStep now
          (.renew job.id (workerID worker) leaseDuration) job.id).renew_terminal
      · exact sound.liveIn_other now _ (by simpa [subjects] using hID)
    split
    · split
      · exact hCall
      · exact hSame _ hCall ((sound.jobStep now _ job.id).present hPresent)
    · exact hSame s sound hPresent
  · exact sound

theorem Sound.heartbeatLost (worker : Nat) : (s.step system now (.heartbeatLost worker)).Sound := by
  simp only [step]
  split
  · rename_i job heartbeat hExecuting
    refine sound.turn ?_
    rintro _ _ ⟨⟩
    exact sound.present worker job heartbeat hExecuting
  · exact sound

end

theorem settlement_subjects (stopped : Bool) (job : Job) (outcome : Except String (List UInt8))
    (answer : QueueAnswer) : (settlement stopped job outcome).subjects answer = [job.id] := by
  cases outcome <;> rfl

theorem Sound.settle (sound : s.Sound) (worker : Nat) (outcome : Except String (List UInt8)) :
    (s.step system now (.settle worker outcome)).Sound := by
  simp only [step]
  split
  · rename_i job heartbeat hExecuting
    have hPresent := sound.present worker job heartbeat hExecuting
    split
    · have hAfter := (sound.jobStep now (settlement s.stopped job outcome) job.id).present hPresent
      obtain ⟨j, hJob⟩ := Option.isSome_iff_exists.mp hAfter
      refine sound.worker_call now _ rfl (fun _ _ h => Event.noConfusion h) ?_ ?_
        (fun _ _ h => Worker.noConfusion h)
      · intro hScheduled
        rw [← sound.known job.id hScheduled]
        simpa [liveIn] using hPresent
      · intro id hScheduled
        by_cases hID : job.id = id
        · subst hID
          simp [Event.leaves, liveIn, Runtime.job, hJob, Job.terminal]
        · rw [sound.liveIn_other now _ (by simpa [settlement_subjects] using Ne.symm hID),
            sound.known id hScheduled]
          simp [Event.leaves, hID]
    · exact sound.turn fun _ _ h => Worker.noConfusion h
  · exact sound

theorem Sound.report (sound : s.Sound) (worker : Nat) : (s.step system now (.report worker)).Sound := by
  simp only [step]
  split
  · rename_i jobID hReporting
    have hReported : ({ s with scheduler := s.scheduler.settle jobID }.note (.reported worker jobID)).Sound :=
      { queue := sound.queue
        known := sound.known
        present := sound.present
        inflight := fun id => by simp [note, Scheduler.settle, inflightBy, sound.inflight]
        phase := sound.phase.worker rfl
        lawful := .cons sound.lawful trivial }
    exact hReported.turn fun _ _ h => Worker.noConfusion h
  · exact sound

theorem Sound.enqueue (sound : s.Sound) (job : Job) : (s.step system now (.enqueue job)).Sound := by
  simp only [step]
  split
  · exact sound
  · rename_i hOther
    refine sound.quiet_call now _ fun id hScheduled => sound.liveIn_other now _ ?_
    have hID : id ≠ job.id := by
      rintro rfl
      exact hOther hScheduled
    simpa [subjects] using hID

theorem new_inflight (system : System) (specs : List Schedule) (now : Time) (scheduleID : String) :
    (Scheduler.new system specs now).inflight scheduleID = none := by
  refine congrFun (Scheduler.new_keeps (·.inflight) ?_ specs) scheduleID
  intro s spec
  unfold Scheduler.register
  split <;> rfl

theorem Sound.boot (sound : s.Sound) (specs : List Schedule) (workers : Int) :
    (s.step system now (.boot specs workers)).Sound where
  queue := sound.queue
  known id hScheduled := by simpa [step, Event.leaves] using sound.known id hScheduled
  present _ _ _ h := Worker.noConfusion h
  inflight id := new_inflight system specs now id
  phase := ⟨rfl, fun _ => rfl⟩
  lawful := .cons sound.lawful trivial

theorem Sound.recovered {s : Runtime .memory} (sound : s.Sound) {ids : List String}
    (hAnswer : s.answer now .recoverExpired = .recovered ids)
    (hPhase : pending s.past = none ∧ ∀ scheduleID, enqueuedFor scheduleID s.past = []) :
    { s.call now .recoverExpired with
      phase := .recovering now [], past := .recovered ids :: s.past }.Sound := by
  have hStep := sound.jobStep now .recoverExpired
  rw [hAnswer] at hStep
  refine
    { queue := (lawful_wellKept .memory).keeps now _ sound.queue
      known := ?_
      present := fun worker job heartbeat hExecuting =>
        (hStep job.id).present (sound.present worker job heartbeat hExecuting)
      inflight := sound.inflight
      phase := ⟨hPhase.1, hPhase.2, fun _ hNone => absurd hNone not_mem_nil⟩
      lawful := .cons sound.lawful ?_ }
  · intro id hScheduled
    by_cases hIn : id ∈ ids
    · simpa [Event.leaves, hIn] using (liveIn_eq ((hStep id).recovered_live hIn).2 : _ = some !false)
    · have hOther : id ∉ recoverExpired.subjects (s.answer now .recoverExpired) := by
        simpa [hAnswer, subjects] using hIn
      have hSame := sound.liveIn_other now .recoverExpired hOther
      simpa [Event.leaves, hIn] using hSame.trans (sound.known id hScheduled)
  · intro id hIn hScheduled
    rw [← sound.known id hScheduled]
    exact (liveIn_eq ((hStep id).recovered_live hIn).1 : _ = some !false)

theorem Sound.selected {s : Runtime .durable} (sound : s.Sound)
    (hPhase : pending s.past = none ∧ ∀ scheduleID, enqueuedFor scheduleID s.past = []) :
    { s with
      phase := .recovering now (select s.queue now)
      past := .selected ((select s.queue now).map fun j : Job => j.id) :: s.past }.Sound where
  queue := sound.queue
  known := sound.known
  present := sound.present
  inflight := sound.inflight
  phase := by
    refine ⟨hPhase.1, hPhase.2, fun j hFound => ⟨rfl, [], _, s.past, rfl, ?_, by simp⟩⟩
    exact mem_map_of_mem hFound
  lawful := by
    refine .cons sound.lawful ?_
    intro id hIn hScheduled
    obtain ⟨j, hFound, rfl⟩ := mem_map.mp hIn
    rw [← sound.known j.id hScheduled]
    exact liveIn_selected hFound

theorem Sound.interrupted {s : Runtime .durable} (sound : s.Sound) {time : Time} {j : Job}
    {rest : List Job} (hPhase : s.phase = .recovering time (j :: rest)) :
    { s with
      queue := writeBack .durable s.queue time j
      phase := .recovering time rest
      past := .interrupted j.id :: s.past }.Sound := by
  have hFits := sound.phase
  rw [hPhase] at hFits
  obtain ⟨hPending, hNone, hFound⟩ := hFits
  refine
    { queue := wellKept_writeBack sound.queue time j
      known := ?_
      present := ?_
      inflight := sound.inflight
      phase := ⟨hPending, hNone, ?_⟩
      lawful := .cons sound.lawful ⟨hNone, (hFound j (by simp)).2⟩ }
  · intro id hScheduled
    rw [liveIn_writeBack]
    by_cases hID : id = j.id
    · simp [Event.leaves, hID]
    · simpa [Event.leaves, hID, Ne.symm hID] using sound.known id hScheduled
  · intro worker job heartbeat hExecuting
    have hPresent := sound.present worker job heartbeat hExecuting
    rw [find_writeBack]
    split
    · rfl
    · exact hPresent
  · intro other hOther
    refine ⟨rfl, ?_⟩
    obtain ⟨later, jobIDs, earlier, hPast, hIn, hLater⟩ := (hFound other (by simp [hOther])).2
    refine ⟨.interrupted j.id :: later, jobIDs, earlier, by rw [hPast]; rfl, hIn, ?_⟩
    intro event hEvent others
    rcases mem_cons.mp hEvent with rfl | hEvent
    · exact fun h => Event.noConfusion h
    · exact hLater event hEvent others

theorem Sound.begun (sound : s.Sound)
    (hPhase : pending s.past = none ∧ ∀ scheduleID, enqueuedFor scheduleID s.past = []) :
    { s with
      queue := (beginRecovery kind s.queue now).2.1
      phase := .recovering now (beginRecovery kind s.queue now).2.2
      past := (beginRecovery kind s.queue now).1 :: s.past }.Sound := by
  cases kind with
  | memory => exact sound.recovered rfl hPhase
  | durable => exact sound.selected hPhase

theorem Sound.rewritten (sound : s.Sound) (hPhase : s.phase = .recovering time (j :: rest)) :
    { s with
      queue := writeBack kind s.queue time j
      phase := .recovering time rest
      past := .interrupted j.id :: s.past }.Sound := by
  have hFits := sound.phase
  rw [hPhase] at hFits
  obtain ⟨rfl, -⟩ := hFits.2.2 j (by simp)
  exact sound.interrupted hPhase

theorem scheduled_job (spec : Schedule) (fire : Time) : scheduled (spec.job fire).id := by
  simp [scheduled, scheduledPrefix, Schedule.job, jobForFire, String.toList_append]

theorem Sound.enqueued (sound : s.Sound) (hPhase : s.phase = .enqueue time spec fire rest) :
    (((s.call now (.enqueue (spec.job fire))).note (.enqueued spec fire)).enter
      (.setLastFire time spec fire rest)).Sound := by
  have hFits := sound.phase
  rw [hPhase] at hFits
  exact
    { queue := (lawful_wellKept kind).keeps now _ sound.queue
      known := by
        intro id hScheduled
        by_cases hID : (spec.job fire).id = id
        · subst hID
          have hNew : (spec.job fire).status = .pending := rfl
          simpa [Runtime.enter, note, Runtime.call, Event.leaves] using enqueue_live sound.queue now hNew
        · have hOther : id ∉ (QueueCall.enqueue (spec.job fire)).subjects
              (s.answer now (.enqueue (spec.job fire))) := by
            simpa [subjects] using Ne.symm hID
          simpa [Runtime.enter, note, Runtime.call, Event.leaves, hID] using
            (sound.liveIn_other now _ hOther).trans (sound.known id hScheduled)
      present := fun worker job heartbeat hExecuting =>
        (sound.jobStep now _ job.id).present (sound.present worker job heartbeat hExecuting)
      inflight := sound.inflight
      phase := rfl
      lawful := .cons sound.lawful hFits }

theorem Sound.marked (sound : s.Sound) (hPhase : s.phase = .markInflight time spec fire rest) :
    (({ s with scheduler := s.scheduler.markInflight spec.id (spec.job fire).id }.note
      (.marked spec.id (spec.job fire).id)).enter (.dueCheck time rest)).Sound := by
  have hFits := sound.phase
  rw [hPhase] at hFits
  exact
    { queue := sound.queue
      known := sound.known
      present := sound.present
      inflight := by
        intro id
        by_cases hID : spec.id = id
        · subst hID
          simp [Runtime.enter, note, Scheduler.markInflight, inflightBy]
        · simpa [Runtime.enter, note, Scheduler.markInflight, inflightBy, hID, Ne.symm hID] using sound.inflight id
      phase := rfl
      lawful := .cons sound.lawful hFits }

theorem Sound.runStep (sound : s.Sound) : (s.runStep system now).Sound := by
  have hFits := sound.phase
  unfold Runtime.runStep
  split
  · rename_i hPhase
    rw [hPhase] at hFits
    split
    · exact sound.begun hFits
    · exact sound.enter hFits.1
  · rename_i hPhase
    rw [hPhase] at hFits
    exact sound.enter hFits.1
  · rename_i hPhase
    rw [hPhase] at hFits
    split
    · exact sound.rewritten hPhase
    · exact sound.enter hFits.1
  · rename_i hPhase
    rw [hPhase] at hFits
    exact sound.enter hFits
  · rename_i hPhase
    rw [hPhase] at hFits
    exact sound.enter hFits
  · rename_i hPhase
    rw [hPhase] at hFits
    split <;> exact sound.enter hFits
  · rename_i time spec fire rest hPhase
    rw [hPhase] at hFits
    split
    · exact sound.enter hFits
    · rename_i hLive
      have hNone : s.scheduler.inflight spec.id = none := by simpa [Scheduler.live] using hLive
      exact sound.enter ⟨hFits, (sound.inflight spec.id).symm.trans hNone⟩
  · rename_i hPhase
    rw [hPhase] at hFits
    split
    · exact sound.enqueued hPhase
    · exact sound.enter hFits.1
  · rename_i hPhase
    rw [hPhase] at hFits
    exact { sound with phase := hFits }
  · rename_i hPhase
    exact sound.marked hPhase

theorem Sound.step (sound : s.Sound) (action : Action) : (s.step system now action).Sound := by
  cases action with
  | boot specs workers => exact sound.boot specs workers
  | run => exact sound.runStep
  | lease worker tie => exact sound.lease worker tie
  | heartbeat worker => exact sound.heartbeat worker
  | heartbeatLost worker => exact sound.heartbeatLost worker
  | settle worker outcome => exact sound.settle worker outcome
  | report worker => exact sound.report worker
  | stop => exact { sound with }
  | enqueue job => exact sound.enqueue job

theorem sound_run (kind : QueueKind) (system : System) (actions : List (Time × Action)) :
    (run kind system actions).Sound := by
  induction actions using List.reverseRecOn with
  | nil => exact sound_start kind
  | append_singleton actions timed ih =>
    rw [run_snoc]
    exact ih.step timed.2

end Runtime

end DBVault.Scheduling
