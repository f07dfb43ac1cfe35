import DBVault.Queue.Sqlite

/-! Whether a job that has reached a terminal status keeps it, and what a queue keeps of every job. -/
namespace DBVault.Queue
open Keyed

namespace QueueModel
variable (Q : QueueModel)

def StaysAt (id : String) (status : JobStatus) : Q.State → List (Time × QueueCall) → Prop
  | s, [] => (Q.find s id).map (·.status) = some status
  | s, (now, call) :: rest =>
    (Q.find s id).map (·.status) = some status ∧ StaysAt id status (Q.perform s now call).2 rest

/-- The call does not settle or cancel the job in another way than it was. -/
def Confirms (id : String) (status : JobStatus) (s : Q.State) : QueueCall → Prop
  | .complete jobID _ => jobID = id → status = .succeeded
  | .cancel jobID => jobID = id → status = .cancelled
  | .fail jobID failure => jobID = id →
      (status = .failed ∧ failure.retryable = false) ∨
        (status = .deadLetter ∧ failure.retryable = true ∧
          ∀ j, Q.find s id = some j → j.maximumAttempts ≤ j.attempt + 1)
  | _ => True

def AllConfirm (id : String) (status : JobStatus) : Q.State → List (Time × QueueCall) → Prop
  | _, [] => True
  | s, (now, call) :: rest => Q.Confirms id status s call ∧ AllConfirm id status (Q.perform s now call).2 rest

variable {Q} {inv : Q.State → Prop} {id : String}

theorem status_kept_iff {now : Time} {call : QueueCall} {answer : QueueAnswer}
    {s : Q.State} {j : Job} {new : Option Job} (hStep : JobStep now id call answer (some j) new)
    (hFind : Q.find s id = some j) (hTerminal : j.terminal = true)
    (hEnqueue : ∀ job, call = .enqueue job → job.id ≠ id) :
    new.map (·.status) = some j.status ↔ Q.Confirms id j.status s call := by
  cases hStep with
  | stored hID => exact absurd hID (hEnqueue _ rfl)
  | kept hID => exact absurd hID (hEnqueue _ rfl)
  | leased hID hLive => simp [hTerminal] at hLive
  | renewed hOwner => simp [Confirms, Job.renew]
  | refused hOwner => simp [Confirms]
  | completed => simp [Confirms, Job.complete, eq_comm]
  | failed =>
    rename_i failure
    simp only [Confirms, Option.map_some, Job.fail_status, hFind, Option.some.injEq, forall_true_left, forall_eq']
    cases failure.retryable with
    | false => simp [eq_comm]
    | true =>
      by_cases hLeft : j.attempt + 1 < j.maximumAttempts
      · have hRetrying : j.status ≠ .retrying := by
          intro hStatus
          simp [Job.terminal, hStatus, JobStatus.terminal] at hTerminal
        simp [hLeft, Ne.symm hRetrying]
      · simp [hLeft, not_lt.mp hLeft, eq_comm]
  | cancelled => simp [Confirms, Job.cancel, eq_comm]
  | interrupted hIn hLive => simp [hTerminal] at hLive
  | passed hOther =>
    refine iff_of_true rfl ?_
    cases call with
    | complete jobID resultJSON | cancel jobID | fail jobID failure =>
      exact fun hID => absurd (by simp [QueueCall.subjects, hID]) hOther
    | _ => trivial

theorem StaysAt.now (h : Q.StaysAt id status s calls) : (Q.find s id).map (·.status) = some status := by
  cases calls with
  | nil => exact h
  | cons _ _ => exact h.1

theorem staysAt_iff (hQ : Q.Lawful inv) (hInv : inv s)
    (hFind : Q.find s id = some j) (hTerminal : j.terminal = true) (calls : List (Time × QueueCall))
    (hEnqueue : ∀ now job, (now, QueueCall.enqueue job) ∈ calls → job.id ≠ id) :
    Q.StaysAt id j.status s calls ↔ Q.AllConfirm id j.status s calls := by
  induction calls generalizing s j with
  | nil => simp [StaysAt, AllConfirm, hFind]
  | cons timed rest ih =>
    obtain ⟨now, call⟩ := timed
    have hStep := hQ.step now call id hInv
    rw [hFind] at hStep
    have hKept := status_kept_iff hStep hFind hTerminal (fun job hCall => hEnqueue now job (by simp [hCall]))
    have hRest : ∀ now job, (now, QueueCall.enqueue job) ∈ rest → job.id ≠ id :=
      fun now job hMem => hEnqueue now job (List.mem_cons_of_mem _ hMem)
    simp only [StaysAt, AllConfirm, hFind, Option.map_some, true_and, ← hKept]
    -- If the status is kept the job is as terminal as before, so the rest applies to it.
    have hNext : (Q.find (Q.perform s now call).2 id).map (·.status) = some j.status →
        (Q.StaysAt id j.status (Q.perform s now call).2 rest ↔
          Q.AllConfirm id j.status (Q.perform s now call).2 rest) := by
      intro hStatus
      obtain ⟨j', hFind', hSame⟩ := Option.map_eq_some_iff.mp hStatus
      have hTerminal' : j'.terminal = true := by
        rw [Job.terminal, hSame]
        exact hTerminal
      have hTail := ih (hQ.keeps now call hInv) hFind' hTerminal' hRest
      rwa [hSame] at hTail
    constructor
    · intro hStays
      exact ⟨hStays.now, (hNext hStays.now).mp hStays⟩
    · rintro ⟨hStatus, hConfirm⟩
      exact (hNext hStatus).mpr hConfirm

end QueueModel

/-- A job that has come to an end in either queue stays as it ended under calls
other than its own `Enqueue` exactly if all of them that settle or cancel it
again find it settled or cancelled in the same way. -/
theorem QueueKind.terminal_stays_iff (kind : QueueKind) (before calls : List (Time × QueueCall))
    (id : String) (j : Job)
    (hFind : kind.model.find (kind.model.run kind.model.start before) id = some j)
    (hTerminal : j.terminal = true)
    (hEnqueue : ∀ now job, (now, QueueCall.enqueue job) ∈ calls → job.id ≠ id) :
    kind.model.StaysAt id j.status (kind.model.run kind.model.start before) calls ↔
      kind.model.AllConfirm id j.status (kind.model.run kind.model.start before) calls := by
  obtain ⟨inv, hLawful⟩ := kind.lawful
  exact QueueModel.staysAt_iff hLawful (hLawful.run_inv hLawful.start before) hFind hTerminal calls hEnqueue

namespace Sample

def cancelledMeanwhile : List (Time × QueueCall) :=
  [(clock 0, .enqueue job),
    (clock 1, .leaseNext "worker-1" [.backup] (300 * Time.nanosPerSecond) fun _ => 0),
    (clock 2, .cancel job.id)]

def cancelledJob : Job :=
  ((job.withDefaults (clock 0)).leaseTo (clock 1) "worker-1" (300 * Time.nanosPerSecond)).cancel (clock 2)

end Sample

open Sample in
theorem QueueKind.terminal_stays_sample :
    MemoryCore.model.StaysAt job.id .cancelled
      (MemoryCore.model.run MemoryCore.model.start cancelledMeanwhile)
      [(clock 3, .renew job.id "worker-1" 1), (clock 900, .recoverExpired), (clock 901, .cancel job.id)] :=
  (QueueKind.terminal_stays_iff .memory cancelledMeanwhile
    [(clock 3, .renew job.id "worker-1" 1), (clock 900, .recoverExpired), (clock 901, .cancel job.id)]
    job.id cancelledJob (by decide +kernel) (by decide) (by simp)).mpr
    ⟨trivial, trivial, fun _ => rfl, trivial⟩

open Sample in
/-- The worker that executed the job completes it, and it has succeeded. -/
theorem QueueKind.cancelled_then_succeeded :
    ([QueueKind.memory, .durable].map fun kind =>
      let s := kind.model.run kind.model.start cancelledMeanwhile
      ((kind.model.find s job.id).map (·.status),
        (kind.model.find (kind.model.run s [(clock 3, .complete job.id [])]) job.id).map (·.status))) =
      [(some .cancelled, some .succeeded), (some .cancelled, some .succeeded)] := by
  decide +kernel

/-- What a job is to do, and how often it is tried. -/
def Job.task (j : Job) := (j.type, j.resourceID, j.payloadJSON, j.priority, j.maximumAttempts)

def failuresOf (jobID : String) (calls : List (Time × QueueCall)) : Nat :=
  calls.countP fun timed => match timed.2 with
    | .fail failed _ => failed = jobID
    | _ => false

theorem JobStep.task_kept (hStep : JobStep now jobID call answer (some j) new)
    (hEnqueue : ∀ job, call = .enqueue job → job.id ≠ jobID) :
    ∃ j', new = some j' ∧ j'.task = j.task ∧ j'.attempt = j.attempt + failuresOf jobID [(now, call)] := by
  cases hStep with
  | stored hID | kept hID => exact absurd hID (hEnqueue _ rfl)
  | leased | renewed | refused | completed | cancelled | interrupted =>
    exact ⟨_, rfl, rfl, (Int.add_zero _).symm⟩
  | failed =>
    refine ⟨_, rfl, ?_, by simp [failuresOf, Job.fail_attempt]⟩
    simp only [Job.fail, Job.task]
    split_ifs <;> rfl
  | passed hOther =>
    have hNone : failuresOf jobID [(now, call)] = 0 := by
      cases call with
      | fail failed failure => simpa [failuresOf, QueueCall.subjects, eq_comm] using hOther
      | _ => rfl
    exact ⟨j, rfl, rfl, by simp [hNone]⟩

def Sample.failedLater : List (Time × QueueCall) := [(clock 3, .fail job.id ⟨.snapshotFailed, "", true⟩)]

end DBVault.Queue
