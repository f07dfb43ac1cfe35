import DBVault.ProductExperience

/-! The job views of the console, written by the runner's reports and by users who cancel
and retry, each under the lock but without looking at what the others have written. -/
namespace DBVault.ProductExperience.Jobs
open Function List Text

inductive JobStatus where
  | queued | running | completed | failed | cancelled
  deriving DecidableEq

/-- `isTerminalJob`. -/
def JobStatus.terminal : JobStatus → Bool
  | completed | failed | cancelled => true
  | queued | running => false

structure JobView where
  (id resourceID resourceName jobType : String)
  status : JobStatus
  stage : String
  (stageIndex stageCount : Nat)
  percentage : Rat
  message : String
  canCancel : Bool
  attempt : Int
  originalJobID : String := ""
  completedAt : Option Time := none
  (createdAt updatedAt : Time)

def stagesFor (jobType : String) : List String :=
  match jobType with
  | "backup" => ["snapshot", "inspect", "plan", "upload", "publish", "verify", "replicate", "complete"]
  | "restore" => ["plan", "reserve", "download", "verify", "restore", "replay_logs", "validate", "complete"]
  | "restore_drill" =>
    ["create_workspace", "restore", "open_database", "run_checks", "record_evidence", "cleanup", "complete"]
  | "sandbox" =>
    ["reserve", "create_runtime", "restore", "verify", "publish_connection", "schedule_expiry", "complete"]
  | "verification" =>
    ["load_manifest", "verify_signature", "verify_objects", "verify_checksums", "record_result", "complete"]
  | "replication" => ["plan_missing_objects", "copy", "verify_replica", "update_coverage", "complete"]
  | "destination_test" => ["probe", "put", "get", "delete", "complete"]
  | "doctor" =>
    ["database", "tools", "storage", "keys", "disk", "clock", "tls", "agent",
      "restore_requirements", "complete"]
  | "bundle" => ["collect", "redact", "package", "sign", "verify", "complete"]
  | "upgrade" =>
    ["download", "verify", "backup_catalogue", "pause_jobs", "install", "migrate", "restart",
      "health_check", "commit"]
  | "warehouse_sync" =>
    ["extract", "transform_parquet", "partition", "load_warehouse", "validate_indexes", "complete"]
  | _ => ["queued", "running", "complete"]

/-- `time.Time.String` of a time in UTC. -/
def timeText (t : Time) : String :=
  let f := t.fields
  f.year ++ "-" ++ f.month ++ "-" ++ f.day ++ " " ++ f.hour ++ ":" ++ f.minute ++ ":" ++ f.second ++
    Time.fraction f.nanos ++ " +0000 UTC"

def orDefault (value default : String) : String := if trimSpace value = "" then default else value

/-- The view `newJobRecord` registers. -/
def newJobView (jobType resourceID resourceName : String) (now : Time) : JobView :=
  let jobType := orDefault jobType "backup"
  let resourceID := orDefault resourceID "production-postgres"
  let stages := stagesFor jobType
  { id := "job-" ++ jobType ++ "-" ++ stableID [] (timeText now ++ resourceID)
    resourceID := resourceID
    resourceName := orDefault resourceName "Production PostgreSQL"
    jobType := jobType
    status := .queued
    stage := stages.headD ""
    stageIndex := 1
    stageCount := stages.length
    percentage := 0
    message := "Waiting for an available DBVault worker."
    canCancel := true
    attempt := 1
    createdAt := now
    updatedAt := now }

namespace JobView
variable (job : JobView)

/-- What `updateJobStage` makes of a view. -/
def updated (stage : String) (percentage : Rat) (message : String) (now : Time) : JobView :=
  let stages := stagesFor job.jobType
  let job := { job with
    stage := stage
    stageIndex := if stage ∈ stages then stages.idxOf stage + 1 else 1
    stageCount := stages.length
    percentage := percentage
    message := message
    updatedAt := now }
  if percentage ≥ 100 then { job with status := .completed, completedAt := some now, canCancel := false }
  else { job with status := .running }

/-- What `failJob` makes of a view. -/
def failed (stage reason : String) (now : Time) : JobView :=
  { job with
    status := .failed, stage := stage, message := reason, updatedAt := now,
    completedAt := some now, canCancel := false }

/-- What `CancelJob` makes of a view. -/
def cancelled (now : Time) : JobView :=
  { job with
    status := .cancelled, canCancel := false
    message := "Job cancelled at a safe cancellation point."
    updatedAt := now, completedAt := some now }

end JobView

/-- How far a call of `RetryJob` is. -/
inductive Retry where
  | idle
  | read (original : JobView)
  | created (original newJob : JobView)

structure System where
  jobs : String → Option JobView
  retries : Nat → Retry

/-- What is done under the lock at one time. The calls of `RetryJob` are numbered; each reads
the original, creates a job and writes it back. -/
inductive Step where
  | create (jobType resourceID resourceName : String) (now : Time)
  | updateJobStage (jobID stage : String) (percentage : Rat) (message : String) (now : Time)
  | failJob (jobID stage reason : String) (now : Time)
  | cancelJob (id : String) (now : Time)
  | retryRead (call : Nat) (id : String)
  | retryCreate (call : Nat) (now : Time)
  | retryWrite (call : Nat)

namespace System
variable (s : System)

def setJob (id : String) (job : JobView) : System := { s with jobs := Function.update s.jobs id (some job) }

def setRetry (call : Nat) (retry : Retry) : System := { s with retries := Function.update s.retries call retry }

@[simp] theorem setJob_self (id : String) (job : JobView) : (s.setJob id job).jobs id = some job := update_self ..

theorem setJob_other {id other : String} (job : JobView) (hOther : other ≠ id) :
    (s.setJob id job).jobs other = s.jobs other :=
  update_of_ne hOther ..

@[simp] theorem setJob_retries (id : String) (job : JobView) : (s.setJob id job).retries = s.retries := rfl

@[simp] theorem setRetry_self (call : Nat) (retry : Retry) : (s.setRetry call retry).retries call = retry :=
  update_self ..

@[simp] theorem setRetry_jobs (call : Nat) (retry : Retry) : (s.setRetry call retry).jobs = s.jobs := rfl

def step : Step → System
  | .create jobType resourceID resourceName now =>
    let job := newJobView jobType resourceID resourceName now
    s.setJob job.id job
  | .updateJobStage jobID stage percentage message now =>
    match s.jobs jobID with
    | none => s
    | some job => s.setJob jobID (job.updated stage percentage message now)
  | .failJob jobID stage reason now =>
    match s.jobs jobID with
    | none => s
    | some job => s.setJob jobID (job.failed stage reason now)
  | .cancelJob id now =>
    match s.jobs id with
    | none => s
    | some job => if !job.canCancel || job.status.terminal then s else s.setJob id (job.cancelled now)
  | .retryRead call id =>
    match s.jobs id with
    | none => s.setRetry call .idle
    | some original => s.setRetry call (.read original)
  | .retryCreate call now =>
    match s.retries call with
    | .read original =>
      let job := newJobView original.jobType original.resourceID original.resourceName now
      (s.setJob job.id job).setRetry call (.created original job)
    | _ => s
  | .retryWrite call =>
    match s.retries call with
    | .created original newJob =>
      (s.setJob newJob.id
        { newJob with originalJobID := original.id, attempt := original.attempt + 1 }).setRetry call .idle
    | _ => s

def start : System := ⟨fun _ => none, fun _ => .idle⟩

def run (steps : List Step) : System := steps.foldl step start

theorem run_snoc (steps : List Step) (st : Step) : run (steps ++ [st]) = (run steps).step st := by simp [run]

/-- The step changes the status of no finished job, and if it is the write of a retry the new
job is as it was queued. -/
structure Keeps (s : System) (st : Step) : Prop where
  finished : ∀ id job, s.jobs id = some job → job.status.terminal = true →
    ∃ next, (s.step st).jobs id = some next ∧ next.status = job.status
  progress : ∀ call original newJob job, st = .retryWrite call →
    s.retries call = .created original newJob → s.jobs newJob.id = some job → job.status = .queued

end System

inductive Outcome where
  | completed | failed | cancelled
  deriving DecidableEq

def Outcome.status : Outcome → JobStatus
  | completed => .completed
  | failed => .failed
  | cancelled => .cancelled

inductive Report where
  | created
  | rewritten
  | progress
  | ended (outcome : Outcome)
  deriving DecidableEq

inductive Phase where
  | absent
  | fresh
  | running
  | ended (outcome : Outcome)
  deriving DecidableEq

namespace Phase

def next : Phase → Report → Phase
  | .ended outcome, _ => .ended outcome
  | _, .created | _, .rewritten => .fresh
  | .absent, _ => .absent
  | _, .progress => .running
  | _, .ended outcome => .ended outcome

/-- A job that has ended is only cancelled in vain or told its outcome again, and a retry
writes back a new job only before anything else is reported on it. -/
def Allows (phase : Phase) (report : Report) : Prop :=
  (∀ outcome, phase = .ended outcome → report = .ended .cancelled ∨ report = .ended outcome) ∧
    (report = .rewritten → phase = .absent ∨ phase = .fresh)

end Phase

/-- The job a step is about and what it reports. -/
def Step.report (s : System) : Step → Option (String × Report)
  | .create jobType resourceID resourceName now =>
    some ((newJobView jobType resourceID resourceName now).id, .created)
  | .updateJobStage jobID _ percentage _ _ =>
    some (jobID, if percentage ≥ 100 then .ended .completed else .progress)
  | .failJob jobID _ _ _ => some (jobID, .ended .failed)
  | .cancelJob id _ => some (id, .ended .cancelled)
  | .retryRead .. => none
  | .retryCreate call now =>
    match s.retries call with
    | .read original =>
      some ((newJobView original.jobType original.resourceID original.resourceName now).id, .created)
    | _ => none
  | .retryWrite call =>
    match s.retries call with
    | .created _ newJob => some (newJob.id, .rewritten)
    | _ => none

def advance (phases : String → Phase) (s : System) (st : Step) : String → Phase :=
  match st.report s with
  | some (id, report) => Function.update phases id ((phases id).next report)
  | none => phases

def phasesAfter (phases : String → Phase) (s : System) : List Step → String → Phase
  | [] => phases
  | st :: rest => phasesAfter (advance phases s st) (s.step st) rest

def phase (steps : List Step) : String → Phase := phasesAfter (fun _ => .absent) .start steps

def Phase.status : Phase → Option JobStatus
  | .absent => none
  | .fresh => some .queued
  | .running => some .running
  | .ended outcome => some outcome.status

/-- The view shows the phase, and can be cancelled until it ends. -/
structure Shows (p : Phase) (view : Option JobView) : Prop where
  status : view.map (·.status) = p.status
  canCancel : ∀ job, view = some job → job.status.terminal = false → job.canCancel = true

inductive Applies : Report → Option JobView → Option JobView → Prop where
  | created {view job} (status : job.status = .queued) (canCancel : job.canCancel = true) :
      Applies .created view (some job)
  | rewritten {view job} (status : job.status = .queued) (canCancel : job.canCancel = true) :
      Applies .rewritten view (some job)
  | missing {report} (reports : report ≠ .created ∧ report ≠ .rewritten) : Applies report none none
  | progress {job next} (status : next.status = .running) (canCancel : next.canCancel = job.canCancel) :
      Applies .progress (some job) (some next)
  | ended {outcome job next} (status : next.status = outcome.status)
      (cancels : outcome = .cancelled → job.status.terminal = false) :
      Applies (.ended outcome) (some job) (some next)
  | refused {job} (terminal : job.canCancel = false ∨ job.status.terminal = true) :
      Applies (.ended .cancelled) (some job) (some job)

theorem Outcome.terminal_status (outcome : Outcome) : outcome.status.terminal = true := by cases outcome <;> rfl

variable {p : Phase}

theorem Shows.ended_iff (shows : Shows p (some job)) :
    job.status.terminal = true ↔ ∃ outcome, p = .ended outcome := by
  have hStatus := shows.status
  cases p with
  | absent => simp [Phase.status] at hStatus
  | fresh | running =>
    simp only [Option.map_some, Phase.status, Option.some.injEq] at hStatus
    simp [hStatus, JobStatus.terminal]
  | ended outcome =>
    simp only [Option.map_some, Phase.status, Option.some.injEq] at hStatus
    simp [hStatus, outcome.terminal_status]

theorem Applies.keeps_iff (applies : Applies report view view') (shows : Shows p view) :
    (∀ job, view = some job → job.status.terminal = true → ∃ next, view' = some next ∧ next.status = job.status) ↔
      ∀ outcome, p = .ended outcome → report = .ended .cancelled ∨ report = .ended outcome := by
  cases p with
  | absent | fresh | running =>
    refine ⟨fun _ => nofun, ?_⟩
    rintro - job rfl hTerminal
    obtain ⟨outcome, hPhase⟩ := shows.ended_iff.mp hTerminal
    cases hPhase
  | ended outcome =>
    cases view with
    | none => exact absurd shows.status (by simp [Phase.status])
    | some job =>
      have hStatus : job.status = outcome.status := by simpa [Phase.status] using shows.status
      have hTerminal := outcome.terminal_status
      simp only [Option.some.injEq, Phase.ended.injEq, forall_eq', hStatus, hTerminal, forall_true_left]
      cases applies with
      | created status => cases outcome <;> simp [status, Outcome.status]
      | rewritten status => cases outcome <;> simp [status, Outcome.status]
      | progress status => cases outcome <;> simp [status, Outcome.status]
      | @ended reported _ next status cancels =>
        rw [hStatus, hTerminal] at cancels
        cases outcome <;> cases reported <;> simp_all [Outcome.status]
      | refused => simp [hStatus]

theorem Shows.open (shows : Shows p (some job)) (hOpen : ∀ outcome, p ≠ .ended outcome) :
    job.status.terminal = false ∧ job.canCancel = true := by
  have hStatus : job.status.terminal = false := by
    by_contra hTerminal
    obtain ⟨outcome, hPhase⟩ := shows.ended_iff.mp (by simpa using hTerminal)
    exact hOpen outcome hPhase
  exact ⟨hStatus, shows.canCancel job rfl hStatus⟩

theorem Applies.shows (applies : Applies report view view')
    (shows : Shows p view) (allows : p.Allows report) : Shows (p.next report) view' := by
  by_cases hEnded : ∃ outcome, p = .ended outcome
  · obtain ⟨outcome, rfl⟩ := hEnded
    cases view with
    | none => exact absurd shows.status (by simp [Phase.status])
    | some job =>
      have hTerminal := shows.ended_iff.mpr ⟨outcome, rfl⟩
      obtain ⟨next, rfl, hNext⟩ := (applies.keeps_iff shows).mpr allows.1 job rfl hTerminal
      refine ⟨by simpa [Phase.next, Phase.status, hNext] using shows.status, ?_⟩
      rintro _ ⟨⟩ hOpen
      rw [hNext, hTerminal] at hOpen
      cases hOpen
  · have hOpen : ∀ outcome, p ≠ .ended outcome := fun outcome h => hEnded ⟨outcome, h⟩
    cases applies with
    | created status canCancel | rewritten status canCancel =>
      have hNext : p.next .created = .fresh ∧ p.next .rewritten = .fresh := by cases p <;> simp_all [Phase.next]
      simp only [hNext]
      exact ⟨by simp [status, Phase.status], fun _ h _ => Option.some.inj h ▸ canCancel⟩
    | missing reports =>
      have hNext : p.next report = p := by
        have hStatus := shows.status
        cases p <;> cases report <;> simp_all [Phase.status, Phase.next]
      rw [hNext]
      exact shows
    | @progress job next status canCancel =>
      have hNext : p.next .progress = .running := by
        have hStatus := shows.status
        cases p <;> simp_all [Phase.status, Phase.next]
      rw [hNext]
      exact ⟨by simp [status, Phase.status], fun _ h _ => Option.some.inj h ▸ canCancel.trans (shows.open hOpen).2⟩
    | @ended outcome job next status =>
      have hNext : p.next (.ended outcome) = .ended outcome := by
        have hStatus := shows.status
        cases p <;> simp_all [Phase.status, Phase.next]
      rw [hNext]
      refine ⟨by simp [status, Phase.status], ?_⟩
      rintro _ ⟨⟩ hGoesOn
      rw [status, outcome.terminal_status] at hGoesOn
      cases hGoesOn
    | refused terminal => simp [(shows.open hOpen).1, (shows.open hOpen).2] at terminal

namespace System
variable {s : System} {st : Step}

def RetriesQueued (s : System) : Prop :=
  ∀ call original newJob, s.retries call = .created original newJob →
    newJob.status = .queued ∧ newJob.canCancel = true

theorem setRetry_queued (hQueued : s.RetriesQueued) {call : Nat}
    (hRetry : ∀ original newJob, retry = .created original newJob →
      newJob.status = .queued ∧ newJob.canCancel = true) : (s.setRetry call retry).RetriesQueued := by
  intro other original newJob hOther
  by_cases hCall : other = call
  · subst hCall
    exact hRetry original newJob (by simpa [setRetry] using hOther)
  · exact hQueued other original newJob (by simpa [setRetry, hCall] using hOther)

theorem step_retriesQueued (hQueued : s.RetriesQueued) (st : Step) : (s.step st).RetriesQueued := by
  cases st with
  | create => exact hQueued
  | updateJobStage | failJob =>
    rw [step]
    split <;> exact hQueued
  | cancelJob =>
    rw [step]
    split
    · exact hQueued
    · split_ifs <;> exact hQueued
  | retryRead =>
    rw [step]
    split <;> exact setRetry_queued hQueued fun _ _ h => Retry.noConfusion h
  | retryCreate =>
    rw [step]
    split
    · refine setRetry_queued hQueued fun _ _ h => ?_
      obtain ⟨-, rfl⟩ := Retry.created.inj h
      exact ⟨rfl, rfl⟩
    · exact hQueued
  | retryWrite =>
    rw [step]
    split
    · exact setRetry_queued hQueued fun _ _ h => Retry.noConfusion h
    · exact hQueued

/-- What a step does by what it reports. -/
structure Reported (s : System) (st : Step) (id : String) (report : Report) : Prop where
  applies : Applies report (s.jobs id) ((s.step st).jobs id)
  others : ∀ other, other ≠ id → (s.step st).jobs other = s.jobs other

theorem step_reported (hQueued : s.RetriesQueued) {id : String}
    (hReport : st.report s = some (id, report)) : s.Reported st id report := by
  cases st with
  | create jobType resourceID resourceName now =>
    obtain ⟨rfl, rfl⟩ := Prod.mk.inj (Option.some.inj hReport)
    exact ⟨by rw [step, setJob_self]; exact .created rfl rfl, fun _ hOther => setJob_other s _ hOther⟩
  | updateJobStage jobID stage percentage message now =>
    obtain ⟨rfl, rfl⟩ := Prod.mk.inj (Option.some.inj hReport)
    cases hFind : s.jobs jobID with
    | none =>
      refine ⟨?_, by simp [step, hFind]⟩
      simp only [step, hFind]
      split_ifs <;> exact .missing (by simp)
    | some job =>
      refine ⟨?_, fun other hOther => by simp only [step, hFind, setJob_other s _ hOther]⟩
      simp only [step, hFind, setJob_self]
      split_ifs with hDone
      · exact .ended (by simp [JobView.updated, hDone, Outcome.status]) (by simp)
      · exact .progress (by simp [JobView.updated, hDone]) (by simp [JobView.updated, hDone])
  | failJob jobID stage reason now =>
    obtain ⟨rfl, rfl⟩ := Prod.mk.inj (Option.some.inj hReport)
    cases hFind : s.jobs jobID with
    | none =>
      refine ⟨?_, by simp [step, hFind]⟩
      simp only [step, hFind]
      exact .missing (by simp)
    | some job =>
      refine ⟨?_, fun other hOther => by simp only [step, hFind, setJob_other s _ hOther]⟩
      simp only [step, hFind, setJob_self]
      exact .ended rfl (by simp)
  | cancelJob id now =>
    obtain ⟨rfl, rfl⟩ := Prod.mk.inj (Option.some.inj hReport)
    cases hFind : s.jobs id with
    | none =>
      refine ⟨?_, by simp [step, hFind]⟩
      simp only [step, hFind]
      exact .missing (by simp)
    | some job =>
      by_cases hRefused : (!job.canCancel || job.status.terminal) = true
      · refine ⟨?_, by simp [step, hFind, hRefused]⟩
        simp only [step, hFind, hRefused, if_true]
        exact .refused (by simpa using hRefused)
      · refine ⟨?_, fun other hOther => ?_⟩
        · simp only [step, hFind, if_neg hRefused, setJob_self]
          exact .ended rfl fun _ => by simp_all
        · simp only [step, hFind, if_neg hRefused]
          exact setJob_other s _ hOther
  | retryRead => cases hReport
  | retryCreate call now =>
    rw [Step.report] at hReport
    split at hReport
    · rename_i original hRetry
      obtain ⟨rfl, rfl⟩ := Prod.mk.inj (Option.some.inj hReport)
      refine ⟨?_, fun other hOther => ?_⟩
      · simp only [step, hRetry, setRetry_jobs, setJob_self]
        exact .created rfl rfl
      · simp only [step, hRetry, setRetry_jobs]
        exact setJob_other s _ hOther
    · cases hReport
  | retryWrite call =>
    rw [Step.report] at hReport
    split at hReport
    · rename_i original newJob hRetry
      obtain ⟨rfl, rfl⟩ := Prod.mk.inj (Option.some.inj hReport)
      obtain ⟨hStatus, hCancel⟩ := hQueued call original newJob hRetry
      refine ⟨?_, fun other hOther => ?_⟩
      · simp only [step, hRetry, setRetry_jobs, setJob_self]
        exact .rewritten hStatus hCancel
      · simp only [step, hRetry, setRetry_jobs]
        exact setJob_other s _ hOther
    · cases hReport

theorem step_silent (hSilent : st.report s = none) : (s.step st).jobs = s.jobs := by
  cases st with
  | create | updateJobStage | failJob | cancelJob => cases hSilent
  | retryRead =>
    rw [step]
    split <;> rfl
  | retryCreate | retryWrite =>
    rw [Step.report] at hSilent
    split at hSilent
    · cases hSilent
    · rw [step]
      split
      · simp_all
      · rfl

theorem run_retriesQueued (steps : List Step) : (run steps).RetriesQueued := by
  induction steps using List.reverseRecOn with
  | nil => exact fun _ _ _ h => Retry.noConfusion h
  | append_singleton steps st ih =>
    rw [run_snoc]
    exact step_retriesQueued ih st

def Follows (s : System) (phases : String → Phase) : Prop := ∀ id, Shows (phases id) (s.jobs id)

theorem phase_snoc (steps : List Step) (st : Step) :
    phase (steps ++ [st]) = advance (phase steps) (run steps) st := by
  have hFrom : ∀ phases s, phasesAfter phases s (steps ++ [st]) =
      advance (phasesAfter phases s steps) (steps.foldl step s) st := by
    induction steps with
    | nil => exact fun _ _ => rfl
    | cons first rest ih => exact fun phases s => ih _ _
  exact hFrom _ _

theorem report_rewritten {id : String} (hReport : st.report s = some (id, .rewritten)) :
    ∃ call original newJob, st = .retryWrite call ∧ s.retries call = .created original newJob ∧
      newJob.id = id := by
  cases st with
  | create | failJob | cancelJob => cases hReport
  | updateJobStage =>
    rw [Step.report] at hReport
    split_ifs at hReport <;> cases hReport
  | retryRead => cases hReport
  | retryCreate =>
    rw [Step.report] at hReport
    split at hReport <;> cases hReport
  | retryWrite call =>
    rw [Step.report] at hReport
    split at hReport
    · rename_i original newJob hRetry
      exact ⟨call, original, newJob, rfl, hRetry, (Prod.mk.inj (Option.some.inj hReport)).1⟩
    · cases hReport

theorem queued_iff (shows : Shows p view) :
    (∀ job, view = some job → job.status = .queued) ↔ p = .absent ∨ p = .fresh := by
  have hStatus := shows.status
  cases view with
  | none => cases p <;> simp_all [Phase.status]
  | some job =>
    cases p with
    | absent => simp [Phase.status] at hStatus
    | fresh | running => simp_all [Phase.status]
    | ended outcome => cases outcome <;> simp_all [Phase.status, Outcome.status]

/-- While the jobs show their phases, a step keeps what is finished and recorded just in case
the phase of the job it is about allows what it reports. -/
theorem Follows.keeps_iff (follows : s.Follows phases) (hQueued : s.RetriesQueued)
    (st : Step) : s.Keeps st ↔ ∀ id report, st.report s = some (id, report) → (phases id).Allows report := by
  constructor
  · intro keeps id report hReport
    have hApplies := (step_reported hQueued hReport).applies
    refine ⟨(hApplies.keeps_iff (follows id)).mp (keeps.finished id), ?_⟩
    rintro rfl
    obtain ⟨call, original, newJob, hStep, hRetry, rfl⟩ := report_rewritten hReport
    exact (queued_iff (follows newJob.id)).mp fun job => keeps.progress call original newJob job hStep hRetry
  · intro hAllows
    refine ⟨?_, ?_⟩
    · intro id job hFind hTerminal
      cases hReport : st.report s with
      | none => exact ⟨job, by rw [step_silent hReport, hFind], rfl⟩
      | some entry =>
        obtain ⟨reported, report⟩ := entry
        have hStep := step_reported hQueued hReport
        by_cases hID : id = reported
        · subst hID
          exact (hStep.applies.keeps_iff (follows id)).mpr (hAllows id report hReport).1 job hFind hTerminal
        · exact ⟨job, by rw [hStep.others id hID, hFind], rfl⟩
    · rintro call original newJob job rfl hRetry hFind
      have hReport : Step.report s (.retryWrite call) = some (newJob.id, .rewritten) := by
        simp [Step.report, hRetry]
      exact (queued_iff (follows newJob.id)).mpr ((hAllows _ _ hReport).2 rfl) job hFind

theorem Follows.step (follows : s.Follows phases) (hQueued : s.RetriesQueued)
    (hAllows : ∀ id report, st.report s = some (id, report) → (phases id).Allows report) :
    (s.step st).Follows (advance phases s st) := by
  intro id
  cases hReport : st.report s with
  | none =>
    rw [step_silent hReport, advance, hReport]
    exact follows id
  | some entry =>
    obtain ⟨reported, report⟩ := entry
    have hStep := step_reported hQueued hReport
    have hNext : advance phases s st = Function.update phases reported ((phases reported).next report) := by
      simp [advance, hReport]
    rw [hNext]
    by_cases hID : id = reported
    · subst hID
      rw [update_self]
      exact hStep.applies.shows (follows id) (hAllows id report hReport)
    · rw [update_of_ne hID, hStep.others id hID]
      exact follows id

theorem follows_of_keeps (hKeeps : ∀ before st after, steps = before ++ st :: after → (run before).Keeps st) :
    (run steps).Follows (phase steps) := by
  induction steps using List.reverseRecOn with
  | nil => exact fun _ => ⟨rfl, fun job h => absurd (show none = some job from h) (by simp)⟩
  | append_singleton steps st ih =>
    have hOld := ih fun before earlier after hSteps => hKeeps before earlier (after ++ [st]) (by simp [hSteps])
    have hLast := (hOld.keeps_iff (run_retriesQueued steps) st).mp (hKeeps steps st [] rfl)
    rw [run_snoc, phase_snoc]
    exact hOld.step (run_retriesQueued steps) hLast

/-- Finished jobs stay finished and retries overwrite no progress just in case every step
reports what the phase of its job allows. -/
theorem keeps_iff_allows (steps : List Step) :
    (∀ before st after, steps = before ++ st :: after → (run before).Keeps st) ↔
      ∀ before st after, steps = before ++ st :: after →
        ∀ id report, st.report (run before) = some (id, report) → (phase before id).Allows report := by
  induction steps using List.reverseRecOn with
  | nil => simp
  | append_singleton steps st ih =>
    rw [Interaction.forall_split_snoc, Interaction.forall_split_snoc, ← ih]
    exact and_congr_right fun hKeeps =>
      (follows_of_keeps hKeeps).keeps_iff (run_retriesQueued steps) st

end System

namespace Sample

def first : JobView := newJobView "backup" "orders" "Orders" 0

def second : JobView := newJobView "backup" "orders" "Orders" Time.nanosPerSecond

def cancelled : List Step := [.create "backup" "orders" "Orders" 0, .cancelJob first.id 1]

theorem run_cancelled : (System.run cancelled).jobs first.id = some (first.cancelled 1) := by
  have hCreate : System.start.step (.create "backup" "orders" "Orders" 0) =
      System.start.setJob first.id first := rfl
  have hCancel : (System.start.setJob first.id first).step (.cancelJob first.id 1) =
      (System.start.setJob first.id first).setJob first.id (first.cancelled 1) := by
    rw [System.step, System.setJob_self]
    rfl
  rw [cancelled, System.run, foldl_cons, foldl_cons, foldl_nil, hCreate, hCancel, System.setJob_self]

def failed : JobView := first.failed "upload" "disk full" 1

/-- A failed job is retried, and the runner of the new job reports before the retry writes
it back. -/
def retried : List Step :=
  [.create "backup" "orders" "Orders" 0, .failJob first.id "upload" "disk full" 1,
    .retryRead 0 first.id, .retryCreate 0 Time.nanosPerSecond,
    .updateJobStage second.id "upload" 40 "Uploading." Time.nanosPerSecond]

theorem run_retried :
    (System.run retried).retries 0 = .created failed second ∧
      (System.run retried).jobs second.id =
        some (second.updated "upload" 40 "Uploading." Time.nanosPerSecond) := by
  let created := System.start.setJob first.id first
  have hFail : created.step (.failJob first.id "upload" "disk full" 1) = created.setJob first.id failed := by
    rw [System.step, System.setJob_self]
    rfl
  have hRead : (created.setJob first.id failed).step (.retryRead 0 first.id) =
      (created.setJob first.id failed).setRetry 0 (.read failed) := by
    rw [System.step, System.setJob_self]
  let read := (created.setJob first.id failed).setRetry 0 (.read failed)
  have hCreate : read.step (.retryCreate 0 Time.nanosPerSecond) =
      (read.setJob second.id second).setRetry 0 (.created failed second) := by
    rw [System.step, System.setRetry_self]
    rfl
  have hUpdate : ((read.setJob second.id second).setRetry 0 (.created failed second)).step
      (.updateJobStage second.id "upload" 40 "Uploading." Time.nanosPerSecond) =
      ((read.setJob second.id second).setRetry 0 (.created failed second)).setJob second.id
        (second.updated "upload" 40 "Uploading." Time.nanosPerSecond) := by
    rw [System.step, System.setRetry_jobs, System.setJob_self]
  have hStart : System.start.step (.create "backup" "orders" "Orders" 0) = created := rfl
  simp only [retried, System.run, foldl_cons, foldl_nil, hStart, hFail, hRead]
  rw [hCreate, hUpdate, System.setJob_retries]
  exact ⟨System.setRetry_self .., System.setJob_self ..⟩

/-- The runner of a cancelled job reports its next stage, and the job runs again; a retry
takes a job that runs back to the queue. -/
theorem finished_jobs_change :
    (¬ ∀ before st after,
      cancelled ++ [.updateJobStage first.id "upload" 40 "Uploading." 2] = before ++ st :: after →
      (System.run before).Keeps st) ∧
    ¬ ∀ before st after, retried ++ [.retryWrite 0] = before ++ st :: after →
      (System.run before).Keeps st := by
  constructor
  · intro hKeeps
    obtain ⟨next, hNext, hStatus⟩ :=
      (hKeeps cancelled _ [] rfl).finished first.id _ run_cancelled rfl
    rw [System.step, run_cancelled] at hNext
    simp only [System.setJob_self, Option.some.injEq] at hNext
    subst hNext
    cases hStatus
  · intro hKeeps
    have hQueued := (hKeeps retried _ [] rfl).progress 0 failed second _ rfl run_retried.1 run_retried.2
    cases hQueued

end Sample

end DBVault.ProductExperience.Jobs
