import DBVault.Scheduler.InFlight

/-! A pass of the scheduler's `Run` in its ticker case, and what it leaves of the leases
that have expired. -/
namespace DBVault.Scheduling
open Queue DBVault.Scheduling.Runtime Phase Queue.Sample Keyed.Table

/-- `Run` is in its loop, past the recovery it starts with. -/
def Phase.inLoop : Phase → Bool
  | .starting | .recovering .. => false
  | _ => true

/-- A bound on the steps to the wait: at most five for each schedule. -/
def Phase.left : Phase → Nat
  | .dueCheck _ rest => 5 * rest.length + 1
  | .liveCheck _ _ _ rest => 5 * rest.length + 5
  | .enqueue _ _ _ rest => 5 * rest.length + 4
  | .setLastFire _ _ _ rest => 5 * rest.length + 3
  | .markInflight _ _ _ rest => 5 * rest.length + 2
  | _ => 0

/-- `LeaseNext` at the time would find the row, for any worker that takes its type. -/
def Eligible (now : Time) (row : JobRow) : Prop :=
  ∀ types : List JobType, (types = [] ∨ row.type ∈ types) → SqliteQueue.selectable now types row

theorem eligible_iff {now : Time} {row : JobRow} :
    Eligible now row ↔ row.status ∈ [JobStatus.pending, .retrying, .interrupted] ∧
      row.availableAt.rfc3339Nano ≤ now.rfc3339Nano ∧ row.leaseExpiresAt.le now := by
  have hTypes : ∀ types : List JobType, (types = [] ∨ row.type ∈ types) ↔
      (types.isEmpty || types.contains row.type) := by simp
  unfold Eligible SqliteQueue.selectable
  simp only [hTypes, row.written, Bool.false_or, Bool.and_eq_true, decide_eq_true_eq, List.contains_iff_mem]
  constructor
  · intro hAll
    obtain ⟨⟨⟨hStatus, hAvailable⟩, hLease⟩, -⟩ := hAll [] rfl
    exact ⟨hStatus, hAvailable, hLease⟩
  · rintro ⟨hStatus, hAvailable, hLease⟩ types hType
    exact ⟨⟨⟨hStatus, hAvailable⟩, hLease⟩, hType⟩

def Lapsed (now : Time) (row : JobRow) : Prop :=
  row.status.terminal = false ∧ ∃ expiry, row.leaseExpiresAt = .time expiry ∧ expiry < now

namespace Runtime

def row (s : Runtime .durable) (jobID : String) : Option JobRow := find s.queue jobID

/-- The steps `Run` makes at a time with nothing in between. -/
def pass (system : System) (now : Time) (steps : Nat) (s : Runtime .durable) : Runtime .durable :=
  (fun s => s.runStep system now)^[steps] s

variable {s : Runtime .durable} {system : System} {now : Time} {row : JobRow}

variable {jobID : String}

theorem enqueue_keeps {q : SqliteQueue} (hCoherent : q.Coherent) (job : Job) (hFind : q.find jobID = some row)
    (hLive : row.status.terminal = false) : (SqliteQueue.enqueue q job).2.find jobID = some row := by
  by_cases hID : job.id = jobID
  · subst hID
    have hScan : row.scanJob.terminal = false := by
      rw [SqliteQueue.terminal_scanJob (hCoherent row (find_eq_some.mp hFind).1)]
      exact hLive
    rw [SqliteQueue.enqueue_live hFind hScan]
    exact hFind
  · have hOther : jobID ≠ (jobArgs job).id := Ne.symm hID
    unfold SqliteQueue.enqueue
    split
    · split
      · rw [find_store, if_neg hOther, hFind]
      · exact hFind
    · rw [find_store, if_neg hOther, hFind]

theorem runStep_keeps (sound : s.Sound) (hLoop : s.phase.inLoop) (hRow : s.row jobID = some row)
    (hLive : row.status.terminal = false) :
    (s.runStep system now).phase.inLoop ∧ (s.runStep system now).row jobID = some row := by
  unfold runStep
  split
  · rename_i hPhase
    simp [hPhase, inLoop] at hLoop
  · rename_i hPhase
    simp [hPhase, inLoop] at hLoop
  · rename_i hPhase
    simp [hPhase, inLoop] at hLoop
  · exact ⟨rfl, hRow⟩
  · exact ⟨rfl, hRow⟩
  · split <;> exact ⟨rfl, hRow⟩
  · split <;> exact ⟨rfl, hRow⟩
  · split
    · exact ⟨rfl, enqueue_keeps sound.queue _ hRow hLive⟩
    · exact ⟨rfl, hRow⟩
  · exact ⟨rfl, hRow⟩
  · exact ⟨rfl, hRow⟩

theorem pass_keeps (sound : s.Sound) (hLoop : s.phase.inLoop) (hRow : s.row jobID = some row)
    (hLive : row.status.terminal = false) (steps : Nat) : (s.pass system now steps).row jobID = some row := by
  induction steps generalizing s with
  | zero => exact hRow
  | succ steps ih =>
    obtain ⟨hNext, hKept⟩ := runStep_keeps sound hLoop hRow hLive
    exact ih sound.runStep hNext hKept

theorem runStep_left (hLoop : s.phase.inLoop) (hBusy : s.phase ≠ .waiting) :
    (s.runStep system now).phase.inLoop ∧ (s.runStep system now).phase.left < s.phase.left := by
  unfold runStep
  split <;> rename_i hPhase
  · simp [hPhase, inLoop] at hLoop
  · simp [hPhase, inLoop] at hLoop
  · simp [hPhase, inLoop] at hLoop
  · exact absurd hPhase hBusy
  · exact ⟨rfl, by simp [hPhase, Phase.left, enter]⟩
  · split <;> exact ⟨rfl, by simp [hPhase, Phase.left, enter, Nat.mul_add]⟩
  · split <;> exact ⟨rfl, by simp [hPhase, Phase.left, enter]⟩
  · split <;> exact ⟨rfl, by simp [hPhase, Phase.left, enter]⟩
  · exact ⟨rfl, by simp [hPhase, Phase.left, enter]⟩
  · exact ⟨rfl, by simp [hPhase, Phase.left, enter]⟩

theorem exists_pass_waiting (hLoop : s.phase.inLoop) : ∃ steps, (s.pass system now steps).phase = .waiting := by
  induction hLeft : s.phase.left using Nat.strong_induction_on generalizing s with
  | h left ih =>
    by_cases hBusy : s.phase = .waiting
    · exact ⟨0, hBusy⟩
    · obtain ⟨hNext, hLess⟩ := runStep_left hLoop hBusy
      obtain ⟨steps, hDone⟩ := ih _ (hLeft ▸ hLess) hNext rfl
      exact ⟨steps + 1, hDone⟩

/-- In every state of every run, when a pass in the ticker case has come back to the wait,
every job that was not done and whose lease had expired can be leased exactly if it could
before: its status was not leased, and its times were not later as texts. -/
theorem lapsed_eligible_iff (system : System) (actions : List (Time × Action)) (now : Time)
    (hWaiting : (run .durable system actions).phase = .waiting) :
    (∀ steps, (pass system now (steps + 1) (run .durable system actions)).phase = .waiting →
        ∀ jobID row, (run .durable system actions).row jobID = some row → Lapsed now row →
          ∃ after, (pass system now (steps + 1) (run .durable system actions)).row jobID = some after ∧
            Eligible now after) ↔
      ∀ jobID row, (run .durable system actions).row jobID = some row → Lapsed now row →
        row.status ∈ [JobStatus.pending, .retrying, .interrupted] ∧
          row.availableAt.rfc3339Nano ≤ now.rfc3339Nano ∧ row.leaseExpiresAt.le now := by
  have sound := sound_run .durable system actions
  have hLoop : (run .durable system actions).phase.inLoop := by
    rw [hWaiting]
    rfl
  constructor
  · intro hEligible jobID row hRow lapsed
    have hBegun : ((run .durable system actions).runStep system now).phase.inLoop := by
      simp [runStep, hWaiting, enter, inLoop]
    obtain ⟨steps, hDone⟩ := exists_pass_waiting hBegun
    obtain ⟨after, hAfter, eligible⟩ := hEligible steps hDone jobID row hRow lapsed
    rw [pass_keeps sound hLoop hRow lapsed.1] at hAfter
    obtain rfl := Option.some.inj hAfter
    exact eligible_iff.mp eligible
  · intro hBefore steps _ jobID row hRow lapsed
    exact ⟨row, pass_keeps sound hLoop hRow lapsed.1 _, eligible_iff.mpr (hBefore jobID row hRow lapsed)⟩

end Runtime

namespace Sample

def crashed : List (Time × Action) := fired ++ times 1 1 (.lease 0 fun _ => 0)

def manual : Job := { id := "manual", type := .backup, status := .pending, maximumAttempts := 3 }

/-- The job has failed once and is to be tried again; its lease is left in the row. -/
def failedOnce : List (Time × Action) :=
  times 1 0 (.boot [] 1) ++ times 4 0 .run ++ times 1 0 (.enqueue manual) ++ times 1 1 (.lease 0 fun _ => 0) ++
    times 1 2 (.settle 0 (.error "no space left")) ++ times 1 2 (.report 0)

theorem retrying_eligible :
    (Runtime.run .durable system failedOnce).phase = .waiting ∧
      (∃ row, (Runtime.run .durable system failedOnce).row "manual" = some row ∧ row.status = .retrying ∧
        Lapsed (clock 600) row) ∧
      ∀ steps, (Runtime.pass system (clock 600) (steps + 1) (Runtime.run .durable system failedOnce)).phase = .waiting →
        ∀ jobID row, (Runtime.run .durable system failedOnce).row jobID = some row → Lapsed (clock 600) row →
          ∃ after, (Runtime.pass system (clock 600) (steps + 1) (Runtime.run .durable system failedOnce)).row jobID =
            some after ∧ Eligible (clock 600) after := by
  have hWaiting : (Runtime.run .durable system failedOnce).phase = .waiting := rfl
  obtain ⟨hLast, hRows⟩ : ((Runtime.run .durable system failedOnce).row "manual").map (fun row =>
        (row.status, row.leaseExpiresAt)) = some (.retrying, .time (clock 301)) ∧
      ∀ row ∈ rows (Runtime.run .durable system failedOnce).queue,
        row.status ∈ [JobStatus.pending, .retrying, .interrupted] ∧
          row.availableAt.rfc3339Nano ≤ (clock 600).rfc3339Nano ∧ row.leaseExpiresAt.le (clock 600) := by
    decide +kernel
  obtain ⟨row, hRow, hLapsed⟩ := Option.map_eq_some_iff.mp hLast
  obtain ⟨hStatus, hLease⟩ := Prod.mk.inj hLapsed
  refine ⟨hWaiting, ⟨row, hRow, hStatus, by rw [hStatus]; rfl, _, hLease, by decide⟩,
    (Runtime.lapsed_eligible_iff system failedOnce _ hWaiting).mpr ?_⟩
  exact fun jobID row hRow _ => hRows row (find_eq_some.mp hRow).1

/-- The lease ends after five minutes. A pass after ten leaves the job leased. -/
theorem crashed_lease_stays :
    let s := Runtime.run .durable system crashed
    let after := s.pass system (clock 600) 4
    s.phase.idle ∧ after.phase.idle ∧
      (s.row "sched-nightly-1699999980").map (fun row => (row.status, row.leaseExpiresAt)) =
        some (.leased, .time (clock 301)) ∧
      (after.row "sched-nightly-1699999980").map (fun row => (row.status, row.leaseExpiresAt)) =
        some (.leased, .time (clock 301)) ∧
      (after.row "sched-nightly-1699999980").map (SqliteQueue.selectable (clock 600) []) = some false := by
  decide +kernel

end Sample

end DBVault.Scheduling
