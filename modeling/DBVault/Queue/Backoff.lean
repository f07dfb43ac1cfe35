import DBVault.Queue.LifeCycle

/-! A failed job that waits to be tried again: what the lease it was left with and the recovery
sweeps make of the delay. -/
namespace DBVault.Queue
open Keyed

/-- The call hands the job out, settles it or cancels it. -/
def QueueCall.takes (id : String) : QueueCall → QueueAnswer → Bool
  | .leaseNext .., .leased (some given) => given.id = id
  | .complete jobID _, _ | .fail jobID _, _ | .cancel jobID, _ => jobID = id
  | _, _ => false

/-- The lease of a waiting job, and when a sweep took it away. -/
structure Waiting where
  owner : String
  (expiry recoveredAt : Option Time)

namespace Waiting

def ofJob (job : Job) : Waiting := ⟨job.leaseOwner, job.leaseExpiresAt, none⟩

variable (w : Waiting) (id : String)

/-- Only renewals by its owner and sweeps after its expiry touch the lease. -/
def step : Time × QueueCall → Waiting
  | (now, .renew jobID workerID leaseDuration) =>
    if jobID = id ∧ w.owner = workerID then { w with expiry := some (now + leaseDuration) } else w
  | (now, .recoverExpired) => if w.expiry.any (· < now) then ⟨"", none, some now⟩ else w
  | _ => w

def after (calls : List (Time × QueueCall)) : Waiting := calls.foldl (step · id) w

def LeasedAt (now : Time) : Prop := ∃ expiry ∈ w.expiry, now < expiry

instance (now : Time) : Decidable (w.LeasedAt now) :=
  inferInstanceAs (Decidable (∃ expiry ∈ w.expiry, now < expiry))

end Waiting

namespace MemoryCore

/-- The job is left waiting by all of the calls. -/
def Idle (id : String) : MemoryCore → List (Time × QueueCall) → Prop
  | _, [] => True
  | c, (now, call) :: rest => call.takes id (perform c now call).1 = false ∧ Idle id (perform c now call).2 rest

def Idle.decidable (id : String) :
    (c : MemoryCore) → (calls : List (Time × QueueCall)) → Decidable (Idle id c calls)
  | _, [] => .isTrue trivial
  | c, (now, call) :: rest => @instDecidableAnd _ _ _ (Idle.decidable id (perform c now call).2 rest)

instance (id : String) (c : MemoryCore) (calls : List (Time × QueueCall)) :
    Decidable (Idle id c calls) := Idle.decidable id c calls

structure Stands (job : Job) (due : Time) (w : Waiting) (j : Job) : Prop where
  id : j.id = job.id
  type : j.type = job.type
  priority : j.priority = job.priority
  createdAt : j.createdAt = job.createdAt
  live : j.terminal = false
  owner : j.leaseOwner = w.owner
  expiry : j.leaseExpiresAt = w.expiry
  available : j.availableAt = w.recoveredAt.getD due

section
variable {c : MemoryCore} {now due : Time} {job j : Job} {w : Waiting} {id : String}

theorem fail_stands (now : Time) {failure : JobFailure} (hRetry : failure.retryable = true)
    (hAttempts : job.attempt + 1 < job.maximumAttempts) :
    Stands job (now + retryDelay (job.attempt + 1)) (.ofJob job) (job.fail now failure) := by
  simp only [Job.fail, hRetry, hAttempts, and_self, if_true]
  exact ⟨rfl, rfl, rfl, rfl, rfl, rfl, rfl, rfl⟩

theorem expired_eq (hStands : Stands job due w j) : expired now j = w.expiry.any (· < now) := by
  simp only [expired, hStands.expiry, hStands.live, Bool.not_false, Bool.and_true]
  cases w.expiry <;> rfl

theorem Stands.interrupt (hStands : Stands job due w j) : Stands job due ⟨"", none, some now⟩ (j.interrupt now) :=
  ⟨hStands.id, hStands.type, hStands.priority, hStands.createdAt, rfl, rfl, rfl, rfl⟩

theorem Stands.renew (hStands : Stands job due w j) (leaseDuration : Int) :
    Stands job due { w with expiry := some (now + leaseDuration) } (j.renew now leaseDuration) :=
  ⟨hStands.id, hStands.type, hStands.priority, hStands.createdAt, hStands.live, hStands.owner, rfl,
    hStands.available⟩

theorem recover_stands (hFind : c.find id = some j) (hStands : Stands job due w j) :
    ∃ j', (recoverExpiredLocked c now).2.find id = some j' ∧
      Stands job due (w.step id (now, .recoverExpired)) j' := by
  simp only [recoverExpiredLocked, Table.find_modify, hFind, Option.map_some, expired_eq hStands,
    Waiting.step, Option.some.injEq, exists_eq_left']
  split
  · exact hStands.interrupt
  · exact hStands

/-- A call that leaves the job waiting touches its lease only as `Waiting.step` says. -/
theorem perform_stands {call : QueueCall} (hFind : c.find id = some j)
    (hStands : Stands job due w j) (hTakes : call.takes id (perform c now call).1 = false) :
    ∃ j', (perform c now call).2.find id = some j' ∧ Stands job due (w.step id (now, call)) j' := by
  have hStep := lawful.step (s := c) now call id trivial
  simp only [model, hFind, Option.map_id_fun', id_eq] at hStep
  generalize hNew : (perform c now call).2.find id = new at hStep ⊢
  generalize hAnswer : (perform c now call).1 = answer at hStep hTakes
  cases hStep with
  | stored hID hOld => simp [hStands.live] at hOld
  | kept hID hLive => exact ⟨j, rfl, hStands⟩
  | leased hID => simp [QueueCall.takes, hID] at hTakes
  | renewed hOwner =>
    rename_i workerID leaseDuration
    refine ⟨_, rfl, ?_⟩
    rw [Waiting.step, if_pos ⟨rfl, hStands.owner.symm.trans hOwner⟩]
    exact hStands.renew leaseDuration
  | refused hOwner =>
    refine ⟨j, rfl, ?_⟩
    rw [Waiting.step, if_neg fun h => hOwner j rfl (hStands.owner.trans h.2)]
    exact hStands
  | completed | failed | cancelled => simp [QueueCall.takes] at hTakes
  | interrupted hIn hLive =>
    rw [← hNew]
    exact recover_stands hFind hStands
  | passed hOther =>
    cases call with
    | recoverExpired =>
      rw [← hNew]
      exact recover_stands hFind hStands
    | renew jobID workerID leaseDuration =>
      refine ⟨j, rfl, ?_⟩
      rw [Waiting.step, if_neg fun h => hOther (by simp [QueueCall.subjects, h.1])]
      exact hStands
    | _ => exact ⟨j, rfl, hStands⟩

theorem run_stands (calls : List (Time × QueueCall)) (hFind : c.find id = some j)
    (hStands : Stands job due w j) (hIdle : Idle id c calls) :
    ∃ j', (model.run c calls).find id = some j' ∧ Stands job due (w.after id calls) j' := by
  induction calls generalizing c j w with
  | nil => exact ⟨j, hFind, hStands⟩
  | cons timed rest ih =>
    obtain ⟨now, call⟩ := timed
    obtain ⟨j', hNext, hStands'⟩ := perform_stands hFind hStands hIdle.1
    exact ih hNext hStands' hIdle.2

/-- `LeaseNext` asks for jobs of the type. -/
def asksFor (types : List JobType) (type : JobType) : Bool := types.isEmpty || types.contains type

theorem Stands.candidate_iff (hStands : Stands job due w j) (now : Time) (types : List JobType) :
    candidate now types j = true ↔ asksFor types job.type = true ∧
      w.recoveredAt.getD due ≤ now ∧ ¬ w.LeasedAt now := by
  rw [candidate, hStands.live, hStands.type, hStands.available, hStands.expiry]
  cases hExpiry : w.expiry with
  | none => simp [Waiting.LeasedAt, asksFor, hExpiry]
  | some expiry => simp [Waiting.LeasedAt, asksFor, hExpiry, and_assoc]

theorem Stands.rank_eq (hStands : Stands job due w j) (tie : String → Nat) : rank tie j = rank tie job := by
  simp only [rank, hStands.priority, hStands.createdAt, hStands.id]

theorem Stands.given_iff (hFind : c.find id = some j) (hStands : Stands job due w j) (now : Time)
    (workerID : String) (types : List JobType) (leaseDuration : Int) (tie : String → Nat) :
    (∃ given, (leaseNextLocked c now workerID types leaseDuration tie).1 = some given ∧ given.id = id) ↔
      candidate now types j = true ∧
        ∀ other ∈ c.rows, candidate now types other = true → rank tie job ≤ rank tie other := by
  obtain ⟨hMem, hID⟩ := Table.find_eq_some.mp hFind
  have hGiven : (∃ given, (leaseNextLocked c now workerID types leaseDuration tie).1 = some given ∧
      given.id = id) ↔ c.first (candidate now types) (rank tie) = some j := by
    unfold leaseNextLocked
    cases hFirst : c.first (candidate now types) (rank tie) with
    | none => simp
    | some k =>
      have hK := ((Table.first_eq_some (rank_key tie)).mp hFirst).1
      simp only [Option.some.injEq, exists_eq_left', Job.leaseTo]
      exact ⟨fun hSame => Table.eq_of_key hK hMem (hSame.trans hID.symm), fun hSame => hSame ▸ hID⟩
  rw [hGiven, Table.first_eq_some (rank_key tie), hStands.rank_eq]
  exact and_iff_right hMem

theorem recoveredAt_le (calls : List (Time × QueueCall)) (hOld : ∀ r ∈ w.recoveredAt, r ≤ now)
    (hClock : ∀ timed ∈ calls, timed.1 ≤ now) : ∀ r ∈ (w.after id calls).recoveredAt, r ≤ now := by
  induction calls generalizing w with
  | nil => exact hOld
  | cons timed rest ih =>
    refine ih ?_ fun other hOther => hClock other (List.mem_cons_of_mem _ hOther)
    have hNow := hClock timed List.mem_cons_self
    obtain ⟨t, call⟩ := timed
    cases call with
    | renew jobID workerID leaseDuration =>
      simp only [Waiting.step]
      split
      · exact hOld
      · exact hOld
    | recoverExpired =>
      simp only [Waiting.step]
      split
      · simpa using hNow
      · exact hOld
    | _ => exact hOld

end

/-- A job fails with attempts left and then waits while other things are done. -/
structure Retry where
  core : MemoryCore
  job : Job
  failedAt : Time
  failure : JobFailure
  idle : List (Time × QueueCall)
  found : core.find job.id = some job
  retryable : failure.retryable = true
  attempts : job.attempt + 1 < job.maximumAttempts
  undisturbed : Idle job.id (failLocked core failedAt job.id failure).2 idle
  clock : (failedAt :: idle.map (·.1)).Pairwise (· ≤ ·)

namespace Retry
variable (r : Retry)

def state : MemoryCore := model.run r.core ((r.failedAt, .fail r.job.id r.failure) :: r.idle)

def due : Time := r.failedAt + retryDelay (r.job.attempt + 1)

def waiting : Waiting := (Waiting.ofJob r.job).after r.job.id r.idle

theorem stands : ∃ j, r.state.find r.job.id = some j ∧ Stands r.job r.due r.waiting j := by
  have hStands := fail_stands r.failedAt r.retryable r.attempts
  have hFailed : failLocked r.core r.failedAt r.job.id r.failure =
      (.ok (), r.core.store (r.job.fail r.failedAt r.failure)) := update_ok r.found rfl
  have hUndisturbed := r.undisturbed
  rw [hFailed] at hUndisturbed
  have hRun := run_stands r.idle (c := r.core.store (r.job.fail r.failedAt r.failure))
    (by rw [Table.find_store, if_pos (Job.fail_keeps _ _ _).1.symm]) hStands hUndisturbed
  have hState : r.state = model.run (failLocked r.core r.failedAt r.job.id r.failure).2 r.idle := rfl
  rw [hState, hFailed]
  exact hRun

/-- The delay is kept by a `LeaseNext`: before the job is due it is not handed out, and from then
on it can be. -/
def DelayKept (now : Time) (workerID : String) (types : List JobType) (leaseDuration : Int)
    (tie : String → Nat) : Prop :=
  (now < r.due → ∀ given,
    (leaseNextLocked r.state now workerID types leaseDuration tie).1 = some given → given.id ≠ r.job.id) ∧
  (r.due ≤ now → asksFor types r.job.type = true →
    ∃ j, r.state.find r.job.id = some j ∧ candidate now types j = true)

/-- Before the job is due, it is handed out exactly if a sweep took its lease away, no lease was
made since and no other job goes first; once it is due, it can be handed out exactly if its lease
is over. -/
theorem delayKept_iff (now : Time) (workerID : String) (types : List JobType) (leaseDuration : Int)
    (tie : String → Nat) (hNow : ∀ timed ∈ r.idle, timed.1 ≤ now) :
    r.DelayKept now workerID types leaseDuration tie ↔
      (now < r.due → r.waiting.recoveredAt ≠ none → ¬ r.waiting.LeasedAt now →
        asksFor types r.job.type = true →
        ∃ other ∈ r.state.rows, candidate now types other = true ∧ rank tie other < rank tie r.job) ∧
      (r.due ≤ now → asksFor types r.job.type = true → ¬ r.waiting.LeasedAt now) := by
  obtain ⟨j, hFind, hStands⟩ := r.stands
  have hRecovered : ∀ t ∈ r.waiting.recoveredAt, t ≤ now :=
    recoveredAt_le r.idle (by simp [Waiting.ofJob]) hNow
  have hGiven := hStands.given_iff hFind now workerID types leaseDuration tie
  have hCandidate := hStands.candidate_iff now types
  rw [DelayKept]
  refine and_congr (imp_congr_right fun hEarly => ?_) (imp_congr_right fun hDue => ?_)
  · have hAvailable : r.waiting.recoveredAt.getD r.due ≤ now ↔ r.waiting.recoveredAt ≠ none := by
      cases hSweep : r.waiting.recoveredAt with
      | none => simpa using hEarly
      | some t => simpa using hRecovered t hSweep
    have hNot : (∀ given, (leaseNextLocked r.state now workerID types leaseDuration tie).1 =
        some given → given.id ≠ r.job.id) ↔ ¬ ∃ given,
          (leaseNextLocked r.state now workerID types leaseDuration tie).1 = some given ∧
            given.id = r.job.id := by
      simp
    rw [hNot, hGiven, hCandidate, hAvailable]
    simp only [not_and, not_forall, not_le]
    constructor
    · intro h hSwept hOver hAsks
      obtain ⟨other, hMem, hOther, hLess⟩ := h ⟨hAsks, hSwept, hOver⟩
      exact ⟨other, hMem, hOther, hLess⟩
    · rintro h ⟨hAsks, hSwept, hOver⟩
      obtain ⟨other, hMem, hOther, hLess⟩ := h hSwept hOver hAsks
      exact ⟨other, hMem, hOther, hLess⟩
  · have hAvailable : r.waiting.recoveredAt.getD r.due ≤ now := by
      cases hSweep : r.waiting.recoveredAt with
      | none => exact hDue
      | some t => exact hRecovered t hSweep
    simp only [hFind, Option.some.injEq, exists_eq_left', hCandidate, hAvailable, true_and]
    exact ⟨fun h hAsks => (h hAsks).2, fun h hAsks => ⟨hAsks, h hAsks⟩⟩

namespace Sample

def swept : Retry where
  core := model.run .empty [(Queue.Sample.clock 0, .enqueue Queue.Sample.job),
    (Queue.Sample.clock 0, .leaseNext "w1" [] (10 * Time.nanosPerSecond) fun _ => 0)]
  job := (Queue.Sample.job.withDefaults (Queue.Sample.clock 0)).leaseTo (Queue.Sample.clock 0) "w1"
    (10 * Time.nanosPerSecond)
  failedAt := Queue.Sample.clock 5
  failure := ⟨.storageUnavailable, "timeout", true⟩
  idle := [(Queue.Sample.clock 11, .recoverExpired)]
  found := by decide +kernel
  retryable := rfl
  attempts := by decide
  undisturbed := by decide +kernel
  clock := by decide +kernel

/-- The job is due after thirty-five seconds and handed out after twelve. -/
theorem swept_delay_not_kept :
    ¬ swept.DelayKept (Queue.Sample.clock 12) "w2" [] (10 * Time.nanosPerSecond) fun _ => 0 := by
  intro hKept
  have hGiven : (leaseNextLocked swept.state (Queue.Sample.clock 12) "w2" []
      (10 * Time.nanosPerSecond) fun _ => 0).1.map (·.id) = some swept.job.id := by
    decide +kernel
  obtain ⟨given, hSome, hSame⟩ := Option.map_eq_some_iff.mp hGiven
  exact hKept.1 (by decide +kernel) given hSome hSame

theorem swept_delay_kept_later :
    swept.DelayKept (Queue.Sample.clock 40) "w2" [] (10 * Time.nanosPerSecond) fun _ => 0 :=
  (swept.delayKept_iff (Queue.Sample.clock 40) "w2" [] (10 * Time.nanosPerSecond) (fun _ => 0)
    (by decide +kernel)).mpr
    ⟨fun hEarly => absurd hEarly (by decide +kernel), fun _ _ => by decide +kernel⟩

end Sample

end Retry

end MemoryCore

end DBVault.Queue
