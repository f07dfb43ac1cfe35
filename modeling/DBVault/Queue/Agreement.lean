import DBVault.Queue.Sqlite

/-! When the durable queue does what the queue in memory does. -/
namespace DBVault.Queue
open Option Keyed SqliteQueue Table

structure Observed where
  status : JobStatus
  (attempt maximumAttempts : Int)
  availableAt : Time
  leaseOwner : String
  leaseExpiresAt : Option Time
  deriving DecidableEq

def Job.observed (j : Job) : Observed :=
  ⟨j.status, j.attempt, j.maximumAttempts, j.availableAt, j.leaseOwner, j.leaseExpiresAt⟩

/-- The same success or failure, and the same job. -/
def SameAnswer : QueueAnswer → QueueAnswer → Prop
  | .settled (.ok _), .settled (.ok _) => True
  | .settled (.error _), .settled (.error _) => True
  | .leased j, .leased j' => j.map (·.id) = j'.map (·.id)
  | .recovered _, .recovered _ => True
  | _, _ => False

def SameJobs (c : MemoryCore) (q : SqliteQueue) : Prop :=
  ∀ id, (MemoryCore.model.find c id).map Job.observed = (model.find q id).map Job.observed

/-- The two queues give the same answers to the calls and have the same jobs after
each of them. -/
def Agreed : MemoryCore → SqliteQueue → List (Time × QueueCall) → Prop
  | _, _, [] => True
  | c, q, (now, call) :: rest =>
    SameAnswer (c.perform now call).1 (q.perform now call).1 ∧
      SameJobs (c.perform now call).2 (q.perform now call).2 ∧
      Agreed (c.perform now call).2 (q.perform now call).2 rest

def Job.Complete (now : Time) (job : Job) : Prop :=
  job.status ≠ .unset ∧ job.maximumAttempts ≠ 0 ∧ (job.availableAt = .zero → now = .zero)

/-- The first job in line is the same in both queues, which take different jobs
into the line and order them by time or by text. -/
def SameFirst (c : MemoryCore) (q : SqliteQueue) (now : Time) (types : List JobType)
    (tie : String → Nat) : Prop :=
  ∃ j ∈ c.rows, ∃ row ∈ q.rows, j.id = row.id ∧
    MemoryCore.candidate now types j = true ∧ selectable now types row = true ∧
    (∀ other ∈ c.rows, MemoryCore.candidate now types other = true →
      MemoryCore.rank tie j ≤ MemoryCore.rank tie other) ∧
    ∀ other ∈ q.rows, selectable now types other = true → rank tie row ≤ rank tie other

/-- To the durable queue a job without a lease has expired, and a lease expires by
its text. -/
def Job.SameExpiry (now : Time) (j : Job) : Prop :=
  match j.leaseExpiresAt with
  | none => j.status = .interrupted ∧ j.leaseOwner = "" ∧ j.availableAt = now
  | some expiry => expiry < now ↔ expiry.rfc3339Nano < now.rfc3339Nano

def AgreesOn (c : MemoryCore) (q : SqliteQueue) (now : Time) : QueueCall → Prop
  | .enqueue job => (∃ j, c.find job.id = some j ∧ j.terminal = false) ∨ job.Complete now
  | .leaseNext _ types _ tie =>
    ((∀ j ∈ c.rows, MemoryCore.candidate now types j = false) ∧
        ∀ row ∈ q.rows, selectable now types row = false) ∨
      SameFirst c q now types tie
  | .recoverExpired => ∀ j ∈ c.rows, j.terminal = false → j.SameExpiry now
  | _ => True

/-- The queues agree on each of the calls, in the states it is made in. -/
def AllAgreeOn : MemoryCore → SqliteQueue → List (Time × QueueCall) → Prop
  | _, _, [] => True
  | c, q, (now, call) :: rest =>
    AgreesOn c q now call ∧ AllAgreeOn (c.perform now call).2 (q.perform now call).2 rest

section
variable {j j' : Job} (h : j.observed = j'.observed) (now : Time)
include h

theorem observed_renew (leaseDuration : Int) :
    (j.renew now leaseDuration).observed = (j'.renew now leaseDuration).observed :=
  congrArg (fun o => { o with leaseExpiresAt := some (now + leaseDuration) }) h

theorem observed_leaseTo (workerID : String) (leaseDuration : Int) :
    (j.leaseTo now workerID leaseDuration).observed = (j'.leaseTo now workerID leaseDuration).observed :=
  congrArg (fun o => { o with
    status := .leased, leaseOwner := workerID, leaseExpiresAt := some (now + leaseDuration) }) h

theorem observed_complete (resultJSON : List UInt8) :
    (j.complete now resultJSON).observed = (j'.complete now resultJSON).observed :=
  congrArg (fun o => { o with status := .succeeded }) h

theorem observed_cancel : (j.cancel now).observed = (j'.cancel now).observed :=
  congrArg (fun o => { o with status := .cancelled }) h

theorem observed_interrupt : (j.interrupt now).observed = (j'.interrupt now).observed :=
  congrArg (fun o => { o with
    status := .interrupted, leaseOwner := "", leaseExpiresAt := none, availableAt := now }) h

theorem observed_fail (failure : JobFailure) : (j.fail now failure).observed = (j'.fail now failure).observed := by
  simp only [Job.observed, Observed.mk.injEq] at h
  obtain ⟨-, hAttempt, hMaximum, hAvailable, hOwner, hExpiry⟩ := h
  simp only [Job.fail, hAttempt, hMaximum]
  split_ifs <;> simp [Job.observed, hAvailable, hOwner, hExpiry]

end

/-- What they make of the job, if it is as it has to be. -/
def QueueCall.change (now : Time) : QueueCall → Option (Job → Option Job)
  | .renew _ workerID leaseDuration =>
    some fun j => if j.leaseOwner = workerID then some (j.renew now leaseDuration) else none
  | .complete _ resultJSON => some fun j => some (j.complete now resultJSON)
  | .fail _ failure => some fun j => some (j.fail now failure)
  | .cancel _ => some fun j => some (j.cancel now)
  | _ => none

section
variable {now : Time} {id : String} {call : QueueCall} {change : Job → Option Job}
  (hChange : call.change now = some change)
include hChange

theorem observed_change (h : j.observed = j'.observed) :
    (change j).map Job.observed = (change j').map Job.observed := by
  cases call with
  | renew jobID workerID leaseDuration =>
    cases hChange
    have hOwner : j.leaseOwner = j'.leaseOwner := congrArg Observed.leaseOwner h
    simp only [hOwner]
    split
    · exact congrArg some (observed_renew h now leaseDuration)
    · rfl
  | complete jobID resultJSON =>
    cases hChange
    exact congrArg some (observed_complete h now resultJSON)
  | fail jobID failure =>
    cases hChange
    exact congrArg some (observed_fail h now failure)
  | cancel jobID =>
    cases hChange
    exact congrArg some (observed_cancel h now)
  | _ => cases hChange

theorem subjects_same (answer answer' : QueueAnswer) : call.subjects answer = call.subjects answer' := by
  cases call with
  | renew | complete | fail | cancel => rfl
  | _ => cases hChange

theorem JobStep.change_cases (h : JobStep now id call answer old new) (hIn : id ∈ call.subjects answer) :
    (∃ j, old.bind change = some j ∧ new = some j ∧ answer = .settled (.ok ())) ∨
      (old.bind change = none ∧ new = old ∧ ∃ err, answer = .settled (.error err)) := by
  cases h with
  | renewed hOwner =>
    cases hChange
    exact .inl ⟨_, if_pos hOwner, rfl, rfl⟩
  | refused hOwner =>
    cases hChange
    refine .inr ⟨?_, rfl, _, rfl⟩
    cases old with
    | none => rfl
    | some j => exact if_neg (hOwner j rfl)
  | completed | failed | cancelled =>
    cases hChange
    exact .inl ⟨_, rfl, rfl, rfl⟩
  | missing => exact .inr ⟨rfl, rfl, _, rfl⟩
  | passed hNot => exact absurd hIn hNot
  | _ => cases hChange

theorem JobStep.unchanged
    (h : JobStep now id call answer old new) (hNot : id ∉ call.subjects answer) : new = old := by
  cases h with
  | renewed | completed | failed | cancelled => simp [QueueCall.subjects] at hNot
  | refused | missing | passed => rfl
  | _ => cases hChange

theorem JobStep.agree (h : JobStep now id call answer old new) (h' : JobStep now id call answer' old' new')
    (hSame : old.map Job.observed = old'.map Job.observed) :
    new.map Job.observed = new'.map Job.observed ∧ (id ∈ call.subjects answer → SameAnswer answer answer') := by
  by_cases hIn : id ∈ call.subjects answer
  · have hIn' : id ∈ call.subjects answer' := subjects_same hChange answer answer' ▸ hIn
    have hMade : (old.bind change).map Job.observed = (old'.bind change).map Job.observed := by
      cases old with
      | none =>
        cases old' with
        | none => rfl
        | some j' => simp at hSame
      | some j =>
        cases old' with
        | none => simp at hSame
        | some j' => exact observed_change hChange (by simpa using hSame)
    rcases h.change_cases hChange hIn with ⟨j, hJob, rfl, rfl⟩ | ⟨hNone, rfl, err, rfl⟩
    · rcases h'.change_cases hChange hIn' with ⟨j', hJob', rfl, rfl⟩ | ⟨hNone', -⟩
      · rw [hJob, hJob'] at hMade
        exact ⟨hMade, fun _ => trivial⟩
      · simp [hJob, hNone'] at hMade
    · rcases h'.change_cases hChange hIn' with ⟨j', hJob', -⟩ | ⟨-, rfl, err', rfl⟩
      · simp [hNone, hJob'] at hMade
      · exact ⟨hSame, fun _ => trivial⟩
  · have hNot' : id ∉ call.subjects answer' := subjects_same hChange answer answer' ▸ hIn
    rw [h.unchanged hChange hIn, h'.unchanged hChange hNot']
    exact ⟨hSame, fun hMem => absurd hMem hIn⟩

end

section
variable {c : MemoryCore} {q : SqliteQueue} {now : Time}

theorem SameJobs.eq (h : SameJobs c q) (id : String) :
    (c.find id).map Job.observed = (q.find id).map fun row => row.job.observed := by
  simpa [MemoryCore.model, model, Function.comp_def] using h id

theorem SameJobs.none (h : SameJobs c q) {id : String} (hFind : c.find id = none) : q.find id = none := by
  have hSame := h.eq id
  simpa [hFind, eq_comm] using hSame

variable {j : Job}

theorem SameJobs.some (h : SameJobs c q) {id : String} (hFind : c.find id = some j) :
    ∃ row, q.find id = some row ∧ row.job.observed = j.observed := by
  have hSame := h.eq id
  rw [hFind, map_some, eq_comm, map_eq_some_iff] at hSame
  exact hSame

theorem terminal_of_observed {j' : Job} (h : j.observed = j'.observed) : j.terminal = j'.terminal :=
  congrArg (fun o => o.status.terminal) h

variable {row : JobRow}

theorem SameJobs.store (h : SameJobs c q) (hKey : j.id = row.id) :
    SameJobs (c.store j) (q.store row) ↔ j.observed = row.job.observed := by
  constructor
  · intro hStored
    have hSame := hStored.eq j.id
    simpa [hKey] using hSame
  · intro hSame id
    have hOld := h id
    simp only [MemoryCore.model, model, find_store, hKey] at hOld ⊢
    split
    · simp [hSame]
    · exact hOld

theorem agree_change
    (hChange : call.change now = some change) (hSame : SameJobs c q) (hCoherent : q.Coherent) :
    SameAnswer (c.perform now call).1 (q.perform now call).1 ∧
      SameJobs (c.perform now call).2 (q.perform now call).2 := by
  have hAgree : ∀ id, _ := fun id => JobStep.agree hChange
    (MemoryCore.lawful.step now call id (s := c) trivial)
    (lawful.step now call id hCoherent) (hSame id)
  refine ⟨?_, fun id => (hAgree id).1⟩
  cases call with
  | renew jobID | complete jobID | fail jobID | cancel jobID =>
    exact (hAgree jobID).2 (by simp [QueueCall.subjects])
  | _ => cases hChange

theorem observed_withDefaults {job : Job} : (job.withDefaults now).observed = job.observed ↔ job.Complete now := by
  have hStatus : (if job.status = .unset then JobStatus.pending else job.status) = job.status ↔
      job.status ≠ .unset := by
    split <;> simp_all
  have hMaximum : (if job.maximumAttempts = 0 then defaultMaximumAttempts else job.maximumAttempts) =
      job.maximumAttempts ↔ job.maximumAttempts ≠ 0 := by
    split <;> simp_all [defaultMaximumAttempts]
  have hAvailable : (if job.availableAt = .zero then now else job.availableAt) = job.availableAt ↔
      (job.availableAt = .zero → now = .zero) := by
    split <;> simp_all
  simp only [Job.observed, Job.withDefaults, Observed.mk.injEq, Job.Complete, hStatus, hMaximum,
    hAvailable, true_and, and_true]

theorem agree_enqueue (job : Job) (hSame : SameJobs c q) (hCoherent : q.Coherent) :
    SameAnswer (c.perform now (.enqueue job)).1 (q.perform now (.enqueue job)).1 ∧
        SameJobs (c.perform now (.enqueue job)).2 (q.perform now (.enqueue job)).2 ↔
      AgreesOn c q now (.enqueue job) := by
  have hTerminal : ∀ row, q.find job.id = some row → row.scanJob.terminal = row.job.terminal :=
    fun row hFind => terminal_scanJob (hCoherent row (find_eq_some.mp hFind).1)
  simp only [MemoryCore.perform, perform, Prod.map_fst, Prod.map_snd, id, AgreesOn]
  by_cases hLive : ∃ j, c.find job.id = some j ∧ j.terminal = false
  · obtain ⟨j, hFind, hLive⟩ := hLive
    obtain ⟨row, hRow, hObserved⟩ := hSame.some hFind
    have hRowLive : row.scanJob.terminal = false :=
      (hTerminal row hRow).trans ((terminal_of_observed hObserved).trans hLive)
    rw [MemoryCore.enqueueLocked_live hFind hLive, enqueue_live hRow hRowLive]
    exact iff_of_true ⟨trivial, hSame⟩ (.inl ⟨j, hFind, hLive⟩)
  · have hOld : ∀ j, c.find job.id = some j → j.terminal = true := by simpa using hLive
    have hRowOld : ∀ row, q.find job.id = some row → row.scanJob.terminal = true := by
      intro row hRow
      cases hFind : c.find job.id with
      | none => simp [hSame.none hFind] at hRow
      | some j =>
        obtain ⟨row', hRow', hObserved⟩ := hSame.some hFind
        cases hRow.symm.trans hRow'
        exact (hTerminal row hRow).trans ((terminal_of_observed hObserved).trans (hOld j hFind))
    rw [MemoryCore.enqueueLocked_stores hOld, enqueue_stores hRowOld,
      hSame.store (show (job.withDefaults now).id = (jobArgs job).id from rfl),
      job_jobArgs, observed_withDefaults]
    simp [SameAnswer, hLive]

theorem first_agrees_iff (types : List JobType) (tie : String → Nat) (workerID : String)
    (leaseDuration : Int) :
    AgreesOn c q now (.leaseNext workerID types leaseDuration tie) ↔
      (c.first (MemoryCore.candidate now types) (MemoryCore.rank tie)).map (·.id) =
        (q.first (selectable now types) (rank tie)).map (·.id) := by
  simp only [AgreesOn, SameFirst]
  constructor
  · rintro (⟨hNone, hNone'⟩ | ⟨j, hMem, row, hRow, hID, hCandidate, hSelectable, hFirst, hFirst'⟩)
    · rw [first_eq_none.mpr hNone, first_eq_none.mpr hNone']
      rfl
    · rw [(first_eq_some (MemoryCore.rank_key tie)).mpr ⟨hMem, hCandidate, hFirst⟩,
        (first_eq_some (rank_key tie)).mpr ⟨hRow, hSelectable, hFirst'⟩]
      exact congrArg some hID
  · intro hSame
    cases hFirst : c.first (MemoryCore.candidate now types) (MemoryCore.rank tie) with
    | none =>
      rw [hFirst, map_none, eq_comm, map_eq_none_iff] at hSame
      exact .inl ⟨first_eq_none.mp hFirst, first_eq_none.mp hSame⟩
    | some j =>
      rw [hFirst, map_some, eq_comm, map_eq_some_iff] at hSame
      obtain ⟨row, hFirst', hID⟩ := hSame
      obtain ⟨hMem, hCandidate, hLeast⟩ := (first_eq_some (MemoryCore.rank_key tie)).mp hFirst
      obtain ⟨hRow, hSelectable, hLeast'⟩ := (first_eq_some (rank_key tie)).mp hFirst'
      exact .inr ⟨j, hMem, row, hRow, hID.symm, hCandidate, hSelectable, hLeast, hLeast'⟩

theorem agree_leaseNext (workerID : String) (types : List JobType) (leaseDuration : Int)
    (tie : String → Nat) (hSame : SameJobs c q) :
    SameAnswer (c.perform now (.leaseNext workerID types leaseDuration tie)).1
          (q.perform now (.leaseNext workerID types leaseDuration tie)).1 ∧
        SameJobs (c.perform now (.leaseNext workerID types leaseDuration tie)).2
          (q.perform now (.leaseNext workerID types leaseDuration tie)).2 ↔
      AgreesOn c q now (.leaseNext workerID types leaseDuration tie) := by
  rw [first_agrees_iff]
  simp only [MemoryCore.perform, perform, Prod.map_fst, Prod.map_snd, id, SameAnswer,
    MemoryCore.leaseNextLocked, SqliteQueue.leaseNext]
  cases hFirst : c.first (MemoryCore.candidate now types) (MemoryCore.rank tie) with
  | none =>
    cases hFirst' : q.first (selectable now types) (rank tie) with
    | none => simp [hSame]
    | some row => simp
  | some j =>
    cases hFirst' : q.first (selectable now types) (rank tie) with
    | none => simp
    | some row =>
      have hGiven : (leasedJob now workerID leaseDuration row).id = row.id := row.sameID
      simp only [map_some, Option.some.injEq, hGiven]
      refine and_iff_left_of_imp ?_
      intro hID
      obtain ⟨hMem, -⟩ := (first_eq_some (MemoryCore.rank_key tie)).mp hFirst
      obtain ⟨hRow, -⟩ := (first_eq_some (rank_key tie)).mp hFirst'
      obtain ⟨row', hRow', hObserved⟩ := hSame.some (mem_rows.mp hMem)
      have hFind : q.find j.id = some row := hID ▸ mem_rows.mp hRow
      cases hFind.symm.trans hRow'
      have hKey : (j.leaseTo now workerID leaseDuration).id = (leaseRow now workerID leaseDuration row).id := hID
      rw [hSame.store hKey]
      exact observed_leaseTo hObserved.symm now workerID leaseDuration

theorem leaseExpiresAt_of_observed
    (hObserved : row.job.observed = j.observed) : row.leaseExpiresAt = .ofOption j.leaseExpiresAt := by
  have hScanned : row.leaseExpiresAt.scanned = j.leaseExpiresAt := congrArg Observed.leaseExpiresAt hObserved
  have hWritten := row.written
  rw [← hScanned]
  cases hColumn : row.leaseExpiresAt with
  | null => simp [hColumn, TimeColumn.isNull] at hWritten
  | empty | time => rfl

theorem sqlite_expired_iff (hObserved : row.job.observed = j.observed)
    (hLive : j.terminal = false) : expired now row = true ↔
      ∀ expiry, j.leaseExpiresAt = some expiry → expiry.rfc3339Nano < now.rfc3339Nano := by
  have hStatus : row.status.terminal = false := (terminal_of_observed hObserved).trans hLive
  simp only [expired, hStatus, leaseExpiresAt_of_observed hObserved, Bool.not_false, Bool.and_true]
  cases j.leaseExpiresAt <;> simp [TimeColumn.ofOption, TimeColumn.lt, TimeColumn.isNull]

theorem memory_expired_iff (hLive : j.terminal = false) :
    MemoryCore.expired now j = true ↔ ∃ expiry, j.leaseExpiresAt = some expiry ∧ expiry < now := by
  simp only [MemoryCore.expired, hLive, Bool.not_false, Bool.and_true]
  cases j.leaseExpiresAt <;> simp

theorem choice_eq_iff {α : Type} {a b : α} (p r : Prop) [Decidable p] [Decidable r] :
    (if p then a else b) = (if r then a else b) ↔ (p ↔ r) ∨ a = b := by
  by_cases hp : p <;> by_cases hr : r <;> simp [hp, hr, eq_comm]

theorem observed_interrupt_eq : (j.interrupt now).observed = j.observed ↔
    j.leaseExpiresAt = none ∧ j.status = .interrupted ∧ j.leaseOwner = "" ∧ j.availableAt = now := by
  simp only [Job.observed, Job.interrupt, Observed.mk.injEq, true_and]
  constructor
  · rintro ⟨hStatus, hAvailable, hOwner, hExpiry⟩
    exact ⟨hExpiry.symm, hStatus.symm, hOwner.symm, hAvailable.symm⟩
  · rintro ⟨hExpiry, hStatus, hOwner, hAvailable⟩
    exact ⟨hStatus.symm, hAvailable.symm, hOwner.symm, hExpiry.symm⟩

theorem interrupt_agrees_iff (hObserved : row.job.observed = j.observed) :
    (if MemoryCore.expired now j then j.interrupt now else j).observed =
        (if expired now row then jobArgs (row.scanJob.interrupt now) else row).job.observed ↔
      (j.terminal = false → j.SameExpiry now) := by
  have hInterrupt : (jobArgs (row.scanJob.interrupt now)).job.observed = (j.interrupt now).observed := by
    rw [job_jobArgs]
    exact observed_interrupt hObserved now
  rw [apply_ite Job.observed, apply_ite JobRow.job, apply_ite Job.observed, hInterrupt, hObserved,
    choice_eq_iff, observed_interrupt_eq]
  cases hTerminal : j.terminal with
  | true =>
    have hRow : row.status.terminal = true := (terminal_of_observed hObserved).trans hTerminal
    simp [MemoryCore.expired, expired, hTerminal, hRow]
  | false =>
    rw [memory_expired_iff hTerminal, sqlite_expired_iff hObserved hTerminal, Job.SameExpiry]
    cases j.leaseExpiresAt with
    | none => simp only [reduceCtorEq, false_and, exists_false, false_implies, implies_true,
        iff_true, false_or, true_and, forall_true_left]
    | some expiry =>
      simp only [Option.some.injEq, exists_eq_left', forall_eq', reduceCtorEq, false_and, or_false,
        forall_true_left]

theorem agree_recoverExpired (hSame : SameJobs c q) :
    SameAnswer (c.perform now .recoverExpired).1 (q.perform now .recoverExpired).1 ∧
        SameJobs (c.perform now .recoverExpired).2 (q.perform now .recoverExpired).2 ↔
      AgreesOn c q now .recoverExpired := by
  simp only [MemoryCore.perform, perform, Prod.map_fst, Prod.map_snd, id, SameAnswer, true_and, AgreesOn]
  constructor
  · intro hAfter j hMem
    obtain ⟨row, hRow, hObserved⟩ := hSame.some (mem_rows.mp hMem)
    have hJob := hAfter.eq j.id
    simp only [MemoryCore.recoverExpiredLocked, SqliteQueue.recoverExpired, find_modify,
      mem_rows.mp hMem, hRow, map_some, Option.some.injEq] at hJob
    exact (interrupt_agrees_iff hObserved).mp hJob
  · intro hAgrees id
    simp only [MemoryCore.model, model, MemoryCore.recoverExpiredLocked, SqliteQueue.recoverExpired, find_modify]
    cases hFind : c.find id with
    | none => simp [hSame.none hFind]
    | some j =>
      obtain ⟨row, hRow, hObserved⟩ := hSame.some hFind
      have hMem := (find_eq_some.mp hFind).1
      simp only [hRow, map_some, Option.some.injEq]
      exact (interrupt_agrees_iff hObserved).mpr (hAgrees j hMem)

theorem agree_iff (call : QueueCall) (hSame : SameJobs c q) (hCoherent : q.Coherent) :
    SameAnswer (c.perform now call).1 (q.perform now call).1 ∧
        SameJobs (c.perform now call).2 (q.perform now call).2 ↔ AgreesOn c q now call := by
  cases call with
  | enqueue job => exact agree_enqueue job hSame hCoherent
  | leaseNext workerID types leaseDuration tie => exact agree_leaseNext workerID types leaseDuration tie hSame
  | recoverExpired => exact agree_recoverExpired hSame
  | renew | complete | fail | cancel => exact iff_of_true (agree_change rfl hSame hCoherent) trivial

end

theorem agreed_iff (hSame : SameJobs c q) (hCoherent : q.Coherent)
    (calls : List (Time × QueueCall)) : Agreed c q calls ↔ AllAgreeOn c q calls := by
  induction calls generalizing c q with
  | nil => rfl
  | cons timed rest ih =>
    obtain ⟨now, call⟩ := timed
    rw [Agreed, AllAgreeOn, ← agree_iff call hSame hCoherent, and_assoc]
    refine and_congr_right fun _ => and_congr_right fun hAfter => ?_
    exact ih hAfter (keeps_coherent call hCoherent)

/-- From the start, the queues agree through a run exactly if they agree on each of
its calls: an `Enqueue` keeps a live job or brings one that needs no defaults,
`LeaseNext` has the same job first in line, and `RecoverExpired` finds no job
that only one of them takes for expired. -/
theorem queues_agree_iff (calls : List (Time × QueueCall)) :
    Agreed .empty .empty calls ↔ AllAgreeOn .empty .empty calls := by
  apply agreed_iff
  · exact fun _ => rfl
  · exact lawful.start

namespace Sample

def failedOnce : List (Time × QueueCall) :=
  [(clock 0, .enqueue job),
    (clock 1, .leaseNext "worker-1" [.backup] (300 * Time.nanosPerSecond) fun _ => 0),
    (clock 2, .fail job.id ⟨.jobUnavailable, "connection refused", true⟩)]

end Sample

open Sample in
/-- A scheduled job has no maximum of attempts of its own, so that the durable
queue gives it up after the first. -/
theorem scheduled_job_differs :
    ¬Agreed .empty .empty failedOnce ∧
      ([QueueKind.memory, .durable].map fun kind =>
        (kind.model.find (kind.model.run kind.model.start failedOnce) job.id).map fun j =>
          (j.status, j.attempt, j.maximumAttempts)) =
        [some (.retrying, 1, 5), some (.deadLetter, 1, 0)] := by
  refine ⟨?_, by decide +kernel⟩
  rintro ⟨-, hEnqueued, -⟩
  have hJob := hEnqueued job.id
  revert hJob
  decide +kernel

end DBVault.Queue
