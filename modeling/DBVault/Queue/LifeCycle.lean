import DBVault.Queue

/-! What any queue does to a job: the steps of a job's life, call by call. The
queues are shown to take no other steps. -/
namespace DBVault.Queue
open Keyed QueueCall

def QueueCall.subjects : QueueCall → QueueAnswer → List String
  | .enqueue job, _ => [job.id]
  | .leaseNext .., .leased (some job) => [job.id]
  | .renew jobID .., _ | .complete jobID _, _ | .fail jobID _, _ | .cancel jobID, _ => [jobID]
  | .recoverExpired, .recovered jobIDs => jobIDs
  | _, _ => []

structure Stored (job new : Job) : Prop where
  id : new.id = job.id
  leaseOwner : new.leaseOwner = job.leaseOwner
  leaseExpiresAt : new.leaseExpiresAt = job.leaseExpiresAt

/-- What a call can do to the job with some identifier, if there is one. -/
inductive JobStep (now : Time) (id : String) : QueueCall → QueueAnswer → Option Job → Option Job → Prop where
  | stored {job new : Job} {answer : QueueAnswer} {old : Option Job} (hID : job.id = id)
      (hOld : ∀ j, old = some j → j.terminal = true) (hNew : Stored job new) :
      JobStep now id (.enqueue job) answer old (some new)
  | kept {job j : Job} {answer : QueueAnswer} (hID : job.id = id) (hLive : j.terminal = false) :
      JobStep now id (.enqueue job) answer (some j) (some j)
  | leased {workerID : String} {types : List JobType} {leaseDuration : Int} {tie : String → Nat}
      {given j : Job} (hID : given.id = id) (hLive : j.terminal = false) :
      JobStep now id (.leaseNext workerID types leaseDuration tie) (.leased (some given)) (some j)
        (some (j.leaseTo now workerID leaseDuration))
  | renewed {workerID : String} {leaseDuration : Int} {j : Job} (hOwner : j.leaseOwner = workerID) :
      JobStep now id (.renew id workerID leaseDuration) (.settled (.ok ())) (some j)
        (some (j.renew now leaseDuration))
  | refused {workerID : String} {leaseDuration : Int} {old : Option Job} {err : GoError}
      (hOwner : ∀ j, old = some j → j.leaseOwner ≠ workerID) :
      JobStep now id (.renew id workerID leaseDuration) (.settled (.error err)) old old
  | completed {resultJSON : List UInt8} {j : Job} :
      JobStep now id (.complete id resultJSON) (.settled (.ok ())) (some j) (some (j.complete now resultJSON))
  | failed {failure : JobFailure} {j : Job} :
      JobStep now id (.fail id failure) (.settled (.ok ())) (some j) (some (j.fail now failure))
  | cancelled {j : Job} :
      JobStep now id (.cancel id) (.settled (.ok ())) (some j) (some (j.cancel now))
  | missing {call : QueueCall} {err : GoError} :
      JobStep now id call (.settled (.error err)) none none
  | interrupted {ids : List String} {j : Job} (hIn : id ∈ ids) (hLive : j.terminal = false) :
      JobStep now id .recoverExpired (.recovered ids) (some j) (some (j.interrupt now))
  | passed {call : QueueCall} {answer : QueueAnswer} {old : Option Job}
      (hOther : id ∉ call.subjects answer) : JobStep now id call answer old old

namespace JobStep
variable {now : Time} {id : String} {answer : QueueAnswer} {old new : Option Job} {j : Job}

theorem present (h : JobStep now id call answer old new) (hOld : old.isSome = true) : new.isSome = true := by
  cases h <;> first | rfl | exact hOld

variable {workerID : String} {types : List JobType} {tie : String → Nat} {given : Job}

theorem present_given
    (h : JobStep now given.id (.leaseNext workerID types leaseDuration tie) (.leased (some given)) old new) :
     new.isSome = true := by
  cases h with
  | leased hID hLive => rfl
  | passed hNot => simp [subjects] at hNot

theorem other (h : JobStep now id call answer old new) (hOther : id ∉ call.subjects answer) : new = old := by
  cases h with
  | stored hID | kept hID | leased hID => exact absurd (by simp [subjects, hID]) hOther
  | completed | failed | cancelled | renewed => exact absurd (by simp [subjects]) hOther
  | interrupted hIn => exact absurd hIn hOther
  | refused | missing | passed => rfl

theorem given_live
    (h : JobStep now given.id (.leaseNext workerID types leaseDuration tie) (.leased (some given)) old new) :
    old.map (·.terminal) = some false ∧ new.map (·.terminal) = some false := by
  cases h with
  | leased hID hLive => exact ⟨congrArg some hLive, rfl⟩
  | passed hNot => simp [subjects] at hNot

theorem recovered_live (h : JobStep now id .recoverExpired (.recovered ids) old new)
    (hIn : id ∈ ids) : old.map (·.terminal) = some false ∧ new.map (·.terminal) = some false := by
  cases h with
  | interrupted _ hLive => exact ⟨congrArg some hLive, rfl⟩
  | passed hNot => exact absurd hIn hNot

theorem renew_terminal (h : JobStep now id (.renew id workerID leaseDuration) answer old new) :
    new.map (·.terminal) = old.map (·.terminal) := by
  cases h <;> rfl

theorem complete_eq (h : JobStep now id (.complete id resultJSON) answer (some j) new) :
    new = some (j.complete now resultJSON) := by
  cases h with
  | completed => rfl
  | passed hNot => simp [subjects] at hNot

theorem fail_eq {failure : JobFailure} (h : JobStep now id (.fail id failure) answer (some j) new) :
    new = some (j.fail now failure) := by
  cases h with
  | failed => rfl
  | passed hNot => simp [subjects] at hNot

end JobStep

/-- A queue: its states and calls, and the job it has for an identifier. -/
structure QueueModel where
  State : Type
  start : State
  perform : State → Time → QueueCall → QueueAnswer × State
  find : State → String → Option Job

/-- From states that are as they should be, every call takes every job one step
of its life. -/
structure QueueModel.Lawful (Q : QueueModel) (inv : Q.State → Prop) : Prop where
  start : inv Q.start
  find_start : ∀ id, Q.find Q.start id = none
  keeps : ∀ {s : Q.State} (now : Time) (call : QueueCall), inv s → inv (Q.perform s now call).2
  step : ∀ {s : Q.State} (now : Time) (call : QueueCall) (id : String), inv s →
    JobStep now id call (Q.perform s now call).1 (Q.find s id) (Q.find (Q.perform s now call).2 id)

def QueueModel.run (Q : QueueModel) : Q.State → List (Time × QueueCall) → Q.State
  | s, [] => s
  | s, (now, call) :: rest => run Q (Q.perform s now call).2 rest

theorem QueueModel.Lawful.run_inv {Q : QueueModel} {inv : Q.State → Prop} (hQ : Q.Lawful inv) {s : Q.State}
    (hInv : inv s) (calls : List (Time × QueueCall)) : inv (Q.run s calls) := by
  induction calls generalizing s with
  | nil => exact hInv
  | cons call rest ih => exact ih (hQ.keeps call.1 call.2 hInv)

section
variable {ρ : Type} {key : ρ → String} (view : ρ → Job) {t : Table key} {now : Time}
  {call : QueueCall} {answer : QueueAnswer}

theorem step_keep {k : String} (hSubject : call.subjects answer = [k])
    (hStep : JobStep now k call answer ((t.find k).map view) ((t.find k).map view)) (id : String) :
    JobStep now id call answer ((t.find id).map view) ((t.find id).map view) := by
  by_cases hID : k = id
  · subst hID
    exact hStep
  · exact .passed (by simpa [hSubject] using Ne.symm hID)

theorem step_store {r : ρ} (hSubject : call.subjects answer = [key r])
    (hStep : JobStep now (key r) call answer ((t.find (key r)).map view) (some (view r))) (id : String) :
    JobStep now id call answer ((t.find id).map view) (((t.store r).find id).map view) := by
  rw [Table.find_store]
  by_cases hID : id = key r
  · subst hID
    rw [if_pos rfl]
    exact hStep
  · rw [if_neg hID]
    exact .passed (by simpa [hSubject] using hID)

theorem step_recover {eligible : ρ → Bool} {f : ρ → ρ}
    (hKey : ∀ r, key (if eligible r then f r else r) = key r)
    (hLive : ∀ r, eligible r = true → (view r).terminal = false)
    (hView : ∀ r, view (f r) = (view r).interrupt now) (id : String) :
    JobStep now id .recoverExpired (.recovered ((t.rows.filter eligible).map key))
      ((t.find id).map view)
      (((t.modify (fun r => if eligible r then f r else r) hKey).find id).map view) := by
  rw [Table.find_modify]
  by_cases hIn : id ∈ (t.rows.filter eligible).map key
  · obtain ⟨r, hFind, hEligible⟩ := Table.mem_keys_filter.mp hIn
    simp only [hFind, Option.map_some, hEligible, if_true, hView]
    exact .interrupted hIn (hLive r hEligible)
  · have hSame : ((t.find id).map fun r => if eligible r then f r else r) = t.find id := by
      cases hFind : t.find id with
      | none => rfl
      | some r =>
        have hNot : eligible r = false := by
          by_contra hEligible
          exact hIn (Table.mem_keys_filter.mpr ⟨r, hFind, by simpa using hEligible⟩)
        simp [hNot]
    rw [hSame]
    exact .passed hIn

end

namespace MemoryCore

def model : QueueModel where
  State := MemoryCore
  start := .empty
  perform := MemoryCore.perform
  find c id := (c.find id).map fun j => j

variable {c : MemoryCore} {now : Time}

theorem rank_key (tie : String → Nat) (j j' : Job) (h : rank tie j = rank tie j') : j.id = j'.id := by
  simp only [rank, EmbeddingLike.apply_eq_iff_eq, Prod.mk.injEq] at h
  exact h.2.2.2

theorem candidate_live (h : candidate now types j = true) : j.terminal = false := by
  simp only [candidate, Bool.and_eq_true, Bool.not_eq_true'] at h
  exact h.1.1.1

theorem stored_withDefaults (now : Time) (job : Job) : Stored job (job.withDefaults now) := ⟨rfl, rfl, rfl⟩

theorem enqueueLocked_live (hFind : c.find job.id = some existing)
    (hLive : existing.terminal = false) : enqueueLocked c now job = (.ok (), c) := by
  simp [enqueueLocked, hFind, hLive]

theorem enqueueLocked_stores (hOld : ∀ j, c.find job.id = some j → j.terminal = true) :
    enqueueLocked c now job = (.ok (), c.store (job.withDefaults now)) := by
  unfold enqueueLocked
  cases hFind : c.find job.id with
  | none => rfl
  | some existing => simp [hOld existing hFind]

section
variable {jobID : String} {f : Job → Result Job} {j j' : Job} {err : GoError}

theorem update_none (hFind : c.find jobID = none) : update c jobID f = (.error jobNotFound, c) := by
  simp [update, hFind]

theorem update_error (hFind : c.find jobID = some j) (hResult : f j = .error err) :
    update c jobID f = (.error err, c) := by
  simp [update, hFind, hResult]

theorem update_ok (hFind : c.find jobID = some j) (hResult : f j = .ok j') :
    update c jobID f = (.ok (), c.store j') := by
  simp [update, hFind, hResult]

end

theorem enqueue_step (job : Job) (id : String) :
    JobStep now id (.enqueue job) (.settled (enqueueLocked c now job).1)
      ((c.find id).map fun j => j) (((enqueueLocked c now job).2.find id).map fun j => j) := by
  by_cases hLive : ∃ existing, c.find job.id = some existing ∧ existing.terminal = false
  · obtain ⟨existing, hFind, hLive⟩ := hLive
    rw [enqueueLocked_live hFind hLive]
    refine step_keep _ rfl ?_ id
    rw [hFind]
    exact .kept rfl hLive
  · have hOld : ∀ j, c.find job.id = some j → j.terminal = true := by simpa using hLive
    rw [enqueueLocked_stores hOld]
    refine step_store _ rfl ?_ id
    exact .stored rfl (by simpa [Job.withDefaults] using hOld) (stored_withDefaults now job)

theorem leaseNext_step (workerID : String) (types : List JobType) (leaseDuration : Int)
    (tie : String → Nat) (id : String) :
    JobStep now id (.leaseNext workerID types leaseDuration tie)
      (.leased (leaseNextLocked c now workerID types leaseDuration tie).1)
      ((c.find id).map fun j => j)
      (((leaseNextLocked c now workerID types leaseDuration tie).2.find id).map fun j => j) := by
  unfold leaseNextLocked
  cases hFirst : c.first (candidate now types) (rank tie) with
  | none => exact .passed (by simp [subjects])
  | some j =>
    obtain ⟨hMem, hCandidate, -⟩ := (Table.first_eq_some (rank_key tie)).mp hFirst
    have hFind : c.find (j.leaseTo now workerID leaseDuration).id = some j := Table.mem_rows.mp hMem
    refine step_store _ rfl ?_ id
    rw [hFind]
    exact .leased rfl (candidate_live hCandidate)

theorem renew_step (jobID workerID : String) (leaseDuration : Int) (id : String) :
    JobStep now id (.renew jobID workerID leaseDuration)
      (.settled (renewLocked c now jobID workerID leaseDuration).1) ((c.find id).map fun j => j)
      (((renewLocked c now jobID workerID leaseDuration).2.find id).map fun j => j) := by
  unfold renewLocked
  cases hFind : c.find jobID with
  | none =>
    rw [update_none hFind]
    refine step_keep _ rfl ?_ id
    rw [hFind]
    exact .missing
  | some j =>
    by_cases hOwner : j.leaseOwner = workerID
    · rw [update_ok hFind (if_neg (not_not_intro hOwner))]
      obtain ⟨hMem, rfl⟩ := Table.find_eq_some.mp hFind
      refine step_store _ rfl ?_ id
      rw [show c.find (j.renew now leaseDuration).id = some j from hFind]
      exact .renewed hOwner
    · rw [update_error hFind (if_pos hOwner)]
      refine step_keep _ rfl ?_ id
      rw [hFind]
      exact .refused (by simpa using hOwner)

theorem settle_step {call : QueueCall} {jobID : String} {f : Job → Job}
    (hSubject : ∀ answer, call.subjects answer = [jobID]) (hKey : ∀ j, (f j).id = j.id)
    (hOk : ∀ j, JobStep now jobID call (.settled (.ok ())) (some j) (some (f j))) (id : String) :
    JobStep now id call (.settled (update c jobID fun j => .ok (f j)).1)
      ((c.find id).map fun j => j)
      (((update c jobID fun j => .ok (f j)).2.find id).map fun j => j) := by
  cases hFind : c.find jobID with
  | none =>
    rw [update_none hFind]
    refine step_keep _ (hSubject _) ?_ id
    rw [hFind]
    exact .missing
  | some j =>
    rw [update_ok hFind (show (fun j => Except.ok (f j)) j = Except.ok (f j) from rfl)]
    have hID : (f j).id = jobID := (hKey j).trans (Table.find_eq_some.mp hFind).2
    refine step_store _ ((hSubject _).trans (by rw [hID])) ?_ id
    rw [hID, hFind]
    exact hOk j

theorem expired_live {j : Job} (h : expired now j = true) : j.terminal = false := by
  simp only [expired, Bool.and_eq_true, Bool.not_eq_true'] at h
  exact h.2

theorem lawful : model.Lawful fun _ => True where
  start := trivial
  find_start _ := rfl
  keeps _ _ _ := trivial
  step := by
    intro c now call id _
    cases call with
    | enqueue job => exact enqueue_step job id
    | leaseNext workerID types leaseDuration tie => exact leaseNext_step workerID types leaseDuration tie id
    | renew jobID workerID leaseDuration => exact renew_step jobID workerID leaseDuration id
    | complete jobID resultJSON =>
      exact settle_step (f := Job.complete now resultJSON) (fun _ => rfl) (fun _ => rfl) (fun _ => .completed) id
    | fail jobID failure =>
      exact settle_step (fun _ => rfl) (fun j => (j.fail_keeps now failure).1) (fun _ => .failed) id
    | cancel jobID =>
      exact settle_step (f := Job.cancel now) (fun _ => rfl) (fun _ => rfl) (fun _ => .cancelled) id
    | recoverExpired =>
      exact step_recover (fun j => j) (fun j => by split <;> rfl) (fun _ => expired_live) (fun _ => rfl) id

end MemoryCore

end DBVault.Queue
