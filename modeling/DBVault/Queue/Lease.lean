import DBVault.Queue.LifeCycle
import Mathlib.Data.List.Induction

/-! Who holds a job, by what has been done to the queue: the grants of workers
against the lease fields of jobs. -/
namespace DBVault.Queue
open Option List Keyed

structure QueueEvent (Q : QueueModel) where
  state : Q.State
  time : Time
  call : QueueCall
  answer : QueueAnswer

namespace QueueEvent
variable {Q : QueueModel} (event : QueueEvent Q) (id : String)

/-- The job was stored by an `Enqueue`, for the first time or after it had come
to an end. -/
def stores : Bool :=
  match event.call with
  | .enqueue job => job.id = id && (Q.find event.state id).all (·.terminal)
  | _ => false

def givenTo : Option String :=
  match event.call, event.answer with
  | .leaseNext workerID .., .leased (some given) => if given.id = id then some workerID else none
  | _, _ => none

/-- When the lease expires that a worker got or extended. -/
def grants (worker : String) : Option Time :=
  match event.call, event.answer with
  | .leaseNext workerID _ leaseDuration _, .leased (some given) =>
    if workerID = worker ∧ given.id = id then some (event.time + leaseDuration) else none
  | .renew jobID workerID leaseDuration, .settled (.ok ()) =>
    if workerID = worker ∧ jobID = id then some (event.time + leaseDuration) else none
  | _, _ => none

/-- The job was settled, cancelled or enqueued anew. -/
def ends : Bool :=
  match event.call, event.answer with
  | .complete jobID _, .settled (.ok ()) | .fail jobID _, .settled (.ok ())
  | .cancel jobID, .settled (.ok ()) => jobID = id
  | _, _ => event.stores id

def owner : Option String :=
  match event.call, event.answer with
  | .leaseNext .., _ => event.givenTo id
  | .recoverExpired, .recovered jobIDs => if id ∈ jobIDs then some "" else none
  | .enqueue job, _ => if event.stores id then some job.leaseOwner else none
  | _, _ => none

end QueueEvent

section
variable {Q : QueueModel} (id : String)

def heldBy (worker : String) : List (QueueEvent Q) → Option Time
  | [] => none
  | event :: earlier =>
    match event.grants id worker with
    | some expiry => some expiry
    | none => if event.ends id then none else heldBy worker earlier

def lastGiven : List (QueueEvent Q) → Option String
  | [] => none
  | event :: earlier => (event.givenTo id).or (lastGiven earlier)

def lastOwner : List (QueueEvent Q) → Option String
  | [] => none
  | event :: earlier => (event.owner id).or (lastOwner earlier)

end

structure Logged (Q : QueueModel) where
  state : Q.State
  past : List (QueueEvent Q)

namespace QueueModel
variable (Q : QueueModel)

def event (s : Q.State) (now : Time) (call : QueueCall) : QueueEvent Q := ⟨s, now, call, (Q.perform s now call).1⟩

def log (l : Logged Q) (timed : Time × QueueCall) : Logged Q :=
  ⟨(Q.perform l.state timed.1 timed.2).2, Q.event l.state timed.1 timed.2 :: l.past⟩

def logged (calls : List (Time × QueueCall)) : Logged Q := calls.foldl Q.log ⟨Q.start, []⟩

variable {Q}

theorem logged_snoc (calls : List (Time × QueueCall)) (timed : Time × QueueCall) :
    Q.logged (calls ++ [timed]) = Q.log (Q.logged calls) timed := by
  simp [logged]

end QueueModel

namespace QueueEvent
variable {Q : QueueModel} {event : QueueEvent Q} {id : String}

section
variable (hOther : id ∉ event.call.subjects event.answer)
include hOther

theorem stores_other : event.stores id = false := by
  obtain ⟨state, time, call, answer⟩ := event
  cases call with
  | enqueue job =>
    have hNe : job.id ≠ id := by simpa [QueueCall.subjects, eq_comm] using hOther
    simp [stores, hNe]
  | _ => rfl

theorem givenTo_other : event.givenTo id = none := by
  obtain ⟨state, time, call, answer⟩ := event
  unfold givenTo
  split
  · rename_i given hCall hAnswer
    simp only at hCall hAnswer
    subst hCall hAnswer
    exact if_neg (by simpa [QueueCall.subjects, eq_comm] using hOther)
  · rfl

theorem owner_other : event.owner id = none := by
  have hStores := stores_other hOther
  have hGiven := givenTo_other hOther
  obtain ⟨state, time, call, answer⟩ := event
  cases call with
  | leaseNext => exact hGiven
  | enqueue job => exact if_neg (by simp [hStores])
  | recoverExpired =>
    cases answer with
    | recovered jobIDs => exact if_neg hOther
    | _ => rfl
  | _ => rfl

theorem grants_other (worker : String) : event.grants id worker = none := by
  obtain ⟨state, time, call, answer⟩ := event
  unfold grants
  split
  · rename_i given hCall hAnswer
    simp only at hCall hAnswer
    subst hCall hAnswer
    exact if_neg fun hSame => hOther (by simp [QueueCall.subjects, hSame.2])
  · rename_i hCall hAnswer
    simp only at hCall hAnswer
    subst hCall hAnswer
    exact if_neg fun hSame => hOther (by simp [QueueCall.subjects, hSame.2])
  · rfl

end

theorem owner_step (hStep : JobStep event.time id event.call event.answer (Q.find event.state id) new)
    (hBefore : ∀ j, Q.find event.state id = some j → before = some j.leaseOwner) :
    ∀ j, new = some j → (event.owner id).or before = some j.leaseOwner := by
  have hOther := @owner_other Q event id
  obtain ⟨state, time, call, answer⟩ := event
  simp only at hStep hBefore hOther
  generalize hFind : Q.find state id = old at hStep hBefore
  rintro j rfl
  cases hStep with
  | stored hID hOld hNew =>
    rename_i job
    have hStores : stores ⟨state, time, .enqueue job, answer⟩ id = true := by
      simpa [stores, hID, hFind, Option.all_eq_true] using hOld
    simp [owner, hStores, hNew.leaseOwner]
  | kept hID hLive =>
    rename_i job
    have hStores : stores ⟨state, time, .enqueue job, answer⟩ id = false := by simp [stores, hID, hFind, hLive]
    simp [owner, hStores, hBefore]
  | leased hID hLive => simp [owner, givenTo, hID, Job.leaseTo]
  | renewed hOwner => simpa [owner, Job.renew] using hBefore
  | refused hOwner => simpa [owner] using hBefore
  | completed => simpa [owner, Job.complete] using hBefore
  | failed => simpa [owner, (Job.fail_keeps _ _ _).2.1] using hBefore
  | cancelled => simpa [owner, Job.cancel] using hBefore
  | interrupted hIn hLive => simp [owner, hIn, Job.interrupt]
  | passed hNot => simpa [hOther hNot] using hBefore

theorem grants_step (hStep : JobStep event.time id event.call event.answer (Q.find event.state id) new)
    (hGrants : event.grants id worker = some expiry) :
    ∃ j, new = some j ∧ j.leaseOwner = worker ∧ j.leaseExpiresAt = some expiry := by
  have hOther := @grants_other Q event id
  obtain ⟨state, time, call, answer⟩ := event
  simp only at hStep hOther
  generalize Q.find state id = old at hStep
  cases hStep with
  | leased hID hLive =>
    simp only [grants, hID, and_true, ite_none_right_eq_some, Option.some.injEq] at hGrants
    exact ⟨_, rfl, hGrants.1, congrArg some hGrants.2⟩
  | renewed hOwner =>
    simp only [grants, and_true, ite_none_right_eq_some, Option.some.injEq] at hGrants
    exact ⟨_, rfl, hOwner.trans hGrants.1, congrArg some hGrants.2⟩
  | missing => cases call <;> simp [grants] at hGrants
  | passed hNot => simp [hOther hNot] at hGrants
  | _ => simp [grants] at hGrants

theorem lease_step (hStep : JobStep event.time id event.call event.answer (some j) new)
    (hFind : Q.find event.state id = some j) (hGrants : event.grants id j.leaseOwner = none)
    (hEnds : event.ends id = false) (hOwner : event.owner id = none) :
    ∃ j', new = some j' ∧ j'.leaseOwner = j.leaseOwner ∧ j'.leaseExpiresAt = j.leaseExpiresAt := by
  obtain ⟨state, time, call, answer⟩ := event
  simp only at hStep hFind
  cases hStep with
  | stored hID hOld hNew => simp [ends, stores, hID, hFind, hOld] at hEnds
  | kept hID hLive => exact ⟨j, rfl, rfl, rfl⟩
  | leased hID hLive => simp [owner, givenTo, hID] at hOwner
  | renewed hRenewer => simp [grants, hRenewer] at hGrants
  | refused hRenewer => exact ⟨j, rfl, rfl, rfl⟩
  | interrupted hIn hLive => simp [owner, hIn] at hOwner
  | passed hNot => exact ⟨j, rfl, rfl, rfl⟩
  | _ => simp [ends] at hEnds

end QueueEvent

section
variable {Q : QueueModel} {inv : Q.State → Prop}

theorem QueueModel.Lawful.logged_inv (hQ : Q.Lawful inv) (calls : List (Time × QueueCall)) :
    inv (Q.logged calls).state := by
  induction calls using List.reverseRecOn with
  | nil => exact hQ.start
  | append_singleton calls timed ih =>
    rw [QueueModel.logged_snoc]
    exact hQ.keeps timed.1 timed.2 ih

theorem QueueModel.Lawful.lastOwner_eq (hQ : Q.Lawful inv) (calls : List (Time × QueueCall)) (id : String) :
    ∀ j, Q.find (Q.logged calls).state id = some j → lastOwner id (Q.logged calls).past = some j.leaseOwner := by
  induction calls using List.reverseRecOn with
  | nil =>
    intro j hFind
    simp [QueueModel.logged, hQ.find_start] at hFind
  | append_singleton calls timed ih =>
    rw [QueueModel.logged_snoc]
    have hStep := hQ.step timed.1 timed.2 id (hQ.logged_inv calls)
    exact @QueueEvent.owner_step Q (Q.event _ timed.1 timed.2) id _ _ hStep ih

end

def QueueCall.WellMade : QueueCall → Prop
  | .enqueue job => job.leaseOwner = "" ∧ job.leaseExpiresAt = none
  | .leaseNext workerID .. | .renew _ workerID _ => workerID ≠ ""
  | _ => True

/-- Well-made calls at times that never go back. -/
structure Orderly (calls : List (Time × QueueCall)) : Prop where
  clock : (calls.map (·.1)).Pairwise (· ≤ ·)
  wellMade : ∀ timed ∈ calls, timed.2.WellMade

theorem Orderly.snoc {calls : List (Time × QueueCall)} {now : Time} {call : QueueCall}
    (h : Orderly (calls ++ [(now, call)])) :
    Orderly calls ∧ call.WellMade ∧ ∀ timed ∈ calls, timed.1 ≤ now := by
  obtain ⟨hClock, hWellMade⟩ := h
  simp only [map_append, pairwise_append, List.mem_map, map_cons, map_nil,
    mem_singleton, forall_eq, forall_exists_index, and_imp] at hClock
  exact ⟨⟨hClock.1, fun timed hMem => hWellMade timed (by simp [hMem])⟩,
    hWellMade (now, call) (by simp), fun timed hMem => hClock.2.2 _ timed hMem rfl⟩

theorem QueueEvent.owner_eq_givenTo {Q : QueueModel} {event : QueueEvent Q} {id : String}
    (hCall : event.call.WellMade) : event.owner id = event.givenTo id ∨ event.owner id = some "" := by
  obtain ⟨state, time, call, answer⟩ := event
  cases call with
  | leaseNext => exact .inl rfl
  | enqueue job =>
    have hOwner : job.leaseOwner = "" := hCall.1
    simp only [owner, givenTo, hOwner]
    split <;> simp
  | recoverExpired =>
    cases answer with
    | recovered jobIDs =>
      simp only [owner, givenTo]
      split <;> simp
    | _ => exact .inl rfl
  | _ => exact .inl rfl

theorem lastGiven_of_lastOwner {Q : QueueModel} {id worker : String} (hWorker : worker ≠ "")
    {past : List (QueueEvent Q)} (hPast : ∀ event ∈ past, event.call.WellMade)
    (hOwner : lastOwner id past = some worker) : lastGiven id past = some worker := by
  induction past with
  | nil => simp [lastOwner] at hOwner
  | cons event earlier ih =>
    have hRest := ih fun other hMem => hPast other (mem_cons_of_mem _ hMem)
    simp only [lastOwner, lastGiven] at hOwner ⊢
    rcases QueueEvent.owner_eq_givenTo (hPast event (by simp)) with hSame | hNone
    · rw [hSame] at hOwner
      cases hGiven : event.givenTo id with
      | none =>
        rw [hGiven] at hOwner
        exact hRest hOwner
      | some given => simpa [hGiven] using hOwner
    · simp [hNone, Ne.symm hWorker] at hOwner

namespace MemoryCore
variable {c : MemoryCore} {now : Time}

variable {expiry : Time} {j : Job}

theorem leased_over {workerID : String} {types : List JobType} {leaseDuration : Int} {tie : String → Nat}
    {given : Job}
    (hGiven : (model.perform c now (.leaseNext workerID types leaseDuration tie)).1 = .leased (some given))
    (hFind : model.find c given.id = some j) (hExpiry : j.leaseExpiresAt = some expiry) : expiry ≤ now := by
  simp only [model, perform, leaseNextLocked, Prod.map_fst, QueueAnswer.leased.injEq] at hGiven
  cases hFirst : c.first (candidate now types) (rank tie) with
  | none => simp [hFirst] at hGiven
  | some first =>
    simp only [hFirst, Option.some.injEq] at hGiven
    subst hGiven
    obtain ⟨hMem, hCandidate, -⟩ := (Table.first_eq_some (rank_key tie)).mp hFirst
    have hSame : first = j := by simpa [model, Job.leaseTo, Table.mem_rows.mp hMem] using hFind
    subst hSame
    simp only [candidate, hExpiry, Bool.and_eq_true, decide_eq_true_eq] at hCandidate
    exact hCandidate.2

theorem recovered_over
    (hRecovered : (model.perform c now .recoverExpired).1 = .recovered ids) {id : String} (hIn : id ∈ ids)
    (hFind : model.find c id = some j) (hExpiry : j.leaseExpiresAt = some expiry) : expiry ≤ now := by
  simp only [model, perform, recoverExpiredLocked, Prod.map_fst, QueueAnswer.recovered.injEq] at hRecovered
  subst hRecovered
  obtain ⟨found, hFound, hExpired⟩ := Table.mem_keys_filter.mp hIn
  have hSame : found = j := by simpa [model, hFound] using hFind
  subst hSame
  simp only [expired, hExpiry, Bool.and_eq_true, decide_eq_true_eq] at hExpired
  exact hExpired.1.le

theorem owner_over {call : QueueCall} {id owner : String}
    (hOwner : (model.event c now call).owner id = some owner)
    (hEnds : (model.event c now call).ends id = false) (hFind : model.find c id = some j)
    (hExpiry : j.leaseExpiresAt = some expiry) : expiry ≤ now := by
  cases call with
  | enqueue job =>
    have hStores : (model.event c now (.enqueue job)).stores id = false := hEnds
    have hNone : (model.event c now (.enqueue job)).owner id = none := if_neg (by simp [hStores])
    simp [hNone] at hOwner
  | leaseNext workerID types leaseDuration tie =>
    simp only [QueueEvent.owner, QueueEvent.givenTo, QueueModel.event] at hOwner
    split at hOwner
    · rename_i hCall hGiven
      simp only [ite_none_right_eq_some] at hOwner
      exact leased_over hGiven (hOwner.1 ▸ hFind) hExpiry
    · simp at hOwner
  | recoverExpired =>
    simp only [QueueEvent.owner, QueueModel.event] at hOwner
    split at hOwner
    · simp at *
    · rename_i hRecovered
      simp only [ite_none_right_eq_some] at hOwner
      exact recovered_over hRecovered hOwner.1 hFind hExpiry
    · simp at *
    · simp at hOwner
  | _ => simp [QueueEvent.owner, QueueModel.event] at hOwner

/-- A lease that a worker holds and that is not over is the job's. -/
def Exclusive (now : Time) (l : Logged model) : Prop :=
  ∀ id worker expiry, heldBy id worker l.past = some expiry →
    expiry ≤ now ∨ ∃ j, model.find l.state id = some j ∧ j.leaseOwner = worker ∧
      j.leaseExpiresAt = some expiry

theorem Exclusive.mono (h : Exclusive now l) (hLe : now ≤ now') : Exclusive now' l :=
  fun id worker expiry hHeld => (h id worker expiry hHeld).imp_left fun hOver => hOver.trans hLe

theorem Exclusive.step {l : Logged model} (h : Exclusive now l) (call : QueueCall) :
    Exclusive now (model.log l (now, call)) := by
  intro id worker expiry hHeld
  have hStep := lawful.step now call id (s := l.state) trivial
  simp only [QueueModel.log, heldBy] at hHeld ⊢
  split at hHeld
  · rename_i granted hGrants
    cases hHeld
    exact .inr (QueueEvent.grants_step hStep hGrants)
  · rename_i hGrants
    simp only [ite_none_left_eq_some, Bool.not_eq_true] at hHeld
    obtain ⟨hEnds, hHeld⟩ := hHeld
    obtain hOver | ⟨j, hFind, rfl, hExpiry⟩ := h id worker expiry hHeld
    · exact .inl hOver
    · rw [hFind] at hStep
      cases hOwner : (model.event l.state now call).owner id with
      | none =>
        obtain ⟨j', hFind', hOwner', hExpiry'⟩ := QueueEvent.lease_step hStep hFind hGrants hEnds hOwner
        exact .inr ⟨j', hFind', hOwner', hExpiry'.trans hExpiry⟩
      | some owner => exact .inl (owner_over hOwner hEnds hFind hExpiry)

theorem exclusive_logged (calls : List (Time × QueueCall)) (hCalls : Orderly calls)
    (hNow : ∀ timed ∈ calls, timed.1 ≤ now) : Exclusive now (model.logged calls) := by
  induction calls using List.reverseRecOn generalizing now with
  | nil =>
    intro id worker expiry hHeld
    simp [QueueModel.logged, heldBy] at hHeld
  | append_singleton calls timed ih =>
    obtain ⟨hBefore, -, hClock⟩ := hCalls.snoc
    rw [QueueModel.logged_snoc]
    exact ((ih hBefore hClock).step timed.2).mono (hNow timed (by simp))

theorem logged_wellMade (calls : List (Time × QueueCall)) (hCalls : Orderly calls) :
    ∀ event ∈ (model.logged calls).past, event.call.WellMade := by
  induction calls using List.reverseRecOn with
  | nil => simp [QueueModel.logged]
  | append_singleton calls timed ih =>
    obtain ⟨hBefore, hCall, -⟩ := hCalls.snoc
    rw [QueueModel.logged_snoc]
    intro event hMem
    rcases mem_cons.mp hMem with rfl | hMem
    · exact hCall
    · exact ih hBefore event hMem

/-- A job is handed out only when all leases that other workers hold of it are
over, and a lease is renewed only by the worker that was handed the job last. -/
theorem lease_exclusive (calls : List (Time × QueueCall)) (now : Time) (call : QueueCall)
    (hCalls : Orderly (calls ++ [(now, call)])) :
    (∀ workerID types leaseDuration tie given,
      call = .leaseNext workerID types leaseDuration tie →
      (model.perform (model.logged calls).state now call).1 = .leased (some given) →
      ∀ other expiry, other ≠ workerID →
        heldBy given.id other (model.logged calls).past = some expiry → expiry ≤ now) ∧
    (∀ jobID workerID leaseDuration, call = .renew jobID workerID leaseDuration →
      (model.perform (model.logged calls).state now call).1 = .settled (.ok ()) →
      lastGiven jobID (model.logged calls).past = some workerID) := by
  obtain ⟨hBefore, hCall, hClock⟩ := hCalls.snoc
  constructor
  · rintro workerID types leaseDuration tie given rfl hGiven other expiry - hHeld
    obtain hOver | ⟨j, hFind, -, hExpiry⟩ :=
      exclusive_logged calls hBefore hClock given.id other expiry hHeld
    · exact hOver
    · exact leased_over hGiven hFind hExpiry
  · rintro jobID workerID leaseDuration rfl hRenewed
    have hStep := lawful.step now (.renew jobID workerID leaseDuration) jobID
      (s := (model.logged calls).state) trivial
    have hOwner := lawful.lastOwner_eq calls jobID
    rw [hRenewed] at hStep
    generalize model.find (model.logged calls).state jobID = old at hStep hOwner
    generalize model.find (model.perform _ now _).2 jobID = new at hStep
    cases hStep with
    | renewed hIs =>
      exact lastGiven_of_lastOwner hCall (logged_wellMade calls hBefore) (hIs ▸ hOwner _ rfl)
    | passed hNot => simp [QueueCall.subjects] at hNot

open Sample in
theorem lease_exclusive_sample :
    heldBy job.id "worker-1" (model.logged [(clock 0, .enqueue job),
      (clock 1, .leaseNext "worker-1" [] (10 * Time.nanosPerSecond) fun _ => 0)]).past =
        some (clock 11) ∧ clock 11 ≤ clock 20 := by
  have hHeld : heldBy job.id "worker-1" (model.logged [(clock 0, .enqueue job),
      (clock 1, .leaseNext "worker-1" [] (10 * Time.nanosPerSecond) fun _ => 0)]).past = some (clock 11) := by
    decide +kernel
  have hOrderly : Orderly ([(clock 0, .enqueue job),
      (clock 1, .leaseNext "worker-1" [] (10 * Time.nanosPerSecond) fun _ => 0)] ++
        [(clock 20, .leaseNext "worker-2" [] (10 * Time.nanosPerSecond) fun _ => 0)]) :=
    ⟨by decide, by simp [QueueCall.WellMade, job, jobForFire]⟩
  exact ⟨hHeld, (lease_exclusive _ _ _ hOrderly).1 "worker-2" _ _ _
    ((job.withDefaults (clock 0)).leaseTo (clock 20) "worker-2" (10 * Time.nanosPerSecond)) rfl rfl
    "worker-1" (clock 11) (by decide) hHeld⟩

end MemoryCore

end DBVault.Queue
