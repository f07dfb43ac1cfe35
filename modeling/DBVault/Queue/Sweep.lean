import DBVault.Queue.Lease
import DBVault.Queue.Sqlite

/-! `RecoverExpired` of the durable queue as it runs: a `SELECT`, then one
transaction for each job it found, with transactions of other connections in
between. -/
namespace DBVault.Queue
open List Keyed

/-- A recovery under way: its time, and the jobs it has found and not yet written. -/
structure Sweep where
  now : Time
  found : List Job

namespace SqliteQueue

/-- The `SELECT` of `RecoverExpired`. -/
def select (q : SqliteQueue) (now : Time) : List Job := (q.rows.filter (expired now)).map JobRow.scanJob

def writeBack (q : SqliteQueue) (now : Time) (j : Job) : SqliteQueue := q.store (jobArgs (j.interrupt now))

def writeBacks (q : SqliteQueue) (now : Time) (found : List Job) : SqliteQueue :=
  found.foldl (fun q j => q.writeBack now j) q

theorem writeBacks_select (q : SqliteQueue) (now : Time) :
    q.writeBacks now (q.select now) = (q.recoverExpired now).2 := by
  have hRows := q.foldl_store (fun row => jobArgs (row.scanJob.interrupt now)) (fun row => row.sameID) (expired now)
  rw [foldl_map] at hRows
  simp only [writeBacks, select, foldl_map, recoverExpired, Table.modify]
  exact (Table.mk.injEq ..).mpr hRows

end SqliteQueue

/-- A table and the recoveries under way on it. -/
structure Shared where
  table : SqliteQueue
  sweeps : Nat → Sweep

inductive TableAction where
  /-- A call that is one transaction, or a recovery that nothing comes in between of. -/
  | transact (now : Time) (call : QueueCall)
  | select (sweep : Nat) (now : Time)
  /-- The next transaction of a recovery. -/
  | write (sweep : Nat)

inductive TableEvent where
  | called (event : QueueEvent SqliteQueue.model)
  | interrupted (id : String)

/-- What of a job a transaction writes. -/
inductive Part where
  | lease | attempts | result | status
  deriving DecidableEq

/-- What of a job a call has written. -/
def QueueEvent.written {Q : QueueModel} (event : QueueEvent Q) (id : String) : List Part :=
  match event.call, event.answer with
  | .enqueue _, _ => if event.stores id then [.lease, .attempts, .result, .status] else []
  | .leaseNext .., .leased (some given) => if given.id = id then [.lease, .status] else []
  | .renew jobID .., .settled (.ok ()) => if jobID = id then [.lease] else []
  | .complete jobID _, .settled (.ok ()) => if jobID = id then [.result, .status] else []
  | .fail jobID _, .settled (.ok ()) => if jobID = id then [.attempts, .status] else []
  | .cancel jobID, .settled (.ok ()) => if jobID = id then [.status] else []
  | .recoverExpired, .recovered jobIDs => if id ∈ jobIDs then [.status] else []
  | _, _ => []

def TableEvent.written (id : String) : TableEvent → List Part
  | .called event => event.written id
  | .interrupted jobID => if jobID = id then [.status] else []

namespace Shared

def start : Shared := ⟨.empty, fun _ => ⟨0, []⟩⟩

def step (s : Shared) : TableAction → Shared
  | .transact now call => { s with table := (s.table.perform now call).2 }
  | .select sweep now => { s with sweeps := Function.update s.sweeps sweep ⟨now, s.table.select now⟩ }
  | .write sweep =>
    match (s.sweeps sweep).found with
    | [] => s
    | j :: rest =>
      { table := s.table.writeBack (s.sweeps sweep).now j
        sweeps := Function.update s.sweeps sweep { s.sweeps sweep with found := rest } }

def run (s : Shared) (actions : List TableAction) : Shared := actions.foldl step s

def eventOf (s : Shared) : TableAction → Option TableEvent
  | .transact now call => some (.called (SqliteQueue.model.event s.table now call))
  | .select .. => none
  | .write sweep => (s.sweeps sweep).found.head?.map fun j => .interrupted j.id

def events (s : Shared) : List TableAction → List TableEvent
  | [] => []
  | action :: rest => (s.eventOf action).toList ++ events (s.step action) rest

def job (s : Shared) (id : String) : Option Job := SqliteQueue.model.find s.table id

end Shared

inductive Effect (j j' : Job) (parts : List Part) : Prop where
  | kept (hParts : parts = []) (hSame : j' = j)
  | leased (hParts : .lease ∈ parts)
  | failed (hParts : .attempts ∈ parts) (hAttempt : j'.attempt = j.attempt + 1)
      (hLease : j'.leaseExpiresAt = j.leaseExpiresAt)
  | ended (hParts : parts ≠ []) (hEnd : j'.terminal = true) (hAttempt : j'.attempt = j.attempt)
      (hLease : j'.leaseExpiresAt = j.leaseExpiresAt)
  | cleared (hParts : parts ≠ []) (hLease : j'.leaseExpiresAt = none)

namespace QueueEvent
variable {Q : QueueModel} {event : QueueEvent Q} {id : String}

theorem written_other (hOther : id ∉ event.call.subjects event.answer) : event.written id = [] := by
  have hStores := stores_other hOther
  obtain ⟨state, time, call, answer⟩ := event
  cases call with
  | enqueue job => simp [written, hStores]
  | leaseNext =>
    cases answer with
    | leased given =>
      cases given with
      | none => rfl
      | some given => exact if_neg (by simpa [QueueCall.subjects, eq_comm] using hOther)
    | _ => rfl
  | recoverExpired =>
    cases answer with
    | recovered jobIDs => exact if_neg hOther
    | _ => rfl
  | renew jobID | complete jobID | fail jobID | cancel jobID =>
    have hNe : jobID ≠ id := by simpa [QueueCall.subjects, eq_comm] using hOther
    unfold written
    split <;> simp_all

theorem effect {j : Job} {new : Option Job}
    (hStep : JobStep event.time id event.call event.answer (some j) new)
    (hFind : Q.find event.state id = some j) : ∃ j', new = some j' ∧ Effect j j' (event.written id) := by
  have hOther := @written_other Q event id
  obtain ⟨state, time, call, answer⟩ := event
  simp only at hStep hFind hOther
  cases hStep with
  | stored hID hOld hNew =>
    refine ⟨_, rfl, .leased ?_⟩
    simp [written, stores, hID, hFind, hOld]
  | kept hID hLive => exact ⟨j, rfl, .kept (by simp [written, stores, hFind, hLive]) rfl⟩
  | leased hID hLive => exact ⟨_, rfl, .leased (by simp [written, hID])⟩
  | renewed hOwner => exact ⟨_, rfl, .leased (by simp [written])⟩
  | refused hOwner => exact ⟨j, rfl, .kept rfl rfl⟩
  | completed => exact ⟨_, rfl, .ended (by simp [written]) rfl rfl rfl⟩
  | failed => exact ⟨_, rfl, .failed (by simp [written]) (Job.fail_attempt _ _ _) (Job.fail_keeps _ _ _).2.2⟩
  | cancelled => exact ⟨_, rfl, .ended (by simp [written]) rfl rfl rfl⟩
  | interrupted hIn hLive => exact ⟨_, rfl, .cleared (by simp [written, hIn]) rfl⟩
  | passed hNot => exact ⟨j, rfl, .kept (hOther hNot) rfl⟩

end QueueEvent

/-- What may have become of a job that was found, by what was written of it since. -/
inductive Drift (id : String) (j₀ j : Job) (events : List TableEvent) : Prop where
  | untouched (hNone : ∀ event ∈ events, event.written id = []) (hSame : j = j₀)
  | leased (hLease : ∃ event ∈ events, .lease ∈ event.written id)
  | failed (hFail : ∃ event ∈ events, .attempts ∈ event.written id) (hMore : j₀.attempt < j.attempt)
  | ended (hTouched : ∃ event ∈ events, event.written id ≠ []) (hEnd : j.terminal = true)
      (hAttempt : j₀.attempt ≤ j.attempt)
  | cleared (hTouched : ∃ event ∈ events, event.written id ≠ []) (hLease : j.leaseExpiresAt = none)

theorem Drift.step {id : String} {j₀ j j' : Job} {events : List TableEvent} {event : TableEvent}
    (h : Drift id j₀ j events) (hEffect : Effect j j' (event.written id)) :
    Drift id j₀ j' (events ++ [event]) := by
  have hNow : ∀ {p : TableEvent → Prop}, p event → ∃ e ∈ events ++ [event], p e := fun hp => ⟨event, by simp, hp⟩
  have hThen : ∀ {p : TableEvent → Prop}, (∃ e ∈ events, p e) → ∃ e ∈ events ++ [event], p e :=
    fun ⟨e, hMem, hp⟩ => ⟨e, by simp [hMem], hp⟩
  cases hEffect with
  | kept hParts hSame =>
    subst hSame
    cases h with
    | untouched hNone hSame =>
      refine .untouched ?_ hSame
      intro e hMem
      rcases mem_append.mp hMem with hMem | hMem
      · exact hNone e hMem
      · rwa [mem_singleton.mp hMem]
    | leased hLease => exact .leased (hThen hLease)
    | failed hFail hMore => exact .failed (hThen hFail) hMore
    | ended hTouched hEnd hAttempt => exact .ended (hThen hTouched) hEnd hAttempt
    | cleared hTouched hLease => exact .cleared (hThen hTouched) hLease
  | leased hParts => exact .leased (hNow hParts)
  | failed hParts hAttempt hKept =>
    cases h with
    | untouched hNone hSame => exact .failed (hNow hParts) (by rw [hAttempt, hSame]; omega)
    | leased hLease => exact .leased (hThen hLease)
    | failed hFail hMore => exact .failed (hThen hFail) (by omega)
    | ended hTouched hEnd hBefore => exact .failed (hNow hParts) (by omega)
    | cleared hTouched hLease => exact .cleared (hThen hTouched) (hKept.trans hLease)
  | ended hParts hEnd hAttempt hKept =>
    cases h with
    | untouched hNone hSame => exact .ended (hNow hParts) hEnd (by rw [hAttempt, hSame])
    | leased hLease => exact .leased (hThen hLease)
    | failed hFail hMore => exact .failed (hThen hFail) (by omega)
    | ended hTouched hWas hBefore => exact .ended (hNow hParts) hEnd (by omega)
    | cleared hTouched hLease => exact .cleared (hThen hTouched) (hKept.trans hLease)
  | cleared hParts hLease => exact .cleared (hNow hParts) hLease

namespace Shared

theorem run_cons (s : Shared) (action : TableAction) (rest : List TableAction) :
    s.run (action :: rest) = (s.step action).run rest := rfl

theorem run_snoc (s : Shared) (actions : List TableAction) (action : TableAction) :
    s.run (actions ++ [action]) = (s.run actions).step action := by
  simp [run]

theorem events_snoc (s : Shared) (actions : List TableAction) (action : TableAction) :
    s.events (actions ++ [action]) = s.events actions ++ ((s.run actions).eventOf action).toList := by
  induction actions generalizing s with
  | nil => simp [events, run]
  | cons first rest ih => simp [events, ih, run_cons]

variable {s : Shared}

theorem run_writes (sweep : Nat) : (s.run (replicate (s.sweeps sweep).found.length (.write sweep))).table =
    s.table.writeBacks (s.sweeps sweep).now (s.sweeps sweep).found := by
  induction hFound : (s.sweeps sweep).found generalizing s with
  | nil => rfl
  | cons j rest ih =>
    have hStep : s.step (.write sweep) = ⟨s.table.writeBack (s.sweeps sweep).now j,
        Function.update s.sweeps sweep { s.sweeps sweep with found := rest }⟩ := by
      simp [step, hFound]
    rw [length_cons, replicate_succ, run_cons, hStep]
    refine (ih ?_).trans ?_ <;> simp [SqliteQueue.writeBacks]

/-- A recovery that nothing comes in between of is one call of `RecoverExpired`. -/
theorem sweep_alone (sweep : Nat) (now : Time) :
    (s.run (.select sweep now :: replicate (s.table.select now).length (.write sweep))).table =
      (s.step (.transact now .recoverExpired)).table := by
  have hWrites := run_writes (s := s.step (.select sweep now)) sweep
  simp only [step, Function.update_self] at hWrites
  exact hWrites.trans (s.table.writeBacks_select now)

theorem coherent_step (h : s.table.Coherent) (action : TableAction) :
    (s.step action).table.Coherent := by
  cases action with
  | transact now call => exact SqliteQueue.keeps_coherent call h
  | select sweep now => exact h
  | write sweep =>
    simp only [step]
    split
    · exact h
    · exact h.store (SqliteQueue.coherent_jobArgs _)

theorem coherent_run (h : s.table.Coherent) (actions : List TableAction) :
    (s.run actions).table.Coherent := by
  induction actions generalizing s with
  | nil => exact h
  | cons action rest ih => exact ih (coherent_step h action)

variable {j : Job} {now : Time}

theorem job_writeBack {q : SqliteQueue} (id : String) : SqliteQueue.model.find (q.writeBack now j) id =
      if id = j.id then some (j.interrupt now) else SqliteQueue.model.find q id := by
  have hKey : (jobArgs (j.interrupt now)).id = j.id := rfl
  simp only [SqliteQueue.model, SqliteQueue.writeBack, Table.find_store, hKey]
  split
  · rw [Option.map_some, SqliteQueue.job_jobArgs]
  · rfl

variable {id : String}

theorem job_step (h : s.table.Coherent) (action : TableAction) (hJob : s.job id = some j) :
    ∃ j', (s.step action).job id = some j' ∧ ((s.eventOf action = none ∧ j' = j) ∨
        ∃ event, s.eventOf action = some event ∧ Effect j j' (event.written id)) := by
  cases action with
  | transact now call =>
    have hStep := SqliteQueue.lawful.step now call id h
    rw [show SqliteQueue.model.find s.table id = some j from hJob] at hStep
    obtain ⟨j', hNew, hEffect⟩ := @QueueEvent.effect _ (SqliteQueue.model.event s.table now call) id j _ hStep hJob
    exact ⟨j', hNew, .inr ⟨_, rfl, hEffect⟩⟩
  | select sweep now => exact ⟨j, hJob, .inl ⟨rfl, rfl⟩⟩
  | write sweep =>
    cases hFound : (s.sweeps sweep).found with
    | nil => exact ⟨j, by simpa [step, hFound] using hJob, .inl ⟨by simp [eventOf, hFound], rfl⟩⟩
    | cons next rest =>
      have hAfter : (s.step (.write sweep)).job id =
          if id = next.id then some (next.interrupt (s.sweeps sweep).now) else some j := by
        rw [← hJob]
        simp only [step, hFound, job, job_writeBack]
      by_cases hID : id = next.id
      · refine ⟨_, hAfter.trans (if_pos hID), .inr ⟨.interrupted next.id, by simp [eventOf, hFound], ?_⟩⟩
        exact .cleared (by simp [TableEvent.written, hID]) rfl
      · refine ⟨j, hAfter.trans (if_neg hID), .inr ⟨.interrupted next.id, by simp [eventOf, hFound], ?_⟩⟩
        exact .kept (by simp [TableEvent.written, Ne.symm hID]) rfl

theorem drift (h : s.table.Coherent) {j₀ : Job} (hJob : s.job id = some j₀)
    (actions : List TableAction) :
    ∃ j, (s.run actions).job id = some j ∧ Drift id j₀ j (s.events actions) := by
  induction actions using List.reverseRecOn with
  | nil => exact ⟨j₀, hJob, .untouched (by simp [events]) rfl⟩
  | append_singleton actions action ih =>
    obtain ⟨j, hBefore, hDrift⟩ := ih
    obtain ⟨j', hAfter, hNone | ⟨event, hEvent, hEffect⟩⟩ := job_step (coherent_run h actions) action hBefore
    · refine ⟨j', by rw [run_snoc, hAfter], ?_⟩
      rw [events_snoc, hNone.1, hNone.2]
      simpa using hDrift
    · refine ⟨j', by rw [run_snoc, hAfter], ?_⟩
      rw [events_snoc, hEvent]
      exact hDrift.step hEffect

theorem found_suffix (s : Shared) (sweep : Nat) (now : Time) (between : List TableAction)
    (hOnce : ∀ t, .select sweep t ∉ between) :
    ((s.run (.select sweep now :: between)).sweeps sweep).now = now ∧
      ((s.run (.select sweep now :: between)).sweeps sweep).found <:+ s.table.select now := by
  induction between using List.reverseRecOn with
  | nil => simp [run, step]
  | append_singleton between action ih =>
    obtain ⟨hNow, hFound⟩ := ih fun t hMem => hOnce t (by simp [hMem])
    rw [← cons_append, run_snoc]
    generalize s.run (.select sweep now :: between) = s' at hNow hFound
    cases action with
    | transact t call => exact ⟨hNow, hFound⟩
    | select other t =>
      have hOther : sweep ≠ other := fun hSame => hOnce t (by simp [hSame])
      simpa [step, Function.update_of_ne hOther] using ⟨hNow, hFound⟩
    | write other =>
      simp only [step]
      split
      · exact ⟨hNow, hFound⟩
      · rename_i next rest hOwn
        by_cases hOther : sweep = other
        · subst hOther
          simp only [Function.update_self]
          exact ⟨hNow, (suffix_cons next rest).trans (hOwn ▸ hFound)⟩
        · simpa [Function.update_of_ne hOther] using ⟨hNow, hFound⟩

theorem job_of_select (hFound : j ∈ s.table.select now) :
    ∃ j₀, s.job j.id = some j₀ ∧ j₀.terminal = false ∧ j₀.attempt = j.attempt := by
  obtain ⟨row, hRow, rfl⟩ := mem_map.mp hFound
  obtain ⟨hMem, hExpired⟩ := mem_filter.mp hRow
  have hID : row.scanJob.id = row.id := row.sameID
  refine ⟨row.job, ?_, SqliteQueue.expired_live hExpired, rfl⟩
  show (s.table.find row.scanJob.id).map JobRow.job = some row.job
  rw [hID, Table.mem_rows.mp hMem, Option.map_some]

end Shared

/-- A write of a recovery as it should be: the job is live and its lease has
expired, and nothing that was written of it since the `SELECT` is undone. -/
structure Justified (now : Time) (id : String) (since : List TableEvent) (old new : Job) : Prop where
  live : old.terminal = false
  expired : ∃ expiry, old.leaseExpiresAt = some expiry ∧ expiry < now
  lease : (∃ event ∈ since, .lease ∈ event.written id) →
    new.leaseOwner = old.leaseOwner ∧ new.leaseExpiresAt = old.leaseExpiresAt
  attempts : (∃ event ∈ since, .attempts ∈ event.written id) → new.attempt = old.attempt
  result : (∃ event ∈ since, .result ∈ event.written id) → new.resultJSON = old.resultJSON

/-- Only a job that nothing has been written of since the `SELECT` is interrupted
rightly. -/
theorem Drift.justified_iff {id : String} {now : Time} {j₀ j found : Job} {since : List TableEvent}
    (h : Drift id j₀ j since) (hLive : j₀.terminal = false) (hFound : j₀.attempt = found.attempt) :
    Justified now id since j (found.interrupt now) ↔
      (∃ expiry, j₀.leaseExpiresAt = some expiry ∧ expiry < now) ∧ ∀ event ∈ since, event.written id = [] := by
  have hTouched : ∀ {p : Part}, (∃ event ∈ since, p ∈ event.written id) →
      ¬ ∀ event ∈ since, event.written id = [] :=
    fun ⟨event, hMem, hPart⟩ hNone => by simp [hNone event hMem] at hPart
  cases h with
  | untouched hNone hSame =>
    subst hSame
    have hNot : ∀ p : Part, ¬ ∃ event ∈ since, p ∈ event.written id := fun p hSome => hTouched hSome hNone
    constructor
    · intro hJustified
      exact ⟨hJustified.expired, hNone⟩
    · rintro ⟨hExpired, -⟩
      exact ⟨hLive, hExpired, fun hSome => absurd hSome (hNot _),
        fun hSome => absurd hSome (hNot _), fun hSome => absurd hSome (hNot _)⟩
  | leased hLease =>
    refine iff_of_false ?_ fun hNone => hTouched hLease hNone.2
    intro hJustified
    obtain ⟨expiry, hExpiry, -⟩ := hJustified.expired
    have hKept := (hJustified.lease hLease).2
    rw [hExpiry] at hKept
    simp [Job.interrupt] at hKept
  | failed hFail hMore =>
    refine iff_of_false ?_ fun hNone => hTouched hFail hNone.2
    intro hJustified
    have hKept : found.attempt = j.attempt := hJustified.attempts hFail
    omega
  | ended hSome hEnd hAttempt =>
    obtain ⟨event, hMem, hParts⟩ := hSome
    refine iff_of_false ?_ fun hNone => hParts (hNone.2 event hMem)
    intro hJustified
    simp [hJustified.live] at hEnd
  | cleared hSome hLease =>
    obtain ⟨event, hMem, hParts⟩ := hSome
    refine iff_of_false ?_ fun hNone => hParts (hNone.2 event hMem)
    intro hJustified
    obtain ⟨expiry, hExpiry, -⟩ := hJustified.expired
    simp [hLease] at hExpiry

/-- The write of a recovery is as it should be if and only if its `SELECT` found
a lease that had expired, not one that is missing or only sorts before the
time, and no transaction has written the job since. -/
theorem recovery_justified_iff (before between : List TableAction) (sweep : Nat) (now : Time)
    (j : Job) (hOnce : ∀ t, .select sweep t ∉ between)
    (hNext : (((Shared.start.run before).run (.select sweep now :: between)).sweeps sweep).found.head? =
      some j) :
    (∃ old new, ((Shared.start.run before).run (.select sweep now :: between)).job j.id = some old ∧
        (((Shared.start.run before).run (.select sweep now :: between)).step (.write sweep)).job j.id =
          some new ∧
        Justified now j.id ((Shared.start.run before).events (.select sweep now :: between)) old new) ↔
      (∃ found expiry, (Shared.start.run before).job j.id = some found ∧
          found.leaseExpiresAt = some expiry ∧ expiry < now) ∧
        ∀ event ∈ (Shared.start.run before).events (.select sweep now :: between),
          event.written j.id = [] := by
  have hCoherent : (Shared.start.run before).table.Coherent :=
    Shared.coherent_run (by simp [Shared.start, SqliteQueue.Coherent, Table.empty]) before
  generalize Shared.start.run before = s at *
  obtain ⟨hNow, hSuffix⟩ := s.found_suffix sweep now between hOnce
  obtain ⟨rest, hFound⟩ := head?_eq_some_iff.mp hNext
  obtain ⟨j₀, hJob, hLive, hAttempt⟩ :=
    Shared.job_of_select (hSuffix.subset (by simp [hFound] : j ∈ _))
  obtain ⟨old, hOld, hDrift⟩ := Shared.drift hCoherent hJob (.select sweep now :: between)
  generalize s.run (.select sweep now :: between) = current at *
  have hNew : (current.step (.write sweep)).job j.id = some (j.interrupt now) := by
    simp [Shared.step, hFound, Shared.job, Shared.job_writeBack, hNow]
  have hIff : Justified now j.id _ old (j.interrupt now) ↔ _ := hDrift.justified_iff hLive hAttempt
  simp only [hOld, hNew, hJob, Option.some.injEq, exists_eq_left', exists_and_left, hIff]

namespace Sample

def leasedShortly : List TableAction :=
  [.transact (clock 0) (.enqueue job),
    .transact (clock 1) (.leaseNext "worker-1" [.backup] (10 * Time.nanosPerSecond) fun _ => 0)]

def leasedJob : Job := { job with leaseOwner := "worker-1", leaseExpiresAt := some (clock 11) }

def overtaken (call : QueueCall) : Shared :=
  Shared.start.run (leasedShortly ++ [.select 0 (clock 20), .transact (clock 20) call])

/-- What a settlement writes. -/
structure Shown where
  status : JobStatus
  resultJSON : List UInt8
  attempt : Int
  leaseExpiresAt : Option Time
  deriving DecidableEq

def shown (s : Shared) : Option Shown :=
  (s.job job.id).map fun j => ⟨j.status, j.resultJSON, j.attempt, j.leaseExpiresAt⟩

end Sample

open Sample in
theorem recovery_justified_sample :
    ∃ old new, ((Shared.start.run leasedShortly).run [.select 0 (clock 20)]).job leasedJob.id = some old ∧
      (((Shared.start.run leasedShortly).run [.select 0 (clock 20)]).step (.write 0)).job leasedJob.id =
        some new ∧
      Justified (clock 20) leasedJob.id ((Shared.start.run leasedShortly).events [.select 0 (clock 20)])
        old new :=
  (recovery_justified_iff leasedShortly [] 0 (clock 20) leasedJob (by simp) (by decide +kernel)).mpr
    ⟨⟨{ leasedJob with status := .leased, updatedAt := clock 1 }, clock 11, by decide +kernel, rfl,
      by decide⟩, by simp [Shared.events, Shared.eventOf]⟩

open Sample in
/-- A completed job is interrupted and has lost its result, one that failed has
lost the attempt, and a lease that was extended is gone. -/
theorem recovery_undoes_settlement :
    ([.complete job.id [42], .fail job.id ⟨.jobUnavailable, "disk full", true⟩,
        .renew job.id "worker-1" (300 * Time.nanosPerSecond)].map fun call =>
      (shown (overtaken call), shown ((overtaken call).step (.write 0)))) =
      [(some ⟨.succeeded, [42], 0, some (clock 11)⟩, some ⟨.interrupted, [], 0, none⟩),
        (some ⟨.deadLetter, [], 1, some (clock 11)⟩, some ⟨.interrupted, [], 0, none⟩),
        (some ⟨.leased, [], 0, some (clock 320)⟩, some ⟨.interrupted, [], 0, none⟩)] := by
  decide +kernel

end DBVault.Queue
