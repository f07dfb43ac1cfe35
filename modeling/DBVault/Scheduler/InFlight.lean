import DBVault.Scheduler.History

/-! The jobs in flight: whether a schedule has one live job at most, and whether a
schedule whose job is done can go on. -/
namespace DBVault.Scheduling
open List Queue Event

/-- `Settle` was called for the job since it was last marked for the schedule. -/
def reportedSince (scheduleID id : String) : List Event → Bool
  | [] => false
  | .booted _ :: _ => false
  | .reported _ jobID :: past => if jobID = id then true else reportedSince scheduleID id past
  | .marked other jobID :: past =>
    if other = scheduleID ∧ jobID = id then false else reportedSince scheduleID id past
  | _ :: past => reportedSince scheduleID id past

section
variable {past : List Event} {scheduleID id : String}

theorem scheduled_of_enqueued (hIn : id ∈ enqueuedFor scheduleID past) : scheduled id := by
  induction past with
  | nil => cases hIn
  | cons event past ih =>
    cases event with
    | enqueued spec fire =>
      unfold enqueuedFor at hIn
      split at hIn
      · rcases mem_cons.mp hIn with rfl | hIn
        · exact Runtime.scheduled_job spec fire
        · exact ih hIn
      · exact ih hIn
    | booted => cases hIn
    | _ => exact ih hIn

theorem inflightBy_pending (lawful : Lawful past) (hPending : pending past = some (scheduleID, id)) :
    inflightBy scheduleID past = none := by
  induction lawful with
  | nil => rfl
  | @cons past event lawful legal ih =>
    cases event with
    | enqueued spec fire =>
      cases hPending
      exact legal.2
    | booted | marked => cases hPending
    | reported worker jobID => simp [inflightBy, ih hPending]
    | _ => exact ih hPending

theorem inflight_or_reported (lawful : Lawful past) (hIn : id ∈ enqueuedFor scheduleID past) :
    inflightBy scheduleID past = some id ∨ reportedSince scheduleID id past ∨
      pending past = some (scheduleID, id) := by
  induction lawful with
  | nil => cases hIn
  | @cons past event lawful legal ih =>
    cases event with
    | enqueued spec fire =>
      have hOld : id ∈ enqueuedFor scheduleID past → inflightBy scheduleID past = some id ∨
          reportedSince scheduleID id past ∨
          pending (.enqueued spec fire :: past) = some (scheduleID, id) := by
        intro hOld
        rcases ih hOld with hInflight | hReported | hPending
        · exact Or.inl hInflight
        · exact Or.inr (Or.inl hReported)
        · exact absurd (hPending.symm.trans legal.1) (by simp)
      unfold enqueuedFor at hIn
      split at hIn
      · rename_i hSchedule
        rcases mem_cons.mp hIn with rfl | hIn
        · exact Or.inr (Or.inr (by rw [pending, hSchedule]))
        · exact hOld hIn
      · exact hOld hIn
    | booted => cases hIn
    | marked other jobID =>
      have hNone : inflightBy other past = none := inflightBy_pending lawful legal
      by_cases hSame : other = scheduleID ∧ jobID = id
      · exact Or.inl (by simp [inflightBy, hSame])
      · rcases ih hIn with hInflight | hReported | hPending
        · have hOther : other ≠ scheduleID := by
            rintro rfl
            simp [hNone] at hInflight
          exact Or.inl (by simpa [inflightBy, hOther] using hInflight)
        · exact Or.inr (Or.inl (by simpa [reportedSince, hSame] using hReported))
        · have hMarked : (other, jobID) = (scheduleID, id) := Option.some.inj (legal.symm.trans hPending)
          exact absurd (Prod.mk.injEq .. ▸ hMarked) hSame
    | reported worker jobID =>
      by_cases hJob : jobID = id
      · exact Or.inr (Or.inl (by simp [reportedSince, hJob]))
      · rcases ih hIn with hInflight | hReported | hPending
        · exact Or.inl (by simp [inflightBy, hInflight, Ne.symm hJob])
        · exact Or.inr (Or.inl (by simpa [reportedSince, hJob] using hReported))
        · exact Or.inr (Or.inr hPending)
    | _ => exact ih hIn

end

def LiveFor (scheduleID id : String) (past : List Event) : Prop :=
  id ∈ enqueuedFor scheduleID past ∧ liveBy id past = some true

def SoleBy (past : List Event) : Prop :=
  ∀ scheduleID id other, LiveFor scheduleID id past → LiveFor scheduleID other past → id = other

/-- A job that is live although `Settle` was called for it since it was marked: it waits
for another attempt, or was enqueued after it had been settled and before that was
reported. -/
def Premature (scheduleID id : String) (past : List Event) : Prop :=
  LiveFor scheduleID id past ∧ reportedSince scheduleID id past

/-- The event is an `Enqueue`, or a failure that leaves an attempt, of a job that was not
live. -/
def Event.Revives (past : List Event) (id : String) (event : Event) : Prop :=
  liveBy id past ≠ some true ∧
    ((∃ spec fire, event = .enqueued spec fire ∧ (spec.job fire).id = id) ∨
      ∃ worker status, event = .settled worker id status ∧ status.terminal = false)

/-- What an event must not do for schedules to have one live job at most. -/
structure Admits (past : List Event) (event : Event) : Prop where
  /-- No `Tick` enqueues a job while another one was reported prematurely. -/
  enqueued : ∀ spec fire, event = .enqueued spec fire → ∀ other, other ≠ (spec.job fire).id →
    ¬ Premature spec.id other past
  /-- A job does not become live again while another one of its schedule is. -/
  revived : ∀ id, event.Revives past id → ∀ scheduleID other, id ∈ enqueuedFor scheduleID past →
    other ≠ id → ¬ LiveFor scheduleID other past

def Always (admits : List Event → Event → Prop) : List Event → Prop
  | [] => True
  | event :: past => Always admits past ∧ admits past event

section
variable {past : List Event} {event : Event}

theorem SoleBy.keep (sole : SoleBy past)
    (hEnqueued : ∀ scheduleID id, id ∈ enqueuedFor scheduleID (event :: past) → id ∈ enqueuedFor scheduleID past)
    (hLive : ∀ id, scheduled id → liveBy id (event :: past) = some true → liveBy id past = some true) :
    SoleBy (event :: past) := by
  intro scheduleID id other hID hOther
  exact sole scheduleID id other
    ⟨hEnqueued _ _ hID.1, hLive id (scheduled_of_enqueued hID.1) hID.2⟩
    ⟨hEnqueued _ _ hOther.1, hLive other (scheduled_of_enqueued hOther.1) hOther.2⟩

theorem sole_iff_alone (id : String)
    (hOthers : ∀ scheduleID other, other ≠ id →
      (LiveFor scheduleID other (event :: past) ↔ LiveFor scheduleID other past))
    (sole : SoleBy past) :
    SoleBy (event :: past) ↔ ∀ scheduleID other, other ≠ id →
      LiveFor scheduleID id (event :: past) → ¬ LiveFor scheduleID other past := by
  constructor
  · intro soleAfter scheduleID other hOther hThis live
    exact hOther (soleAfter scheduleID other id ((hOthers scheduleID other hOther).mpr live) hThis)
  · intro hAlone scheduleID first second hFirst hSecond
    by_cases hThis : first = id
    · subst hThis
      by_contra hNe
      exact hAlone scheduleID second (Ne.symm hNe) hFirst ((hOthers scheduleID second (Ne.symm hNe)).mp hSecond)
    · have hWas := (hOthers scheduleID first hThis).mp hFirst
      by_cases hThat : second = id
      · subst hThat
        exact absurd hWas (hAlone scheduleID first hThis hSecond)
      · exact sole scheduleID first second hWas ((hOthers scheduleID second hThat).mp hSecond)

variable {spec : Schedule} {fire : Time}

theorem mem_enqueuedFor_cons {scheduleID id : String} :
    id ∈ enqueuedFor scheduleID (.enqueued spec fire :: past) ↔
      (spec.id = scheduleID ∧ id = (spec.job fire).id) ∨ id ∈ enqueuedFor scheduleID past := by
  rw [enqueuedFor]
  by_cases hSchedule : spec.id = scheduleID <;> simp [hSchedule]

theorem premature_of_enqueue (lawful : Lawful past) {other : String}
    (legal : Legal past (.enqueued spec fire)) (live : LiveFor spec.id other past) :
    Premature spec.id other past := by
  rcases inflight_or_reported lawful live.1 with hInflight | hReported | hPending
  · exact absurd (hInflight.symm.trans legal.2) (by simp)
  · exact ⟨live, hReported⟩
  · exact absurd (hPending.symm.trans legal.1) (by simp)

theorem sole_enqueued_iff (lawful : Lawful past) (spec : Schedule) (fire : Time)
    (legal : Legal past (.enqueued spec fire)) (sole : SoleBy past) :
    SoleBy (.enqueued spec fire :: past) ↔ Admits past (.enqueued spec fire) := by
  have hThis : ∀ {scheduleID}, LiveFor scheduleID (spec.job fire).id (.enqueued spec fire :: past) ↔
      spec.id = scheduleID ∨ (spec.job fire).id ∈ enqueuedFor scheduleID past := by
    intro scheduleID
    simp [LiveFor, mem_enqueuedFor_cons, leaves]
  rw [sole_iff_alone (spec.job fire).id ?_ sole]
  · constructor
    · intro hAlone
      constructor
      · rintro _ _ ⟨⟩ other hOther premature
        exact hAlone spec.id other hOther (hThis.mpr (Or.inl rfl)) premature.1
      · rintro id ⟨-, ⟨_, _, ⟨⟩, rfl⟩ | ⟨_, _, ⟨⟩, -⟩⟩ scheduleID other hIn hOther
        exact hAlone scheduleID other hOther (hThis.mpr (Or.inr hIn))
    · intro admits scheduleID other hOther hNow live
      rcases hThis.mp hNow with rfl | hIn
      · exact admits.enqueued spec fire rfl other hOther (premature_of_enqueue lawful legal live)
      · by_cases hWas : liveBy (spec.job fire).id past = some true
        · exact hOther (sole scheduleID _ _ live ⟨hIn, hWas⟩)
        · exact admits.revived _ ⟨hWas, Or.inl ⟨spec, fire, rfl, rfl⟩⟩ scheduleID other hIn hOther live
  · intro scheduleID other hOther
    simp [LiveFor, mem_enqueuedFor_cons, leaves, hOther, Ne.symm hOther]

theorem sole_settled_iff (worker : Nat) (jobID : String) (status : JobStatus) (sole : SoleBy past) :
    SoleBy (.settled worker jobID status :: past) ↔ Admits past (.settled worker jobID status) := by
  have hThis : ∀ {scheduleID}, LiveFor scheduleID jobID (.settled worker jobID status :: past) ↔
      jobID ∈ enqueuedFor scheduleID past ∧ status.terminal = false := by
    intro scheduleID
    simp [LiveFor, enqueuedFor, leaves]
  rw [sole_iff_alone jobID ?_ sole]
  · constructor
    · intro hAlone
      constructor
      · rintro _ _ ⟨⟩
      · rintro id ⟨-, ⟨_, _, ⟨⟩, -⟩ | ⟨_, _, ⟨⟩, hStatus⟩⟩ scheduleID other hIn hOther
        exact hAlone scheduleID other hOther (hThis.mpr ⟨hIn, hStatus⟩)
    · intro admits scheduleID other hOther hNow live
      obtain ⟨hIn, hStatus⟩ := hThis.mp hNow
      by_cases hWas : liveBy jobID past = some true
      · exact hOther (sole scheduleID _ _ live ⟨hIn, hWas⟩)
      · exact admits.revived _ ⟨hWas, Or.inr ⟨worker, status, rfl, hStatus⟩⟩ scheduleID other hIn hOther live
  · intro scheduleID other hOther
    simp [LiveFor, enqueuedFor, leaves, Ne.symm hOther]

theorem admits_of_other (hEnqueued : ∀ spec fire, event ≠ .enqueued spec fire)
    (hSettled : ∀ worker jobID status, event ≠ .settled worker jobID status) :
    Admits past event where
  enqueued spec fire hEvent := absurd hEvent (hEnqueued spec fire)
  revived id := by
    rintro ⟨-, ⟨spec, fire, hEvent, -⟩ | ⟨worker, status, hEvent, -⟩⟩
    · exact absurd hEvent (hEnqueued spec fire)
    · exact absurd hEvent (hSettled worker id status)

theorem sole_cons_iff (lawful : Lawful past) (legal : Legal past event) (sole : SoleBy past) :
    SoleBy (event :: past) ↔ Admits past event := by
  cases event with
  | enqueued spec fire => exact sole_enqueued_iff lawful spec fire legal sole
  | settled worker jobID status => exact sole_settled_iff worker jobID status sole
  | booted specs =>
    refine iff_of_true ?_ (admits_of_other (fun _ _ h => by cases h) fun _ _ _ h => by cases h)
    intro _ _ _ hNone
    exact absurd hNone.1 not_mem_nil
  | interrupted jobID =>
    refine iff_of_true ?_ (admits_of_other (fun _ _ h => by cases h) fun _ _ _ h => by cases h)
    intro scheduleID id _ hNone
    exact absurd ((legal.1 scheduleID) ▸ hNone.1) not_mem_nil
  | leased worker jobID =>
    refine iff_of_true (sole.keep (fun _ _ hIn => hIn) ?_) (admits_of_other (fun _ _ h => by cases h) fun _ _ _ h => by cases h)
    intro id hScheduled hLive
    by_cases hID : jobID = id
    · exact hID ▸ legal (hID ▸ hScheduled)
    · simpa [leaves, hID] using hLive
  | recovered jobIDs =>
    refine iff_of_true (sole.keep (fun _ _ hIn => hIn) ?_) (admits_of_other (fun _ _ h => by cases h) fun _ _ _ h => by cases h)
    intro id hScheduled hLive
    by_cases hIn : id ∈ jobIDs
    · exact legal id hIn hScheduled
    · simpa [leaves, hIn] using hLive
  | marked | reported | selected =>
    exact iff_of_true (sole.keep (fun _ _ hIn => hIn) fun _ _ hLive => hLive)
      (admits_of_other (fun _ _ h => by cases h) fun _ _ _ h => by cases h)

end

namespace Runtime
variable {kind : QueueKind} {s : Runtime kind}

/-- At most one job the process has enqueued for a schedule is in a state of the queue
that is not terminal. -/
def Sole (s : Runtime kind) : Prop :=
  ∀ scheduleID id other, id ∈ enqueuedFor scheduleID s.past → other ∈ enqueuedFor scheduleID s.past →
    (∃ j, s.job id = some j ∧ j.terminal = false) →
    (∃ j, s.job other = some j ∧ j.terminal = false) → id = other

theorem Sound.live_iff (sound : s.Sound) {scheduleID id : String} (hIn : id ∈ enqueuedFor scheduleID s.past) :
    (∃ j, s.job id = some j ∧ j.terminal = false) ↔ liveBy id s.past = some true := by
  rw [← sound.known id (scheduled_of_enqueued hIn)]
  simp [liveIn, Runtime.job]

theorem Sound.sole_iff (sound : s.Sound) : s.Sole ↔ SoleBy s.past := by
  constructor
  · intro sole scheduleID id other hID hOther
    exact sole scheduleID id other hID.1 hOther.1 ((sound.live_iff hID.1).mpr hID.2)
      ((sound.live_iff hOther.1).mpr hOther.2)
  · intro sole scheduleID id other hIn hOther hLive hAlso
    exact sole scheduleID id other ⟨hIn, (sound.live_iff hIn).mp hLive⟩ ⟨hOther, (sound.live_iff hOther).mp hAlso⟩

theorem step_past (system : System) (s : Runtime kind) (now : Time) (action : Action) :
    (s.step system now action).past = s.past ∨ ∃ event, (s.step system now action).past = event :: s.past := by
  cases action with
  | run =>
    simp only [step, runStep]
    split
    · split
      · exact Or.inr ⟨_, rfl⟩
      · exact Or.inl rfl
    · exact Or.inl rfl
    · split
      · exact Or.inr ⟨_, rfl⟩
      · exact Or.inl rfl
    · exact Or.inl rfl
    · exact Or.inl rfl
    · split <;> exact Or.inl rfl
    · split <;> exact Or.inl rfl
    · split
      · exact Or.inr ⟨_, rfl⟩
      · exact Or.inl rfl
    · exact Or.inl rfl
    · exact Or.inr ⟨_, rfl⟩
  | boot => exact Or.inr ⟨_, rfl⟩
  | _ =>
    refine (step_sameSchedule rfl).past.imp_right ?_
    rintro ⟨event, -, hPast⟩
    exact ⟨event, hPast⟩

/-- In every run, at every moment of it, a schedule has one live job at most exactly if
no `Tick` enqueues another job of a schedule after a premature report, and no job that was
done gets another attempt, or is enqueued once more, next to a live one. -/
theorem sole_live_job_iff (kind : QueueKind) (system : System) (actions : List (Time × Action)) :
    (∀ before, before <+: actions → (run kind system before).Sole) ↔
      Always Admits (run kind system actions).past := by
  induction actions using List.reverseRecOn with
  | nil =>
    refine iff_of_true ?_ trivial
    intro before hPrefix scheduleID id _ hIn
    rw [prefix_nil.mp hPrefix] at hIn
    exact absurd hIn not_mem_nil
  | append_singleton actions timed ih =>
    have sound := sound_run kind system actions
    have soundAfter := sound_run kind system (actions ++ [timed])
    have hSplit : (∀ before, before <+: actions ++ [timed] → (run kind system before).Sole) ↔
        Always Admits (run kind system actions).past ∧ (run kind system (actions ++ [timed])).Sole := by
      simp only [prefix_concat_iff, or_imp, forall_and, forall_eq, ih, and_comm]
    rw [hSplit, soundAfter.sole_iff]
    have hSole : Always Admits (run kind system actions).past →
        SoleBy (run kind system actions).past := fun hAlways =>
      sound.sole_iff.mp (ih.mpr hAlways actions prefix_rfl)
    have hLawful := soundAfter.lawful
    rcases step_past system (run kind system actions) timed.1 timed.2 with hSame | ⟨event, hEvent⟩
    · rw [run_snoc, hSame]
      exact ⟨And.left, fun hAlways => ⟨hAlways, hSole hAlways⟩⟩
    · rw [run_snoc, hEvent] at hLawful ⊢
      cases hLawful with
      | cons lawful legal =>
        exact and_congr_right fun hAlways => sole_cons_iff lawful legal (hSole hAlways)

end Runtime

namespace Sample

def location : Location where
  civil _ := ⟨1970, 1, 1, 0, 0, 0, 4⟩
  date _ _ _ _ _ _ := 0

def system : System where
  parseCron _ := none
  utc := location
  localZone := location
  zone _ := none

def everyMinute : Schedule where
  id := "nightly"
  sourceID := "orders"
  operation := "logical_backup"
  everySeconds := 60

def times (n : Nat) (seconds : Int) (action : Action) : List (Time × Action) :=
  List.replicate n (Queue.Sample.clock seconds, action)

def fired : List (Time × Action) := times 1 0 (.boot [everyMinute] 1) ++ times 9 0 .run

def retried : List (Time × Action) :=
  fired ++ times 1 1 (.lease 0 fun _ => 0) ++ times 1 2 (.settle 0 (.error "no space left")) ++
    times 1 2 (.report 0) ++ times 7 60 .run

/-- The process is started again in the same window. A worker has settled the job before
`Tick` enqueues it once more, and reports it after that. -/
def restarted : List (Time × Action) :=
  fired ++ times 1 10 (.boot [everyMinute] 1) ++ times 3 10 .run ++ times 1 11 (.lease 0 fun _ => 0) ++
    times 1 12 (.settle 0 (.ok [])) ++ times 7 13 .run ++ times 1 14 (.report 0) ++ times 7 60 .run

def jobsOf {kind : QueueKind} (s : Runtime kind) : List (String × Option JobStatus) :=
  (enqueuedFor everyMinute.id s.past).map fun id => (id, (s.job id).map (·.status))

theorem two_live_jobs :
    jobsOf (Runtime.run .memory system retried) =
        [("sched-nightly-1700000040", some .pending), ("sched-nightly-1699999980", some .retrying)] ∧
      jobsOf (Runtime.run .durable system restarted) =
        [("sched-nightly-1700000040", some .pending), ("sched-nightly-1699999980", some .pending)] := by
  decide +kernel

end Sample

/-- The `Enqueue` of the job for the schedule. -/
def Event.enqueues (scheduleID id : String) : Event → Bool
  | .enqueued spec fire => spec.id = scheduleID ∧ (spec.job fire).id = id
  | _ => false

def Event.unmarks (scheduleID id : String) : Event → Bool
  | .booted _ => true
  | .marked other _ => other = scheduleID
  | .reported _ jobID => jobID = id
  | _ => false

def sinceEnqueued (scheduleID id : String) (past : List Event) : List Event :=
  past.takeWhile fun event => !event.enqueues scheduleID id

/-- A worker has settled the job and has called `Settle` for it. -/
def SettledIn (id : String) (events : List Event) : Prop :=
  ∃ worker status, [.reported worker id, .settled worker id status].Sublist events

section
variable {later earlier past : List Event} {scheduleID id : String}

theorem inflightBy_cons_eq_some {event : Event} :
    inflightBy scheduleID (event :: past) = some id ↔
      event = .marked scheduleID id ∨
        (event.unmarks scheduleID id = false ∧ inflightBy scheduleID past = some id) := by
  cases event with
  | marked other jobID => by_cases hSchedule : other = scheduleID <;> simp [inflightBy, unmarks, hSchedule]
  | reported worker jobID => by_cases hJob : jobID = id <;> grind [inflightBy, unmarks]
  | _ => simp [inflightBy, unmarks]

theorem inflightBy_eq_some : inflightBy scheduleID past = some id ↔
    ∃ later earlier, past = later ++ .marked scheduleID id :: earlier ∧
      ∀ event ∈ later, event.unmarks scheduleID id = false := by
  induction past with
  | nil => simp [inflightBy]
  | cons event past ih =>
    rw [inflightBy_cons_eq_some, ih]
    constructor
    · rintro (rfl | ⟨hKept, later, earlier, rfl, hLater⟩)
      · exact ⟨[], past, rfl, by simp⟩
      · exact ⟨event :: later, earlier, rfl, by simpa [hKept] using hLater⟩
    · rintro ⟨later, earlier, hPast, hLater⟩
      cases later with
      | nil => exact Or.inl (List.cons.inj hPast).1
      | cons first later =>
        obtain ⟨rfl, rfl⟩ := List.cons.inj hPast
        exact Or.inr ⟨hLater _ (by simp), later, earlier, rfl, fun e hIn => hLater e (by simp [hIn])⟩

theorem enqueues_of_marked (lawful : Lawful (later ++ .marked scheduleID id :: earlier))
    (hLater : ∀ event ∈ later, event.unmarks scheduleID id = false) :
    ∀ event ∈ later, event.enqueues scheduleID id = false := by
  induction later with
  | nil => simp
  | cons first later ih =>
    cases lawful with
    | cons lawful legal =>
      have hRest : ∀ event ∈ later, event.unmarks scheduleID id = false :=
        fun event hIn => hLater event (by simp [hIn])
      intro event hIn
      rcases mem_cons.mp hIn with rfl | hIn
      · cases event with
        | enqueued spec fire =>
          have hMarked := inflightBy_eq_some.mpr ⟨later, earlier, rfl, hRest⟩
          have hSchedule : spec.id ≠ scheduleID := by
            rintro rfl
            exact absurd (hMarked.symm.trans legal.2) (by simp)
          simp [enqueues, hSchedule]
        | _ => rfl
      · exact ih lawful hRest event hIn

theorem settledIn_of_marked (lawful : Lawful (later ++ .marked scheduleID id :: earlier))
    (hLater : ∀ event ∈ later, event.unmarks scheduleID id = false) :
    SettledIn id (sinceEnqueued scheduleID id (later ++ .marked scheduleID id :: earlier)) ↔
      SettledIn id (sinceEnqueued scheduleID id earlier) := by
  have hNone := enqueues_of_marked lawful hLater
  have hSince : sinceEnqueued scheduleID id (later ++ .marked scheduleID id :: earlier) =
      later ++ .marked scheduleID id :: sinceEnqueued scheduleID id earlier := by
    unfold sinceEnqueued
    rw [takeWhile_append_of_pos (by simpa using hNone), takeWhile_cons_of_pos rfl]
  rw [hSince]
  constructor
  · rintro ⟨worker, status, hPair⟩
    refine ⟨worker, status, ?_⟩
    have hReported : Event.reported worker id ∉ later := by
      intro hIn
      simpa [unmarks] using hLater _ hIn
    rcases sublist_append_iff.mp hPair with ⟨first, second, hSplit, hFirst, hSecond⟩
    cases first with
    | nil =>
      rw [nil_append] at hSplit
      subst hSplit
      exact (sublist_cons_iff.mp hSecond).resolve_right (by simp)
    | cons event first =>
      obtain ⟨rfl, -⟩ := List.cons.inj hSplit
      exact absurd (hFirst.subset (by simp)) hReported
  · rintro ⟨worker, status, hPair⟩
    exact ⟨worker, status, (hPair.cons _).trans (sublist_append_right later _)⟩

end

/-- In every state of every run, the entry of a schedule does not name a job that was
settled since it was enqueued exactly if no worker has settled and reported it before `Tick`
came from `Enqueue` to the mark that the entry is from. -/
theorem Runtime.inflight_unsettled_iff (kind : QueueKind) (system : System) (actions : List (Time × Action)) :
    (∀ scheduleID id, (run kind system actions).scheduler.inflight scheduleID = some id →
        ¬ SettledIn id (sinceEnqueued scheduleID id (run kind system actions).past)) ↔
      ∀ scheduleID id later earlier,
        (run kind system actions).past = later ++ .marked scheduleID id :: earlier →
        (∀ event ∈ later, event.unmarks scheduleID id = false) →
        ¬ SettledIn id (sinceEnqueued scheduleID id earlier) := by
  have sound := sound_run kind system actions
  constructor
  · intro hUnsettled scheduleID id later earlier hPast hLater
    have hMarked := inflightBy_eq_some.mpr ⟨later, earlier, hPast, hLater⟩
    have hNot := hUnsettled scheduleID id ((sound.inflight scheduleID).trans hMarked)
    rwa [hPast, settledIn_of_marked (hPast ▸ sound.lawful) hLater] at hNot
  · intro hBefore scheduleID id hInflight
    obtain ⟨later, earlier, hPast, hLater⟩ :=
      inflightBy_eq_some.mp ((sound.inflight scheduleID).symm.trans hInflight)
    rw [hPast, settledIn_of_marked (hPast ▸ sound.lawful) hLater]
    exact hBefore scheduleID id later earlier hPast hLater

namespace Sample

/-- The job is settled and reported before `Tick` has marked it. -/
def overtaken : List (Time × Action) :=
  times 1 0 (.boot [everyMinute] 1) ++ times 6 0 .run ++ times 1 1 (.lease 0 fun _ => 0) ++
    times 1 2 (.settle 0 (.ok [])) ++ times 1 2 (.report 0) ++ times 3 3 .run

/-- The schedule stays marked for the job that is done, and the next window enqueues
nothing. -/
theorem stuck_schedule :
    let s := Runtime.run .durable system overtaken
    let next := Runtime.run .durable system (overtaken ++ times 4 60 .run)
    s.phase.idle ∧ s.scheduler.inflight everyMinute.id = some "sched-nightly-1699999980" ∧
      SettledIn "sched-nightly-1699999980" (sinceEnqueued everyMinute.id "sched-nightly-1699999980" s.past) ∧
      jobsOf s = [("sched-nightly-1699999980", some .succeeded)] ∧
      next.phase.idle ∧ jobsOf next = jobsOf s := by
  refine ⟨by decide +kernel, by decide +kernel, ⟨0, .succeeded, ?_⟩, by decide +kernel,
    by decide +kernel, by decide +kernel⟩
  decide +kernel

end Sample

end DBVault.Scheduling
