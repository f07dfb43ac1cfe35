import DBVault.Scheduler.InFlight
import Mathlib.Data.Finset.Dedup
import Mathlib.Data.Finset.Order

/-! The occurrences of schedules over the processes that share a durable queue: what a
cron schedule has fired it does not fire again, and how a job that has succeeded can come
to be leased once more. -/
namespace DBVault.Scheduling
open Option List Queue Phase

def specsBy : List Event → List Schedule
  | [] => []
  | .booted specs :: _ => specs
  | _ :: past => specsBy past

def CronOnly (scheduleID : String) (specs : List Schedule) : Prop :=
  ∀ spec ∈ specs, spec.id = scheduleID → spec.cron ≠ ""

namespace Scheduler
variable {s : Scheduler} {system : System} {spec : Schedule} {now fire : Time}

def firedUpTo (s : Scheduler) (scheduleID : String) : Time :=
  if s.lastFire scheduleID = Time.zero then s.baseline scheduleID else s.lastFire scheduleID

/-- What `dueFire` answers is not later than the `Tick`. The time of a cron schedule is
later than those it has fired at, and on a whole second. -/
structure Due (s : Scheduler) (spec : Schedule) (now fire : Time) : Prop where
  le : fire ≤ now
  later : spec.cron ≠ "" → s.firedUpTo spec.id < fire
  nonzero : spec.cron ≠ "" → fire ≠ Time.zero
  whole : spec.cron ≠ "" → ∃ seconds, fire = ofUnix seconds

theorem due_of_dueFire (hDue : s.dueFire system spec now = some fire) : s.Due spec now fire := by
  unfold dueFire at hDue
  split at hDue
  · split at hDue
    · cases hDue
    · rename_i e _
      dsimp only at hDue
      split at hDue
      · cases hDue
      · rename_i hNext
        obtain ⟨hZero, hNow⟩ := not_or.mp hNext
        obtain rfl := Option.some.inj hDue
        obtain ⟨hFrom, hWhole⟩ := e.nextAfter_spec _ _ hZero
        have hLe := not_lt.mp hNow
        refine ⟨hLe, fun _ => ?_, fun _ => hZero, fun _ => hWhole⟩
        unfold firedUpTo
        split
        · rename_i hLast
          by_cases hBaseline : s.baseline spec.id = Time.zero
          · -- Without a baseline the search starts at the `Tick`, and finds nothing due.
            have hNow : s.searchFrom spec.id now = now := by simp [searchFrom, hLast, hBaseline]
            exact absurd hFrom (not_lt.mpr (hLe.trans_eq hNow.symm))
          · simpa [searchFrom, hLast, hBaseline] using hFrom
        · rename_i hLast
          simpa [searchFrom, hLast] using hFrom
  · rename_i hCron
    dsimp only at hDue
    split at hDue
    · cases hDue
    · split at hDue
      · cases hDue
      · obtain rfl := Option.some.inj hDue
        exact ⟨truncate_le now _, fun h => absurd h hCron, fun h => absurd h hCron, fun h => absurd h hCron⟩

theorem new_specs (system : System) (specs : List Schedule) (now : Time) :
    (new system specs now).specs = specs := by
  refine new_keeps (·.specs) ?_ specs
  intro s spec
  unfold register
  split <;> rfl

theorem new_lastFire (system : System) (specs : List Schedule) (now : Time) :
    (new system specs now).lastFire = fun _ => Time.zero := by
  refine new_keeps (·.lastFire) ?_ specs
  intro s spec
  unfold register
  split <;> rfl

theorem new_baseline {specs : List Schedule} (hIn : spec ∈ specs) (hCron : spec.cron ≠ "")
    (system : System) (now : Time) : (new system specs now).baseline spec.id = now := by
  suffices hFold : ∀ s : Scheduler, (s.baseline spec.id = now ∨ spec ∈ specs) →
      (specs.foldl (register system now) s).baseline spec.id = now from hFold _ (Or.inr hIn)
  clear hIn
  induction specs with
  | nil => exact fun s h => h.resolve_right not_mem_nil
  | cons first rest ih =>
    intro s hSet
    refine ih _ ?_
    rw [register]
    rcases hSet with hSet | hIn
    · left
      split
      · exact hSet
      · by_cases hID : spec.id = first.id
        · simp [hID]
        · simpa [hID] using hSet
    · rcases mem_cons.mp hIn with rfl | hIn
      · left
        rw [if_neg hCron]
        simp
      · exact Or.inr hIn

end Scheduler

/-- The `Enqueue` is not of a job that was enqueued before for the same schedule, if that
is a cron schedule. -/
def Fresh (past : List Event) (event : Event) : Prop :=
  ∀ spec fire, event = .enqueued spec fire → CronOnly spec.id (specsBy past) →
    ∀ other before, .enqueued other before ∈ past → other.id = spec.id →
      (other.job before).id ≠ (spec.job fire).id

/-- The event is neither the start of a process nor an `Enqueue`. -/
def Event.quiet : Event → Bool
  | .booted _ | .enqueued .. => false
  | _ => true

theorem specsBy_quiet (hQuiet : event.quiet) (past : List Event) : specsBy (event :: past) = specsBy past := by
  cases event <;> first | rfl | cases hQuiet

theorem fresh_quiet (hQuiet : event.quiet) (past : List Event) : Fresh past event := by
  rintro spec fire rfl
  cases hQuiet

theorem quiet_of_worker {event : Event} (hWorker : event.byWorker) : event.quiet := by
  cases event <;> first | rfl | cases hWorker

theorem job_ne_of_lt {spec other : Schedule} {before : Time} {seconds : Int} (hID : other.id = spec.id)
    (hLess : before < ofUnix seconds) : (other.job before).id ≠ (spec.job (ofUnix seconds)).id := by
  have hSeconds : ∀ m n : Int, m < n * 1000000000 → m / 1000000000 ≠ n * 1000000000 / 1000000000 := by omega
  intro hSame
  have hText : toString (before / Time.nanosPerSecond) = toString (ofUnix seconds / Time.nanosPerSecond) := by
    simpa [Schedule.job, jobForFire, hID] using hSame
  refine hSeconds before seconds hLess (Text.decimalChars_injective ?_)
  exact (Text.toList_toString _).symm.trans ((congrArg String.toList hText).trans (Text.toList_toString _))

def Phase.setsLastFire : Phase → Bool
  | .setLastFire .. => true
  | _ => false

/-- What is known of the step of a `Tick` that comes next. -/
def Phase.Timely (clock : Time) (s : Scheduler) : Phase → Prop
  | .dueCheck time rest => time ≤ clock ∧ rest ⊆ s.specs
  | .liveCheck time spec fire rest | .enqueue time spec fire rest =>
    time ≤ clock ∧ spec :: rest ⊆ s.specs ∧ s.Due spec time fire
  | .setLastFire time spec fire rest => time ≤ clock ∧ spec :: rest ⊆ s.specs ∧ (spec.cron ≠ "" → fire ≠ Time.zero)
  | .markInflight time spec _ rest => time ≤ clock ∧ spec :: rest ⊆ s.specs
  | _ => True

theorem Phase.Timely.mono {phase : Phase} {s : Scheduler} {clock now : Time}
    (timely : phase.Timely clock s) (hClock : clock ≤ now) : phase.Timely now s := by
  cases phase with
  | starting | recovering | waiting => trivial
  | dueCheck | liveCheck | enqueue | setLastFire | markInflight => exact ⟨timely.1.trans hClock, timely.2⟩

namespace Runtime
variable {kind : QueueKind} {s next : Runtime kind} {system : System} {clock now : Time}

/-- The time up to which a schedule has fired, also while `Tick` has not set it yet. -/
def firedUpTo (s : Runtime kind) (scheduleID : String) : Time :=
  match s.phase with
  | .setLastFire _ spec fire _ => if spec.id = scheduleID then fire else s.scheduler.firedUpTo scheduleID
  | _ => s.scheduler.firedUpTo scheduleID

/-- No fire is later than the clock, and a cron schedule has fired in order. -/
structure Timely (clock : Time) (s : Runtime kind) : Prop where
  specs : s.scheduler.specs = specsBy s.past
  fires : ∀ spec fire, .enqueued spec fire ∈ s.past → fire ≤ clock
  ordered : ∀ cron ∈ s.scheduler.specs, CronOnly cron.id s.scheduler.specs →
    ∀ spec fire, .enqueued spec fire ∈ s.past → spec.id = cron.id → fire ≤ s.firedUpTo cron.id
  phase : s.phase.Timely clock s.scheduler
  fresh : Always Fresh s.past

theorem Timely.mono (timely : s.Timely clock) (hClock : clock ≤ now) : s.Timely now :=
  { timely with
    fires := fun spec fire hIn => (timely.fires spec fire hIn).trans hClock
    phase := timely.phase.mono hClock }

theorem Timely.quiet (timely : s.Timely clock)
    (hSpecs : next.scheduler.specs = s.scheduler.specs)
    (hFired : ∀ cron ∈ s.scheduler.specs, CronOnly cron.id s.scheduler.specs →
      next.firedUpTo cron.id = s.firedUpTo cron.id)
    (hPast : next.past = s.past ∨ ∃ event, event.quiet ∧ next.past = event :: s.past)
    (hPhase : next.phase.Timely clock next.scheduler) : next.Timely clock := by
  have hEnqueued : ∀ spec fire, .enqueued spec fire ∈ next.past → .enqueued spec fire ∈ s.past := by
    intro spec fire hIn
    rcases hPast with hSame | ⟨event, hQuiet, hEvent⟩
    · rwa [hSame] at hIn
    · rw [hEvent] at hIn
      rcases mem_cons.mp hIn with rfl | hIn
      · cases hQuiet
      · exact hIn
  refine ⟨?_, fun spec fire hIn => timely.fires spec fire (hEnqueued spec fire hIn), ?_, hPhase, ?_⟩
  · rcases hPast with hSame | ⟨event, hQuiet, hEvent⟩
    · rw [hSpecs, hSame, timely.specs]
    · rw [hSpecs, hEvent, specsBy_quiet hQuiet, timely.specs]
  · intro cron hCron hOnly spec fire hIn hID
    rw [hSpecs] at hCron hOnly
    rw [hFired cron hCron hOnly]
    exact timely.ordered cron hCron hOnly spec fire (hEnqueued spec fire hIn) hID
  · rcases hPast with hSame | ⟨event, hQuiet, hEvent⟩
    · rw [hSame]
      exact timely.fresh
    · rw [hEvent]
      exact ⟨timely.fresh, fresh_quiet hQuiet _⟩

theorem timely_start (clock : Time) : (start kind).Timely clock where
  specs := rfl
  fires _ _ h := absurd h not_mem_nil
  ordered _ h := absurd h not_mem_nil
  phase := trivial
  fresh := trivial

theorem Timely.worker (timely : s.Timely clock) (same : s.SameSchedule next) : next.Timely clock := by
  have hFiredUpTo : next.scheduler.firedUpTo = s.scheduler.firedUpTo := by
    funext scheduleID
    simp only [Scheduler.firedUpTo, same.lastFire, same.baseline]
  refine timely.quiet same.specs ?_ ?_ ?_
  · intro cron _ _
    simp only [firedUpTo, same.phase, hFiredUpTo]
  · refine same.past.imp_right ?_
    rintro ⟨event, hWorker, hPast⟩
    exact ⟨event, quiet_of_worker hWorker, hPast⟩
  · have hPhase := timely.phase
    rw [same.phase]
    cases hNow : s.phase with
    | starting | recovering | waiting => trivial
    | dueCheck | setLastFire | markInflight =>
      rw [hNow] at hPhase
      simpa [Phase.Timely, same.specs] using hPhase
    | liveCheck time spec fire rest | enqueue time spec fire rest =>
      rw [hNow] at hPhase
      obtain ⟨hTime, hSpecs, hDue⟩ := hPhase
      refine ⟨hTime, same.specs.symm ▸ hSpecs, ?_⟩
      exact { hDue with later := fun hCron => hFiredUpTo.symm ▸ hDue.later hCron }

theorem Timely.boot (timely : s.Timely now) (specs : List Schedule) (workers : Int) :
    (s.step system now (.boot specs workers)).Timely now where
  specs := Scheduler.new_specs system specs now
  fires spec fire hIn := timely.fires spec fire (by simpa [step] using hIn)
  ordered cron hCron hOnly spec fire hIn _ := by
    have hSpecs := Scheduler.new_specs system specs now
    have hBaseline : (Scheduler.new system specs now).baseline cron.id = now :=
      Scheduler.new_baseline (hSpecs ▸ hCron) (hOnly cron hCron rfl) system now
    have hFired : (Scheduler.new system specs now).firedUpTo cron.id = now := by
      simp [Scheduler.firedUpTo, Scheduler.new_lastFire, hBaseline]
    exact (timely.fires spec fire (by simpa [step] using hIn)).trans_eq hFired.symm
  phase := trivial
  fresh := ⟨timely.fresh, fun _ _ h => Event.noConfusion h⟩

/-- `Enqueue` of a `Tick`: all that a cron schedule has fired at is before the new time. -/
theorem Timely.enqueued (timely : s.Timely clock) {time fire : Time} {spec : Schedule}
    {rest : List Schedule} (hPhase : s.phase = .enqueue time spec fire rest) :
    (((s.call now (.enqueue (spec.job fire))).note (.enqueued spec fire)).enter
      (.setLastFire time spec fire rest)).Timely clock := by
  have hTimely := timely.phase
  rw [hPhase] at hTimely
  obtain ⟨hTime, hSpecs, hDue⟩ := hTimely
  have hSpec : spec ∈ s.scheduler.specs := hSpecs (by simp)
  have hBefore : CronOnly spec.id s.scheduler.specs → ∀ other before,
      .enqueued other before ∈ s.past → other.id = spec.id → before < fire := by
    intro hOnly other before hIn hID
    have hLe := timely.ordered spec hSpec hOnly other before hIn hID
    simp only [firedUpTo, hPhase] at hLe
    exact lt_of_le_of_lt hLe (hDue.later (hOnly spec hSpec rfl))
  refine ⟨timely.specs, ?_, ?_, ⟨hTime, hSpecs, hDue.nonzero⟩, timely.fresh, ?_⟩
  · intro other before hIn
    rcases mem_cons.mp hIn with hNew | hIn
    · obtain ⟨rfl, rfl⟩ := Event.enqueued.inj hNew
      exact hDue.le.trans hTime
    · exact timely.fires other before hIn
  · intro cron hCron hOnly other before hIn hID
    by_cases hSame : spec.id = cron.id
    · have hFire : (((s.call now (.enqueue (spec.job fire))).note (.enqueued spec fire)).enter
          (.setLastFire time spec fire rest)).firedUpTo cron.id = fire := by
        simp [firedUpTo, Runtime.enter, hSame]
      rw [hFire]
      rcases mem_cons.mp hIn with hNew | hIn
      · exact (Event.enqueued.inj hNew).2.le
      · exact (hBefore (hSame ▸ hOnly) other before hIn (hID.trans hSame.symm)).le
    · rcases mem_cons.mp hIn with hNew | hIn
      · exact absurd ((Event.enqueued.inj hNew).1 ▸ hID) hSame
      · have hLe := timely.ordered cron hCron hOnly other before hIn hID
        simp only [firedUpTo, hPhase] at hLe
        simpa [firedUpTo, Runtime.enter, note, Runtime.call, hSame] using hLe
  · intro _ _ hEvent hProcess other before hIn hID
    obtain ⟨rfl, rfl⟩ := Event.enqueued.inj hEvent
    have hOnly : CronOnly spec.id s.scheduler.specs := timely.specs ▸ hProcess
    have hLess := hBefore hOnly other before hIn hID
    obtain ⟨seconds, rfl⟩ := hDue.whole (hOnly spec hSpec rfl)
    exact job_ne_of_lt hID hLess

theorem firedUpTo_eq (hPhase : s.phase.setsLastFire = false) (scheduleID : String) :
    s.firedUpTo scheduleID = s.scheduler.firedUpTo scheduleID := by
  unfold firedUpTo
  split
  · rename_i hSet
    rw [hSet] at hPhase
    cases hPhase
  · rfl

theorem Timely.goesOn (timely : s.Timely clock) (hWas : s.phase.setsLastFire = false)
    (hNext : next.phase.setsLastFire = false) (hScheduler : next.scheduler = s.scheduler)
    (hPast : next.past = s.past ∨ ∃ event, event.quiet ∧ next.past = event :: s.past)
    (hPhase : next.phase.Timely clock s.scheduler) : next.Timely clock := by
  refine timely.quiet (congrArg (·.specs) hScheduler) ?_ hPast (hScheduler.symm ▸ hPhase)
  intro cron _ _
  rw [firedUpTo_eq hWas, firedUpTo_eq hNext, hScheduler]

theorem quiet_beginRecovery (queue : kind.model.State) (now : Time) : (beginRecovery kind queue now).1.quiet := by
  cases kind <;> rfl

theorem Timely.lastFireSet (timely : s.Timely clock) (hPhase : s.phase = .setLastFire time spec fire rest) :
    ({ s with scheduler := s.scheduler.setLastFire spec.id fire }.enter
      (.markInflight time spec fire rest)).Timely clock := by
  have hTimely := timely.phase
  rw [hPhase] at hTimely
  obtain ⟨hTime, hSpecs, hZero⟩ := hTimely
  refine timely.quiet rfl ?_ (Or.inl rfl) ⟨hTime, hSpecs⟩
  intro cron _ hOnly
  rw [firedUpTo_eq rfl, firedUpTo, hPhase]
  by_cases hSame : spec.id = cron.id
  · have hNonzero := hZero (hOnly spec (hSpecs (by simp)) hSame)
    simp [Runtime.enter, Scheduler.firedUpTo, Scheduler.setLastFire, hSame, hNonzero]
  · simp [Runtime.enter, Scheduler.firedUpTo, Scheduler.setLastFire, hSame, Ne.symm hSame]

theorem Timely.runStep (timely : s.Timely now) : (s.runStep system now).Timely now := by
  have hTimely := timely.phase
  unfold Runtime.runStep
  split
  · rename_i hPhase
    have hWas := congrArg setsLastFire hPhase
    split
    · exact timely.goesOn hWas rfl rfl (Or.inr ⟨_, quiet_beginRecovery s.queue now, rfl⟩) trivial
    · exact timely.goesOn hWas rfl rfl (Or.inl rfl) trivial
  · rename_i hPhase
    exact timely.goesOn (congrArg setsLastFire hPhase) rfl rfl (Or.inl rfl) trivial
  · rename_i hPhase
    have hWas := congrArg setsLastFire hPhase
    split
    · exact timely.goesOn hWas rfl rfl (Or.inr ⟨_, rfl, rfl⟩) trivial
    · exact timely.goesOn hWas rfl rfl (Or.inl rfl) trivial
  · rename_i hPhase
    exact timely.goesOn (congrArg setsLastFire hPhase) rfl rfl (Or.inl rfl) ⟨le_rfl, List.Subset.refl _⟩
  · rename_i hPhase
    exact timely.goesOn (congrArg setsLastFire hPhase) rfl rfl (Or.inl rfl) trivial
  · rename_i time spec rest hPhase
    have hWas := congrArg setsLastFire hPhase
    rw [hPhase] at hTimely
    split
    · exact timely.goesOn hWas rfl rfl (Or.inl rfl) ⟨hTimely.1, (cons_subset.mp hTimely.2).2⟩
    · rename_i fire hDue
      exact timely.goesOn hWas rfl rfl (Or.inl rfl) ⟨hTimely.1, hTimely.2, Scheduler.due_of_dueFire hDue⟩
  · rename_i time spec fire rest hPhase
    have hWas := congrArg setsLastFire hPhase
    rw [hPhase] at hTimely
    split
    · exact timely.goesOn hWas rfl rfl (Or.inl rfl) ⟨hTimely.1, (cons_subset.mp hTimely.2.1).2⟩
    · exact timely.goesOn hWas rfl rfl (Or.inl rfl) hTimely
  · rename_i time spec fire rest hPhase
    split
    · exact timely.enqueued hPhase
    · rw [hPhase] at hTimely
      exact timely.goesOn (congrArg setsLastFire hPhase) rfl rfl (Or.inl rfl)
        ⟨hTimely.1, (cons_subset.mp hTimely.2.1).2⟩
  · rename_i hPhase
    exact timely.lastFireSet hPhase
  · rename_i time spec fire rest hPhase
    rw [hPhase] at hTimely
    refine timely.quiet rfl ?_ (Or.inr ⟨_, rfl, rfl⟩) ⟨hTimely.1, (cons_subset.mp hTimely.2).2⟩
    intro cron _ _
    rw [firedUpTo_eq (congrArg setsLastFire hPhase), firedUpTo_eq rfl]
    rfl

def schedulingTimes (actions : List (Time × Action)) : List Time :=
  (actions.filter fun timed => timed.2.scheduling).map Prod.fst

theorem Timely.step (timely : s.Timely clock) (action : Action) (hClock : action.scheduling → clock ≤ now) :
    (s.step system now action).Timely (if action.scheduling then now else clock) := by
  cases action with
  | boot specs workers => exact (timely.mono (hClock rfl)).boot specs workers
  | run => exact (timely.mono (hClock rfl)).runStep
  | _ => exact timely.worker (step_sameSchedule rfl)

theorem timely_run (kind : QueueKind) (system : System) (hTimes : (schedulingTimes actions).Pairwise (· ≤ ·))
    (hClock : ∀ time ∈ schedulingTimes actions, time ≤ clock) : (run kind system actions).Timely clock := by
  induction actions using List.reverseRecOn generalizing clock with
  | nil => exact timely_start clock
  | append_singleton actions timed ih =>
    rw [run_snoc]
    by_cases hScheduling : timed.2.scheduling
    · have hSnoc : schedulingTimes (actions ++ [timed]) = schedulingTimes actions ++ [timed.1] := by
        simp [schedulingTimes, hScheduling]
      rw [hSnoc] at hTimes hClock
      obtain ⟨hTimes, -, hLast⟩ := pairwise_append.mp hTimes
      have hBefore : (run kind system actions).Timely timed.1 :=
        ih hTimes fun time hIn => hLast time hIn timed.1 (by simp)
      have hStep : ((run kind system actions).step system timed.1 timed.2).Timely timed.1 := by
        simpa [hScheduling] using hBefore.step timed.2 fun _ => le_rfl
      exact hStep.mono (hClock timed.1 (by simp))
    · have hSnoc : schedulingTimes (actions ++ [timed]) = schedulingTimes actions := by
        simp [schedulingTimes, hScheduling]
      rw [hSnoc] at hTimes hClock
      exact (ih hTimes hClock).worker (step_sameSchedule (by simpa using hScheduling))

end Runtime

/-- How a job that has succeeded comes to be live again: it is enqueued once more, which a
cron schedule does not do with a job of its own; a worker whose lease has passed fails it;
or a recovery writes back what it has read before. -/
def PutsBack (id : String) (past : List Event) : Event → Prop
  | .enqueued spec fire =>
    (spec.job fire).id = id ∧
      (CronOnly spec.id (specsBy past) →
        ∃ other before, .enqueued other before ∈ past ∧ (other.job before).id = id ∧ other.id ≠ spec.id)
  | .settled _ jobID status => jobID = id ∧ status.terminal = false
  | .interrupted jobID =>
    jobID = id ∧ ∃ later worker earlier, past = later ++ .settled worker id .succeeded :: earlier ∧
      ∀ event ∈ later, ∀ jobIDs, event ≠ .selected jobIDs
  | _ => False

section
variable {id : String} {past base : List Event}

def Known (id : String) (past : List Event) : Prop :=
  (liveBy id past).isSome ∨ ∃ jobIDs, .selected jobIDs ∈ past ∧ id ∈ jobIDs

theorem known_of_live {live : Bool} (hLive : liveBy id past = some live) : Known id past :=
  Or.inl (by simp [hLive])

theorem known_of_leaves {live : Bool} (legal : Legal past event)
    (hScheduled : scheduled id) (hLeaves : event.leaves id = some live) :
    (∃ spec fire, event = .enqueued spec fire ∧ (spec.job fire).id = id) ∨ Known id past := by
  cases event with
  | enqueued spec fire => exact Or.inl ⟨spec, fire, rfl, (ite_none_right_eq_some.mp hLeaves).1⟩
  | leased worker jobID =>
    obtain ⟨rfl, -⟩ := ite_none_right_eq_some.mp hLeaves
    exact Or.inr (known_of_live (legal hScheduled))
  | settled worker jobID status =>
    obtain ⟨rfl, -⟩ := ite_none_right_eq_some.mp hLeaves
    exact Or.inr (Or.inl (legal hScheduled))
  | interrupted jobID =>
    obtain ⟨rfl, -⟩ := ite_none_right_eq_some.mp hLeaves
    obtain ⟨later, jobIDs, earlier, rfl, hIn, -⟩ := legal.2
    exact Or.inr (Or.inr ⟨jobIDs, by simp, hIn⟩)
  | recovered jobIDs =>
    obtain ⟨hIn, -⟩ := ite_none_right_eq_some.mp hLeaves
    exact Or.inr (known_of_live (legal id hIn hScheduled))
  | booted | marked | reported | selected => cases hLeaves

theorem enqueued_of_known (lawful : Lawful past) (hScheduled : scheduled id) (known : Known id past) :
    ∃ spec fire, .enqueued spec fire ∈ past ∧ (spec.job fire).id = id := by
  induction lawful with
  | nil => simp [Known, liveBy] at known
  | @cons past event lawful legal ih =>
    have hCases : (∃ spec fire, event = .enqueued spec fire ∧ (spec.job fire).id = id) ∨ Known id past := by
      rcases known with hKnown | ⟨jobIDs, hSelected, hIn⟩
      · cases hLeaves : event.leaves id with
        | none => exact Or.inr (Or.inl (by simpa [hLeaves] using hKnown))
        | some live => exact known_of_leaves legal hScheduled hLeaves
      · rcases mem_cons.mp hSelected with rfl | hSelected
        · exact Or.inr (known_of_live (legal id hIn hScheduled))
        · exact Or.inr (Or.inr ⟨jobIDs, hSelected, hIn⟩)
    rcases hCases with ⟨spec, fire, rfl, hID⟩ | known
    · exact ⟨spec, fire, mem_cons_self, hID⟩
    · obtain ⟨spec, fire, hIn, hID⟩ := ih known
      exact ⟨spec, fire, mem_cons_of_mem event hIn, hID⟩

theorem first_revival (hDead : liveBy id base = some false) (events : List Event) :
    (∃ later event earlier, events = later ++ event :: earlier ∧ event.leaves id = some true ∧
        ∀ rest, rest <:+ earlier → liveBy id (rest ++ base) = some false) ∨
      ∀ rest, rest <:+ events → liveBy id (rest ++ base) = some false := by
  induction events with
  | nil =>
    right
    intro rest hRest
    rw [suffix_nil.mp hRest]
    exact hDead
  | cons event events ih =>
    rcases ih with ⟨later, first, earlier, rfl, hFirst⟩ | hStays
    · exact Or.inl ⟨event :: later, first, earlier, rfl, hFirst⟩
    · have hNow := hStays events suffix_rfl
      have hCons : event.leaves id ≠ some true → liveBy id (event :: events ++ base) = some false := by
        intro hNot
        cases hLeaves : event.leaves id with
        | none => simpa [hLeaves] using hNow
        | some live =>
          cases live with
          | true => exact absurd hLeaves hNot
          | false => simp [hLeaves]
      by_cases hLeaves : event.leaves id = some true
      · exact Or.inl ⟨[], event, events, rfl, hLeaves, hStays⟩
      · right
        intro rest hRest
        rcases suffix_cons_iff.mp hRest with rfl | hRest
        · exact hCons hLeaves
        · exact hStays rest hRest

theorem Lawful.legal (lawful : Lawful (later ++ event :: earlier)) : Lawful earlier ∧ Legal earlier event := by
  induction later with
  | nil =>
    cases lawful with
    | cons lawful legal => exact ⟨lawful, legal⟩
  | cons first later ih =>
    cases lawful with
    | cons lawful _ => exact ih lawful

theorem Always.at {admits : List Event → Event → Prop} {later earlier : List Event} {event : Event}
    (always : Always admits (later ++ event :: earlier)) : admits earlier event := by
  induction later with
  | nil => exact always.2
  | cons first later ih => exact ih always.1

theorem split_of_pair (hPair : [first, second].Sublist past) :
    ∃ later between before, past = later ++ first :: (between ++ second :: before) := by
  obtain ⟨front, back, rfl, hFirst, hSecond⟩ := cons_sublist_iff.mp hPair
  obtain ⟨later, more, rfl⟩ := append_of_mem hFirst
  obtain ⟨between, before, rfl⟩ := append_of_mem (singleton_sublist.mp hSecond)
  exact ⟨later, more ++ between, before, by simp⟩

theorem putsBack_of_revival {worker : Nat}
    (lawful : Lawful (earlier ++ .settled worker id .succeeded :: before))
    (legal : Legal (earlier ++ .settled worker id .succeeded :: before) event)
    (fresh : Fresh (earlier ++ .settled worker id .succeeded :: before) event)
    (hScheduled : scheduled id) (hLeaves : event.leaves id = some true)
    (hDead : ∀ rest, rest <:+ earlier → liveBy id (rest ++ .settled worker id .succeeded :: before) = some false) :
    PutsBack id (earlier ++ .settled worker id .succeeded :: before) event := by
  have hNow := hDead earlier suffix_rfl
  cases event with
  | enqueued spec fire =>
    obtain ⟨hID, -⟩ := ite_none_right_eq_some.mp hLeaves
    refine ⟨hID, fun hOnly => ?_⟩
    obtain ⟨other, time, hIn, hOther⟩ := enqueued_of_known lawful hScheduled (known_of_live hNow)
    refine ⟨other, time, hIn, hOther, fun hSame => ?_⟩
    exact fresh spec fire rfl hOnly other time hIn hSame (hOther.trans hID.symm)
  | leased leaser jobID =>
    obtain ⟨rfl, -⟩ := ite_none_right_eq_some.mp hLeaves
    exact absurd (hNow.symm.trans (legal hScheduled)) (by simp)
  | settled other jobID status =>
    obtain ⟨rfl, hStatus⟩ := ite_none_right_eq_some.mp hLeaves
    exact ⟨rfl, by simpa using hStatus⟩
  | recovered jobIDs =>
    obtain ⟨hIn, -⟩ := ite_none_right_eq_some.mp hLeaves
    exact absurd (hNow.symm.trans (legal id hIn hScheduled)) (by simp)
  | interrupted jobID =>
    obtain ⟨rfl, -⟩ := ite_none_right_eq_some.mp hLeaves
    refine ⟨rfl, earlier, worker, before, rfl, ?_⟩
    obtain ⟨later, jobIDs, rest, hPast, hIn, hLater⟩ := legal.2
    rcases append_eq_append_iff.mp hPast with ⟨more, rfl, -⟩ | ⟨more, rfl, hMore⟩
    · exact fun event hEvent => hLater event (mem_append_left more hEvent)
    · cases more with
      | nil => exact Event.noConfusion (List.cons.inj hMore).1
      | cons first more =>
        -- A `SELECT` after the success finds the job only if it is live again.
        obtain ⟨rfl, rfl⟩ := List.cons.inj hMore
        have hSelected :
            Lawful (later ++ .selected jobIDs :: (more ++ .settled worker jobID .succeeded :: before)) := by
          simpa using lawful
        have hLive := hSelected.legal.2 jobID hIn hScheduled
        have hStill := hDead more ((suffix_cons _ _).trans (suffix_append _ _))
        exact absurd (hStill.symm.trans hLive) (by simp)
  | booted | marked | reported | selected => cases hLeaves

end

/-- In every run over processes that share the durable queue, with a clock that does not go
back for the scheduler, the job of an occurrence is not leased after it has succeeded
exactly if it is not leased after something has put it back. -/
theorem Runtime.not_leased_again_iff (system : System) (actions : List (Time × Action))
    (hTimes : (schedulingTimes actions).Pairwise (· ≤ ·)) :
    (∀ (spec : Schedule) (fire : Time) (leaser worker : Nat),
        ¬ [.leased leaser (spec.job fire).id, .settled worker (spec.job fire).id .succeeded].Sublist
          (run .durable system actions).past) ↔
      ∀ (spec : Schedule) (fire : Time) (worker : Nat) (later : List Event) (event : Event)
        (earlier : List Event), (run .durable system actions).past = later ++ event :: earlier →
        .settled worker (spec.job fire).id .succeeded ∈ earlier →
        PutsBack (spec.job fire).id earlier event →
        ∀ leaser, .leased leaser (spec.job fire).id ∉ later := by
  have lawful := (sound_run .durable system actions).lawful
  have fresh : Always Fresh (run .durable system actions).past := by
    obtain ⟨clock, hClock⟩ := (schedulingTimes actions).toFinset.exists_le
    exact (timely_run .durable system hTimes fun time hIn => hClock time (by simpa using hIn)).fresh
  generalize (run .durable system actions).past = past at *
  constructor
  · rintro hNever spec fire worker later event earlier rfl hSettled - leaser hLeased
    refine hNever spec fire leaser worker ?_
    have hLater := singleton_sublist.mpr hLeased
    have hEarlier := (singleton_sublist.mpr hSettled).cons event
    exact hLater.append hEarlier
  · intro hKept spec fire leaser worker hPair
    obtain ⟨later, between, before, rfl⟩ := split_of_pair hPair
    have hLive := lawful.legal.2 (scheduled_job spec fire)
    have hDead : liveBy (spec.job fire).id
        (.settled worker (spec.job fire).id .succeeded :: before) = some false := by
      simp [Event.leaves, JobStatus.terminal]
    rcases first_revival hDead between with
      ⟨since, event, earlier, hBetween, hLeaves, hEarlier⟩ | hStays
    · have hFirst : later ++ .leased leaser (spec.job fire).id :: (between ++
            .settled worker (spec.job fire).id .succeeded :: before) =
          (later ++ .leased leaser (spec.job fire).id :: since) ++ event :: (earlier ++
            .settled worker (spec.job fire).id .succeeded :: before) := by simp [hBetween]
      rw [hFirst] at lawful fresh
      have hPutsBack := putsBack_of_revival lawful.legal.1 lawful.legal.2 fresh.at
        (scheduled_job spec fire) hLeaves hEarlier
      exact hKept spec fire worker _ event _ hFirst (by simp) hPutsBack leaser (by simp)
    · exact absurd ((hStays _ suffix_rfl).symm.trans hLive) (by simp)

namespace Sample

def succeeded : List (Time × Action) :=
  fired ++ times 1 1 (.lease 0 fun _ => 0) ++ times 1 2 (.settle 0 (.ok [])) ++ times 1 2 (.report 0)

def nextWindow : List (Time × Action) := succeeded ++ times 7 60 .run ++ times 1 61 (.lease 0 fun _ => 0)

def startedAgain : List (Time × Action) :=
  succeeded ++ times 1 10 (.boot [everyMinute] 1) ++ times 9 10 .run ++ times 1 11 (.lease 0 fun _ => 0)

def ofWork : Event → Bool
  | .leased .. | .settled .. => true
  | _ => false

theorem next_window_leased_once :
    (Runtime.schedulingTimes nextWindow).Pairwise (· ≤ ·) ∧
      ∀ (spec : Schedule) (fire : Time) (worker : Nat) (later : List Event) (event : Event)
        (earlier : List Event),
        (Runtime.run .durable system nextWindow).past = later ++ event :: earlier →
        .settled worker (spec.job fire).id .succeeded ∈ earlier →
        PutsBack (spec.job fire).id earlier event →
        ∀ leaser, .leased leaser (spec.job fire).id ∉ later := by
  refine ⟨by decide, (Runtime.not_leased_again_iff system nextWindow (by decide)).mp ?_⟩
  intro spec fire leaser worker hPair
  have hWork : (Runtime.run .durable system nextWindow).past.filter ofWork =
      [.leased 0 "sched-nightly-1700000040", .settled 0 "sched-nightly-1699999980" .succeeded,
        .leased 0 "sched-nightly-1699999980"] := by
    decide +kernel
  have hWorkPair : [Event.leased leaser (spec.job fire).id,
      .settled worker (spec.job fire).id .succeeded].Sublist _ := hPair.filter ofWork
  rw [hWork] at hWorkPair
  generalize (spec.job fire).id = id at hWorkPair
  have hDistinct : "sched-nightly-1700000040" ≠ "sched-nightly-1699999980" := by decide
  -- The success is the second of the three, so the lease would be the first.
  grind

theorem leased_after_success :
    (Runtime.schedulingTimes startedAgain).Pairwise (· ≤ ·) ∧
      (everyMinute.job (Queue.Sample.clock (-20))).id = "sched-nightly-1699999980" ∧
      [Event.leased 0 "sched-nightly-1699999980",
        .settled 0 "sched-nightly-1699999980" .succeeded].Sublist
          (Runtime.run .durable system startedAgain).past := by
  decide +kernel

end Sample

end DBVault.Scheduling
