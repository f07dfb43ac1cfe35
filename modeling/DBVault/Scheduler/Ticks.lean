import DBVault.Scheduler.Meaning
import DBVault.Scheduler.Occurrences

/-! The occurrences of a cron schedule over the calls of `Tick` and `Settle`: which of its times
are enqueued, and when. -/
namespace DBVault.Scheduling
open Function List Scheduler

/-- An occurrence that a `Tick` has enqueued. -/
structure Fired where
  spec : Schedule
  (fire tick : Time)

structure Ticking where
  scheduler : Scheduler
  log : List Fired

inductive TickCall where
  /-- `Tick`, with the schedules of the list whose `Enqueue` fails. -/
  | tick (now : Time) (fails : Nat → Bool)
  | settle (jobID : String)

namespace Ticking
variable (system : System)

/-- What `Tick` does about one schedule. -/
def consider (now : Time) (s : Ticking) (spec : Schedule) (failed : Bool) : Ticking :=
  match s.scheduler.dueFire system spec now with
  | none => s
  | some fire =>
    if s.scheduler.live spec.id then s
    else if failed then s
    else
      { scheduler := (s.scheduler.setLastFire spec.id fire).markInflight spec.id (spec.job fire).id
        log := s.log ++ [⟨spec, fire, now⟩] }

def step (s : Ticking) : TickCall → Ticking
  | .tick now fails => s.scheduler.specs.zipIdx.foldl (fun s (spec, i) => s.consider system now spec (fails i)) s
  | .settle jobID => { s with scheduler := s.scheduler.settle jobID }

/-- What the calls lead to after `New`. -/
def run (specs : List Schedule) (start : Time) (calls : List TickCall) : Ticking :=
  calls.foldl (step system) ⟨.new system specs start, []⟩

/-- The fires of a schedule, with the `Tick`s that enqueued them. -/
def fires (s : Ticking) (scheduleID : String) : List Fired := s.log.filter fun fired => fired.spec.id = scheduleID

end Ticking

def CronExpr.occurrence (e : CronExpr) (loc : Location) (start : Time) : Nat → Time
  | 0 => e.nextAfter start loc
  | k + 1 => e.nextAfter (e.occurrence loc start k) loc

def Schedule.location (system : System) (spec : Schedule) : Location :=
  (system.loadLocation spec.timezone).getD system.utc

namespace Scheduler

variable {spec : Schedule}

theorem register_other (system : System) (now : Time) (s : Scheduler) {id : String}
    (hID : spec.id ≠ id) :
    (register system now s spec).exprs id = s.exprs id ∧ (register system now s spec).locs id = s.locs id := by
  unfold register
  split
  · exact ⟨rfl, rfl⟩
  · refine ⟨?_, update_of_ne (Ne.symm hID) _ _⟩
    cases system.parseCron spec.cron with
    | some e => exact update_of_ne (Ne.symm hID) _ _
    | none => rfl

theorem register_own (system : System) (now : Time) {s : Scheduler} (hCron : spec.cron ≠ "")
    (hExprs : s.exprs spec.id = none ∨ s.exprs spec.id = system.parseCron spec.cron) :
    (register system now s spec).exprs spec.id = system.parseCron spec.cron ∧
      (register system now s spec).locs spec.id = some (spec.location system) := by
  rw [register, if_neg hCron]
  refine ⟨?_, update_self _ _ _⟩
  cases hParse : system.parseCron spec.cron with
  | some e => exact update_self _ _ _
  | none => exact hExprs.elim id (·.trans hParse)

theorem new_registers {specs : List Schedule} (hIn : spec ∈ specs) (hCron : spec.cron ≠ "")
    (hOwn : ∀ other ∈ specs, other.id = spec.id → other = spec) (system : System) (now : Time) :
    (new system specs now).exprs spec.id = system.parseCron spec.cron ∧
      (new system specs now).locs spec.id = some (spec.location system) := by
  suffices hFold : ∀ s : Scheduler,
      (s.exprs spec.id = none ∧ spec ∈ specs) ∨
        (s.exprs spec.id = system.parseCron spec.cron ∧ s.locs spec.id = some (spec.location system)) →
      (specs.foldl (register system now) s).exprs spec.id = system.parseCron spec.cron ∧
        (specs.foldl (register system now) s).locs spec.id = some (spec.location system) from
    hFold _ (.inl ⟨rfl, hIn⟩)
  clear hIn
  induction specs with
  | nil => exact fun s h => h.resolve_left fun h => not_mem_nil h.2
  | cons first rest ih =>
    intro s hSet
    refine ih (fun other hOther => hOwn other (mem_cons_of_mem _ hOther)) _ ?_
    by_cases hID : first.id = spec.id
    · obtain rfl := hOwn first mem_cons_self hID
      exact .inr (register_own system now hCron (hSet.imp (·.1) (·.1)))
    · obtain ⟨hExprs, hLocs⟩ := register_other system now s hID
      rw [hExprs, hLocs]
      refine hSet.imp_left fun ⟨hNone, hIn⟩ => ⟨hNone, (mem_cons.mp hIn).resolve_left ?_⟩
      rintro rfl
      exact hID rfl

end Scheduler

namespace Ticking
variable {system : System} {specs : List Schedule} {spec : Schedule} {start : Time}

/-- A cron schedule has fired at its first times after the start, and is searched from the last
of them. -/
structure Follows (system : System) (specs : List Schedule) (spec : Schedule) (start : Time)
    (e : CronExpr) (count : Nat) (s : Ticking) : Prop where
  specs : s.scheduler.specs = specs
  exprs : s.scheduler.exprs spec.id = system.parseCron spec.cron
  locs : s.scheduler.locs spec.id = some (spec.location system)
  baseline : s.scheduler.baseline spec.id = start
  fired : (s.fires spec.id).map (·.fire) = (List.range count).map (e.occurrence (spec.location system) start)
  lastFire : s.scheduler.lastFire spec.id =
    if count = 0 then Time.zero else e.occurrence (spec.location system) start (count - 1)
  parsed : 0 < count → system.parseCron spec.cron = some e
  nonzero : ∀ k < count, e.occurrence (spec.location system) start k ≠ Time.zero
  inTime : ∀ fired ∈ s.fires spec.id, fired.fire ≤ fired.tick

variable {e : CronExpr} {count : Nat} {s : Ticking}

theorem consider_cases (now : Time) (s : Ticking) (spec : Schedule) (failed : Bool) :
    s.consider system now spec failed = s ∨
      ∃ fire, s.scheduler.dueFire system spec now = some fire ∧
        s.consider system now spec failed =
          ⟨(s.scheduler.setLastFire spec.id fire).markInflight spec.id (spec.job fire).id,
            s.log ++ [⟨spec, fire, now⟩]⟩ := by
  unfold consider
  split
  case h_1 => exact .inl rfl
  case h_2 fire hDue =>
    split
    case isTrue => exact .inl rfl
    case isFalse =>
      split
      case isTrue => exact .inl rfl
      case isFalse => exact .inr ⟨fire, hDue, rfl⟩

theorem fires_enqueued (s : Ticking) (scheduler : Scheduler) (fired : Fired) (scheduleID : String) :
    fires ⟨scheduler, s.log ++ [fired]⟩ scheduleID =
      s.fires scheduleID ++ if fired.spec.id = scheduleID then [fired] else [] := by
  rw [fires, filter_append, fires, filter_singleton]
  by_cases hID : fired.spec.id = scheduleID
  · simp [hID]
  · simp [hID]

theorem Follows.due (hFollows : Follows system specs spec start e count s) (hCron : spec.cron ≠ "")
    (hParse : ∀ e', system.parseCron spec.cron = some e' → e' = e) {now fire : Time}
    (hDue : s.scheduler.dueFire system spec now = some fire) :
    system.parseCron spec.cron = some e ∧
      fire = e.occurrence (spec.location system) start count ∧ fire ≠ Time.zero ∧ fire ≤ now := by
  obtain ⟨hLe, -, hNonzero, -⟩ := due_of_dueFire hDue
  rw [dueFire, if_pos hCron, hFollows.exprs] at hDue
  cases hParsed : system.parseCron spec.cron with
  | none => simp [hParsed] at hDue
  | some e' =>
  obtain rfl := hParse e' hParsed
  refine ⟨rfl, ?_, hNonzero hCron, hLe⟩
  rw [hParsed] at hDue
  dsimp only at hDue
  rw [hFollows.locs, Option.getD_some] at hDue
  split at hDue
  case isTrue => cases hDue
  case isFalse hNext =>
    obtain rfl := Option.some.inj hDue
    obtain ⟨hZero, hNow⟩ := not_or.mp hNext
    have hLast := hFollows.lastFire
    rcases count with _ | count
    · rw [if_pos rfl] at hLast
      by_cases hBaseline : start = Time.zero
      · -- without a baseline the search starts at the `Tick`, and finds nothing due
        have hFrom : s.scheduler.searchFrom spec.id now = now := by
          rw [searchFrom, if_pos hLast, hFollows.baseline, if_pos hBaseline]
        have hLater := (e'.nextAfter_spec _ _ hZero).1
        rw [hFrom] at hLater hNow
        exact absurd hLater hNow
      · have hFrom : s.scheduler.searchFrom spec.id now = start := by
          rw [searchFrom, if_pos hLast, hFollows.baseline, if_neg hBaseline]
        rw [hFrom]
        rfl
    · rw [if_neg (by omega), Nat.add_sub_cancel] at hLast
      have hFrom : s.scheduler.searchFrom spec.id now = e'.occurrence (spec.location system) start count := by
        rw [searchFrom, hLast, if_neg (hFollows.nonzero count (by omega))]
      rw [hFrom]
      rfl

theorem Follows.consider_other (hFollows : Follows system specs spec start e count s) (now : Time)
    {other : Schedule} (hID : other.id ≠ spec.id) (failed : Bool) :
    Follows system specs spec start e count (s.consider system now other failed) := by
  rcases consider_cases now s other failed with hSame | ⟨fire, -, hNext⟩
  · rw [hSame]
    exact hFollows
  · have hFires := fires_enqueued s ((s.scheduler.setLastFire other.id fire).markInflight other.id
      (other.job fire).id) ⟨other, fire, now⟩ spec.id
    rw [if_neg hID, append_nil] at hFires
    rw [hNext]
    refine ⟨hFollows.specs, hFollows.exprs, hFollows.locs, hFollows.baseline, ?_, ?_,
      hFollows.parsed, hFollows.nonzero, ?_⟩
    · rw [hFires, hFollows.fired]
    · exact (update_of_ne (Ne.symm hID) _ _).trans hFollows.lastFire
    · rw [hFires]
      exact hFollows.inTime

theorem Follows.consider_own (hFollows : Follows system specs spec start e count s) (now : Time)
    (hCron : spec.cron ≠ "") (hParse : ∀ e', system.parseCron spec.cron = some e' → e' = e) (failed : Bool) :
    ∃ count', Follows system specs spec start e count' (s.consider system now spec failed) := by
  rcases consider_cases now s spec failed with hSame | ⟨fire, hDue, hNext⟩
  · rw [hSame]
    exact ⟨count, hFollows⟩
  · obtain ⟨hParsed, hFire, hNonzero, hLe⟩ := hFollows.due hCron hParse hDue
    have hFires := fires_enqueued s ((s.scheduler.setLastFire spec.id fire).markInflight spec.id
      (spec.job fire).id) ⟨spec, fire, now⟩ spec.id
    rw [if_pos rfl] at hFires
    rw [hNext]
    refine ⟨count + 1, hFollows.specs, hFollows.exprs, hFollows.locs, hFollows.baseline, ?_, ?_,
      fun _ => hParsed, ?_, ?_⟩
    · rw [hFires, map_append, hFollows.fired, range_succ, map_append, hFire]
      rfl
    · rw [if_neg (by omega), Nat.add_sub_cancel, ← hFire]
      exact update_self _ _ _
    · intro k hk
      rcases Nat.lt_succ_iff_lt_or_eq.mp hk with hBefore | rfl
      · exact hFollows.nonzero k hBefore
      · rwa [← hFire]
    · intro fired hFired
      rw [hFires, mem_append, mem_singleton] at hFired
      rcases hFired with hOld | rfl
      · exact hFollows.inTime fired hOld
      · exact hLe

section
variable (hCron : spec.cron ≠ "") (hOwn : ∀ other ∈ specs, other.id = spec.id → other = spec)
  (hParse : ∀ e', system.parseCron spec.cron = some e' → e' = e)
include hCron hOwn hParse

theorem Follows.considers (hFollows : Follows system specs spec start e count s) (now : Time)
    (fails : Nat → Bool) (entries : List (Schedule × Nat)) (hIn : ∀ entry ∈ entries, entry.1 ∈ specs) :
    ∃ count', Follows system specs spec start e count'
      (entries.foldl (fun s (spec, i) => s.consider system now spec (fails i)) s) := by
  induction entries generalizing s count with
  | nil => exact ⟨count, hFollows⟩
  | cons entry rest ih =>
    obtain ⟨other, i⟩ := entry
    have hRest := fun entry hEntry => hIn entry (mem_cons_of_mem _ hEntry)
    by_cases hID : other.id = spec.id
    · obtain rfl := hOwn other (hIn _ mem_cons_self) hID
      obtain ⟨count', hNext⟩ := hFollows.consider_own now hCron hParse (fails i)
      exact ih hNext hRest
    · exact ih (hFollows.consider_other now hID (fails i)) hRest

theorem Follows.step (hFollows : Follows system specs spec start e count s) (call : TickCall) :
    ∃ count', Follows system specs spec start e count' (s.step system call) := by
  cases call with
  | settle jobID =>
    exact ⟨count, hFollows.specs, hFollows.exprs, hFollows.locs, hFollows.baseline, hFollows.fired,
      hFollows.lastFire, hFollows.parsed, hFollows.nonzero, hFollows.inTime⟩
  | tick now fails =>
    refine hFollows.considers hCron hOwn hParse now fails _ fun entry hEntry => ?_
    rw [← hFollows.specs]
    exact fst_mem_of_mem_zipIdx hEntry

variable (start) in
theorem run_follows (hIn : spec ∈ specs) (calls : List TickCall) :
    ∃ count, Follows system specs spec start e count (run system specs start calls) := by
  have hStart : Follows system specs spec start e 0 ⟨.new system specs start, []⟩ := by
    obtain ⟨hExprs, hLocs⟩ := Scheduler.new_registers hIn hCron hOwn system start
    refine ⟨new_specs _ _ _, hExprs, hLocs, new_baseline hIn hCron _ _, rfl, ?_,
      fun h => absurd h (Nat.not_lt_zero 0), fun k hk => absurd hk (Nat.not_lt_zero k), ?_⟩
    · rw [new_lastFire, if_pos rfl]
    · exact fun fired hFired => absurd hFired not_mem_nil
  suffices hRun : ∀ s count, Follows system specs spec start e count s →
      ∃ count', Follows system specs spec start e count' (calls.foldl (Ticking.step system) s) from
    hRun _ 0 hStart
  induction calls with
  | nil => exact fun s count hFollows => ⟨count, hFollows⟩
  | cons call rest ih =>
    intro s count hFollows
    obtain ⟨count', hNext⟩ := hFollows.step hCron hOwn hParse call
    exact ih _ count' hNext

end

theorem occurrence_lt_succ (e : CronExpr) (loc : Location) (start : Time) (k : Nat)
    (hSome : e.occurrence loc start (k + 1) ≠ Time.zero) :
    e.occurrence loc start k < e.occurrence loc start (k + 1) :=
  (e.nextAfter_spec _ _ hSome).1

theorem occurrences_increase (e : CronExpr) (loc : Location) (start : Time) (count : Nat)
    (hSome : ∀ k < count, e.occurrence loc start k ≠ Time.zero) :
    ((List.range count).map (e.occurrence loc start)).Pairwise (· < ·) := by
  rw [pairwise_map, pairwise_iff_getElem]
  intro i j hi hj hLess
  simp only [getElem_range, length_range] at hj ⊢
  clear hi
  induction j, hLess using Nat.le_induction with
  | base => exact occurrence_lt_succ e loc start i (hSome _ hj)
  | succ j hLess ih => exact (ih (by omega)).trans (occurrence_lt_succ e loc start j (hSome _ hj))

/-- What is enqueued for a cron schedule are its first times after the start, in order and each
at a `Tick` that is not before it. -/
theorem fires_eq_occurrences (system : System) (specs : List Schedule) (spec : Schedule)
    (start : Time) (calls : List TickCall) (hIn : spec ∈ specs) (hCron : spec.cron ≠ "")
    (hOwn : ∀ other ∈ specs, other.id = spec.id → other = spec) :
    match system.parseCron spec.cron with
    | none => (run system specs start calls).fires spec.id = []
    | some e => ∃ count,
        ((run system specs start calls).fires spec.id).map (·.fire) =
          (List.range count).map (e.occurrence (spec.location system) start) ∧
        (∀ k < count, e.occurrence (spec.location system) start k ≠ Time.zero) ∧
        ((List.range count).map (e.occurrence (spec.location system) start)).Pairwise (· < ·) ∧
        ∀ fired ∈ (run system specs start calls).fires spec.id, fired.fire ≤ fired.tick := by
  cases hParse : system.parseCron spec.cron with
  | none =>
    have hNone : ∀ e', system.parseCron spec.cron = some e' → e' = ⟨[], [], none, [], none⟩ := by
      simp [hParse]
    obtain ⟨count, hFollows⟩ := run_follows start hCron hOwn hNone hIn calls
    have hCount : count = 0 := by
      by_contra hSome
      have hParsed := hFollows.parsed (by omega)
      simp [hParse] at hParsed
    simpa [hCount] using hFollows.fired
  | some e =>
    have hSome : ∀ e', system.parseCron spec.cron = some e' → e' = e :=
      fun e' hSame => Option.some.inj (hSame.symm.trans hParse)
    obtain ⟨count, hFollows⟩ := run_follows start hCron hOwn hSome hIn calls
    exact ⟨count, hFollows.fired, hFollows.nonzero, occurrences_increase _ _ _ _ hFollows.nonzero,
      hFollows.inTime⟩

end Ticking

namespace Ticking.Sample

def system : System where
  parseCron text := (parseCron Scheduling.Sample.lexicon text.toList).toOption
  utc := utc
  localZone := utc
  zone _ := none

def daily : Schedule where
  id := "daily"
  sourceID := "orders"
  operation := "logical_backup"
  cron := "0 12 * * *"

def day (number hour : Int) : Time := atMinute (Gregorian.dayNumber 2024 1 number) hour 0

/-- A `Tick` whose `Enqueue` fails is made up for by the next; a day later the first job has not
been settled yet. -/
def calls : List TickCall :=
  [.tick (day 2 13) fun _ => true, .tick (day 2 14) fun _ => false, .tick (day 3 13) fun _ => false,
    .settle (daily.job (day 2 12)).id, .tick (day 4 8) fun _ => false]

def expr : CronExpr := ⟨[0], [12], none, [1, 2, 3, 4, 5, 6, 7, 8, 9, 10, 11, 12], none⟩

theorem daily_fires : ∃ count,
    ((run system [daily] (day 2 8) calls).fires "daily").map (·.fire) =
      (List.range count).map (expr.occurrence utc (day 2 8)) ∧
    ((run system [daily] (day 2 8) calls).fires "daily").map (·.tick) = [day 2 14, day 4 8] := by
  have hFires := fires_eq_occurrences system [daily] daily (day 2 8) calls (by simp) (by decide) (by simp)
  rw [show system.parseCron daily.cron = some expr by decide +kernel] at hFires
  obtain ⟨count, hFires, -⟩ := hFires
  exact ⟨count, hFires, by decide +kernel⟩

end Ticking.Sample

end DBVault.Scheduling
