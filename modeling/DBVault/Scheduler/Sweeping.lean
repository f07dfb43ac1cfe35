import DBVault.Json.Compact
import DBVault.Queue

/-! The periodic sweep of the garbage collector: when it asks for one job in each window of the interval,
and again after a failure. -/
namespace DBVault.Scheduling
open List Text Queue Option

/-- `int64(d.Seconds())`. A `float64` holds whole seconds and rounds what is between them. -/
structure Seconds where
  ofDuration : Int → Int
  mono : ∀ {a b : Int}, a ≤ b → ofDuration a ≤ ofDuration b
  whole : ∀ n, ofDuration (n * Time.nanosPerSecond) = n
  below_one : ofDuration (Time.nanosPerSecond - 1) = 0

/-- What `gcTrigger` reads of a repository's configuration. -/
structure SweepConfig where
  id : String
  gcSweepInterval : String

structure GCTrigger where
  repository : String
  interval : Int
  lastBucket : Int := 0

/-- `gcTrigger`, with `time.ParseDuration`. -/
def gcTrigger (parseDuration : String → Option Int) (repository : SweepConfig)
    (repositories : List SweepConfig) : GCTrigger :=
  let (repositoryID, sweepRaw) := match repositories with
    | [] => (repository.id, repository.gcSweepInterval)
    | first :: _ => (first.id,
        if first.gcSweepInterval ≠ "" then first.gcSweepInterval else repository.gcSweepInterval)
  let interval := if sweepRaw ≠ "" then ((parseDuration sweepRaw).filter (0 < ·)).getD 0 else 0
  { repository := repositoryID, interval := interval }

def gcJob (id repository reason : String) : Job where
  id := id
  type := .garbageCollection
  status := .pending
  resourceID := repository
  payloadJSON := Json.marshal (.obj [("reason", .str reason), ("repository", .str repository)])
  priority := -1

/-- A call of `sweepOnce`: its time, and the answer of the queue should it be asked. -/
structure Sweep where
  now : Time
  outcome : Result Unit

namespace GCTrigger
section
variable (c : Seconds) (g : GCTrigger)

def bucket (now : Time) : Int := (now / Time.nanosPerSecond).tdiv (c.ofDuration g.interval)

def sweepJob (now : Time) : Job :=
  gcJob ("gc-sweep-" ++ decimal (g.bucket c now)) g.repository "periodic-sweep"

/-- `sweepOnce`, with the job it asks for and the answer, which is only logged; `none` is the panic of a
division by zero. -/
def sweepOnce (s : Sweep) : Option (GCTrigger × Option (Job × Result Unit)) :=
  if c.ofDuration g.interval = 0 then none
  else if g.bucket c s.now = g.lastBucket then some (g, none)
  else some ({ g with lastBucket := g.bucket c s.now }, some (g.sweepJob c s.now, s.outcome))

end

/-- What became of each sweep. -/
def sweeps (c : Seconds) : GCTrigger → List Sweep → Option (List (Time × Option (Job × Result Unit)))
  | _, [] => some []
  | g, s :: rest => do
    let (next, asked) ← g.sweepOnce c s
    let later ← sweeps c next rest
    pure ((s.now, asked) :: later)

/-- No two sweeps of one window ask for different jobs. -/
def OnePerWindow (interval : Int) (run : List (Time × Option (Job × Result Unit))) : Prop :=
  ∀ before a between b after, run = before ++ a :: (between ++ b :: after) → a.1 / interval = b.1 / interval →
    ∀ first ∈ a.2, ∀ second ∈ b.2, first.1 = second.1

/-- After a failure, another sweep of the window asks again. -/
def Retried (interval : Int) (run : List (Time × Option (Job × Result Unit))) : Prop :=
  ∀ before a between b after, run = before ++ a :: (between ++ b :: after) → a.1 / interval = b.1 / interval →
    ∀ first ∈ a.2, first.2 ≠ .ok () → ∃ x ∈ between ++ [b], x.2 ≠ none

/-- The bucket of the last sweep of a list, or the given one. -/
def lastOf (c : Seconds) (g : GCTrigger) (last : Int) (ss : List Sweep) : Int :=
  ss.foldl (fun _ s => g.bucket c s.now) last

/-- The sweep comes after these with a bucket of its own. -/
def Starts (c : Seconds) (g : GCTrigger) (before : List Sweep) (s : Sweep) : Prop :=
  g.bucket c s.now ≠ g.lastOf c g.lastBucket before

variable {c : Seconds} {g : GCTrigger} {ss : List Sweep}

theorem one_le_seconds_iff {d : Int} : 1 ≤ c.ofDuration d ↔ Time.nanosPerSecond ≤ d := by
  constructor
  · intro hOne
    by_contra hLess
    have hZero := c.mono (show d ≤ Time.nanosPerSecond - 1 by omega)
    rw [c.below_one] at hZero
    omega
  · intro hLong
    have hOne := c.mono hLong
    rwa [← Int.one_mul Time.nanosPerSecond, c.whole] at hOne

/-- What became of the sweeps, by the bucket of the one before. -/
def outcomes (c : Seconds) (g : GCTrigger) (last : Int) : List Sweep → List (Time × Option (Job × Result Unit))
  | [] => []
  | s :: rest => (s.now, if g.bucket c s.now = last then none else some (g.sweepJob c s.now, s.outcome)) ::
      outcomes c g (g.bucket c s.now) rest

theorem sweeps_eq (hSeconds : c.ofDuration g.interval ≠ 0) (ss : List Sweep) :
    g.sweeps c ss = some (g.outcomes c g.lastBucket ss) := by
  have hAll : ∀ last, ({ g with lastBucket := last } : GCTrigger).sweeps c ss = some (g.outcomes c last ss) := by
    induction ss with
    | nil => exact fun _ => rfl
    | cons s rest ih =>
      intro last
      have hSame : ∀ now, ({ g with lastBucket := last } : GCTrigger).bucket c now = g.bucket c now := fun _ => rfl
      rw [sweeps, sweepOnce, if_neg hSeconds, hSame]
      split
      · next hLast =>
        rw [bind_eq_bind, bind_some]
        dsimp only
        rw [ih, outcomes, if_pos hLast, hLast]
        rfl
      · next hOther =>
        rw [bind_eq_bind, bind_some]
        dsimp only
        rw [ih, outcomes, if_neg hOther]
        rfl
  exact hAll g.lastBucket

theorem outcomes_append (last : Int) (before after : List Sweep) :
    g.outcomes c last (before ++ after) = g.outcomes c last before ++ g.outcomes c (g.lastOf c last before) after := by
  induction before generalizing last with
  | nil => rfl
  | cons s rest ih =>
    rw [cons_append, outcomes, ih, outcomes, cons_append]
    rfl

theorem outcomes_cons (last : Int) (before : List Sweep) (s : Sweep) (after : List Sweep) :
    g.outcomes c last (before ++ s :: after) = g.outcomes c last before ++
      (s.now, if g.bucket c s.now = g.lastOf c last before then none else some (g.sweepJob c s.now, s.outcome)) ::
      g.outcomes c (g.bucket c s.now) after := by
  rw [outcomes_append, outcomes]

theorem outcomes_split {last : Int} {done later : List (Time × Option (Job × Result Unit))}
    {x : Time × Option (Job × Result Unit)} (h : g.outcomes c last ss = done ++ x :: later) :
    ∃ before s after, ss = before ++ s :: after ∧ done = g.outcomes c last before ∧ x = (s.now,
      if g.bucket c s.now = g.lastOf c last before then none else some (g.sweepJob c s.now, s.outcome)) ∧
      later = g.outcomes c (g.bucket c s.now) after := by
  induction done generalizing ss last with
  | nil =>
    cases ss with
    | nil => cases h
    | cons s rest =>
      obtain ⟨rfl, rfl⟩ := cons.inj h
      exact ⟨[], s, rest, rfl, rfl, rfl, rfl⟩
  | cons first done ih =>
    cases ss with
    | nil => cases h
    | cons s rest =>
      obtain ⟨rfl, hRest⟩ := cons.inj h
      obtain ⟨before, s', after, rfl, rfl, hx, hLater⟩ := ih hRest
      exact ⟨s :: before, s', after, rfl, rfl, hx, hLater⟩

theorem lastOf_cons (last : Int) (before between : List Sweep) (s : Sweep) :
    g.lastOf c last (before ++ s :: between) = g.lastOf c (g.bucket c s.now) between := by simp [lastOf]

theorem bucket_mono (hOne : 1 ≤ c.ofDuration g.interval) {now later : Time} (hLe : now ≤ later) :
    g.bucket c now ≤ g.bucket c later :=
  Int.tdiv_le_tdiv (by omega) (Int.ediv_le_ediv (by decide) hLe)

theorem lastOf_le {last limit : Int} (hLast : last ≤ limit) (hAll : ∀ s ∈ ss, g.bucket c s.now ≤ limit) :
    g.lastOf c last ss ≤ limit := by
  induction ss generalizing last with
  | nil => exact hLast
  | cons s rest ih => exact ih (hAll s mem_cons_self) fun d hd => hAll d (mem_cons_of_mem s hd)

theorem le_lastOf {last limit : Int} (hLast : limit ≤ last) (hAll : ∀ s ∈ ss, limit ≤ g.bucket c s.now) :
    limit ≤ g.lastOf c last ss := by
  induction ss generalizing last with
  | nil => exact hLast
  | cons s rest ih => exact ih (hAll s mem_cons_self) fun d hd => hAll d (mem_cons_of_mem s hd)

/-- A later sweep with a bucket of its own has a later one. -/
theorem bucket_lt_of_starts (hOne : 1 ≤ c.ofDuration g.interval) {before between after : List Sweep} {a b : Sweep}
    (hOrder : (before ++ a :: (between ++ b :: after)).Pairwise fun a b => a.now ≤ b.now)
    (hStarts : g.Starts c (before ++ a :: between) b) : g.bucket c a.now < g.bucket c b.now := by
  simp only [pairwise_append, pairwise_cons, mem_append, mem_cons] at hOrder
  obtain ⟨-, ⟨hAfter, -, -, hBetween⟩, -⟩ := hOrder
  rw [Starts, lastOf_cons] at hStarts
  have hLow := le_lastOf (c := c) (g := g) le_rfl fun s hs => bucket_mono hOne (hAfter s (.inl hs))
  have hHigh := lastOf_le (c := c) (g := g) (bucket_mono hOne (hAfter b (.inr (.inl rfl))))
    fun s hs => bucket_mono hOne (hBetween s hs b (.inl rfl))
  omega

theorem sweepJob_inj {now later : Time} (h : g.sweepJob c now = g.sweepJob c later) :
    g.bucket c now = g.bucket c later := by
  have hID := congrArg (fun job : Job => job.id.toList) h
  simp only [sweepJob, gcJob, decimal, String.toList_append, String.toList_ofList] at hID
  exact decimalChars_injective (append_cancel_left hID)

theorem windows_iff (hOne : 1 ≤ c.ofDuration g.interval) (hOrder : ss.Pairwise fun a b => a.now ≤ b.now) :
    OnePerWindow g.interval (g.outcomes c g.lastBucket ss) ∧ Retried g.interval (g.outcomes c g.lastBucket ss) ↔
      ∀ before a between b after, ss = before ++ a :: (between ++ b :: after) →
        a.now / g.interval = b.now / g.interval →
        g.Starts c before a → ¬ g.Starts c (before ++ a :: between) b ∧ a.outcome = .ok () := by
  have hPos : 0 < g.interval := lt_of_lt_of_le (by decide) (one_le_seconds_iff.mp hOne)
  constructor
  · rintro ⟨hJobs, hRetried⟩
    -- Of two starting sweeps of a window the second asks for another job.
    have hAlone : ∀ before a between b after, ss = before ++ a :: (between ++ b :: after) →
        a.now / g.interval = b.now / g.interval → g.Starts c before a → ¬ g.Starts c (before ++ a :: between) b := by
      rintro before a between b after rfl hWindow hStarts hOther
      have hLess := bucket_lt_of_starts hOne hOrder hOther
      have hRun := hJobs (g.outcomes c g.lastBucket before) _ (g.outcomes c (g.bucket c a.now) between) _ _
        (by rw [outcomes_cons, outcomes_cons]) hWindow
      rw [← lastOf_cons g.lastBucket before, if_neg hStarts, if_neg hOther] at hRun
      exact hLess.ne (sweepJob_inj (hRun _ rfl _ rfl))
    rintro before a between b after hSplit hWindow hStarts
    refine ⟨hAlone before a between b after hSplit hWindow hStarts, ?_⟩
    by_contra hFailed
    subst hSplit
    have hRun := hRetried (g.outcomes c g.lastBucket before) _ (g.outcomes c (g.bucket c a.now) between) _ _
      (by rw [outcomes_cons, outcomes_cons]) hWindow
    rw [if_neg hStarts, ← lastOf_cons g.lastBucket before] at hRun
    obtain ⟨x, hx, hAsked⟩ := hRun _ rfl hFailed
    rcases mem_append.mp hx with hx | hx
    · obtain ⟨done, later, hDone⟩ := append_of_mem hx
      obtain ⟨middle, s, rest, rfl, -, rfl, -⟩ := outcomes_split hDone
      simp only [pairwise_append, pairwise_cons, mem_append, mem_cons] at hOrder
      obtain ⟨-, ⟨hAfter, ⟨-, -, hBetween⟩⟩, -⟩ := hOrder
      have hFirst := Int.ediv_le_ediv hPos (hAfter s (.inl (.inr (.inl rfl))))
      have hLast := Int.ediv_le_ediv hPos (hBetween s (.inr (.inl rfl)) b (.inl rfl))
      refine hAlone before a middle s (rest ++ b :: after) (by simp) (by omega) hStarts fun hSame => hAsked ?_
      rw [lastOf_cons] at hSame
      exact if_pos hSame
    · obtain rfl := mem_singleton.mp hx
      exact hAlone before a between b after rfl hWindow hStarts fun hSame => hAsked (if_pos hSame)
  · intro hEach
    constructor
    · intro done a between b later hRun hWindow first hFirst second hSecond
      obtain ⟨before, s, rest, rfl, -, rfl, hRest⟩ := outcomes_split hRun
      obtain ⟨middle, s', after, rfl, -, rfl, -⟩ := outcomes_split hRest.symm
      rw [← lastOf_cons g.lastBucket before] at hSecond
      obtain ⟨hNot, -⟩ := hEach before s middle s' after rfl hWindow fun hSame => by simp [hSame] at hFirst
      exact absurd (fun hSame => by simp [hSame] at hSecond) hNot
    · intro done a between b later hRun hWindow first hFirst hFailed
      obtain ⟨before, s, rest, rfl, -, rfl, hRest⟩ := outcomes_split hRun
      obtain ⟨middle, s', after, rfl, -, rfl, -⟩ := outcomes_split hRest.symm
      have hStarts : g.Starts c before s := fun hSame => by simp [hSame] at hFirst
      rw [if_neg hStarts] at hFirst
      cases hFirst
      exact absurd (hEach before s middle s' after rfl hWindow hStarts).2 hFailed

end GCTrigger

open GCTrigger in
/-- The sweeps are done without a panic, without two jobs for a window and with a new attempt after a failure
exactly if there are none or the interval has a second, and no sweep with a bucket of its own is followed in its
window by another one, unless that one has no bucket of its own and the enqueue did not fail. -/
theorem sweeps_once_per_window_iff (c : Seconds) (parseDuration : String → Option Int) (repository : SweepConfig)
    (repositories : List SweepConfig) (hPos : 0 < (gcTrigger parseDuration repository repositories).interval)
    (ss : List Sweep) (hOrder : ss.Pairwise fun a b => a.now ≤ b.now) :
    let g := gcTrigger parseDuration repository repositories
    (∃ run, g.sweeps c ss = some run ∧ OnePerWindow g.interval run ∧ Retried g.interval run) ↔
      (ss = [] ∨ Time.nanosPerSecond ≤ g.interval) ∧ ∀ before a between b after,
        ss = before ++ a :: (between ++ b :: after) → a.now / g.interval = b.now / g.interval →
        g.Starts c before a → ¬ g.Starts c (before ++ a :: between) b ∧ a.outcome = .ok () := by
  intro g
  have hSecond : c.ofDuration g.interval ≠ 0 ↔ Time.nanosPerSecond ≤ g.interval := by
    have hNonneg := c.mono (show 0 ≤ g.interval from hPos.le)
    rw [← Int.zero_mul Time.nanosPerSecond, c.whole] at hNonneg
    rw [← @one_le_seconds_iff c]
    omega
  by_cases hLong : Time.nanosPerSecond ≤ g.interval
  · have hOne := (@one_le_seconds_iff c _).mpr hLong
    rw [sweeps_eq (hSecond.mpr hLong) ss]
    simp only [Option.some.injEq, exists_eq_left', hLong, or_true, true_and]
    exact windows_iff hOne hOrder
  · cases ss with
    | nil => simp [sweeps, OnePerWindow, Retried]
    | cons s rest =>
      have hPanic : g.sweeps c (s :: rest) = none := by
        rw [sweeps, sweepOnce, if_pos (not_not.mp (mt hSecond.mp hLong))]
        rfl
      simp [hPanic, hLong]

namespace Sample

def seconds : Seconds where
  ofDuration d := d / Time.nanosPerSecond
  mono hLe := Int.ediv_le_ediv (by decide) hLe
  whole n := Int.mul_ediv_cancel n (by decide)
  below_one := by decide

def sweeper (nanos : Int) : GCTrigger := gcTrigger (fun _ => some nanos) ⟨"main", "set"⟩ []

def swept (nanos : Int) (ss : List Sweep) : Option (List (Time × Option String)) :=
  ((sweeper nanos).sweeps seconds ss).map (·.map fun a => (a.1, a.2.map (·.1.id)))

/-- With three halves of a second, sweeps that lie in different windows are fine. -/
theorem sweeper_halves : ∃ run, (sweeper 1500000000).sweeps seconds [⟨3000000000, .error (.other "busy")⟩,
    ⟨4500000000, .ok ()⟩] = some run ∧ GCTrigger.OnePerWindow 1500000000 run ∧ GCTrigger.Retried 1500000000 run := by
  refine (sweeps_once_per_window_iff seconds (fun _ => some 1500000000) ⟨"main", "set"⟩ [] (by decide)
    [⟨3000000000, .error (.other "busy")⟩, ⟨4500000000, .ok ()⟩] (by decide)).mpr ⟨.inr (by decide), ?_⟩
  intro before a between b after hSplit hWindow
  have hLength := congrArg length hSplit
  simp only [length_cons, length_nil, length_append] at hLength
  obtain rfl := eq_nil_of_length_eq_zero (show before.length = 0 by omega)
  obtain rfl := eq_nil_of_length_eq_zero (show between.length = 0 by omega)
  obtain ⟨rfl, hRest⟩ := cons.inj hSplit
  obtain ⟨rfl, -⟩ := cons.inj hRest
  exact absurd hWindow (by decide)

/-- Half a second is a division by zero, the window of three halves has two jobs, and a minute has no
second attempt. -/
theorem sweeper_fails : swept 500000000 [⟨0, .ok ()⟩] = none ∧
    swept 1500000000 [⟨1500000000, .ok ()⟩, ⟨2500000000, .ok ()⟩] =
      some [(1500000000, some "gc-sweep-1"), (2500000000, some "gc-sweep-2")] ∧
    swept 60000000000 [⟨60000000000, .error (.other "busy")⟩, ⟨90000000000, .ok ()⟩] =
      some [(60000000000, some "gc-sweep-1"), (90000000000, none)] := by
  decide +kernel

end Sample

end DBVault.Scheduling
