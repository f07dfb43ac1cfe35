import DBVault.Domain

/-! The recovery windows reported for a source: one pass over its transaction logs,
and what it takes to recover an instant from a base backup and those logs. -/
namespace DBVault.RecoveryWindow
open List

structure LogPosition where
  (engine timeline lsn file : String := "")
  position : Nat := 0
  gtidSet : String := ""
  timestamp : Option Time := none
  deriving DecidableEq

inductive TransactionLogStatus where
  | collecting
  | stored
  | verified
  | available
  | gap
  | corrupted
  | expired
  | deleted
  deriving DecidableEq

structure TransactionLog where
  id : String
  (startPosition endPosition : LogPosition := {})
  (startTime endTime : Option Time := none)
  status : TransactionLogStatus
  collectedAt : Time
  deriving DecidableEq

structure PhysicalBackupSet where
  id : String
  (startedAt completedAt : Time)
  endLogPosition : LogPosition := {}
  deriving DecidableEq

structure Window where
  (sourceID lineageID : String)
  (earliestTime latestTime : Time := Time.zero)
  (earliestPosition latestPosition : LogPosition := {})
  baseBackupID : String
  continuous : Bool
  gapCount : Nat := 0
  lastVerifiedAt : Time
  deriving DecidableEq

/-- What `sort.Slice` may leave of a list: elements of one time in any order. -/
def SortedBy {α : Type} (time : α → Time) (sorted given : List α) : Prop :=
  sorted.Perm given ∧ sorted.Pairwise fun a b => time a ≤ time b

def TransactionLog.breaks (log : TransactionLog) : Bool := log.status = .gap || log.status = .corrupted

structure Progress where
  windows : List Window
  current : Window
  last : Option TransactionLog

section
variable (source lineage : String) (base : PhysicalBackupSet) (now : Time)

def reopened : Window where
  sourceID := source
  lineageID := lineage
  baseBackupID := base.id
  continuous := false
  gapCount := 1
  lastVerifiedAt := now

def opened : Window where
  sourceID := source
  lineageID := lineage
  baseBackupID := base.id
  earliestTime := base.completedAt
  latestTime := base.completedAt
  continuous := true
  lastVerifiedAt := now

/-- `EarliestTime` after a log. -/
def earliest (time : Time) (log : TransactionLog) : Time :=
  match log.startTime with
  | some start => if time = Time.zero then start else time
  | none => time

/-- `LatestTime` after a log. -/
def latest (time : Time) (log : TransactionLog) : Time := log.endTime.getD time

/-- The body of the loop over the logs. -/
def visit (progress : Progress) (log : TransactionLog) : Progress :=
  if log.breaks then
    { windows :=
        if progress.current.earliestTime ≠ Time.zero then
          progress.windows ++ [{ progress.current with gapCount := progress.current.gapCount + 1 }]
        else progress.windows
      current := reopened source lineage base now
      last := none }
  else
    { windows := progress.windows
      current := { progress.current with
        earliestTime := earliest progress.current.earliestTime log
        latestTime := latest progress.current.latestTime log
        latestPosition := log.endPosition
        continuous := true }
      last := some log }

def finish (progress : Progress) : List Window :=
  if progress.last.isSome || progress.windows.isEmpty then
    progress.windows ++ [progress.current]
  else progress.windows

end

/-- `Calculate` on the lists as its two sorts leave them. -/
def calculate (source lineage : String) (bases : List PhysicalBackupSet)
    (logs : List TransactionLog) (now : Time) : List Window :=
  match bases with
  | [] => []
  | base :: _ =>
    finish (logs.foldl (visit source lineage base now)
      { windows := [], current := opened source lineage base now, last := none })

def TransactionLog.usable (log : TransactionLog) : Bool :=
  match log.status with
  | .stored | .verified | .available => true
  | .collecting | .gap | .corrupted | .expired | .deleted => false

/-- What it means that a log goes on where a base backup or another log ends. -/
structure Continuity where
  begins : PhysicalBackupSet → TransactionLog → Prop
  follows : TransactionLog → TransactionLog → Prop

/-- A log goes on where its predecessor ends in time, or before. -/
def Continuity.byTime : Continuity where
  begins base log := ∃ start, log.startTime = some start ∧ start ≤ base.completedAt
  follows log next := ∃ start stop, next.startTime = some start ∧ log.endTime = some stop ∧ start ≤ stop

def Continuity.byPosition : Continuity where
  begins base log := log.startPosition = base.endLogPosition
  follows log next := next.startPosition = log.endPosition

/-- The log ends a sequence of usable logs that starts at the base without a gap. -/
inductive Chain (continuity : Continuity) (base : PhysicalBackupSet)
    (logs : List TransactionLog) : TransactionLog → Prop where
  | first {log} (member : log ∈ logs) (usable : log.usable)
      (begins : continuity.begins base log) : Chain continuity base logs log
  | next {log next} (chain : Chain continuity base logs log) (member : next ∈ logs)
      (usable : next.usable) (follows : continuity.follows log next) :
      Chain continuity base logs next

/-- The base was completed by the instant, and the instant is the one of its
completion or lies within a sequence of logs that starts there. -/
structure Recoverable (continuity : Continuity) (base : PhysicalBackupSet)
    (logs : List TransactionLog) (instant : Time) : Prop where
  complete : base.completedAt ≠ Time.zero
  after : base.completedAt ≤ instant
  reached : instant = base.completedAt ∨
    ∃ log stop, Chain continuity base logs log ∧ log.endTime = some stop ∧ instant ≤ stop

section
variable {continuity : Continuity} {base : PhysicalBackupSet} {logs collected : List TransactionLog}

theorem Chain.perm {log : TransactionLog} (chain : Chain continuity base logs log) (hPerm : logs.Perm collected) :
    Chain continuity base collected log := by
  induction chain with
  | first member usable begins => exact .first (hPerm.subset member) usable begins
  | next _ member usable follows ih => exact .next ih (hPerm.subset member) usable follows

def kept (collected : List TransactionLog) : List TransactionLog := collected.filter (!·.breaks)

/-- Leaving out those with a gap or damage, the logs are stored and in collection order go on from
the base one after the other. After a gap a log has a start time, not before the base. -/
structure Linked (continuity : Continuity) (base : PhysicalBackupSet) (collected : List TransactionLog) : Prop where
  complete : Time.zero < base.completedAt
  usable : ∀ log ∈ kept collected, log.usable
  begins : ∀ log, (kept collected).head? = some log → continuity.begins base log
  follows : (kept collected).IsChain continuity.follows
  started : ∀ before log after, collected = before ++ log :: after → (∃ gap ∈ before, gap.breaks) → ¬ log.breaks →
    ∃ start, log.startTime = some start ∧ base.completedAt ≤ start

theorem mem_of_mem_kept {log : TransactionLog} (hIn : log ∈ kept collected) : log ∈ collected := (mem_filter.mp hIn).1

theorem Linked.chain (linked : Linked continuity base collected) :
    ∀ log ∈ kept collected, Chain continuity base collected log := by
  have hFrom : ∀ first rest, (first :: rest).IsChain continuity.follows → (∀ log ∈ first :: rest, log ∈ kept collected) →
      Chain continuity base collected first → ∀ log ∈ first :: rest, Chain continuity base collected log := by
    intro first rest hFollows hKept chain
    induction rest generalizing first with
    | nil => simpa using chain
    | cons next rest ih =>
      obtain ⟨hNext, hRest⟩ := isChain_cons_cons.mp hFollows
      have hIn := hKept next (by simp)
      refine forall_mem_cons.mpr ⟨chain, ih next hRest (fun log h => hKept log (mem_cons_of_mem _ h)) ?_⟩
      exact .next chain (mem_of_mem_kept hIn) (linked.usable next hIn) hNext
  cases hKept : kept collected with
  | nil => simp
  | cons first rest =>
    have hFirst : first ∈ kept collected := by simp [hKept]
    exact hFrom first rest (hKept ▸ linked.follows) (fun log h => hKept ▸ h)
      (.first (mem_of_mem_kept hFirst) (linked.usable first hFirst) (linked.begins first (by simp [hKept])))

/-- Every instant of the window can be recovered from the base it names. -/
def Covered (continuity : Continuity) (base : PhysicalBackupSet) (collected : List TransactionLog) (window : Window) : Prop :=
  window.continuous → window.baseBackupID = base.id ∧
    ∀ instant, window.earliestTime ≤ instant → instant ≤ window.latestTime →
      Recoverable continuity base collected instant

/-- What the loop keeps of the window it is at, when the logs `before` were visited. -/
structure Reaches (continuity : Continuity) (base : PhysicalBackupSet) (collected before : List TransactionLog)
    (window : Window) : Prop where
  names : window.baseBackupID = base.id
  latest : window.latestTime ≤ base.completedAt ∨
    ∃ log, Chain continuity base collected log ∧ log.endTime = some window.latestTime
  earliest : base.completedAt ≤ window.earliestTime ∨
    window.continuous = false ∧ window.earliestTime = Time.zero ∧ ∃ gap ∈ before, gap.breaks

theorem Reaches.covered {before : List TransactionLog} {window : Window} (linked : Linked continuity base collected)
    (reaches : Reaches continuity base collected before window) : Covered continuity base collected window := by
  intro hContinuous
  refine ⟨reaches.names, fun instant hFirst hLast => ?_⟩
  rcases reaches.earliest with hBase | ⟨hNot, -⟩
  · have hAfter := le_trans hBase hFirst
    refine ⟨ne_of_gt linked.complete, hAfter, ?_⟩
    rcases reaches.latest with hShort | ⟨log, chain, hStop⟩
    · exact .inl (le_antisymm (le_trans hLast hShort) hAfter)
    · exact .inr ⟨log, _, chain, hStop, hLast⟩
  · rw [hNot] at hContinuous
    cases hContinuous

variable {source lineage : String} {now : Time} {before : List TransactionLog} {progress : Progress}

theorem visit_reaches (linked : Linked continuity base collected) {log : TransactionLog} {after : List TransactionLog}
    (hSplit : collected = before ++ log :: after) (reaches : Reaches continuity base collected before progress.current) :
    Reaches continuity base collected (before ++ [log]) (visit source lineage base now progress log).current := by
  by_cases hBreaks : log.breaks
  · simp only [visit, hBreaks, if_true]
    exact ⟨rfl, .inl (le_of_lt linked.complete), .inr ⟨rfl, rfl, log, by simp, hBreaks⟩⟩
  · have hKept : log ∈ kept collected := mem_filter.mpr ⟨by simp [hSplit], by simpa using hBreaks⟩
    simp only [visit, hBreaks]
    refine ⟨reaches.names, ?_, .inl ?_⟩
    · cases hStop : log.endTime with
      | none => simpa [latest, hStop] using reaches.latest
      | some stop => exact .inr ⟨log, linked.chain log hKept, by simp [latest, hStop]⟩
    · rcases reaches.earliest with hBase | ⟨-, hZero, hGap⟩
      · -- an earliest time that is not zero stays
        have hDated : progress.current.earliestTime ≠ Time.zero := ne_of_gt (lt_of_lt_of_le linked.complete hBase)
        cases hStart : log.startTime <;> simpa [earliest, hStart, hDated] using hBase
      · obtain ⟨start, hStart, hBase⟩ := linked.started before log after hSplit hGap hBreaks
        simpa [earliest, hStart, hZero] using hBase

theorem visit_windows (hWindows : ∀ window ∈ progress.windows, Covered continuity base collected window)
    (hCurrent : Covered continuity base collected progress.current) (log : TransactionLog) :
    ∀ window ∈ (visit source lineage base now progress log).windows, Covered continuity base collected window := by
  unfold visit
  split
  · dsimp only
    split
    · exact forall_mem_append.mpr ⟨hWindows, forall_mem_singleton.mpr hCurrent⟩
    · exact hWindows
  · exact hWindows

theorem visits_covered (linked : Linked continuity base collected) (before after : List TransactionLog)
    (hSplit : collected = before ++ after) (reaches : Reaches continuity base collected before progress.current)
    (hWindows : ∀ window ∈ progress.windows, Covered continuity base collected window) :
    ∀ window ∈ finish (after.foldl (visit source lineage base now) progress), Covered continuity base collected window := by
  induction after generalizing before progress with
  | nil =>
    rw [foldl_nil, finish]
    split
    · exact forall_mem_append.mpr ⟨hWindows, forall_mem_singleton.mpr (reaches.covered linked)⟩
    · exact hWindows
  | cons log after ih =>
    exact ih (before ++ [log]) (by simp [hSplit]) (visit_reaches linked hSplit reaches)
      (visit_windows hWindows (reaches.covered linked) log)

end

/-- What `Calculate` reports as continuous can be recovered from the base it names, where the logs
are linked to the base that was started first. -/
theorem continuous_windows_recoverable (continuity : Continuity) (source lineage : String)
    {bases ordered : List PhysicalBackupSet} {logs collected : List TransactionLog} (now : Time)
    (hBases : SortedBy PhysicalBackupSet.startedAt ordered bases)
    (hLogs : SortedBy TransactionLog.collectedAt collected logs)
    (hLinked : ∀ oldest, ordered.head? = some oldest → Linked continuity oldest collected) :
    ∀ window ∈ calculate source lineage ordered collected now, window.continuous →
      ∃ base ∈ bases, base.id = window.baseBackupID ∧
        ∀ instant, window.earliestTime ≤ instant → instant ≤ window.latestTime →
          Recoverable continuity base logs instant := by
  cases ordered with
  | nil => simp [calculate]
  | cons oldest others =>
    have linked := hLinked oldest rfl
    intro window hWindow hContinuous
    have hCovered := visits_covered linked [] collected rfl ⟨rfl, .inl le_rfl, .inl le_rfl⟩
      (by simp) window hWindow
    obtain ⟨hName, hAll⟩ := hCovered hContinuous
    refine ⟨oldest, hBases.1.subset (by simp), hName.symm, fun instant hFirst hLast => ?_⟩
    obtain ⟨hComplete, hAfter, hReached⟩ := hAll instant hFirst hLast
    exact ⟨hComplete, hAfter, hReached.imp_right fun ⟨log, stop, chain, hStop⟩ => ⟨log, stop, chain.perm hLogs.1, hStop⟩⟩

namespace Sample

def base : PhysicalBackupSet where
  id := "base"
  startedAt := 50
  completedAt := 100
  endLogPosition := { lsn := "0/100" }

def log (id : String) (startLSN endLSN : String) (start stop : Time)
    (status : TransactionLogStatus) : TransactionLog where
  id := id
  startPosition := { lsn := startLSN }
  endPosition := { lsn := endLSN }
  startTime := some start
  endTime := some stop
  status := status
  collectedAt := stop

def logs : List TransactionLog :=
  [log "1" "0/100" "0/200" 100 200 .available, log "2" "0/200" "0/300" 200 300 .gap,
    log "3" "0/300" "0/400" 300 400 .available]

theorem unrecoverable_past_first (continuity : Continuity)
    (hBegins : ∀ log ∈ logs, log.usable → continuity.begins base log → log.id = "1")
    (hFollows : ∀ log ∈ logs, log.id = "1" → ∀ next ∈ logs, next.usable →
      continuity.follows log next → next.id = "1") :
    ¬ Recoverable continuity base logs 350 := by
  have hOnly : ∀ log, Chain continuity base logs log → log ∈ logs ∧ log.id = "1" := by
    intro log chain
    induction chain with
    | first member usable begins => exact ⟨member, hBegins _ member usable begins⟩
    | next _ member usable follows ih => exact ⟨member, hFollows _ ih.1 ih.2 _ member usable follows⟩
  have hEnds : ∀ log ∈ logs, log.id = "1" → log.endTime = some 200 := by decide
  rintro ⟨-, -, hInstant | ⟨log, stop, chain, hStop, hReached⟩⟩
  · exact absurd hInstant (by decide)
  · obtain ⟨member, hFirst⟩ := hOnly log chain
    rw [hEnds log member hFirst] at hStop
    cases hStop
    exact absurd hReached (by decide)

/-- The window after the gap names the base, from which no chain of logs leads there. -/
theorem window_after_gap_unrecoverable :
    (calculate "source" "lineage" [base] logs 500).map (fun window =>
        (window.baseBackupID, window.earliestTime, window.latestTime, window.continuous)) =
        [("base", 100, 200, true), ("base", 300, 400, true)] ∧
      ¬ Recoverable .byTime base logs 350 ∧ ¬ Recoverable .byPosition base logs 350 := by
  refine ⟨by decide, unrecoverable_past_first _ ?_ ?_, unrecoverable_past_first _ ?_ ?_⟩
  · simp [logs, log, base, TransactionLog.usable, Continuity.byTime]
  · simp [logs, log, TransactionLog.usable, Continuity.byTime]
  · simp [logs, log, base, TransactionLog.usable, Continuity.byPosition]
  · simp [logs, log, TransactionLog.usable, Continuity.byPosition]

def collectedAgain : List TransactionLog :=
  [log "1" "0/100" "0/200" 100 200 .available, log "2" "0/200" "0/300" 200 300 .gap,
    log "2" "0/200" "0/300" 200 300 .stored, log "3" "0/300" "0/400" 300 400 .available]

/-- The log with the gap was collected again. -/
theorem collectedAgain_recoverable :
    (calculate "source" "lineage" [base] collectedAgain 500).length = 2 ∧
    ∀ window ∈ calculate "source" "lineage" [base] collectedAgain 500, window.continuous →
      ∃ found ∈ [base], found.id = window.baseBackupID ∧
        ∀ instant, window.earliestTime ≤ instant → instant ≤ window.latestTime →
          Recoverable .byPosition found collectedAgain instant := by
  refine ⟨by decide, continuous_windows_recoverable .byPosition "source" "lineage" 500
    ⟨.refl _, by decide⟩ ⟨.refl _, by decide⟩ ?_⟩
  rintro _ ⟨⟩
  refine ⟨by decide, by decide, ?_, ?_, ?_⟩
  · rintro _ ⟨⟩
    rfl
  · simp [kept, collectedAgain, log, TransactionLog.breaks, Continuity.byPosition]
  · intro before found after hSplit _ _
    have hIn : found ∈ collectedAgain := by simp [hSplit]
    have hStarts : ∀ found ∈ collectedAgain, ∃ start, found.startTime = some start ∧ base.completedAt ≤ start := by
      simp [collectedAgain, log, base]
    exact hStarts found hIn

end Sample

end DBVault.RecoveryWindow
