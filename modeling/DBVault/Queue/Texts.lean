import DBVault.Calendar.Texts
import DBVault.Queue.Sqlite

/-! Which job the durable queue hands out, by the times of the jobs and not by their texts. -/
namespace DBVault.Queue.SqliteQueue
open List Keyed

variable (now : Time) (types : List JobType)

/-- The conditions of the `SELECT` other than the one on `available_at`. -/
def Waiting (row : JobRow) : Prop :=
  [JobStatus.pending, .retrying, .interrupted].contains row.status ∧
    (row.leaseExpiresAt.isNull || row.leaseExpiresAt.le now) ∧
    (types.isEmpty || types.contains row.type)

def Due (row : JobRow) : Prop := Waiting now types row ∧ row.availableAt ≤ now

instance : DecidablePred (Due now types) := fun row =>
  inferInstanceAs (Decidable ((_ ∧ _ ∧ _) ∧ row.availableAt ≤ now))

/-- The job is due, none that is due is more urgent, and none as urgent is older. -/
def Foremost (q : SqliteQueue) (row : JobRow) : Prop :=
  row ∈ q.rows ∧ Due now types row ∧ ∀ other ∈ q.rows, Due now types other →
    other.priority ≤ row.priority ∧ (other.priority = row.priority → row.createdAt ≤ other.createdAt)

variable {row : JobRow}

theorem selectable_iff : selectable now types row = true ↔
    Waiting now types row ∧ row.availableAt.rfc3339Nano ≤ now.rfc3339Nano := by
  simp only [selectable, Waiting, Bool.and_eq_true, decide_eq_true_eq]
  tauto

variable {q : SqliteQueue}

theorem exists_foremost (hRow : row ∈ q.rows) (hDue : Due now types row) :
    ∃ first, Foremost now types q first := by
  have hLine : q.rows.filter (Due now types ·) ≠ [] := ne_nil_of_mem (mem_filter.mpr ⟨hRow, decide_eq_true hDue⟩)
  obtain ⟨first, hFirst, hLeast⟩ := Table.exists_least
    (fun row : JobRow => toLex (-row.priority, row.createdAt)) hLine
  obtain ⟨hMem, hFirstDue⟩ := mem_filter.mp hFirst
  refine ⟨first, hMem, of_decide_eq_true hFirstDue, fun other hOther hOtherDue => ?_⟩
  have hLe := hLeast other (mem_filter.mpr ⟨hOther, decide_eq_true hOtherDue⟩)
  rw [Prod.Lex.le_iff] at hLe
  simp only [ofLex_toLex] at hLe
  constructor
  · omega
  · intro hSame
    rcases hLe with hLess | ⟨-, hCreated⟩
    · omega
    · exact hCreated

variable {tie : String → Nat}

theorem first_spec (hFirst : q.first (selectable now types) (rank tie) = some row) :
    row ∈ q.rows ∧ selectable now types row = true ∧
      ∀ other ∈ q.rows, selectable now types other = true → other.priority ≤ row.priority ∧
        (other.priority = row.priority → row.createdAt.rfc3339Nano ≤ other.createdAt.rfc3339Nano) := by
  obtain ⟨hMem, hSelectable, hLeast⟩ := (Table.first_eq_some (rank_key tie)).mp hFirst
  refine ⟨hMem, hSelectable, fun other hOther hOtherSelectable => ?_⟩
  have hLe := hLeast other hOther hOtherSelectable
  simp only [rank, Prod.Lex.le_iff, ofLex_toLex] at hLe
  constructor
  · omega
  · intro hSame
    rcases hLe with hLess | ⟨-, hText | ⟨hText, -⟩⟩
    · omega
    · exact hText.le
    · exact hText.le

theorem first_of_leased {workerID : String} {leaseDuration : Int} (hRow : row ∈ q.rows)
    (hLease : (leaseNext q now workerID types leaseDuration tie).1 =
      some (leasedJob now workerID leaseDuration row)) :
    q.first (selectable now types) (rank tie) = some row := by
  unfold leaseNext at hLease
  cases hFirst : q.first (selectable now types) (rank tie) with
  | none =>
    rw [hFirst] at hLease
    cases hLease
  | some found =>
    rw [hFirst] at hLease
    have hJob : leasedJob now workerID leaseDuration found = leasedJob now workerID leaseDuration row :=
      Option.some.inj hLease
    have hID : found.id = row.id := found.sameID.symm.trans ((congrArg Job.id hJob).trans row.sameID)
    rw [Table.eq_of_key (first_spec now types hFirst).1 hRow hID]

def HandsOutForemost (q : SqliteQueue) : Prop :=
  ∀ (workerID : String) (leaseDuration : Int) (tie : String → Nat),
    (∃ row ∈ q.rows, Due now types row) →
      ∃ row, Foremost now types q row ∧
        (leaseNext q now workerID types leaseDuration tie).1 = some (leasedJob now workerID leaseDuration row)

/-- Where texts tell which jobs are due, the oldest of the most urgent ones is handed out exactly
if its time of creation is not one that another one's goes on from. -/
theorem handsOutForemost_iff (hYears : ∀ row ∈ q.rows, row.createdAt.FourDigitYear)
    (hTold : ∀ row ∈ q.rows, selectable now types row = true ↔ Due now types row) :
    HandsOutForemost now types q ↔
      ∀ row, Foremost now types q row → ∀ other ∈ q.rows, Due now types other →
        other.priority = row.priority → ¬ Time.Cut row.createdAt other.createdAt := by
  constructor
  · rintro hHands row ⟨hRow, hDue, hBest⟩ other hOther hOtherDue hPriority hCut
    obtain ⟨given, ⟨hGiven, hGivenDue, hGivenBest⟩, hLease⟩ := hHands "" 0 (fun _ => 0) ⟨row, hRow, hDue⟩
    have hFirst := first_of_leased now types hGiven hLease
    obtain ⟨-, -, hLeast⟩ := first_spec now types hFirst
    -- The job that was handed out is as urgent and as old as the foremost one.
    obtain ⟨hUrgent, hOld⟩ := hBest given hGiven hGivenDue
    obtain ⟨hUrgent', hOld'⟩ := hGivenBest row hRow hDue
    have hSamePriority : given.priority = row.priority := le_antisymm hUrgent hUrgent'
    have hSameTime : given.createdAt = row.createdAt := le_antisymm (hOld' hSamePriority.symm) (hOld hSamePriority)
    have hText := (hLeast other hOther ((hTold other hOther).mpr hOtherDue)).2 (hPriority.trans hSamePriority.symm)
    have hLess := (Time.rfc3339Nano_lt_iff (hYears other hOther) (hYears row hRow)).mpr (.inr hCut)
    rw [hSameTime] at hText
    exact absurd hText (not_le.mpr hLess)
  · intro hNotCut workerID leaseDuration tie hSome
    obtain ⟨some, hMem, hDue⟩ := hSome
    unfold leaseNext
    cases hFirst : q.first (selectable now types) (rank tie) with
    | none =>
      have hNone := Table.first_eq_none.mp hFirst some hMem
      rw [(hTold some hMem).mpr hDue] at hNone
      cases hNone
    | some row =>
      obtain ⟨hRow, hSelectable, hLeast⟩ := first_spec now types hFirst
      refine ⟨row, ⟨hRow, (hTold row hRow).mp hSelectable, fun other hOther hOtherDue => ?_⟩, rfl⟩
      obtain ⟨hUrgent, hText⟩ := hLeast other hOther ((hTold other hOther).mpr hOtherDue)
      refine ⟨hUrgent, fun hSame => ?_⟩
      by_contra hOlder
      obtain ⟨first, hForemost⟩ := exists_foremost now types hMem hDue
      have ⟨hFirstMem, hFirstDue, hBest⟩ := hForemost
      obtain ⟨hUrgent', hText'⟩ := hLeast first hFirstMem ((hTold first hFirstMem).mpr hFirstDue)
      have hRowDue := (hTold row hRow).mp hSelectable
      have hSamePriority : row.priority = first.priority := le_antisymm (hBest row hRow hRowDue).1 hUrgent'
      have hEarlier : first.createdAt < row.createdAt := lt_of_le_of_lt
        ((hBest other hOther hOtherDue).2 (hSame.trans hSamePriority)) (not_le.mp hOlder)
      have hLess := (Time.rfc3339Nano_lt_iff (hYears first hFirstMem) (hYears row hRow)).mpr
        (.inl ⟨hEarlier, hNotCut first hForemost row hRow hRowDue hSamePriority⟩)
      exact absurd (hText' hSamePriority.symm) (not_le.mpr hLess)

/-- Exactly when the queue goes by times and not by their texts: no waiting job's time and the
current one, and no job's time of creation and that of the oldest one as urgent, are equal up to
where one of them ends. -/
theorem lease_follows_times_iff {q : SqliteQueue} (hYears : ∀ row ∈ q.rows,
      (1 ≤ row.availableAt.year ∧ row.availableAt.year ≤ 9999) ∧
        1 ≤ row.createdAt.year ∧ row.createdAt.year ≤ 9999) :
    ((∀ row ∈ q.rows, Waiting now types row → (selectable now types row = true ↔ row.availableAt ≤ now)) ∧
      HandsOutForemost now types q) ↔
    (∀ row ∈ q.rows, Waiting now types row → Time.Telling row.availableAt now) ∧
      ∀ row, Foremost now types q row → ∀ other ∈ q.rows, Due now types other →
        other.priority = row.priority → ¬ Time.Cut row.createdAt other.createdAt := by
  have hTelling : (∀ row ∈ q.rows, Waiting now types row →
        (selectable now types row = true ↔ row.availableAt ≤ now)) ↔
      ∀ row ∈ q.rows, Waiting now types row → Time.Telling row.availableAt now := by
    apply forall₃_congr
    intro row hRow hWaiting
    have hYear : row.availableAt.FourDigitYear := by
      have hYear := (hYears row hRow).1
      exact ⟨by omega, by omega⟩
    rw [selectable_iff, and_iff_right hWaiting, Time.rfc3339Nano_le_iff hYear]
  rw [← hTelling]
  apply and_congr_right
  intro hTold
  apply handsOutForemost_iff
  · intro row hRow
    have hYear := (hYears row hRow).2
    exact ⟨by omega, by omega⟩
  · intro row hRow
    constructor
    · intro hSelectable
      have hWaiting := ((selectable_iff now types).mp hSelectable).1
      exact ⟨hWaiting, (hTold row hRow hWaiting).mp hSelectable⟩
    · rintro ⟨hWaiting, hAvailable⟩
      exact (hTold row hRow hWaiting).mpr hAvailable

namespace Sample

def after (nanos : Int) : Time := 1700000000 * Time.nanosPerSecond + nanos

def waiting (id : String) (available created : Int) : Job where
  id := id
  status := .pending
  availableAt := after available
  createdAt := after created

def queue (jobs : List Job) : SqliteQueue := jobs.foldl (fun q job => (enqueue q job).2) .empty

/-- Half a second after a job has become available it is not found, and the second of two jobs,
created ten milliseconds after the first, is handed out before it. -/
theorem texts_mislead :
    (∃ row ∈ (queue [waiting "a" 0 0]).rows, Waiting (after 500000000) [] row ∧
      row.availableAt ≤ after 500000000 ∧ selectable (after 500000000) [] row = false) ∧
    (after 500000000 < after 510000000 ∧
      (leaseNext (queue [waiting "a" 0 500000000, waiting "b" 0 510000000]) (after 1000000000) "worker"
        [] 0 fun _ => 0).1.map Job.id = some "b") := by
  refine ⟨⟨jobArgs (waiting "a" 0 0), Table.mem_store.mpr (.inl rfl), ?_, by decide, by decide +kernel⟩,
    by decide, by decide +kernel⟩
  unfold Waiting
  decide

def apart : SqliteQueue := queue [waiting "a" 0 0, waiting "b" 3000000000 1000000000]

theorem apart_rows : apart.rows = [jobArgs (waiting "a" 0 0), jobArgs (waiting "b" 3000000000 1000000000)] := rfl

theorem seconds_followed :
    (∀ row ∈ apart.rows, (1 ≤ row.availableAt.year ∧ row.availableAt.year ≤ 9999) ∧
      1 ≤ row.createdAt.year ∧ row.createdAt.year ≤ 9999) ∧
    (∀ row ∈ apart.rows, Waiting (after 2000000000) [] row →
      (selectable (after 2000000000) [] row = true ↔ row.availableAt ≤ after 2000000000)) ∧
    HandsOutForemost (after 2000000000) [] apart := by
  have hYears : ∀ row ∈ apart.rows, (1 ≤ row.availableAt.year ∧ row.availableAt.year ≤ 9999) ∧
      1 ≤ row.createdAt.year ∧ row.createdAt.year ≤ 9999 := by
    rw [apart_rows]
    decide +kernel
  have hSeconds : ∀ row ∈ apart.rows, row.availableAt.seconds ≠ (after 2000000000).seconds := by
    rw [apart_rows]
    decide +kernel
  refine ⟨hYears, (lease_follows_times_iff _ _ hYears).mpr ⟨?_, ?_⟩⟩
  · intro row hRow _
    refine .inr (.inl ⟨⟨by decide +kernel, by decide +kernel⟩, fun hCut => ?_, fun hCut => ?_⟩)
    · exact hSeconds row hRow (Time.cut_iff.mp hCut).1
    · exact hSeconds row hRow (Time.cut_iff.mp hCut).1.symm
  · rintro row ⟨hRow, hDue, -⟩ other hOther hOtherDue - hCut
    -- Only the first job is due.
    have hOnly : ∀ row ∈ apart.rows, Due (after 2000000000) [] row → row.createdAt = after 0 := by
      rw [apart_rows]
      decide +kernel
    exact hCut.1 ((hOnly row hRow hDue).trans (hOnly other hOther hOtherDue).symm)

end Sample

end DBVault.Queue.SqliteQueue
