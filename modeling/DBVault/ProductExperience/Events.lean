import DBVault.Calendar.Periods
import DBVault.ProductExperience.Jobs
import Mathlib.Data.List.Nodup

/-! The events of jobs: a buffer of the last thousand, and a client that follows them by
polling with the identifier of the last event it has received. -/
namespace DBVault.ProductExperience.Events
open List Text Jobs

structure JobEvent where
  (eventID eventType jobID resourceID jobType : String)
  status : JobStatus
  stage : String
  (stageIndex stageCount : Nat)
  percentage : Rat
  message : String
  canCancel : Bool
  createdAt : Time

def clampPercent (v : Rat) : Rat := if v < 0 then 0 else if v > 100 then 100 else v

/-- `evt-%06d`. -/
def eventIDOf (n : Nat) : String := "evt-" ++ Time.padded 6 n

/-- The counter and the buffer of the service. -/
structure Stream where
  eventSeq : Nat
  jobEvents : List JobEvent

namespace Stream
variable (s : Stream)

def capacity : Nat := 1000

def appendJobEventLocked (eventType : String) (job : JobView) (message : String) (now : Time) :
    JobEvent × Stream :=
  let eventSeq := s.eventSeq + 1
  let event : JobEvent :=
    { eventID := eventIDOf eventSeq, eventType := eventType, jobID := job.id
      resourceID := job.resourceID, jobType := job.jobType, status := job.status
      stage := job.stage, stageIndex := job.stageIndex, stageCount := job.stageCount
      percentage := clampPercent job.percentage, message := message, canCancel := job.canCancel
      createdAt := now }
  let jobEvents := s.jobEvents ++ [event]
  (event, ⟨eventSeq, if jobEvents.length > capacity then
    jobEvents.drop (jobEvents.length - capacity) else jobEvents⟩)

def pageLimit (limit : Int) : Nat := if limit ≤ 0 ∨ limit > 500 then 100 else limit.toNat

def startAfter (last : String) : Nat :=
  if last = "" then 0
  else match s.jobEvents.findIdx? fun event => event.eventID = last with
    | some i => i + 1
    | none => 0

def jobEventsSince (last : String) (limit : Int) : List JobEvent :=
  let start := s.startAfter last
  if start ≥ s.jobEvents.length then []
  else
    let stop := min (start + pageLimit limit) s.jobEvents.length
    (s.jobEvents.take stop).drop start

end Stream

theorem drop_append_last {α : Type} (xs : List α) (x : α) {n : Nat} (hn : 0 < n) :
    (if (xs.drop (xs.length - n) ++ [x]).length > n then
      (xs.drop (xs.length - n) ++ [x]).drop ((xs.drop (xs.length - n) ++ [x]).length - n)
      else xs.drop (xs.length - n) ++ [x]) = (xs ++ [x]).drop ((xs ++ [x]).length - n) := by
  have hLength : (xs.drop (xs.length - n) ++ [x]).length = min xs.length n + 1 := by
    simp only [length_append, length_drop, length_singleton]
    omega
  rw [hLength, length_append, length_singleton]
  by_cases hFull : n ≤ xs.length
  · rw [if_pos (by omega), Nat.min_eq_right hFull, Nat.add_sub_cancel_left,
      drop_append_of_le_length (by simp only [length_drop]; omega), drop_drop,
      drop_append_of_le_length (by omega), Nat.sub_add_comm hFull]
  · rw [if_neg (by omega), Nat.sub_eq_zero_of_le (by omega), Nat.sub_eq_zero_of_le (by omega)]
    rfl

theorem eventIDOf_injective : Function.Injective eventIDOf := by
  intro m n hSame
  have hChars := congrArg String.toList hSame
  simp only [eventIDOf, String.toList_append, append_cancel_left_eq] at hChars
  exact Time.padded_injective 6 (String.toList_injective hChars)

theorem eventIDOf_ne_empty (n : Nat) : eventIDOf n ≠ "" := by
  intro hEmpty
  have hChars := congrArg String.toList hEmpty
  simp [eventIDOf] at hChars

inductive Step where
  | append (eventType : String) (job : JobView) (message : String) (now : Time)
  | poll (limit : Int)

/-- The service, the events appended so far and those a client has received. -/
structure Following where
  stream : Stream
  (appended received : List JobEvent)

namespace Following
variable (f : Following)

def start : Following := ⟨⟨0, []⟩, [], []⟩

def cursor : String := (f.received.getLast?.map (·.eventID)).getD ""

def step : Step → Following
  | .append eventType job message now =>
    let (event, stream) := f.stream.appendJobEventLocked eventType job message now
    { f with stream := stream, appended := f.appended ++ [event] }
  | .poll limit => { f with received := f.received ++ f.stream.jobEventsSince f.cursor limit }

def run (steps : List Step) : Following := steps.foldl step start

theorem run_snoc (steps : List Step) (st : Step) : run (steps ++ [st]) = (run steps).step st := by simp [run]

def newer : List JobEvent :=
  if f.cursor = "" then f.appended
  else (f.appended.dropWhile fun event => event.eventID ≠ f.cursor).drop 1

def Overrun (steps : List Step) : Prop :=
  ∃ before limit after, steps = before ++ .poll limit :: after ∧ 1000 < (run before).newer.length

def Missed (event : JobEvent) : Prop :=
  event ∉ f.received ∧ ∃ before later, f.appended = before ++ later ∧ event ∈ before ∧
    ∃ other ∈ later, other ∈ f.received

def lastNumber (numbers : List Nat) : Nat := numbers.getLast?.getD 0

/-- The events are numbered, the buffer holds the last ones, and those received are some of the
events up to the last one received, with increasing numbers. -/
structure Tracks (numbers : List Nat) : Prop where
  seq : f.stream.eventSeq = f.appended.length
  ids : ∀ i event, f.appended[i]? = some event → event.eventID = eventIDOf (i + 1)
  buffer : f.stream.jobEvents = f.appended.drop (f.appended.length - Stream.capacity)
  numbered : f.received.map (·.eventID) = numbers.map eventIDOf
  increasing : numbers.Pairwise (· < ·)
  bounds : ∀ n ∈ numbers, 0 < n ∧ n ≤ f.appended.length
  within : f.received.Sublist (f.appended.take (lastNumber numbers))

variable {f} {numbers : List Nat}

theorem tracks_start : start.Tracks [] where
  seq := rfl
  ids := by simp [start]
  buffer := rfl
  numbered := rfl
  increasing := .nil
  bounds := by simp
  within := .slnil

section
variable (hTracks : f.Tracks numbers)
include hTracks

theorem Tracks.append (eventType : String) (job : JobView)
    (message : String) (now : Time) : (f.step (.append eventType job message now)).Tracks numbers := by
  refine ⟨?_, ?_, ?_, hTracks.numbered, hTracks.increasing, ?_, ?_⟩
  · simp [step, Stream.appendJobEventLocked, hTracks.seq]
  · intro i event hEvent
    rcases Nat.lt_trichotomy i f.appended.length with hBefore | rfl | hAfter
    · exact hTracks.ids i event (by simpa [step, getElem?_append, hBefore] using hEvent)
    · simp only [step, getElem?_concat_length, Option.some.injEq] at hEvent
      rw [← hEvent]
      simp [Stream.appendJobEventLocked, hTracks.seq]
    · simp [step, getElem?_append, show ¬ i < f.appended.length by omega,
        show i - f.appended.length ≠ 0 by omega] at hEvent
  · simp only [step, Stream.appendJobEventLocked, hTracks.buffer]
    exact drop_append_last _ _ (by decide)
  · intro n hn
    obtain ⟨hPos, hLe⟩ := hTracks.bounds n hn
    simp only [step, length_append, length_singleton]
    omega
  · simp only [step, take_append]
    exact hTracks.within.trans (sublist_append_left _ _)

theorem Tracks.cursor : f.cursor = if numbers = [] then "" else eventIDOf (lastNumber numbers) := by
  have hLast : f.received.getLast?.map (·.eventID) = numbers.getLast?.map eventIDOf := by
    rw [← getLast?_map, hTracks.numbered, getLast?_map]
  rw [Following.cursor, hLast]
  rcases eq_nil_or_concat numbers with rfl | ⟨front, n, rfl⟩
  · rfl
  · simp [lastNumber]

theorem Tracks.lastNumber_bounds (hNe : numbers ≠ []) :
    0 < lastNumber numbers ∧ lastNumber numbers ≤ f.appended.length := by
  rw [lastNumber, getLast?_eq_some_getLast hNe, Option.getD_some]
  exact hTracks.bounds _ (getLast_mem hNe)

theorem Tracks.eventID_eq_iff {i n : Nat}
    (hi : i < f.appended.length) : f.appended[i].eventID = eventIDOf n ↔ i + 1 = n := by
  rw [hTracks.ids i _ (getElem?_eq_getElem hi), eventIDOf_injective.eq_iff]

theorem Tracks.newer : f.newer = f.appended.drop (lastNumber numbers) := by
  rw [Following.newer, hTracks.cursor]
  by_cases hNil : numbers = []
  · rw [if_pos hNil, if_pos rfl, hNil]
    rfl
  · obtain ⟨hPos, hLe⟩ := hTracks.lastNumber_bounds hNil
    have hIndex : f.appended.findIdx (fun event =>
        !decide (event.eventID ≠ eventIDOf (lastNumber numbers))) = lastNumber numbers - 1 := by
      rw [findIdx_eq (by omega)]
      refine ⟨?_, fun j hj => ?_⟩
      · simp only [ne_eq, hTracks.eventID_eq_iff, decide_not, Bool.not_not, decide_eq_true_eq]
        omega
      · simp only [ne_eq, hTracks.eventID_eq_iff, decide_not, Bool.not_not, decide_eq_false_iff_not]
        omega
    rw [if_neg hNil, if_neg (eventIDOf_ne_empty _), dropWhile_eq_drop_findIdx_not, hIndex,
      drop_drop, Nat.sub_add_cancel hPos]

theorem Tracks.startAfter :
    f.stream.startAfter f.cursor = lastNumber numbers - (f.appended.length - Stream.capacity) := by
  rw [Stream.startAfter, hTracks.cursor]
  by_cases hNil : numbers = []
  · rw [if_pos hNil, if_pos rfl, hNil]
    simp [lastNumber]
  · obtain ⟨hPos, hLe⟩ := hTracks.lastNumber_bounds hNil
    rw [if_neg hNil, if_neg (eventIDOf_ne_empty _), hTracks.buffer]
    generalize f.appended.length - Stream.capacity = gone
    by_cases hGone : lastNumber numbers ≤ gone
    · -- the cursor has left the buffer
      have hNone : (f.appended.drop gone).findIdx?
          (fun event => event.eventID = eventIDOf (lastNumber numbers)) = none := by
        rw [findIdx?_eq_none_iff]
        intro event hEvent
        obtain ⟨i, hi, rfl⟩ := getElem_of_mem hEvent
        simp only [getElem_drop, hTracks.eventID_eq_iff, decide_eq_false_iff_not]
        omega
      rw [hNone, Nat.sub_eq_zero_of_le hGone]
    · have hSome : (f.appended.drop gone).findIdx?
          (fun event => event.eventID = eventIDOf (lastNumber numbers)) =
            some (lastNumber numbers - gone - 1) := by
        rw [findIdx?_eq_some_iff_getElem]
        refine ⟨by simp only [length_drop]; omega, ?_, fun j hj => ?_⟩
        · simp only [getElem_drop, hTracks.eventID_eq_iff, decide_eq_true_eq]
          omega
        · simp only [getElem_drop, hTracks.eventID_eq_iff, decide_eq_true_eq]
          omega
      rw [hSome]
      simp only
      omega

end

def skipped (f : Following) (numbers : List Nat) : Nat :=
  max (lastNumber numbers) (f.appended.length - Stream.capacity)

theorem Tracks.jobEventsSince (hTracks : f.Tracks numbers) (limit : Int) :
    f.stream.jobEventsSince f.cursor limit =
      (f.appended.drop (f.skipped numbers)).take (Stream.pageLimit limit) := by
  rw [skipped]
  have hStart : f.appended.length - Stream.capacity +
      (lastNumber numbers - (f.appended.length - Stream.capacity)) =
        max (lastNumber numbers) (f.appended.length - Stream.capacity) := by omega
  rw [Stream.jobEventsSince, hTracks.startAfter, hTracks.buffer, ← hStart, ← drop_drop]
  generalize f.appended.drop (f.appended.length - Stream.capacity) = kept
  generalize lastNumber numbers - (f.appended.length - Stream.capacity) = start
  simp only
  split
  case isTrue hPast => rw [drop_eq_nil_of_le hPast, take_nil]
  case isFalse hPast =>
    rw [drop_take, take_eq_take_iff, length_drop]
    omega

theorem Tracks.page_ids (hTracks : f.Tracks numbers) (first count : Nat) :
    ((f.appended.drop first).take count).map (·.eventID) =
      (List.range' (first + 1) (min count (f.appended.length - first))).map eventIDOf := by
  refine ext_getElem (by simp) fun i hi hi' => ?_
  simp only [length_map, length_take, length_drop] at hi
  simp only [getElem_map, getElem_take, getElem_drop, getElem_range', hTracks.eventID_eq_iff]
  omega

theorem lastNumber_append_range' (numbers : List Nat) (first count : Nat) :
    lastNumber (numbers ++ List.range' (first + 1) count) =
      if count = 0 then lastNumber numbers else first + count := by
  rcases count with _ | count
  · simp [lastNumber]
  · simp only [lastNumber, range'_concat, ← append_assoc, getLast?_concat,
      Option.getD_some, Nat.add_eq_zero_iff, one_ne_zero, and_false, if_false]
    omega

theorem Tracks.lastNumber_le (hTracks : f.Tracks numbers) : lastNumber numbers ≤ f.appended.length := by
  by_cases hNil : numbers = []
  · simp [hNil, lastNumber]
  · exact (hTracks.lastNumber_bounds hNil).2

theorem Tracks.le_lastNumber (hTracks : f.Tracks numbers) : ∀ n ∈ numbers, n ≤ lastNumber numbers := by
  have hIncreasing := hTracks.increasing
  rcases eq_nil_or_concat numbers with rfl | ⟨front, last, rfl⟩
  · simp
  · rw [concat_eq_append, pairwise_append] at hIncreasing
    intro n hn
    simp only [concat_eq_append, mem_append, mem_singleton] at hn
    simp only [lastNumber, concat_eq_append, getLast?_concat, Option.getD_some]
    rcases hn with hFront | rfl
    · exact (hIncreasing.2.2 n hFront last (by simp)).le
    · exact Nat.le_refl n

theorem Tracks.poll (hTracks : f.Tracks numbers) (limit : Int) :
    ∃ count, f.skipped numbers + count ≤ f.appended.length ∧
      (f.step (.poll limit)).received = f.received ++ (f.appended.drop (f.skipped numbers)).take count ∧
      (f.step (.poll limit)).Tracks (numbers ++ List.range' (f.skipped numbers + 1) count) := by
  have hLast := hTracks.lastNumber_le
  have hSkipped : lastNumber numbers ≤ f.skipped numbers ∧ f.skipped numbers ≤ f.appended.length := by
    rw [skipped]
    omega
  have hPage := hTracks.jobEventsSince limit
  generalize f.skipped numbers = first at hSkipped hPage ⊢
  have hIDs := hTracks.page_ids first (Stream.pageLimit limit)
  have hCut : (f.appended.drop first).take (Stream.pageLimit limit) =
      (f.appended.drop first).take (min (Stream.pageLimit limit) (f.appended.length - first)) := by
    rw [take_eq_take_iff, length_drop]
    omega
  refine ⟨min (Stream.pageLimit limit) (f.appended.length - first), by omega, ?_, hTracks.seq,
    hTracks.ids, hTracks.buffer, ?_, ?_, ?_, ?_⟩
  · simp only [step, hPage, hCut]
  · simp only [step, hPage, map_append, hTracks.numbered, hIDs]
  · rw [pairwise_append]
    refine ⟨hTracks.increasing, pairwise_lt_range', fun m hm n hn => ?_⟩
    have hLe := hTracks.le_lastNumber m hm
    rw [mem_range'_1] at hn
    omega
  · intro n hn
    rcases mem_append.mp hn with hOld | hNew
    · exact hTracks.bounds n hOld
    · rw [mem_range'_1] at hNew
      simp only [step]
      omega
  · have hOld : f.received.Sublist (f.appended.take first) :=
      hTracks.within.trans (take_sublist_take_left hSkipped.1)
    simp only [step, hPage, hCut, lastNumber_append_range']
    split
    case isTrue hNone => simpa only [hNone, take_zero, append_nil] using hTracks.within
    case isFalse => simpa only [take_add] using hOld.append (List.Sublist.refl _)

theorem run_tracks (steps : List Step) : ∃ numbers, (run steps).Tracks numbers := by
  induction steps using List.reverseRecOn with
  | nil => exact ⟨[], tracks_start⟩
  | append_singleton steps st ih =>
    obtain ⟨numbers, hTracks⟩ := ih
    rw [run_snoc]
    cases st with
    | append eventType job message now => exact ⟨numbers, hTracks.append _ _ _ _⟩
    | poll limit =>
      obtain ⟨count, -, -, hNext⟩ := hTracks.poll limit
      exact ⟨_, hNext⟩

theorem Overrun.snoc {steps : List Step} (hOver : Overrun steps) (st : Step) : Overrun (steps ++ [st]) := by
  obtain ⟨before, limit, after, rfl, hMany⟩ := hOver
  exact ⟨before, limit, after ++ [st], by simp, hMany⟩

theorem run_complete (steps : List Step) (hFits : ¬ Overrun steps) :
    ∃ numbers, (run steps).Tracks numbers ∧
      (run steps).received = (run steps).appended.take (lastNumber numbers) := by
  induction steps using List.reverseRecOn with
  | nil => exact ⟨[], tracks_start, rfl⟩
  | append_singleton steps st ih =>
    obtain ⟨numbers, hTracks, hAll⟩ := ih fun hOver => hFits (hOver.snoc st)
    rw [run_snoc]
    cases st with
    | append eventType job message now =>
      refine ⟨numbers, hTracks.append _ _ _ _, ?_⟩
      rw [show ((run steps).step (.append eventType job message now)).received =
        (run steps).received from rfl, hAll]
      simp only [step]
      rw [take_append_of_le_length hTracks.lastNumber_le]
    | poll limit =>
      obtain ⟨count, hCount, hReceived, hNext⟩ := hTracks.poll limit
      have hNewer : (run steps).newer.length ≤ 1000 := by
        by_contra hMany
        exact hFits ⟨steps, limit, [], by simp, by omega⟩
      -- nothing is skipped: the cursor is still in the buffer
      have hSkipped : (run steps).skipped numbers = lastNumber numbers := by
        rw [hTracks.newer, length_drop] at hNewer
        simp only [skipped, Stream.capacity]
        omega
      refine ⟨_, hNext, ?_⟩
      rw [hReceived, hAll, hSkipped, lastNumber_append_range']
      split
      case isTrue hNone => simp [hNone, step]
      case isFalse => rw [← take_add, step]

theorem Tracks.appended_ids (hTracks : f.Tracks numbers) :
    f.appended.map (·.eventID) = (List.range' 1 f.appended.length).map eventIDOf := by
  simpa using hTracks.page_ids 0 f.appended.length

theorem Tracks.nodup (hTracks : f.Tracks numbers) : f.appended.Nodup := by
  have hIDs : (f.appended.map (·.eventID)).Nodup := by
    rw [hTracks.appended_ids]
    exact List.Nodup.map eventIDOf_injective nodup_range'
  exact List.Nodup.of_map _ hIDs

theorem Tracks.not_missed_of_isPrefix (hTracks : f.Tracks numbers)
    (hPrefix : f.received <+: f.appended) (event : JobEvent) : ¬ f.Missed event := by
  rintro ⟨hNot, before, later, hSplit, hBefore, other, hLater, hReceived⟩
  have hNodup := hTracks.nodup
  rw [hSplit] at hPrefix hNodup
  rcases prefix_or_prefix_of_prefix hPrefix (prefix_append before later) with
    hShort | hLong
  · exact (nodup_append.mp hNodup).2.2 other (hShort.subset hReceived) other hLater rfl
  · exact hNot (hLong.subset hBefore)

/-- The events are numbered as they are appended; those a client receives are some of them, in
order and with increasing numbers. The client misses an event only if the buffer was overrun, and
otherwise what it has received is always a first part of what was appended. -/
theorem received_in_order (steps : List Step) :
    (run steps).appended.map (·.eventID) = (List.range' 1 (run steps).appended.length).map eventIDOf ∧
      (run steps).received.Sublist (run steps).appended ∧
      (∃ numbers : List Nat, numbers.Pairwise (· < ·) ∧
        (run steps).received.map (·.eventID) = numbers.map eventIDOf) ∧
      (∀ event, (run steps).Missed event → Overrun steps) ∧
      (¬ Overrun steps → (run steps).received <+: (run steps).appended) := by
  obtain ⟨numbers, hTracks⟩ := run_tracks steps
  have hPrefix : ¬ Overrun steps → (run steps).received <+: (run steps).appended := by
    intro hFits
    obtain ⟨numbers, -, hAll⟩ := run_complete steps hFits
    rw [hAll]
    exact take_prefix _ _
  refine ⟨hTracks.appended_ids, hTracks.within.trans (take_sublist _ _),
    ⟨numbers, hTracks.increasing, hTracks.numbered⟩, fun event hMissed => ?_, hPrefix⟩
  by_contra hFits
  exact hTracks.not_missed_of_isPrefix (hPrefix hFits) event hMissed

end Following

end DBVault.ProductExperience.Events
