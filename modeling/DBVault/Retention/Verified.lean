import DBVault.Retention.Plan

/-! How many verified snapshots a plan leaves. The minimum the policy asks for is read by no rule
of the planner. -/
namespace DBVault.Retention
open List

def verified (snaps : List Snapshot) : List Snapshot := (eligible snaps).filter (·.verifiedAt.isSome)

def remaining (snaps : List Snapshot) (decision : RetentionDecision) : List Snapshot :=
  (verified snaps).filter (·.id ∉ decision.tombstone)

variable {sorted : List Snapshot} {p : Planner} {s : Snapshot}

theorem Planner.mem_tombstone (hs : s ∈ sorted) :
    s.id ∈ (p.planSorted sorted).tombstone ↔ ∀ before t after c, sorted = before ++ t :: after → t.id = s.id →
      ¬ p.Reason before t c := by
  have hNone : p.keepOf sorted s.id = [] ↔ ∀ before t after c, sorted = before ++ t :: after → t.id = s.id →
      ¬ p.Reason before t c := by
    rw [eq_nil_iff_forall_not_mem]
    simp only [mem_keepOf]
    constructor
    · intro hNot before t after c hSplit hID hReason
      exact hNot c ⟨t, hID, before, after, hSplit, hReason⟩
    · rintro hNot c ⟨t, hID, before, after, hSplit, hReason⟩
      exact hNot before t after c hSplit hID hReason
  rw [← hNone]
  constructor
  · intro hTomb
    obtain ⟨t, ht, hId⟩ := mem_map.mp hTomb
    rw [← hId]
    exact of_decide_eq_true (mem_filter.mp ht).2
  · intro hNone
    exact mem_map.mpr ⟨s, mem_filter.mpr ⟨hs, decide_eq_true hNone⟩, rfl⟩

/-- How many of the newest snapshots are kept for being so. -/
def Planner.newestKept (p : Planner) : Nat := (max p.policy.keepLast 1).toNat

theorem Planner.remaining_of_few {snaps : List Snapshot} {decision : RetentionDecision}
    (hFew : (eligible snaps).length ≤ p.newestKept) (hPlan : p.Plans snaps decision) :
    remaining snaps decision = verified snaps := by
  obtain ⟨sorted, hSorted, rfl⟩ := hPlan
  refine filter_eq_self.mpr fun s hs => ?_
  have hMem : s ∈ sorted := hSorted.1.symm.subset (mem_filter.mp hs).1
  obtain ⟨before, after, hSplit⟩ := append_of_mem hMem
  have hLength := hSorted.1.length_eq
  rw [hSplit, length_append, length_cons] at hLength
  rw [decide_eq_true_eq, mem_tombstone hMem]
  intro hNot
  unfold newestKept at hFew
  by_cases hLatest : before = []
  · exact hNot before s after .latest hSplit rfl hLatest
  · have hPos := length_pos_iff.mpr hLatest
    exact hNot before s after .recent hSplit rfl (show (before.length : Int) < p.policy.keepLast by omega)

/-- The unverified snapshots come first, the verified ones a nanosecond before them. -/
def crowd (kept i : Nat) : Snapshot where
  id := Text.decimal i
  status := .committed
  createdAt := if i < kept then 1 else 0
  verifiedAt := if i < kept then none else some 0

def crowded (kept n : Nat) : List Snapshot := (range n).map (crowd kept)

theorem eligible_crowded (kept n : Nat) : eligible (crowded kept n) = crowded kept n := by
  refine filter_eq_self.mpr fun s hs => ?_
  obtain ⟨i, -, rfl⟩ := mem_map.mp hs
  rfl

theorem crowded_sorted (kept n : Nat) : (crowded kept n).Pairwise fun a b => b.createdAt ≤ a.createdAt := by
  refine pairwise_map.mpr (pairwise_lt_range.imp fun {i j} hLess => ?_)
  simp only [crowd]
  split_ifs <;> first | omega | decide

theorem crowd_inj {kept i j : Nat} (h : (crowd kept i).id = (crowd kept j).id) : i = j :=
  Int.ofNat_inj.mp (Text.decimalChars_injective (String.ofList_injective h))

theorem verified_crowded {kept n : Nat} (hMany : kept < n) : 0 < (verified (crowded kept n)).length := by
  refine length_pos_of_mem (a := crowd kept kept) (mem_filter.mpr ⟨?_, by simp [crowd]⟩)
  rw [eligible_crowded]
  exact mem_map_of_mem (mem_range.mpr hMany)

/-- Both times are shown on one day. -/
theorem Planner.day_crowd (p : Planner) (kept i j : Nat) :
    p.day (crowd kept i).createdAt = p.day (crowd kept j).createdAt := by
  have hSecond : ∀ i, p.day (crowd kept i).createdAt = p.location.offset 0 / 86400 := by
    intro i
    have hNanos : Time.nanosPerSecond = 1000000000 := rfl
    simp only [day, Time.day, Location.shown, crowd]
    split_ifs
    · rw [show (1 : Time) / Time.nanosPerSecond = 0 by decide, hNanos]
      unfold Time
      omega
    · simp [Time.nanosPerSecond]
  rw [hSecond, hSecond]

theorem Planner.crowded_lost (p : Planner) (n : Nat) :
    remaining (crowded p.newestKept n) (p.planSorted (crowded p.newestKept n)) = [] := by
  refine filter_eq_nil_iff.mpr fun s hs => ?_
  rw [decide_eq_true_eq, not_not]
  obtain ⟨hEligible, hVerified⟩ := mem_filter.mp hs
  rw [eligible_crowded] at hEligible
  obtain ⟨i, hi, rfl⟩ := mem_map.mp hEligible
  have hKept : p.newestKept ≤ i := by
    by_contra hLess
    simp [crowd, not_le.mp hLess] at hVerified
  rw [mem_tombstone hEligible]
  rintro before t after c hSplit hID
  have ht : (crowded p.newestKept n)[before.length]? = some t := by simp [hSplit]
  obtain ⟨j, hj, rfl⟩ : ∃ j, (range n)[before.length]? = some j ∧ crowd p.newestKept j = t := by simpa [crowded] using ht
  obtain ⟨hLess, hEq⟩ := List.getElem?_eq_some_iff.mp hj
  rw [getElem_range] at hEq
  subst hEq
  obtain rfl := crowd_inj hID
  -- The newest snapshot of all is before it, and on the same day.
  have hPos : 1 ≤ p.newestKept := by
    unfold newestKept
    omega
  have hFirst : crowd p.newestKept 0 ∈ before := by
    refine mem_of_getElem? (i := 0) ?_
    have hLonger : before[0]? = (before ++ crowd p.newestKept before.length :: after)[0]? :=
      (getElem?_append_left (by omega)).symm
    rw [hLonger, ← hSplit]
    simp [crowded, Nat.zero_lt_of_lt (mem_range.mp hi)]
  have hDay := p.day_crowd p.newestKept 0 before.length
  cases c with
  | recent =>
    unfold newestKept at hKept
    show ¬ (before.length : Int) < p.policy.keepLast
    omega
  | latest => exact ne_nil_of_mem hFirst
  | protectedSnapshot => exact fun h => by cases h
  | restoreTest => exact fun h => by cases h.1
  | daily => exact fun h => h.1 _ hFirst hDay
  | weekly => exact fun h => h.1 _ hFirst (congrArg (fun day => (day + 3) / 7) hDay)
  | monthly =>
    exact fun h => h.1 _ hFirst (congrArg (fun day => ((Time.civil day).1, (Time.civil day).2.1)) hDay)

/-- Every list of so many eligible snapshots is left with enough verified ones exactly if they are no more than
those kept for being the newest: the planner looks at no verification. -/
theorem verified_minimum_iff (policy : RetentionPolicy) (loc : Option Location)
    (hMinimum : 2 ≤ policy.minimumVerifiedSnapshots) (n : Nat) :
    (∀ snaps decision, (eligible snaps).length = n → (new policy loc).Plans snaps decision →
      min policy.minimumVerifiedSnapshots (verified snaps).length ≤ (remaining snaps decision).length) ↔
    n ≤ max (if policy.keepLast = 0 then 4 else policy.keepLast) 1 := by
  have hKept : (n : Int) ≤ max (if policy.keepLast = 0 then 4 else policy.keepLast) 1 ↔
      n ≤ (new policy loc).newestKept := by
    have hPolicy : (new policy loc).policy.keepLast = if policy.keepLast = 0 then 4 else policy.keepLast := by
      simp only [new]
      split <;> rfl
    rw [Planner.newestKept, hPolicy]
    omega
  rw [hKept]
  constructor
  · intro hEnough
    by_contra hMany
    have hLost := hEnough (crowded (new policy loc).newestKept n) _
      (by rw [eligible_crowded, crowded, length_map, length_range])
      ⟨_, ⟨by rw [eligible_crowded], crowded_sorted _ n⟩, rfl⟩
    have hSome := verified_crowded (not_le.mp hMany)
    rw [Planner.crowded_lost, length_nil] at hLost
    omega
  · intro hFew snaps decision hCount hPlan
    rw [Planner.remaining_of_few (hCount ▸ hFew) hPlan]
    omega

namespace Sample

def lastOnly : RetentionPolicy where
  keepLast := 1
  daily := 0
  weekly := 0
  monthly := 0
  minimumVerifiedSnapshots := 2
  keepLatestRestoreTested := false
  tombstoneGracePeriod := 0
  chunkGCGracePeriod := 0

def unverifiedLast : List Snapshot :=
  [midnight "c" 2, { midnight "b" 1 with verifiedAt := some 0 },
   { midnight "a" 0 with verifiedAt := some 0 }]

/-- No verified snapshot is left. -/
theorem verified_snapshots_lost : 2 ≤ lastOnly.minimumVerifiedSnapshots ∧
    (verified unverifiedLast).length = 2 ∧
    ∃ decision, (new lastOnly none).Plans unverifiedLast decision ∧ remaining unverifiedLast decision = [] :=
  ⟨by decide, by decide, _, ⟨unverifiedLast, ⟨by decide, by decide⟩, rfl⟩, by decide +kernel⟩

def lastThree : RetentionPolicy := { lastOnly with keepLast := 3 }

theorem verified_snapshots_left :
    (verified unverifiedLast).length = 2 ∧
      2 ≤ (remaining unverifiedLast ((new lastThree none).planSorted unverifiedLast)).length := by
  refine ⟨by decide, ?_⟩
  have hLeft := (verified_minimum_iff lastThree none (by decide) 3).mpr (by decide) unverifiedLast _ (by decide)
    ⟨unverifiedLast, ⟨by decide, by decide⟩, rfl⟩
  exact Int.ofNat_le.mp (le_trans (by decide) hLeft)

end Sample

end DBVault.Retention
