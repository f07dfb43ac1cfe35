import DBVault.Retention

/-! What a plan records: the reasons for which a snapshot is kept, each from what is newer than
it alone. -/
namespace DBVault.Retention
open List Selection

namespace Planner
variable (p : Planner)

def day (t : Time) : Int := (p.location.shown t).day
def week (t : Time) : Int := (p.location.shown t).week
def month (t : Time) : Int × Nat := (p.location.shown t).month

end Planner

/-- No snapshot of the period is newer, and so many at most are the periods of newer ones. -/
def LastOf {κ : Type} [DecidableEq κ] (period : Time → κ) (limit : Int) (newer : List Snapshot)
    (s : Snapshot) : Prop :=
  (∀ other ∈ newer, period other.createdAt ≠ period s.createdAt) ∧
    (newer.map fun other => period other.createdAt).toFinset.card < limit

instance {κ : Type} [DecidableEq κ] (period : Time → κ) (limit : Int) (newer : List Snapshot)
    (s : Snapshot) : Decidable (LastOf period limit newer s) :=
  inferInstanceAs (Decidable (_ ∧ _))

namespace Planner
variable (p : Planner)

/-- Why a snapshot is kept that these are newer than. -/
def Reason (newer : List Snapshot) (s : Snapshot) : RetentionClass → Prop
  | .recent => newer.length < p.policy.keepLast
  | .latest => newer = []
  | .protectedSnapshot => s.status = .protectedSnapshot
  | .restoreTest => s.restoreTestedAt.isSome ∧ p.policy.keepLatestRestoreTested
  | .daily => LastOf p.day p.policy.daily newer s
  | .weekly => LastOf p.week p.policy.weekly newer s
  | .monthly => LastOf p.month p.policy.monthly newer s

instance (newer : List Snapshot) (s : Snapshot) : DecidablePred (p.Reason newer s)
  | .recent => inferInstanceAs (Decidable (_ < _))
  | .latest => inferInstanceAs (Decidable (newer = []))
  | .protectedSnapshot => inferInstanceAs (Decidable (s.status = _))
  | .restoreTest => inferInstanceAs (Decidable (_ ∧ _))
  | .daily => inferInstanceAs (Decidable (LastOf p.day _ _ _))
  | .weekly => inferInstanceAs (Decidable (LastOf p.week _ _ _))
  | .monthly => inferInstanceAs (Decidable (LastOf p.month _ _ _))

end Planner

def classes : List RetentionClass :=
  [.recent, .latest, .protectedSnapshot, .restoreTest, .daily, .weekly, .monthly]

theorem Keep.add_apply (keep : Keep) (owner id : String) (c : RetentionClass) :
    keep.add owner c id = keep id ++ if owner = id then [c] else [] := by
  unfold add
  by_cases hId : owner = id
  · subst hId
    simp
  · simp [hId, Function.update_of_ne (Ne.symm hId)]

namespace Planner
variable {p : Planner} {keep : Keep} {id : String} {s : Snapshot} {before : List Snapshot}

theorem ite_add_apply {b : Prop} [Decidable b] (hb : b ↔ p.Reason before s c) :
    (if b then keep.add s.id c else keep) id =
      keep id ++ if s.id = id then [c].filter (p.Reason before s) else [] := by
  by_cases hReason : p.Reason before s c
  · rw [if_pos (hb.mpr hReason), Keep.add_apply]
    simp [hReason]
  · rw [if_neg (mt hb.mp hReason)]
    simp [hReason]

theorem mark_apply : p.mark keep before.length s id = keep id ++
    if s.id = id then (classes.take 4).filter (p.Reason before s) else [] := by
  have hRecent : before.length < p.policy.keepLast ↔ p.Reason before s .recent := .rfl
  have hLatest : before.length = 0 ↔ p.Reason before s .latest := length_eq_zero_iff
  have hProtected : s.status = .protectedSnapshot ↔ p.Reason before s .protectedSnapshot := .rfl
  have hTested : (s.restoreTestedAt.isSome && p.policy.keepLatestRestoreTested) = true ↔
      p.Reason before s .restoreTest := Bool.and_eq_true_iff
  unfold mark
  rw [ite_add_apply hTested, ite_add_apply hProtected, ite_add_apply hLatest, ite_add_apply hRecent]
  by_cases hId : s.id = id
  · simp only [hId, if_true, append_assoc, ← filter_append]
    rfl
  · simp [hId]

theorem markFrom_apply (keep : Keep) (before rest : List Snapshot) :
    p.markFrom keep before.length rest id = keep id ++
      (rest.zipIdx before.length).flatMap fun (s, i) =>
        if s.id = id then (classes.take 4).filter (p.Reason ((before ++ rest).take i) s) else [] := by
  induction rest generalizing keep before with
  | nil => simp [markFrom]
  | cons s rest ih =>
    have hNext := ih (p.mark keep before.length s) (before ++ [s])
    rw [length_append, length_singleton, mark_apply] at hNext
    rw [markFrom, hNext]
    simp

variable {sorted : List Snapshot} {max : Int}

theorem bucketLoop_apply {count : Int} (hCount : count < max) :
    bucketLoop max key c keep seen count sorted id = keep id ++
      ((firsts (fun s : Snapshot => key s.createdAt) (max - count).toNat seen sorted).filter
        (·.id = id)).map fun _ => c := by
  induction sorted generalizing keep seen count with
  | nil => cases (max - count).toNat <;> simp [bucketLoop, firsts]
  | cons s rest ih =>
    obtain ⟨left, hLeft⟩ : ∃ left, (max - count).toNat = left + 1 := ⟨(max - count).toNat - 1, by omega⟩
    rw [bucketLoop, hLeft, firsts]
    split
    · rw [ih hCount, hLeft]
    · have hFirst (keep : Keep) (others : List Snapshot) : keep.add s.id c id ++
          (others.filter (·.id = id)).map (fun _ => c) =
            keep id ++ ((s :: others).filter (·.id = id)).map fun _ => c := by
        by_cases hId : s.id = id <;> simp [Keep.add_apply, hId]
      split
      · obtain rfl : left = 0 := by omega
        simpa [firsts] using hFirst keep []
      · rw [ih (by omega), show (max - (count + 1)).toNat = left by omega]
        exact hFirst keep _

theorem bucket_apply (sorted : List Snapshot) : bucket sorted max key c keep id = keep id ++
      ((firsts (fun s : Snapshot => key s.createdAt) max.toNat [] sorted).filter (·.id = id)).map fun _ => c := by
  unfold bucket
  split
  · rw [Int.toNat_of_nonpos (by assumption)]
    cases sorted <;> simp [firsts]
  · rw [bucketLoop_apply (by omega), Int.sub_zero]

theorem mem_firsts_iff {κ : Type} [DecidableEq κ] {key : Time → String} {period : Time → κ}
    (hKey : ∀ t u, key t = key u ↔ period t = period u) {limit : Int} :
    s ∈ firsts (fun s : Snapshot => key s.createdAt) limit.toNat [] sorted ↔
      ∃ before after, sorted = before ++ s :: after ∧ LastOf period limit before s := by
  rw [mem_firsts]
  apply exists₂_congr
  intro before after
  have hCard := card_keys_eq (fun a b : Snapshot => hKey a.createdAt b.createdAt) before
  rw [toFinset_nil, Finset.sdiff_empty, hCard, LastOf, Int.lt_toNat]
  simp [hKey]

theorem day_iff (t u : Time) : (p.location.shown t).dateText = (p.location.shown u).dateText ↔ p.day t = p.day u :=
  Time.dateText_eq_iff

theorem week_iff (t u : Time) :
    (p.location.shown t).weekText = (p.location.shown u).weekText ↔ p.week t = p.week u :=
  Time.weekText_eq_iff

theorem month_iff (t u : Time) :
    (p.location.shown t).monthText = (p.location.shown u).monthText ↔ p.month t = p.month u :=
  Time.monthText_eq_iff

/-- The snapshots a bucket is recorded for. -/
def firstsOf (p : Planner) (sorted : List Snapshot) : RetentionClass → List Snapshot
  | .daily => firsts (fun s : Snapshot => (p.location.shown s.createdAt).dateText)
      p.policy.daily.toNat [] sorted
  | .weekly => firsts (fun s : Snapshot => (p.location.shown s.createdAt).weekText)
      p.policy.weekly.toNat [] sorted
  | .monthly => firsts (fun s : Snapshot => (p.location.shown s.createdAt).monthText)
      p.policy.monthly.toNat [] sorted
  | _ => []

theorem firstsOf_sublist (sorted : List Snapshot) (c : RetentionClass) : (p.firstsOf sorted c).Sublist sorted := by
  cases c <;> first | exact nil_sublist _ | exact firsts_sublist _ _ _ _

variable {c : RetentionClass}

theorem mem_firstsOf (hc : c ∈ classes.drop 4) :
    s ∈ p.firstsOf sorted c ↔ ∃ before after, sorted = before ++ s :: after ∧ p.Reason before s c := by
  simp only [classes, List.drop, mem_cons, not_mem_nil, or_false] at hc
  rcases hc with rfl | rfl | rfl
  · exact mem_firsts_iff day_iff
  · exact mem_firsts_iff week_iff
  · exact mem_firsts_iff month_iff

theorem keepOf_apply (sorted : List Snapshot) :
    p.keepOf sorted id =
      (sorted.zipIdx.flatMap fun (s, i) =>
        if s.id = id then (classes.take 4).filter (p.Reason (sorted.take i) s) else []) ++
      (classes.drop 4).flatMap fun c => ((p.firstsOf sorted c).filter (·.id = id)).map fun _ => c := by
  unfold keepOf
  simp only [bucket_apply, classes, List.drop, flatMap_cons, flatMap_nil, append_nil, append_assoc]
  rw [show (0 : Nat) = ([] : List Snapshot).length from rfl, markFrom_apply]
  rfl

theorem mem_classes (c : RetentionClass) : c ∈ classes.take 4 ∨ c ∈ classes.drop 4 := by cases c <;> decide

theorem mem_keepOf : c ∈ p.keepOf sorted id ↔
      ∃ s, s.id = id ∧ ∃ before after, sorted = before ++ s :: after ∧ p.Reason before s c := by
  have hMarks : (c ∈ sorted.zipIdx.flatMap fun (s, i) =>
        if s.id = id then (classes.take 4).filter (p.Reason (sorted.take i) s) else []) ↔
      c ∈ classes.take 4 ∧ ∃ s, s.id = id ∧
        ∃ before after, sorted = before ++ s :: after ∧ p.Reason before s c := by
    simp only [← exists_getElem?_iff, mem_flatMap, Prod.exists, mk_mem_zipIdx_iff_getElem?,
      mem_ite_nil_right, mem_filter, decide_eq_true_eq]
    constructor
    · rintro ⟨s, i, hPlace, hId, hc, hReason⟩
      exact ⟨hc, s, hId, i, hPlace, hReason⟩
    · rintro ⟨hc, s, hId, i, hPlace, hReason⟩
      exact ⟨s, i, hPlace, hId, hc, hReason⟩
  have hBuckets : (c ∈ (classes.drop 4).flatMap fun c =>
        ((p.firstsOf sorted c).filter (·.id = id)).map fun _ => c) ↔
      c ∈ classes.drop 4 ∧ ∃ s, s.id = id ∧
        ∃ before after, sorted = before ++ s :: after ∧ p.Reason before s c := by
    simp only [mem_flatMap, mem_map, mem_filter, decide_eq_true_eq]
    constructor
    · rintro ⟨c, hc, s, ⟨hFirst, hId⟩, rfl⟩
      exact ⟨hc, s, hId, (mem_firstsOf hc).mp hFirst⟩
    · rintro ⟨hc, s, hId, hReason⟩
      exact ⟨c, hc, s, ⟨(mem_firstsOf hc).mpr hReason, hId⟩, rfl⟩
  rw [keepOf_apply, mem_append, hMarks, hBuckets, ← or_and_right, and_iff_right (mem_classes c)]

section
variable (hIds : (sorted.map Snapshot.id).Nodup)
include hIds

variable {after : List Snapshot}

theorem ids_ne (hSplit : sorted = before ++ s :: after) :
    (∀ t ∈ before, t.id ≠ s.id) ∧ ∀ t ∈ after, t.id ≠ s.id := by
  subst hSplit
  simp only [map_append, map_cons, nodup_append, nodup_cons, mem_map, mem_cons] at hIds
  obtain ⟨-, ⟨hAfter, -⟩, hBefore⟩ := hIds
  exact ⟨fun t ht => hBefore _ ⟨t, ht, rfl⟩ _ (.inl rfl), fun t ht hSame => hAfter ⟨t, ht, hSame⟩⟩

theorem filter_id (hSplit : sorted = before ++ s :: after) : sorted.filter (·.id = s.id) = [s] := by
  obtain ⟨hBefore, hAfter⟩ := ids_ne hIds hSplit
  subst hSplit
  have hNone : ∀ {xs : List Snapshot}, (∀ t ∈ xs, t.id ≠ s.id) → xs.filter (·.id = s.id) = [] := by
    intro xs hNe
    simpa [filter_eq_nil_iff] using hNe
  rw [filter_append, filter_cons, hNone hBefore, hNone hAfter]
  simp

theorem before_unique {before' after' : List Snapshot} (hSplit : sorted = before ++ s :: after)
    (hSplit' : sorted = before' ++ s :: after') : before' = before := by
  obtain ⟨hBefore, hAfter⟩ := ids_ne hIds hSplit
  have hSame : before ++ s :: after = before' ++ s :: after' := hSplit ▸ hSplit'
  rw [append_cons_inj_of_notMem (fun h => hBefore s h rfl) (fun h => hAfter s h rfl)] at hSame
  exact hSame.1.symm

theorem marks_of_nodup (hSplit : sorted = before ++ s :: after) : (sorted.zipIdx.flatMap fun (t, i) =>
      if t.id = s.id then (classes.take 4).filter (p.Reason (sorted.take i) t) else []) =
        (classes.take 4).filter (p.Reason before s) := by
  obtain ⟨hBefore, hAfter⟩ := ids_ne hIds hSplit
  have hNone : ∀ {xs : List Snapshot} {k : Nat}, (∀ t ∈ xs, t.id ≠ s.id) →
      ((xs.zipIdx k).flatMap fun (t, i) =>
        if t.id = s.id then (classes.take 4).filter (p.Reason (sorted.take i) t) else []) = [] := by
    intro xs k hNe
    rw [flatMap_eq_nil_iff]
    rintro ⟨t, i⟩ hMem
    exact if_neg (hNe t (fst_mem_of_mem_zipIdx hMem))
  have hPlaces : sorted.zipIdx = before.zipIdx ++ (s, before.length) :: after.zipIdx (before.length + 1) := by
    rw [hSplit, zipIdx_append, zipIdx_cons, Nat.zero_add]
  rw [hPlaces, flatMap_append, flatMap_cons, hNone hBefore, hNone hAfter]
  simp [hSplit]

theorem bucket_of_nodup
    (hSplit : sorted = before ++ s :: after) {c : RetentionClass} (hc : c ∈ classes.drop 4) :
    ((p.firstsOf sorted c).filter (·.id = s.id)).map (fun _ => c) = [c].filter (p.Reason before s) := by
  have hFirst : s ∈ p.firstsOf sorted c ↔ p.Reason before s c := by
    rw [mem_firstsOf hc]
    constructor
    · rintro ⟨before', after', hSplit', hReason⟩
      rwa [before_unique hIds hSplit hSplit'] at hReason
    · intro hReason
      exact ⟨before, after, hSplit, hReason⟩
  have hSub := firstsOf_sublist (p := p) sorted c
  by_cases hReason : p.Reason before s c
  · obtain ⟨first, last, hPlace⟩ := append_of_mem (hFirst.mpr hReason)
    rw [filter_id ((hSub.map _).nodup hIds) hPlace]
    simp [hReason]
  · have hNone : (p.firstsOf sorted c).filter (·.id = s.id) = [] := by
      rw [filter_eq_nil_iff]
      intro t ht hId
      have hSame := inj_on_of_nodup_map hIds (hSub.subset ht) (by simp [hSplit]) (of_decide_eq_true hId)
      exact hReason (hFirst.mp (hSame ▸ ht))
    rw [hNone]
    simp [hReason]

theorem keepOf_of_nodup (hSplit : sorted = before ++ s :: after) :
    p.keepOf sorted s.id = classes.filter (p.Reason before s) := by
  rw [keepOf_apply, marks_of_nodup hIds hSplit, flatMap_congr fun c hc => bucket_of_nodup hIds hSplit hc]
  simp only [classes, List.take, List.drop, flatMap_cons, flatMap_nil, append_nil, ← filter_append]
  rfl

end

end Planner

def newer (snaps : List Snapshot) (s : Snapshot) : List Snapshot :=
  (eligible snaps).filter (s.createdAt < ·.createdAt)

variable {s : Snapshot}

theorem LastOf.perm {κ : Type} [DecidableEq κ] {period : Time → κ} {limit : Int} {xs ys : List Snapshot} (hPerm : xs.Perm ys) : LastOf period limit xs s ↔ LastOf period limit ys s := by
  unfold LastOf
  rw [toFinset_eq_of_perm _ _ (hPerm.map fun other => period other.createdAt)]
  simp only [hPerm.mem_iff]

variable {p : Planner}

theorem Planner.Reason.perm {xs ys : List Snapshot}
    (hPerm : xs.Perm ys) (c : RetentionClass) : p.Reason xs s c ↔ p.Reason ys s c := by
  cases c with
  | recent => simp only [Planner.Reason, hPerm.length_eq]
  | latest => simp only [Planner.Reason, ← length_eq_zero_iff, hPerm.length_eq]
  | protectedSnapshot | restoreTest => exact .rfl
  | daily | weekly | monthly => exact LastOf.perm hPerm

theorem NewestFirst.nodup {β : Type} {snaps sorted : List Snapshot} {f : Snapshot → β}
    (hSorted : NewestFirst sorted (eligible snaps)) (hNodup : (snaps.map f).Nodup) : (sorted.map f).Nodup :=
  (hSorted.1.map f).nodup_iff.mpr ((filter_sublist.map f).nodup hNodup)

theorem NewestFirst.before_perm {snaps sorted before after : List Snapshot}
    (hSorted : NewestFirst sorted (eligible snaps)) (hTimes : (snaps.map Snapshot.createdAt).Nodup)
    (hSplit : sorted = before ++ s :: after) : before.Perm (newer snaps s) := by
  have hNodup := hSorted.nodup hTimes
  have hOrder := hSorted.2
  simp only [hSplit, map_append, map_cons, nodup_append, mem_map, mem_cons] at hNodup
  rw [hSplit, pairwise_append, pairwise_cons] at hOrder
  obtain ⟨-, ⟨hAfter, -⟩, hBefore⟩ := hOrder
  have hFilter : sorted.filter (s.createdAt < ·.createdAt) = before := by
    have hFront : before.filter (s.createdAt < ·.createdAt) = before := by
      rw [filter_eq_self]
      intro t ht
      have hLe := hBefore t ht s mem_cons_self
      have hNe := hNodup.2.2 t.createdAt ⟨t, ht, rfl⟩ s.createdAt (.inl rfl)
      exact decide_eq_true (lt_of_le_of_ne hLe (Ne.symm hNe))
    have hBack : (s :: after).filter (s.createdAt < ·.createdAt) = [] := by
      rw [filter_eq_nil_iff]
      intro t ht
      rcases mem_cons.mp ht with rfl | ht
      · simp
      · simpa using hAfter t ht
    rw [hSplit, filter_append, hFront, hBack, append_nil]
  rw [← hFilter]
  exact hSorted.1.filter _

/-- A plan is exactly the policy: each eligible snapshot is kept for the reasons that apply to it,
or else tombstoned, and nothing else is. -/
theorem plan_exact (p : Planner) {snaps : List Snapshot} (hIds : (snaps.map Snapshot.id).Nodup)
    (hTimes : (snaps.map Snapshot.createdAt).Nodup) {decision : RetentionDecision}
    (hPlan : p.Plans snaps decision) {s : Snapshot} (hs : s ∈ snaps) :
    (s.Eligible →
      decision.keep s.id = classes.filter (p.Reason (newer snaps s) s) ∧
      (decision.Keeps s ↔ ∃ c, p.Reason (newer snaps s) s c) ∧
      (decision.Tombstones s ↔ ¬ decision.Keeps s)) ∧
    (¬ s.Eligible → ¬ decision.Keeps s ∧ ¬ decision.Tombstones s) := by
  obtain ⟨sorted, hSorted, rfl⟩ := hPlan
  have hSortedIds := hSorted.nodup hIds
  have hMem (t : Snapshot) : t ∈ sorted ↔ t ∈ snaps ∧ t.Eligible := by
    rw [hSorted.1.mem_iff, eligible, mem_filter, decide_eq_true_eq]
  constructor
  · intro hEligible
    obtain ⟨before, after, hSplit⟩ := append_of_mem ((hMem s).mpr ⟨hs, hEligible⟩)
    have hBefore := hSorted.before_perm hTimes hSplit
    have hKeep : p.keepOf sorted s.id = classes.filter (p.Reason (newer snaps s) s) := by
      rw [Planner.keepOf_of_nodup hSortedIds hSplit]
      apply filter_congr
      intro c _
      rw [decide_eq_decide]
      exact Planner.Reason.perm hBefore c
    have hKept : (p.planSorted sorted).Keeps s ↔ ∃ c, p.Reason (newer snaps s) s c := by
      unfold RetentionDecision.Keeps
      rw [show (p.planSorted sorted).keep s.id = _ from hKeep, ne_eq, filter_eq_nil_iff]
      simp only [decide_eq_true_eq, not_forall, not_not]
      constructor
      · rintro ⟨c, -, hReason⟩
        exact ⟨c, hReason⟩
      · rintro ⟨c, hReason⟩
        exact ⟨c, by cases c <;> decide, hReason⟩
    refine ⟨hKeep, hKept, ?_⟩
    constructor
    · intro hTomb hKeeps
      obtain ⟨t, ht, hId⟩ := mem_map.mp hTomb
      have hNone := of_decide_eq_true (mem_filter.mp ht).2
      exact hKeeps (hId ▸ hNone)
    · intro hKeeps
      refine mem_map.mpr ⟨s, mem_filter.mpr ⟨(hMem s).mpr ⟨hs, hEligible⟩, ?_⟩, rfl⟩
      exact decide_eq_true (not_not.mp hKeeps)
  · intro hNot
    -- Whatever the decision names is the ID of an eligible snapshot.
    have hOther (t : Snapshot) (ht : t ∈ sorted) (hId : t.id = s.id) : False := by
      obtain ⟨hGiven, hEligible⟩ := (hMem t).mp ht
      exact hNot (inj_on_of_nodup_map hIds hGiven hs hId ▸ hEligible)
    constructor
    · intro hKeeps
      obtain ⟨c, hc⟩ := exists_mem_of_ne_nil _ hKeeps
      obtain ⟨t, hId, before, after, hSplit, -⟩ := Planner.mem_keepOf.mp hc
      exact hOther t (by simp [hSplit]) hId
    · intro hTomb
      obtain ⟨t, ht, hId⟩ := mem_map.mp hTomb
      exact hOther t (mem_filter.mp ht).1 hId

theorem LastOf.sublist {κ : Type} [DecidableEq κ] {period : Time → κ} (hSub : xs.Sublist ys)
    (hLast : LastOf period limit ys s) : LastOf period limit xs s := by
  refine ⟨fun other hOther => hLast.1 other (hSub.subset hOther), lt_of_le_of_lt ?_ hLast.2⟩
  exact_mod_cast Finset.card_le_card fun _ hx => mem_toFinset.mpr ((hSub.map _).subset (mem_toFinset.mp hx))

theorem Planner.Reason.sublist {c : RetentionClass} (hSub : xs.Sublist ys)
    (h : p.Reason ys s c) : p.Reason xs s c := by
  cases c with
  | recent => exact lt_of_le_of_lt (by exact_mod_cast hSub.length_le) h
  | latest => exact sublist_nil.mp (h ▸ hSub)
  | protectedSnapshot | restoreTest => exact h
  | daily | weekly | monthly => exact LastOf.sublist hSub h

/-- However many of the snapshots are gone, a new plan keeps each of the others for all the reasons for
which it was kept; where only tombstoned ones are gone and no others are left, it tombstones nothing. -/
theorem replan_keeps (p : Planner) {snaps rest : List Snapshot} (hIds : (snaps.map Snapshot.id).Nodup)
    (hTimes : (snaps.map Snapshot.createdAt).Nodup) (hSub : rest.Sublist snaps)
    {first second : RetentionDecision} (hFirst : p.Plans snaps first) (hSecond : p.Plans rest second) :
    (∀ s ∈ rest, ∀ c ∈ first.keep s.id, c ∈ second.keep s.id) ∧
      ((∀ s ∈ rest, s.Eligible → first.Keeps s) → second.tombstone = []) := by
  obtain ⟨sorted, hSorted, rfl⟩ := hFirst
  obtain ⟨resorted, hResorted, rfl⟩ := hSecond
  have hEligible {given sorted : List Snapshot} (hSorted : NewestFirst sorted (eligible given)) (s : Snapshot) :
      s ∈ sorted ↔ s ∈ given ∧ s.Eligible := by
    rw [hSorted.1.mem_iff, eligible, mem_filter, decide_eq_true_eq]
  have hKeeps : ∀ s ∈ rest, ∀ c ∈ p.keepOf sorted s.id, c ∈ p.keepOf resorted s.id := by
    intro s hs c hc
    obtain ⟨t, hId, before, after, hSplit, hReason⟩ := Planner.mem_keepOf.mp hc
    obtain ⟨hGiven, ht⟩ := (hEligible hSorted t).mp (by simp [hSplit])
    obtain rfl := inj_on_of_nodup_map hIds hGiven (hSub.subset hs) hId
    obtain ⟨before', after', hSplit'⟩ := append_of_mem ((hEligible hResorted t).mpr ⟨hs, ht⟩)
    have hNewer := (Planner.Reason.perm (hSorted.before_perm hTimes hSplit) c).mp hReason
    have hFewer : (newer rest t).Sublist (newer snaps t) := (hSub.filter _).filter _
    have hBefore := hResorted.before_perm ((hSub.map _).nodup hTimes) hSplit'
    exact Planner.mem_keepOf.mpr
      ⟨t, rfl, before', after', hSplit', (Planner.Reason.perm hBefore c).mpr (hNewer.sublist hFewer)⟩
  refine ⟨hKeeps, fun hKept => map_eq_nil_iff.mpr (filter_eq_nil_iff.mpr fun s hs hNone => ?_)⟩
  obtain ⟨hRest, ht⟩ := (hEligible hResorted s).mp hs
  obtain ⟨c, hc⟩ := exists_mem_of_ne_nil _ (hKept s hRest ht)
  exact ne_nil_of_mem (hKeeps s hRest c hc) (of_decide_eq_true hNone)

namespace Sample

def midnight (id : String) (day : Int) : Snapshot where
  id := id
  status := .committed
  createdAt := day * 86400 * Time.nanosPerSecond

def snapshots : List Snapshot :=
  [midnight "2020-12-26" 18622, { midnight "2021-01-02" 18629 with status := .building },
   midnight "2021-01-03" 18630, midnight "2020-12-27" 18623, midnight "2020-12-28" 18624]

def planner : Planner where
  policy := { defaultRetentionPolicy with keepLast := 1, daily := 1, weekly := 2, monthly := 0 }
  location := .utc

def newestFirst : List Snapshot :=
  [midnight "2021-01-03" 18630, midnight "2020-12-28" 18624, midnight "2020-12-27" 18623,
   midnight "2020-12-26" 18622]

theorem year_boundary_planned :
    (snapshots.map Snapshot.id).Nodup ∧ (snapshots.map Snapshot.createdAt).Nodup ∧
    planner.Plans snapshots (planner.planSorted newestFirst) ∧
    (planner.planSorted newestFirst).keep "2020-12-27" = [.weekly] ∧
    (planner.planSorted newestFirst).Tombstones (midnight "2020-12-28" 18624) := by
  have hIds : (snapshots.map Snapshot.id).Nodup := by decide
  have hTimes : (snapshots.map Snapshot.createdAt).Nodup := by decide
  have hPlan : planner.Plans snapshots (planner.planSorted newestFirst) :=
    ⟨newestFirst, ⟨by decide, by decide⟩, rfl⟩
  have hSunday := (plan_exact planner hIds hTimes hPlan
    (show midnight "2020-12-27" 18623 ∈ snapshots by decide)).1 (by decide)
  have hMonday := (plan_exact planner hIds hTimes hPlan
    (show midnight "2020-12-28" 18624 ∈ snapshots by decide)).1 (by decide)
  refine ⟨hIds, hTimes, hPlan, hSunday.1.trans (by decide +kernel), ?_⟩
  rw [hMonday.2.2, hMonday.2.1]
  rintro ⟨c, hReason⟩
  cases c <;> revert hReason <;> decide +kernel

def kept : List Snapshot := [midnight "2021-01-03" 18630, midnight "2020-12-27" 18623]

theorem kept_replanned : (planner.planSorted kept).tombstone = [] := by
  have hRest : kept.Sublist snapshots := by decide
  refine (replan_keeps planner (by decide) (by decide) hRest ⟨newestFirst, ⟨by decide, by decide⟩, rfl⟩
    ⟨_, ⟨by decide, by decide⟩, rfl⟩).2 fun s hs _ => ?_
  have hAll : ∀ s ∈ kept, (planner.planSorted newestFirst).keep s.id ≠ [] := by decide +kernel
  exact hAll s hs

end Sample

end DBVault.Retention
