import DBVault.Retention.Plan
import Mathlib.Algebra.Order.BigOperators.Group.Finset
import Mathlib.Data.Int.Interval

/-! Two policies compared: which of them keeps more, and what the default that `New` puts in place
of a policy without `KeepLast` changes about it. -/
namespace DBVault.Retention
open List Selection Time LastOf

theorem exists_plans (p : Planner) (snaps : List Snapshot) : ∃ decision, p.Plans snaps decision := by
  refine ⟨_, (eligible snaps).mergeSort (fun a b => b.createdAt ≤ a.createdAt), ⟨mergeSort_perm _ _, ?_⟩, rfl⟩
  have hSorted : ((eligible snaps).mergeSort (fun a b => b.createdAt ≤ a.createdAt)).Pairwise
      fun a b => decide (b.createdAt ≤ a.createdAt) :=
    pairwise_mergeSort
      (fun a b c hab hbc => by simpa using le_trans (of_decide_eq_true hbc) (of_decide_eq_true hab))
      (fun a b => by simpa using le_total b.createdAt a.createdAt) (eligible snaps)
  exact hSorted.imp of_decide_eq_true

theorem Planner.Plans.keeps_iff {p : Planner} {snaps : List Snapshot} {decision : RetentionDecision}
    (hPlan : p.Plans snaps decision) (hTimes : (snaps.map Snapshot.createdAt).Nodup) (s : Snapshot) :
    decision.Keeps s ↔ ∃ t ∈ eligible snaps, t.id = s.id ∧ ∃ c, p.Reason (newer snaps t) t c := by
  obtain ⟨sorted, hSorted, rfl⟩ := hPlan
  have hKeeps : (p.planSorted sorted).Keeps s ↔ ∃ c, c ∈ p.keepOf sorted s.id := by
    exact ⟨exists_mem_of_ne_nil _, fun ⟨_, hc⟩ => ne_nil_of_mem hc⟩
  rw [hKeeps]
  constructor
  · rintro ⟨c, hc⟩
    obtain ⟨t, hId, before, after, hSplit, hReason⟩ := Planner.mem_keepOf.mp hc
    refine ⟨t, hSorted.1.subset (by simp [hSplit]), hId, c, ?_⟩
    exact (Planner.Reason.perm (hSorted.before_perm hTimes hSplit) c).mp hReason
  · rintro ⟨t, ht, hId, c, hReason⟩
    obtain ⟨before, after, hSplit⟩ := append_of_mem (hSorted.1.symm.subset ht)
    refine ⟨c, Planner.mem_keepOf.mpr ⟨t, hId, before, after, hSplit, ?_⟩⟩
    exact (Planner.Reason.perm (hSorted.before_perm hTimes hSplit) c).mpr hReason

/-- Each number of the second policy is at least that of the first. -/
structure RetentionPolicy.Within (p q : RetentionPolicy) : Prop where
  keepLast : p.keepLast ≤ q.keepLast
  daily : p.daily ≤ q.daily
  weekly : p.weekly ≤ q.weekly
  monthly : p.monthly ≤ q.monthly
  tested : p.keepLatestRestoreTested → q.keepLatestRestoreTested

variable {κ : Type} {p q : RetentionPolicy} {s : Snapshot}

theorem LastOf.mono [DecidableEq κ] {period : Time → κ} {limit limit' : Int} {newer : List Snapshot} (hLast : LastOf period limit newer s) (hLimit : limit ≤ limit') :
    LastOf period limit' newer s :=
  ⟨hLast.1, lt_of_lt_of_le hLast.2 hLimit⟩

variable {c : RetentionClass} {loc : Location}

theorem Planner.Reason.within (hWithin : p.Within q) {newer : List Snapshot} (hReason : (Planner.mk p loc).Reason newer s c) :
    (Planner.mk q loc).Reason newer s c := by
  cases c with
  | recent => exact lt_of_lt_of_le hReason hWithin.keepLast
  | latest | protectedSnapshot => exact hReason
  | restoreTest => exact ⟨hReason.1, hWithin.tested hReason.2⟩
  | daily => exact mono hReason hWithin.daily
  | weekly => exact mono hReason hWithin.weekly
  | monthly => exact mono hReason hWithin.monthly

variable {period : Int → κ} {size : Nat}

theorem card_days_le [DecidableEq κ]
    (hSize : ∀ k, ∃ first, ∀ d, period d = k → first ≤ d ∧ d < first + size) (days : Finset Int) :
    days.card ≤ size * (days.image period).card := by
  apply Finset.card_le_mul_card_image
  intro k _
  obtain ⟨first, hFirst⟩ := hSize k
  have hSub : days.filter (period · = k) ⊆ Finset.Ico first (first + size) := by
    intro d hd
    exact Finset.mem_Ico.mpr (hFirst d (Finset.mem_filter.mp hd).2)
  have hCard := Finset.card_le_card hSub
  rw [Int.card_Ico] at hCard
  omega

/-- The last snapshot of a longer period is the last one of its day, and as many days are newer as
the newer periods have. -/
theorem LastOf.day [DecidableEq κ] {p : Planner}
    (hSize : ∀ k, ∃ first, ∀ d, period d = k → first ≤ d ∧ d < first + size) {limit days : Int}
    {newer : List Snapshot} (hLast : LastOf (fun t => period (p.day t)) limit newer s)
    (hDays : size * (limit - 1) < days) : LastOf p.day days newer s := by
  obtain ⟨hNone, hCard⟩ := hLast
  refine ⟨fun other hOther hSame => hNone other hOther (congrArg period hSame), ?_⟩
  have hImage : (newer.map fun other => period (p.day other.createdAt)).toFinset =
      ((newer.map fun other => p.day other.createdAt).toFinset).image period := by
    ext k
    simp
  have hLe := card_days_le hSize (newer.map fun other => p.day other.createdAt).toFinset
  rw [hImage] at hCard
  calc _ ≤ (size : Int) * _ := by exact_mod_cast hLe
    _ ≤ size * (limit - 1) := mul_le_mul_of_nonneg_left (Int.le_sub_one_of_lt hCard) (Int.natCast_nonneg _)
    _ < days := hDays

theorem week_size (k : Int) : ∃ first, ∀ d : Int, (d + 3) / 7 = k → first ≤ d ∧ d < first + (7 : Nat) := by
  refine ⟨7 * k - 3, fun d hd => ?_⟩
  omega

theorem month_size (k : Int × Nat) : ∃ first, ∀ d : Int,
    ((civil d).1, (civil d).2.1) = k → first ≤ d ∧ d < first + (31 : Nat) := by
  refine ⟨Gregorian.dayNumber k.1 k.2 1, ?_⟩
  rintro d rfl
  obtain ⟨hDate, hNumber⟩ := civil_spec d
  have hDay := hDate.inMonth
  have hMonth := Gregorian.daysInMonth_le (civil d).1 (civil d).2.1
  simp only [Gregorian.dayNumber] at hNumber ⊢
  omega

/-- What it takes to keep whatever the default keeps. Three weeks have 21 days and two months up to
62, so that many daily snapshots make up for weekly and monthly ones. -/
structure RetentionPolicy.CoversDefault (q : RetentionPolicy) : Prop where
  keepLast : 4 ≤ q.keepLast
  daily : 7 ≤ q.daily
  weekly : 4 ≤ q.weekly ∨ 22 ≤ q.daily
  monthly : 3 ≤ q.monthly ∨ 63 ≤ q.daily
  tested : q.keepLatestRestoreTested

theorem RetentionPolicy.CoversDefault.reason (hCovers : q.CoversDefault)
    {newer : List Snapshot} (hReason : (Planner.mk defaultRetentionPolicy loc).Reason newer s c) :
    ∃ c, (Planner.mk q loc).Reason newer s c := by
  cases c with
  | recent => exact ⟨.recent, lt_of_lt_of_le hReason hCovers.keepLast⟩
  | latest => exact ⟨.latest, hReason⟩
  | protectedSnapshot => exact ⟨.protectedSnapshot, hReason⟩
  | restoreTest => exact ⟨.restoreTest, hReason.1, hCovers.tested⟩
  | daily => exact ⟨.daily, mono hReason hCovers.daily⟩
  | weekly =>
    rcases hCovers.weekly with hWeekly | hDaily
    · exact ⟨.weekly, mono hReason hWeekly⟩
    · exact ⟨.daily, LastOf.day (p := ⟨q, loc⟩) week_size hReason
        (lt_of_lt_of_le (show (7 : Int) * (4 - 1) < 22 by decide) hDaily)⟩
  | monthly =>
    rcases hCovers.monthly with hMonthly | hDaily
    · exact ⟨.monthly, mono hReason hMonthly⟩
    · exact ⟨.daily, LastOf.day (p := ⟨q, loc⟩) month_size hReason
        (lt_of_lt_of_le (show (31 : Int) * (3 - 1) < 63 by decide) hDaily)⟩

namespace Timeline

/-- Snapshots a second apart, in a location whose clocks show these days. -/
def snapshot (tested : Bool) (i : Nat) : Snapshot where
  id := padded 4 i
  status := .committed
  createdAt := i * nanosPerSecond
  restoreTestedAt := if i = 0 ∧ tested then some 0 else none

def snapshots (tested : Bool) (days : List Int) : List Snapshot := (List.range days.length).map (snapshot tested)

def location (days : List Int) : Location where
  offset seconds := 86400 * days.getD seconds.toNat 0 - seconds

variable {tested : Bool} {policy : RetentionPolicy} {first : Int} {others : List Int}

theorem day_snapshot (days : List Int) (i : Nat) :
    (Planner.mk policy (location days)).day (snapshot tested i).createdAt = days.getD i 0 := by
  have hSecond : (i : Int) * nanosPerSecond / nanosPerSecond = i := Int.mul_ediv_cancel _ (by decide)
  simp only [Planner.day, Location.shown, snapshot, location, hSecond, Time.day, Int.toNat_natCast]
  rw [← Int.add_mul, Int.mul_ediv_cancel _ (by decide)]
  omega

theorem createdAt_lt_iff : (snapshot tested i).createdAt < (snapshot tested j).createdAt ↔ i < j := by
  simp only [snapshot, nanosPerSecond]
  unfold Time
  omega

theorem nodup_times (days : List Int) : ((snapshots tested days).map Snapshot.createdAt).Nodup := by
  rw [snapshots, map_map]
  apply nodup_range.map
  intro i j hSame
  simp only [Function.comp_apply, snapshot, nanosPerSecond] at hSame
  unfold Time at hSame
  omega

theorem eligible_snapshots (days : List Int) : eligible (snapshots tested days) = snapshots tested days := by
  rw [eligible, filter_eq_self]
  intro s hs
  obtain ⟨i, -, rfl⟩ := mem_map.mp hs
  exact decide_eq_true (.inl rfl)

theorem newer_first : newer (snapshots tested (first :: others)) (snapshot tested 0) =
    (List.range others.length).map fun i => snapshot tested (i + 1) := by
  rw [newer, eligible_snapshots, snapshots, length_cons, range_succ_eq_map, map_cons,
    filter_cons_of_neg (by simp), map_map]
  apply filter_eq_self.mpr
  intro s hs
  obtain ⟨i, -, rfl⟩ := mem_map.mp hs
  exact decide_eq_true (createdAt_lt_iff.mpr (Nat.succ_pos i))

variable {κ : Type} {days : List Int}

theorem map_newer (period : Int → κ) :
    ((newer (snapshots tested (first :: others)) (snapshot tested 0)).map fun s =>
      period ((Planner.mk policy (location (first :: others))).day s.createdAt)) = others.map period := by
  rw [newer_first, map_map]
  simp only [Function.comp_def, day_snapshot, getD_cons_succ]
  apply ext_getElem
  · simp
  · intro i hi hi'
    rw [length_map] at hi'
    simp [hi']

/-- No other day is in the period of the first, and so few are their periods. -/
def First {κ : Type} [DecidableEq κ] (period : Int → κ) (limit : Int) (first : Int)
    (others : List Int) : Prop :=
  period first ∉ others.map period ∧ (others.map period).toFinset.card < limit

instance {κ : Type} [DecidableEq κ] (period : Int → κ) (limit first : Int) (others : List Int) :
    Decidable (First period limit first others) :=
  inferInstanceAs (Decidable (_ ∧ _))

theorem lastOf_iff [DecidableEq κ] (period : Int → κ) (limit : Int) :
    LastOf (fun t => period ((Planner.mk policy (location (first :: others))).day t)) limit
      (newer (snapshots tested (first :: others)) (snapshot tested 0)) (snapshot tested 0) ↔
    First period limit first others := by
  have hDay : (Planner.mk policy (location (first :: others))).day (snapshot tested 0).createdAt =
      first := day_snapshot _ 0
  have hMap : ((newer (snapshots tested (first :: others)) (snapshot tested 0)).map fun s =>
      period ((Planner.mk policy (location (first :: others))).day s.createdAt)) =
        others.map period := map_newer period
  unfold LastOf First
  rw [hMap]
  apply and_congr_left'
  rw [← hMap, mem_map]
  simp only [hDay, not_exists, not_and, ne_eq]

/-- The snapshot is kept for its day, its week or its month. -/
def Periods (policy : RetentionPolicy) (first : Int) (others : List Int) : Prop :=
  First id policy.daily first others ∨ First (fun d => (d + 3) / 7) policy.weekly first others ∨
    First (fun d => ((civil d).1, (civil d).2.1)) policy.monthly first others

/-- The reasons for keeping the oldest of the snapshots, from the days alone. -/
def Kept (policy : RetentionPolicy) (tested : Bool) (first : Int) (others : List Int) : Prop :=
  others.length < policy.keepLast ∨ others = [] ∨ (tested ∧ policy.keepLatestRestoreTested) ∨
    Periods policy first others

theorem exists_reason_iff : (∃ c, (Planner.mk policy (location (first :: others))).Reason
      (newer (snapshots tested (first :: others)) (snapshot tested 0)) (snapshot tested 0) c) ↔
    Kept policy tested first others := by
  have hLength : (newer (snapshots tested (first :: others)) (snapshot tested 0)).length = others.length := by
    rw [newer_first, length_map, length_range]
  constructor
  · rintro ⟨c, hReason⟩
    cases c with
    | recent => exact .inl (by rw [← hLength]; exact hReason)
    | latest => exact .inr (.inl (length_eq_zero_iff.mp (by rw [← hLength, hReason]; rfl)))
    | protectedSnapshot => exact absurd hReason (by simp [Planner.Reason, snapshot])
    | restoreTest =>
      obtain ⟨hTested, hOption⟩ := hReason
      refine .inr (.inr (.inl ⟨?_, hOption⟩))
      by_contra hNot
      simp [snapshot, hNot] at hTested
    | daily => exact .inr (.inr (.inr (.inl ((lastOf_iff id _).mp hReason))))
    | weekly => exact .inr (.inr (.inr (.inr (.inl ((lastOf_iff _ _).mp hReason)))))
    | monthly => exact .inr (.inr (.inr (.inr (.inr ((lastOf_iff _ _).mp hReason)))))
  · rintro (hRecent | rfl | ⟨hTested, hOption⟩ | hDaily | hWeekly | hMonthly)
    · exact ⟨.recent, by rw [← hLength] at hRecent; exact hRecent⟩
    · exact ⟨.latest, length_eq_zero_iff.mp hLength⟩
    · exact ⟨.restoreTest, by simp [snapshot, hTested], hOption⟩
    · exact ⟨.daily, (lastOf_iff id _).mpr hDaily⟩
    · exact ⟨.weekly, (lastOf_iff _ _).mpr hWeekly⟩
    · exact ⟨.monthly, (lastOf_iff _ _).mpr hMonthly⟩

theorem keeps_first_iff {decision : RetentionDecision}
    (hPlan : (Planner.mk policy (location (first :: others))).Plans
      (snapshots tested (first :: others)) decision) :
    decision.Keeps (snapshot tested 0) ↔ Kept policy tested first others := by
  rw [hPlan.keeps_iff (nodup_times _), ← exists_reason_iff, eligible_snapshots]
  constructor
  · rintro ⟨t, ht, hId, hReason⟩
    obtain ⟨i, -, rfl⟩ := mem_map.mp ht
    rwa [show i = 0 from padded_injective 4 hId] at hReason
  · intro hReason
    exact ⟨snapshot tested 0, mem_map.mpr ⟨0, by simp, rfl⟩, rfl, hReason⟩

variable {period : Int → κ} {limit last : Int}

theorem first_append_replicate [DecidableEq κ] (hLast : last ∈ days)
    (k : Nat) : First period limit first (days ++ List.replicate k last) ↔ First period limit first days := by
  have hSame : ((days ++ List.replicate k last).map period).toFinset = (days.map period).toFinset := by
    ext key
    simp only [map_append, map_replicate, mem_toFinset, mem_append]
    constructor
    · rintro (hDay | hMore)
      · exact hDay
      · rw [eq_of_mem_replicate hMore]
        exact mem_map_of_mem hLast
    · exact .inl
  unfold First
  rw [← mem_toFinset, ← mem_toFinset, hSame]

theorem kept_crowded_iff (hLast : last ∈ days) {k : Nat} (hMany : policy.keepLast ≤ k) :
    Kept policy false first (days ++ List.replicate k last) ↔ Periods policy first days := by
  have hLength : ¬ ((days ++ List.replicate k last).length : Int) < policy.keepLast := by
    rw [length_append, length_replicate]
    omega
  have hNone : days ++ List.replicate k last ≠ [] := append_ne_nil_of_left_ne_nil (ne_nil_of_mem hLast) _
  simp only [Kept, Periods, hLength, hNone, first_append_replicate hLast, Bool.false_eq_true, false_and, false_or]

theorem First.lt [DecidableEq κ] (hFirst : First period limit first days)
    {n : Nat} (hCard : (days.map period).toFinset.card = n) : n < limit :=
  hCard ▸ hFirst.2

def daysFrom (day : Int) (count : Nat) : List Int := (List.range count).map (day + ·)

/-- A policy that keeps what the default keeps covers it: days of February, and of the two months
after June, tell them apart. -/
theorem coversDefault_of_kept {q : RetentionPolicy} (hSome : 0 < q.keepLast)
    (hKept : ∀ tested first others, Kept defaultRetentionPolicy tested first others →
      Kept q tested first others) : q.CoversDefault := by
  have hPeriods {first last : Int} {days : List Int} (hLast : last ∈ days)
      (hDefault : Periods defaultRetentionPolicy first days) : Periods q first days := by
    have hMany : q.keepLast ≤ (q.keepLast.toNat + 4 : Nat) := by omega
    have hFour : defaultRetentionPolicy.keepLast ≤ (q.keepLast.toNat + 4 : Nat) := by simp [defaultRetentionPolicy]
    rw [← kept_crowded_iff hLast hMany]
    exact hKept false first _ ((kept_crowded_iff hLast hFour).mpr hDefault)
  constructor
  · -- The fourth of four snapshots of one day.
    rcases hKept false 18680 [18680, 18680, 18680] (.inl (by decide)) with
      hRecent | hNone | hTested | hDaily | hWeekly | hMonthly
    · exact hRecent
    · cases hNone
    · exact absurd hTested.1 (by decide)
    · exact absurd hDaily.1 (by decide)
    · exact absurd hWeekly.1 (by decide)
    · exact absurd hMonthly.1 (by simp)
  · -- The first day of a week, with the six after it.
    rcases hPeriods (show 18686 ∈ daysFrom 18681 6 by decide)
      (.inl (show First id 7 18680 (daysFrom 18681 6) by decide)) with hDaily | hWeekly | hMonthly
    · exact hDaily.lt (n := 6) (by decide)
    · exact absurd hWeekly.1 (by decide)
    · exact absurd hMonthly.1 (by decide +kernel)
  · -- A Sunday, with the three weeks after it.
    rcases hPeriods (show 18686 ∈ daysFrom 18666 21 by decide)
      (.inr (.inl (show First _ 4 18665 (daysFrom 18666 21) by decide +kernel))) with
      hDaily | hWeekly | hMonthly
    · exact .inr (hDaily.lt (n := 21) (by decide +kernel))
    · exact .inl (hWeekly.lt (n := 3) (by decide +kernel))
    · exact absurd hMonthly.1 (by decide +kernel)
  · -- The last day of June, a Wednesday, with July and August.
    rcases hPeriods (show 18870 ∈ daysFrom 18809 62 by decide)
      (.inr (.inr (show First _ 3 18808 (daysFrom 18809 62) by decide +kernel))) with
      hDaily | hWeekly | hMonthly
    · exact .inr (hDaily.lt (n := 62) (by decide +kernel))
    · exact absurd hWeekly.1 (by decide +kernel)
    · exact .inl (hMonthly.lt (n := 2) (by decide +kernel))
  · -- A tested snapshot, with enough newer ones on its day.
    have hSame {κ : Type} [DecidableEq κ] {period : Int → κ} {limit : Int} :
        ¬ First period limit 18680 (List.replicate q.keepLast.toNat 18680) := by
      rintro ⟨hNew, -⟩
      rw [map_replicate, mem_replicate] at hNew
      exact hNew ⟨by omega, rfl⟩
    rcases hKept true 18680 (List.replicate q.keepLast.toNat 18680) (.inr (.inr (.inl (by decide)))) with
      hRecent | hNone | hTested | hDaily | hWeekly | hMonthly
    · rw [length_replicate] at hRecent
      omega
    · have hZero := congrArg List.length hNone
      rw [length_replicate] at hZero
      simp only [length_nil] at hZero
      omega
    · exact hTested.2
    · exact absurd hDaily hSame
    · exact absurd hWeekly hSame
    · exact absurd hMonthly hSame

end Timeline

/-- The same options, and at least as many of everything. -/
structure RetentionPolicy.MoreGenerous (p q : RetentionPolicy) : Prop where
  nonneg : 0 ≤ p.keepLast ∧ 0 ≤ p.daily ∧ 0 ≤ p.weekly ∧ 0 ≤ p.monthly
  keepLast : p.keepLast ≤ q.keepLast
  daily : p.daily ≤ q.daily
  weekly : p.weekly ≤ q.weekly
  monthly : p.monthly ≤ q.monthly
  minimumVerifiedSnapshots : p.minimumVerifiedSnapshots = q.minimumVerifiedSnapshots
  keepLatestRestoreTested : p.keepLatestRestoreTested = q.keepLatestRestoreTested
  tombstoneGracePeriod : p.tombstoneGracePeriod = q.tombstoneGracePeriod
  chunkGCGracePeriod : p.chunkGCGracePeriod = q.chunkGCGracePeriod

theorem RetentionPolicy.MoreGenerous.within (hMore : p.MoreGenerous q) : p.Within q :=
  ⟨hMore.keepLast, hMore.daily, hMore.weekly, hMore.monthly,
    fun hTested => hMore.keepLatestRestoreTested ▸ hTested⟩

theorem new_of_zero (hNone : p.keepLast = 0) (loc : Option Location) :
    new p loc = ⟨defaultRetentionPolicy, loc.getD .utc⟩ := by
  rw [new, if_pos hNone]

theorem new_of_ne (hSome : p.keepLast ≠ 0) (loc : Option Location) : new p loc = ⟨p, loc.getD .utc⟩ := by
  rw [new, if_neg hSome]

/-- Exactly when a more generous policy never keeps less. `New` puts the default in place of a
policy that keeps no last snapshots, and a small policy that does keep some is less than the
default. -/
theorem generous_keeps_iff {p q : RetentionPolicy} (hMore : p.MoreGenerous q) :
    (∀ (loc : Option Location) (snaps : List Snapshot), (snaps.map Snapshot.createdAt).Nodup →
      ∀ lesser greater, (new p loc).Plans snaps lesser → (new q loc).Plans snaps greater →
        ∀ s ∈ snaps, lesser.Keeps s → greater.Keeps s) ↔
    (p.keepLast = 0 → q.keepLast = 0 ∨ q.CoversDefault) := by
  constructor
  · intro hKeeps hNone
    by_cases hSome : q.keepLast = 0
    · exact .inl hSome
    right
    refine Timeline.coversDefault_of_kept (lt_of_le_of_ne (hNone ▸ hMore.keepLast) (Ne.symm hSome)) ?_
    intro tested first others hKept
    have hAll := hKeeps (some (Timeline.location (first :: others)))
      (Timeline.snapshots tested (first :: others)) (Timeline.nodup_times _)
    rw [new_of_zero hNone, new_of_ne hSome] at hAll
    obtain ⟨lesser, hLesser⟩ := exists_plans ⟨defaultRetentionPolicy, Timeline.location (first :: others)⟩
      (Timeline.snapshots tested (first :: others))
    obtain ⟨greater, hGreater⟩ := exists_plans ⟨q, Timeline.location (first :: others)⟩
      (Timeline.snapshots tested (first :: others))
    rw [← Timeline.keeps_first_iff hGreater]
    exact hAll lesser greater hLesser hGreater _ (mem_map.mpr ⟨0, by simp, rfl⟩)
      ((Timeline.keeps_first_iff hLesser).mpr hKept)
  · intro hCovers loc snaps hTimes lesser greater hLesser hGreater s hs
    rw [hLesser.keeps_iff hTimes, hGreater.keeps_iff hTimes]
    rintro ⟨t, ht, hId, c, hReason⟩
    refine ⟨t, ht, hId, ?_⟩
    by_cases hNone : p.keepLast = 0
    · rw [new_of_zero hNone] at hReason
      rcases hCovers hNone with hBoth | hDefault
      · rw [new_of_zero hBoth]
        exact ⟨c, hReason⟩
      · rw [new_of_ne (fun hZero => by have := hDefault.keepLast; omega)]
        exact hDefault.reason hReason
    · have hSome : q.keepLast ≠ 0 := by
        have hFirst := hMore.nonneg.1
        have hLe := hMore.keepLast
        omega
      rw [new_of_ne hNone] at hReason
      rw [new_of_ne hSome]
      exact ⟨c, Planner.Reason.within hMore.within hReason⟩

namespace Sample

def tenDays : RetentionPolicy := { defaultRetentionPolicy with keepLast := 0, daily := 10 }

def tenDaysAndLast : RetentionPolicy := { tenDays with keepLast := 1 }

def oneDay : List Snapshot := Timeline.snapshots false [0, 0, 0, 0]

/-- The oldest of four snapshots is lost to keeping one more. -/
theorem fourth_snapshot_lost : tenDays.MoreGenerous tenDaysAndLast ∧
    (oneDay.map Snapshot.createdAt).Nodup ∧
    ∃ lesser greater, (new tenDays none).Plans oneDay lesser ∧
      (new tenDaysAndLast none).Plans oneDay greater ∧
      ∃ s ∈ oneDay, lesser.Keeps s ∧ ¬ greater.Keeps s := by
  have hSorted : NewestFirst oneDay.reverse (eligible oneDay) := ⟨by decide +kernel, by decide +kernel⟩
  refine ⟨by constructor <;> decide, by decide +kernel, _, _, ⟨oneDay.reverse, hSorted, rfl⟩,
    ⟨oneDay.reverse, hSorted, rfl⟩, Timeline.snapshot false 0, by decide +kernel, ?_, ?_⟩
  · unfold RetentionDecision.Keeps
    decide +kernel
  · unfold RetentionDecision.Keeps
    decide +kernel

theorem last_four_lose_nothing : tenDays.MoreGenerous { tenDays with keepLast := 4 } ∧
    ∀ (loc : Option Location) (snaps : List Snapshot), (snaps.map Snapshot.createdAt).Nodup →
      ∀ lesser greater, (new tenDays loc).Plans snaps lesser →
        (new { tenDays with keepLast := 4 } loc).Plans snaps greater →
        ∀ s ∈ snaps, lesser.Keeps s → greater.Keeps s := by
  have hMore : tenDays.MoreGenerous { tenDays with keepLast := 4 } := by constructor <;> decide
  exact ⟨hMore, (generous_keeps_iff hMore).mpr fun _ => .inr (by constructor <;> decide)⟩

end Sample

end DBVault.Retention
