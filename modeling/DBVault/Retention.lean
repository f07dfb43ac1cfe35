import DBVault.Calendar.Periods
import DBVault.Retention.Selection

/-! The retention planner: which snapshots are kept, for which reasons, and which are
tombstoned. -/
namespace DBVault.Retention

structure RetentionPolicy where
  (keepLast daily weekly monthly minimumVerifiedSnapshots : Int)
  keepLatestRestoreTested : Bool
  (tombstoneGracePeriod chunkGCGracePeriod : Int)
  deriving DecidableEq

def defaultRetentionPolicy : RetentionPolicy where
  keepLast := 4
  daily := 7
  weekly := 4
  monthly := 3
  minimumVerifiedSnapshots := 2
  keepLatestRestoreTested := true
  tombstoneGracePeriod := 7 * 24 * Time.hour
  chunkGCGracePeriod := 7 * 24 * Time.hour

inductive RetentionClass where
  | latest
  | recent
  | daily
  | weekly
  | monthly
  | protectedSnapshot
  | restoreTest
  deriving DecidableEq

/-- What the planner and those who judge its plans look at. -/
structure Snapshot where
  id : String
  status : SnapshotStatus
  createdAt : Time
  (verifiedAt restoreTestedAt : Option Time := none)
  deriving DecidableEq

/-- A `time.Location`: the seconds its clocks are ahead of UTC, at each second since the epoch. -/
structure Location where
  offset : Int → Int

def Location.utc : Location := ⟨fun _ => 0⟩

/-- `Time.In`: the instant at which clocks in UTC show what those of the location show. -/
def Location.shown (loc : Location) (t : Time) : Time :=
  t + loc.offset (t / Time.nanosPerSecond) * Time.nanosPerSecond

abbrev Keep := String → List RetentionClass

structure RetentionDecision where
  keep : Keep
  tombstone : List String

structure Planner where
  policy : RetentionPolicy
  location : Location

def new (policy : RetentionPolicy) (loc : Option Location) : Planner where
  policy := if policy.keepLast = 0 then defaultRetentionPolicy else policy
  location := loc.getD .utc

def Snapshot.Eligible (s : Snapshot) : Prop := s.status = .committed ∨ s.status = .protectedSnapshot

instance : DecidablePred Snapshot.Eligible := fun s =>
  inferInstanceAs (Decidable (s.status = .committed ∨ s.status = .protectedSnapshot))

def eligible (snaps : List Snapshot) : List Snapshot := snaps.filter (·.Eligible)

def Keep.add (keep : Keep) (id : String) (c : RetentionClass) : Keep := Function.update keep id (keep id ++ [c])

namespace Planner
variable (p : Planner)

def mark (keep : Keep) (i : Nat) (s : Snapshot) : Keep :=
  let keep := if i < p.policy.keepLast then keep.add s.id .recent else keep
  let keep := if i = 0 then keep.add s.id .latest else keep
  let keep := if s.status = .protectedSnapshot then keep.add s.id .protectedSnapshot else keep
  if s.restoreTestedAt.isSome && p.policy.keepLatestRestoreTested then keep.add s.id .restoreTest
  else keep

def markFrom (keep : Keep) : Nat → List Snapshot → Keep
  | _, [] => keep
  | i, s :: rest => markFrom (p.mark keep i s) (i + 1) rest

/-- The loop of `bucket`. -/
def bucketLoop (max : Int) (key : Time → String) (c : RetentionClass) :
    Keep → List String → Int → List Snapshot → Keep
  | keep, _, _, [] => keep
  | keep, seen, count, s :: rest =>
    let k := key s.createdAt
    if k ∈ seen then bucketLoop max key c keep seen count rest
    else if count + 1 ≥ max then keep.add s.id c
    else bucketLoop max key c (keep.add s.id c) (k :: seen) (count + 1) rest

def bucket (snaps : List Snapshot) (max : Int) (key : Time → String) (c : RetentionClass)
    (keep : Keep) : Keep :=
  if max ≤ 0 then keep else bucketLoop max key c keep [] 0 snaps

def keepOf (sorted : List Snapshot) : Keep :=
  let keep := p.markFrom (fun _ => []) 0 sorted
  let keep := bucket sorted p.policy.daily (fun t => (p.location.shown t).dateText) .daily keep
  let keep := bucket sorted p.policy.weekly (fun t => (p.location.shown t).weekText) .weekly keep
  bucket sorted p.policy.monthly (fun t => (p.location.shown t).monthText) .monthly keep

/-- `Plan` from the sorted list on. -/
def planSorted (sorted : List Snapshot) : RetentionDecision where
  keep := p.keepOf sorted
  tombstone := (sorted.filter fun s => p.keepOf sorted s.id = []).map Snapshot.id

end Planner

/-- What `sort.Slice` may leave of a list: snapshots of one time in any order. -/
def NewestFirst (sorted given : List Snapshot) : Prop :=
  sorted.Perm given ∧ sorted.Pairwise fun a b => b.createdAt ≤ a.createdAt

/-- The decisions `Plan` may return. -/
def Planner.Plans (p : Planner) (snaps : List Snapshot) (decision : RetentionDecision) : Prop :=
  ∃ sorted, NewestFirst sorted (eligible snaps) ∧ decision = p.planSorted sorted

def RetentionDecision.Keeps (decision : RetentionDecision) (s : Snapshot) : Prop := decision.keep s.id ≠ []

def RetentionDecision.Tombstones (decision : RetentionDecision) (s : Snapshot) : Prop := s.id ∈ decision.tombstone

end DBVault.Retention
