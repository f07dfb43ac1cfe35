import DBVault.Domain
import Mathlib.Data.List.Induction

/-! The lock managers that share a catalogue: leases with an owner and an expiry,
and what calls do to them when they run at the same time. -/
namespace DBVault.Locking
open Function List

structure LeaseRecord where
  (resource ownerID : String)
  (acquiredAt heartbeatAt expiresAt : Time)
  deriving DecidableEq

/-- A `Lock`, with the expiry it was granted or renewed for last. -/
structure Lock where
  (ownerID resource : String)
  released : Bool
  expiresAt : Time
  deriving DecidableEq

/-- Where a call stands. An `Acquire` is `granting` when its `GetLease` has found nothing that bars it. -/
inductive Call where
  | idle
  | acquiring (ownerID resource : String) (ttl : Int) (now : Time)
  | granting (ownerID resource : String) (ttl : Int) (now : Time)
  | renewing (lock : Nat) (ttl : Int) (now : Time)
  | releasing (lock : Nat)
  deriving DecidableEq

/-- When a call read the clock. -/
def Call.readAt : Call → Option Time
  | .acquiring _ _ _ now | .granting _ _ _ now | .renewing _ _ now => some now
  | .idle | .releasing _ => none

/-- The clock, the table of leases, the locks by the `Acquire` that returned them and the calls. -/
structure State where
  now : Time
  leases : String → Option LeaseRecord
  locks : Nat → Option Lock
  calls : Nat → Call

inductive Action where
  | pass (duration : Nat)
  | acquire (call : Nat) (ownerID resource : String) (ttl : Int)
  | renew (call lock : Nat) (ttl : Int)
  | release (call lock : Nat)
  | getLease (call : Nat)
  | upsertLease (call : Nat)
  | deleteLease (call : Nat)
  deriving DecidableEq

def leaseRecord (resource ownerID : String) (ttl : Int) (now : Time) : LeaseRecord :=
  ⟨resource, ownerID, now, now, now + ttl⟩

/-- The lease is one that `Acquire` does not take over. -/
def LeaseRecord.bars (ownerID : String) (now : Time) (record : LeaseRecord) : Bool :=
  decide (now < record.expiresAt) && record.ownerID != ownerID

namespace State

def start (now : Time) : State := ⟨now, fun _ => none, fun _ => none, fun _ => .idle⟩

def turn (s : State) (call : Nat) (c : Call) : State := { s with calls := Function.update s.calls call c }

/-- `UpsertLease`. -/
def write (s : State) (record : LeaseRecord) : State :=
  { s with leases := Function.update s.leases record.resource (some record) }

def setLock (s : State) (lock : Nat) (l : Lock) : State :=
  { s with locks := Function.update s.locks lock (some l) }

def step (s : State) : Action → State
  | .pass duration => { s with now := s.now + duration }
  | .acquire call ownerID resource ttl =>
    if s.calls call = .idle ∧ s.locks call = none then
      s.turn call (.acquiring ownerID resource ttl s.now)
    else s
  | .renew call lock ttl =>
    match s.locks lock with
    | some l =>
      if s.calls call = .idle ∧ l.released = false then s.turn call (.renewing lock ttl s.now)
      else s
    | none => s
  | .release call lock =>
    match s.locks lock with
    | some l =>
      if s.calls call = .idle ∧ l.released = false then
        (s.setLock lock { l with released := true }).turn call (.releasing lock)
      else s
    | none => s
  | .getLease call =>
    match s.calls call with
    | .acquiring ownerID resource ttl now =>
      if (s.leases resource).any (·.bars ownerID now) then s.turn call .idle
      else s.turn call (.granting ownerID resource ttl now)
    | _ => s
  | .upsertLease call =>
    match s.calls call with
    | .granting ownerID resource ttl now =>
      ((s.write (leaseRecord resource ownerID ttl now)).setLock call
        ⟨ownerID, resource, false, now + ttl⟩).turn call .idle
    | .renewing lock ttl now =>
      match s.locks lock with
      | some l =>
        ((s.write (leaseRecord l.resource l.ownerID ttl now)).setLock lock
          { l with expiresAt := now + ttl }).turn call .idle
      | none => s
    | _ => s
  | .deleteLease call =>
    match s.calls call with
    | .releasing lock =>
      match s.locks lock with
      | some l =>
        { s with
          leases := Function.update s.leases l.resource none
          calls := Function.update s.calls call .idle }
      | none => s
    | _ => s

def run (now : Time) (actions : List Action) : State := actions.foldl step (start now)

/-- A lock that its manager has and has not released, and that has not expired. -/
structure Holds (s : State) (lock : Nat) (l : Lock) : Prop where
  has : s.locks lock = some l
  unreleased : l.released = false
  unexpired : s.now < l.expiresAt

def Exclusive (s : State) : Prop :=
  ∀ lock lock' l l', s.Holds lock l → s.Holds lock' l' → l.resource = l'.resource → l.ownerID = l'.ownerID

/-- The `Release` removes the unexpired lease of another manager. -/
def Steals (s : State) (call : Nat) : Prop :=
  ∃ lock l record, s.calls call = .releasing lock ∧ s.locks lock = some l ∧
    s.leases l.resource = some record ∧ record.ownerID ≠ l.ownerID ∧ s.now < record.expiresAt

/-- Every lock that is held has its lease on record, for as long as it is held. -/
def Recorded (s : State) : Prop :=
  ∀ lock l, s.Holds lock l → ∃ record, s.leases l.resource = some record ∧ record.ownerID = l.ownerID ∧
    l.expiresAt ≤ record.expiresAt

/-- These locks of the manager on the resource are released or expire by then. -/
def Outlives (s : State) (others : Nat → Prop) (ownerID resource : String) (expiry : Time) : Prop :=
  ∀ other l, others other → s.locks other = some l → l.ownerID = ownerID → l.resource = resource →
    l.released = false → l.expiresAt ≤ expiry

/-- The record that `UpsertLease` replaces is not an unexpired lease of another manager, and what is
written for the lock does not cut short another one of this manager. -/
def Renewable (s : State) (lock : Nat) (ownerID resource : String) (now expiry : Time) : Prop :=
  (s.leases resource).any (·.bars ownerID now) = false ∧ s.Outlives (· ≠ lock) ownerID resource expiry

/-- What the calls do not check: that the record is still not another manager's when it is written
or deleted, and that the manager itself has not locked the resource twice. -/
def Careful (s : State) : Action → Prop
  | .upsertLease call =>
    match s.calls call with
    | .granting ownerID resource ttl now => s.Renewable call ownerID resource now (now + ttl)
    | .renewing lock ttl now =>
      ∀ l, s.locks lock = some l → s.Renewable lock l.ownerID l.resource now (now + ttl)
    | _ => True
  | .deleteLease call =>
    match s.calls call with
    | .releasing lock => ∀ l, s.locks lock = some l →
        (s.leases l.resource).any (·.bars l.ownerID s.now) = false ∧
          s.Outlives (fun _ => True) l.ownerID l.resource s.now
    | _ => True
  | _ => True

def CarefulFrom : State → List Action → Prop
  | _, [] => True
  | s, action :: rest => s.Careful action ∧ CarefulFrom (s.step action) rest

theorem Recorded.exclusive {s : State} (h : s.Recorded) : s.Exclusive := by
  intro lock lock' l l' hHolds hHolds' hSame
  obtain ⟨record, hRecord, hOwner, -⟩ := h lock l hHolds
  obtain ⟨record', hRecord', hOwner', -⟩ := h lock' l' hHolds'
  rw [hSame, hRecord', Option.some.injEq] at hRecord
  rw [← hOwner, ← hOwner', hRecord]

/-- What a run of careful steps keeps. -/
structure Sound (s : State) : Prop where
  recorded : s.Recorded
  clock : ∀ call now, (s.calls call).readAt = some now → now ≤ s.now

theorem sound_start (now : Time) : (start now).Sound where
  recorded _ _ h := nomatch h.has
  clock _ _ h := nomatch h

variable {s : State} {lock : Nat} {l : Lock}

theorem Recorded.mono {s' : State} (h : s.Recorded) (hNow : s.now ≤ s'.now) (hLeases : s'.leases = s.leases)
    (hLocks : ∀ lock l, s'.locks lock = some l → l.released = false → s.locks lock = some l) : s'.Recorded := by
  intro lock l hHolds
  rw [hLeases]
  exact h lock l ⟨hLocks lock l hHolds.has hHolds.unreleased, hHolds.unreleased, hNow.trans_lt hHolds.unexpired⟩

/-- Who holds a lock on a resource whose record does not bar a manager is that manager itself. -/
theorem Recorded.owner_of_unbarred (h : s.Recorded) (hHolds : s.Holds lock l) {ownerID : String} {now : Time}
    (hNow : now ≤ s.now) (hUnbarred : (s.leases l.resource).any (·.bars ownerID now) = false) :
    l.ownerID = ownerID := by
  obtain ⟨record, hRecord, hOwner, hExpiry⟩ := h lock l hHolds
  have hUnexpired : now < record.expiresAt := lt_of_le_of_lt hNow (lt_of_lt_of_le hHolds.unexpired hExpiry)
  simpa [hRecord, LeaseRecord.bars, hUnexpired, hOwner] using hUnbarred

/-- A lease is written for a lock, which it does not outlive. -/
theorem Recorded.grant (h : s.Recorded) (own : Lock) {ttl : Int} {now : Time} (hNow : now ≤ s.now)
    (hExpiry : own.expiresAt = now + ttl) (hRenewable : s.Renewable lock own.ownerID own.resource now (now + ttl)) :
    ((s.write (leaseRecord own.resource own.ownerID ttl now)).setLock lock own).Recorded := by
  obtain ⟨hUnbarred, hOutlives⟩ := hRenewable
  intro other l hHolds
  obtain ⟨hHas, hUnreleased, hUnexpired⟩ := hHolds
  simp only [setLock, write] at hHas hUnexpired ⊢
  by_cases hOther : other = lock
  · subst hOther
    rw [update_self, Option.some.injEq] at hHas
    subst hHas
    exact ⟨_, update_self .., rfl, le_of_eq hExpiry⟩
  · rw [update_of_ne hOther] at hHas
    have hHolds : s.Holds other l := ⟨hHas, hUnreleased, hUnexpired⟩
    by_cases hSame : l.resource = own.resource
    · have hOwner := h.owner_of_unbarred hHolds hNow (hSame ▸ hUnbarred)
      rw [hSame]
      exact ⟨_, update_self .., hOwner.symm, hOutlives other l hOther hHas hOwner hSame hUnreleased⟩
    · obtain ⟨record, hRecord, hKept⟩ := h other l hHolds
      exact ⟨record, (update_of_ne hSame ..).trans hRecord, hKept⟩

/-- No lock is left on the resource whose lease is deleted. -/
theorem Recorded.delete (h : s.Recorded) {ownerID resource : String}
    (hUnbarred : (s.leases resource).any (·.bars ownerID s.now) = false)
    (hOutlives : s.Outlives (fun _ => True) ownerID resource s.now) :
    Recorded { s with leases := Function.update s.leases resource none } := by
  rintro lock l ⟨hHas, hUnreleased, hUnexpired⟩
  have hHolds : s.Holds lock l := ⟨hHas, hUnreleased, hUnexpired⟩
  by_cases hSame : l.resource = resource
  · have hOwner := h.owner_of_unbarred hHolds le_rfl (hSame ▸ hUnbarred)
    exact absurd (hOutlives lock l trivial hHas hOwner hSame hUnreleased) (not_le_of_gt hUnexpired)
  · obtain ⟨record, hRecord, hKept⟩ := h lock l hHolds
    exact ⟨record, (update_of_ne hSame ..).trans hRecord, hKept⟩

theorem Sound.turn (h : s.Sound) (call : Nat) {c : Call} (hClock : ∀ now, c.readAt = some now → now ≤ s.now) :
    (s.turn call c).Sound where
  recorded := h.recorded.mono le_rfl rfl fun _ _ hLock _ => hLock
  clock other now hRead := by
    by_cases hOther : other = call
    · subst hOther
      exact hClock now (by simpa [State.turn] using hRead)
    · exact h.clock other now (by simpa [State.turn, update_of_ne hOther] using hRead)

theorem Sound.idle (h : s.Sound) (call : Nat) : (s.turn call .idle).Sound := h.turn call fun _ hRead => nomatch hRead

theorem Sound.step (h : s.Sound) (action : Action) (hCareful : s.Careful action) : (s.step action).Sound := by
  cases action with
  | pass duration =>
    have hLater : s.now ≤ s.now + (duration : Int) := Int.le_add_of_nonneg_right (by simp)
    exact ⟨h.recorded.mono hLater rfl fun _ _ hLock _ => hLock, fun call now hRead => (h.clock call now hRead).trans hLater⟩
  | acquire call ownerID resource ttl =>
    simp only [State.step]
    split
    · refine h.turn call ?_
      rintro _ ⟨⟩
      exact le_rfl
    · exact h
  | renew call lock ttl =>
    simp only [State.step]
    split
    · split
      · refine h.turn call ?_
        rintro _ ⟨⟩
        exact le_rfl
      · exact h
    · exact h
  | release call lock =>
    simp only [State.step]
    split
    · rename_i l hLock
      split
      · have hMarked : (s.setLock lock { l with released := true }).Sound := by
          refine ⟨h.recorded.mono le_rfl rfl ?_, h.clock⟩
          intro other l' hHas hUnreleased
          by_cases hOther : other = lock
          · subst hOther
            simp only [State.setLock, update_self, Option.some.injEq] at hHas
            subst hHas
            cases hUnreleased
          · simpa [State.setLock, update_of_ne hOther] using hHas
        exact hMarked.turn call fun _ hRead => nomatch hRead
      · exact h
    · exact h
  | getLease call =>
    simp only [State.step]
    split
    · rename_i hCall
      split
      · exact h.idle call
      · refine h.turn call ?_
        rintro now ⟨⟩
        exact h.clock call _ (by rw [hCall]; rfl)
    · exact h
  | upsertLease call =>
    simp only [State.step]
    split
    · rename_i hCall
      simp only [Careful, hCall] at hCareful
      have hNow := h.clock call _ (by rw [hCall]; rfl)
      exact Sound.idle ⟨h.recorded.grant ⟨_, _, false, _⟩ hNow rfl hCareful, h.clock⟩ call
    · rename_i hCall
      simp only [Careful, hCall] at hCareful
      have hNow := h.clock call _ (by rw [hCall]; rfl)
      split
      · rename_i l hLock
        exact Sound.idle ⟨h.recorded.grant { l with expiresAt := _ } hNow rfl (hCareful l hLock), h.clock⟩ call
      · exact h
    · exact h
  | deleteLease call =>
    simp only [State.step]
    split
    · rename_i hCall
      simp only [Careful, hCall] at hCareful
      split
      · rename_i l hLock
        obtain ⟨hUnbarred, hOutlives⟩ := hCareful l hLock
        exact Sound.idle ⟨h.recorded.delete hUnbarred hOutlives, h.clock⟩ call
      · exact h
    · exact h

/-- Where every record that is written or deleted is at that moment not another manager's, and no
manager locks a resource twice, locks exclude each other in every state, and keep their leases. -/
theorem locks_exclusive (now : Time) (actions : List Action) (hCareful : (start now).CarefulFrom actions) :
    ∀ earlier, earlier <+: actions → (run now earlier).Exclusive ∧ (run now earlier).Recorded := by
  have hFrom : ∀ (s : State), s.Sound → ∀ actions, s.CarefulFrom actions →
      ∀ earlier, earlier <+: actions → (earlier.foldl step s).Sound := by
    intro s h actions
    induction actions generalizing s with
    | nil =>
      intro _ earlier hPrefix
      rwa [prefix_nil.mp hPrefix]
    | cons action rest ih =>
      rintro ⟨hAction, hRest⟩ earlier hPrefix
      cases earlier with
      | nil => exact h
      | cons first earlier =>
        obtain ⟨rfl, hRemaining⟩ := cons_prefix_cons.mp hPrefix
        exact ih (s.step first) (h.step first hAction) hRest earlier hRemaining
  intro earlier hPrefix
  have sound := hFrom (start now) (sound_start now) actions hCareful earlier hPrefix
  exact ⟨sound.recorded.exclusive, sound.recorded⟩

end State

namespace Sample

def bothLook : List Action :=
  [.acquire 0 "node-a" "repository" 60, .acquire 1 "node-b" "repository" 60, .getLease 0, .getLease 1,
    .upsertLease 0, .upsertLease 1]

def releasedLate : List Action :=
  [.acquire 0 "node-a" "repository" 60, .getLease 0, .upsertLease 0, .pass 61,
    .acquire 1 "node-b" "repository" 60, .getLease 1, .upsertLease 1, .release 2 0]

def takenOver : List Action :=
  releasedLate.dropLast ++ [.renew 2 1 60, .upsertLease 2, .release 3 1, .deleteLease 3]

theorem takenOver_exclusive :
    (State.start 0).CarefulFrom takenOver ∧ (State.run 0 (takenOver.dropLast.dropLast)).Exclusive := by
  have hCareful : (State.start 0).CarefulFrom takenOver := by
    simp [takenOver, releasedLate, State.CarefulFrom, State.Careful, State.step, State.start, State.turn, State.write,
      State.setLock, State.Renewable, State.Outlives, leaseRecord, LeaseRecord.bars, Function.update]
    constructor <;> grind
  exact ⟨hCareful, (State.locks_exclusive 0 takenOver hCareful _ (by decide)).1⟩

end Sample

open Sample in
/-- Two managers hold a lock on the repository, one because neither saw the other,
one because it has renewed its lock after it was taken over; and the late `Release`
leaves the second manager's lock without its lease. -/
theorem State.two_managers_hold :
    ¬ (run 0 bothLook).Exclusive ∧
      ¬ (run 0 (releasedLate.dropLast ++ [.renew 2 0 60, .upsertLease 2])).Exclusive ∧
      (run 0 releasedLate).Steals 2 ∧
      ((run 0 releasedLate).step (.deleteLease 2)).leases "repository" = none := by
  refine ⟨fun h => ?_, fun h => ?_, ?_, by decide⟩
  · exact absurd (h 0 1 ⟨"node-a", "repository", false, 60⟩ ⟨"node-b", "repository", false, 60⟩
      ⟨by decide, rfl, by decide⟩ ⟨by decide, rfl, by decide⟩ rfl) (by decide)
  · exact absurd (h 0 1 ⟨"node-a", "repository", false, 121⟩ ⟨"node-b", "repository", false, 121⟩
      ⟨by decide, rfl, by decide⟩ ⟨by decide, rfl, by decide⟩ rfl) (by decide)
  · exact ⟨0, ⟨"node-a", "repository", true, 60⟩, ⟨"repository", "node-b", 61, 61, 121⟩, by decide,
      by decide, by decide, by decide, by decide⟩

end DBVault.Locking
