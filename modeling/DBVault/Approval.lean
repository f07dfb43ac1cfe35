import DBVault.Domain
import Mathlib.Data.List.Induction
import Mathlib.Data.List.Nodup

/-! Requests for destructive actions and the decisions of other people on them. -/
namespace DBVault.Approval
open List

inductive ApprovalStatus where
  | pending | approved | rejected | expired
  deriving DecidableEq

structure ApprovalRequest where
  (id requestedBy : String)
  requiredApprovals : Int
  status : ApprovalStatus := .pending
  expiresAt : Time
  deriving DecidableEq

structure ApprovalDecision where
  requestID : String := ""
  actorID : String
  approved : Bool
  reason : String := ""
  createdAt : Time := .zero
  deriving DecidableEq

structure Service where
  requests : String → Option ApprovalRequest
  decisions : String → List ApprovalDecision

namespace Service

def new : Service where
  requests _ := none
  decisions _ := []

variable (s : Service)

/-- `Create`. Whatever status a request comes with, it is pending. -/
def create (request : ApprovalRequest) : Result Unit × Service :=
  if request.id = "" ∨ request.requestedBy = "" ∨ request.requiredApprovals < 1 then
    (.error (.other "invalid approval request"), s)
  else if (s.requests request.id).isSome then (.error (.other "approval request exists"), s)
  else
    (.ok (),
      { s with
        requests := Function.update s.requests request.id (some { request with status := .pending }) })

def setRequest (request : ApprovalRequest) (requestID : String) : Service :=
  { s with requests := Function.update s.requests requestID (some request) }

def stamped (requestID : String) (decision : ApprovalDecision) (now : Time) : ApprovalDecision :=
  { decision with requestID := requestID, createdAt := now }

def statusAfter (request : ApprovalRequest) (decisions : List ApprovalDecision)
    (decision : ApprovalDecision) : ApprovalStatus :=
  if !decision.approved then .rejected
  else if request.requiredApprovals ≤ (decisions.countP (·.approved) : Nat) then .approved
  else request.status

/-- `Decide` on a request that is there. -/
def decideOn (requestID : String) (request : ApprovalRequest) (decision : ApprovalDecision)
    (now : Time) : Result ApprovalRequest × Service :=
  if request.status ≠ .pending then (.error (.other "approval request is terminal"), s)
  else if request.expiresAt < now then
    (.error (.other "approval request expired"), s.setRequest { request with status := .expired } requestID)
  else if decision.actorID = request.requestedBy then
    (.error (.other "requester cannot approve their own destructive action"), s)
  else if (s.decisions requestID).any (·.actorID = decision.actorID) then
    (.error (.other "actor has already decided"), s)
  else
    let decisions := s.decisions requestID ++ [stamped requestID decision now]
    let request := { request with status := statusAfter request decisions decision }
    (.ok request,
      { s.setRequest request requestID with
        decisions := Function.update s.decisions requestID decisions })

def decide (requestID : String) (decision : ApprovalDecision) (now : Time) :
    Result ApprovalRequest × Service :=
  match s.requests requestID with
  | none => (.error (.other "approval request not found"), s)
  | some request => s.decideOn requestID request decision now

end Service

inductive Call where
  | create (request : ApprovalRequest)
  | decide (requestID : String) (decision : ApprovalDecision) (now : Time)

namespace Service

def step (s : Service) : Call → Service
  | .create request => (s.create request).2
  | .decide requestID decision now => (s.decide requestID decision now).2

def run (calls : List Call) : Service := calls.foldl step new

theorem run_snoc (calls : List Call) (call : Call) : run (calls ++ [call]) = (run calls).step call := by simp [run]

def takes (s : Service) (requestID : String) (decision : ApprovalDecision) (now : Time) : Bool :=
  (s.decide requestID decision now).1.isOk

/-- One of the calls was the decision, and it was not refused. -/
def Decided (calls : List Call) (requestID : String) (decision : ApprovalDecision) (now : Time) : Prop :=
  ∃ before, before ++ [.decide requestID decision now] <+: calls ∧ (run before).takes requestID decision now

inductive Change (s : Service) (requestID : String) : Call → Service → Prop where
  | none {call next}
      (refused : ∀ decision now, call = .decide requestID decision now →
        s.takes requestID decision now = false)
      (requests : next.requests requestID = s.requests requestID)
      (decisions : next.decisions requestID = s.decisions requestID) : Change s requestID call next
  | created {next} (request : ApprovalRequest) (isNew : s.requests requestID = .none)
      (requests : next.requests requestID = some { request with status := .pending })
      (decisions : next.decisions requestID = s.decisions requestID) :
      Change s requestID (.create request) next
  | expired {next decision now} (request : ApprovalRequest) (wasPending : request.status = .pending)
      (was : s.requests requestID = some request) (refused : s.takes requestID decision now = false)
      (requests : next.requests requestID = some { request with status := .expired })
      (decisions : next.decisions requestID = s.decisions requestID) :
      Change s requestID (.decide requestID decision now) next
  | decided {next decision now} (request : ApprovalRequest) (wasPending : request.status = .pending)
      (was : s.requests requestID = some request) (taken : s.takes requestID decision now)
      (inTime : now ≤ request.expiresAt) (other : decision.actorID ≠ request.requestedBy)
      (first : ∀ d ∈ s.decisions requestID, d.actorID ≠ decision.actorID)
      (requests : next.requests requestID = some { request with
        status := statusAfter request (s.decisions requestID ++ [stamped requestID decision now]) decision })
      (decisions : next.decisions requestID = s.decisions requestID ++ [stamped requestID decision now]) :
      Change s requestID (.decide requestID decision now) next

theorem create_change (s : Service) (requestID : String) (request : ApprovalRequest) :
    Change s requestID (.create request) (s.step (.create request)) := by
  simp only [step, create]
  split_ifs with hInvalid hExists
  · exact .none (fun _ _ h => Call.noConfusion h) rfl rfl
  · exact .none (fun _ _ h => Call.noConfusion h) rfl rfl
  · by_cases hID : requestID = request.id
    · subst hID
      exact .created request (by simpa using hExists) (by simp) rfl
    · exact .none (fun _ _ h => Call.noConfusion h) (by simp [hID]) rfl

theorem decide_other (s : Service) (hID : requestID ≠ otherID) (decision : ApprovalDecision) (now : Time) :
    (s.decide otherID decision now).2.requests requestID = s.requests requestID ∧
      (s.decide otherID decision now).2.decisions requestID = s.decisions requestID := by
  unfold decide
  split
  · exact ⟨rfl, rfl⟩
  · unfold decideOn
    split_ifs <;> simp [setRequest, hID]

theorem decide_change (s : Service) (requestID otherID : String) (decision : ApprovalDecision) (now : Time) :
    Change s requestID (.decide otherID decision now) (s.step (.decide otherID decision now)) := by
  by_cases hID : requestID = otherID
  · subst hID
    cases hFind : s.requests requestID with
    | none =>
      refine .none ?_ (by simp [step, decide, hFind]) (by simp [step, decide, hFind])
      rintro _ _ ⟨⟩
      simp [takes, decide, hFind, Except.isOk, Except.toBool]
    | some request =>
      have hTakes : s.takes requestID decision now = (s.decideOn requestID request decision now).1.isOk := by
        simp only [takes, decide, hFind]
      have hStep : s.step (.decide requestID decision now) = (s.decideOn requestID request decision now).2 := by
        simp only [step, decide, hFind]
      rw [hStep]
      have hRefused : (s.decideOn requestID request decision now).1.isOk = false →
          ∀ other at', Call.decide requestID decision now = .decide requestID other at' →
            s.takes requestID other at' = false := by
        rintro hNot _ _ ⟨⟩
        exact hTakes.trans hNot
      unfold decideOn at hTakes hRefused ⊢
      split_ifs at hTakes hRefused ⊢ with hStatus hExpired hActor hAgain
      · exact .none (hRefused rfl) rfl rfl
      · exact .expired request (not_not.mp hStatus) hFind hTakes (by simp [setRequest]) rfl
      · exact .none (hRefused rfl) rfl rfl
      · exact .none (hRefused rfl) rfl rfl
      · exact .decided request (not_not.mp hStatus) hFind hTakes (not_lt.mp hExpired) hActor
          (by simpa using hAgain) (by simp [setRequest]) (by simp)
  · obtain ⟨hRequests, hDecisions⟩ := s.decide_other hID decision now
    refine .none ?_ hRequests hDecisions
    intro _ _ hCall
    cases hCall
    exact absurd rfl hID

theorem step_change (s : Service) (requestID : String) (call : Call) : Change s requestID call (s.step call) := by
  cases call with
  | create request => exact create_change s requestID request
  | decide otherID decision now => exact decide_change s requestID otherID decision now

structure Kept (request : ApprovalRequest) (decisions : List ApprovalDecision) : Prop where
  distinct : (decisions.map (·.actorID)).Nodup
  others : ∀ d ∈ decisions, d.actorID ≠ request.requestedBy
  inTime : ∀ d ∈ decisions, d.createdAt ≤ request.expiresAt
  approving : request.status ≠ .rejected → ∀ d ∈ decisions, d.approved
  enough : request.status = .approved → request.requiredApprovals ≤ (decisions.length : Nat)

variable {calls : List Call} {requestID : String} {request : ApprovalRequest}

theorem no_decisions (hNone : (run calls).requests requestID = none) : (run calls).decisions requestID = [] := by
  induction calls using List.reverseRecOn with
  | nil => rfl
  | append_singleton calls call ih =>
    rw [run_snoc] at hNone ⊢
    cases step_change (run calls) requestID call with
    | none _ requests decisions => exact decisions.trans (ih (requests.symm.trans hNone))
    | created _ _ requests | expired _ _ _ _ requests | decided _ _ _ _ _ _ _ requests =>
      cases requests.symm.trans hNone

theorem Kept.decided {decisions : List ApprovalDecision} {decision : ApprovalDecision} {now : Time}
    (kept : Kept request decisions) (hPending : request.status = .pending)
    (hTime : now ≤ request.expiresAt) (hOther : decision.actorID ≠ request.requestedBy)
    (hFirst : ∀ d ∈ decisions, d.actorID ≠ decision.actorID) :
    Kept { request with
        status := statusAfter request (decisions ++ [stamped requestID decision now]) decision }
      (decisions ++ [stamped requestID decision now]) := by
  have hApproving := kept.approving (by simp [hPending])
  refine ⟨?_, ?_, ?_, ?_, ?_⟩
  · rw [map_append, nodup_append]
    refine ⟨kept.distinct, nodup_singleton _, ?_⟩
    rintro actor hIn _ hNew rfl
    obtain ⟨d, hMem, hActor⟩ := mem_map.mp hIn
    exact hFirst d hMem (hActor.trans (mem_singleton.mp hNew))
  · intro d hIn
    rcases mem_append.mp hIn with hIn | hNew
    · exact kept.others d hIn
    · rw [mem_singleton.mp hNew]
      exact hOther
  · intro d hIn
    rcases mem_append.mp hIn with hIn | hNew
    · exact kept.inTime d hIn
    · rw [mem_singleton.mp hNew]
      exact hTime
  · intro hStatus d hIn
    have hApproved : decision.approved := by
      by_contra hNot
      simp [statusAfter, hNot] at hStatus
    rcases mem_append.mp hIn with hIn | hNew
    · exact hApproving d hIn
    · rw [mem_singleton.mp hNew]
      exact hApproved
  · intro hStatus
    simp only [statusAfter] at hStatus
    split_ifs at hStatus with hRejected hEnough
    · exact hEnough.trans (Int.ofNat_le.mpr countP_le_length)
    · cases hPending.symm.trans hStatus

theorem kept_run (hFind : (run calls).requests requestID = some request) :
    Kept request ((run calls).decisions requestID) := by
  induction calls using List.reverseRecOn generalizing request with
  | nil => cases hFind
  | append_singleton calls call ih =>
    rw [run_snoc] at hFind ⊢
    cases step_change (run calls) requestID call with
    | none _ requests decisions =>
      rw [decisions]
      exact ih (requests.symm.trans hFind)
    | created created isNew requests decisions =>
      rw [decisions, no_decisions isNew]
      obtain rfl := Option.some.inj (requests.symm.trans hFind)
      exact ⟨nodup_nil, by simp, by simp, by simp, fun h => by cases h⟩
    | expired before wasPending was _ requests decisions =>
      rw [decisions]
      obtain rfl := Option.some.inj (requests.symm.trans hFind)
      have kept := ih was
      exact ⟨kept.distinct, kept.others, kept.inTime,
        fun _ => kept.approving (by simp [wasPending]), fun h => by cases h⟩
    | decided before wasPending was _ inTime other first requests decisions =>
      rw [decisions]
      obtain rfl := Option.some.inj (requests.symm.trans hFind)
      exact (ih was).decided wasPending inTime other first

theorem decided_snoc :
    Decided (calls ++ [call]) requestID decision now ↔ Decided calls requestID decision now ∨
      (call = .decide requestID decision now ∧ (run calls).takes requestID decision now) := by
  constructor
  · rintro ⟨before, hPrefix, hTakes⟩
    rcases prefix_concat_iff.mp hPrefix with hAll | hPrefix
    · obtain ⟨rfl, hCall⟩ := append_inj' hAll rfl
      exact Or.inr ⟨(singleton_inj.mp hCall).symm, hTakes⟩
    · exact Or.inl ⟨before, hPrefix, hTakes⟩
  · rintro (⟨before, hPrefix, hTakes⟩ | ⟨rfl, hTakes⟩)
    · exact ⟨before, hPrefix.trans (prefix_append _ _), hTakes⟩
    · exact ⟨calls, prefix_rfl, hTakes⟩

theorem mem_decisions : d ∈ (run calls).decisions requestID ↔
    ∃ decision now, Decided calls requestID decision now ∧ d = stamped requestID decision now := by
  induction calls using List.reverseRecOn with
  | nil => simp [run, new, Decided]
  | append_singleton calls call ih =>
    simp only [run_snoc, decided_snoc]
    cases step_change (run calls) requestID call with
    | none refused _ decisions =>
      rw [decisions, ih]
      refine exists_congr fun decision => exists_congr fun now => and_congr_left fun _ => ?_
      refine (or_iff_left ?_).symm
      rintro ⟨hCall, hTakes⟩
      exact absurd hTakes (by simp [refused decision now hCall])
    | created _ _ _ decisions => simp [decisions, ih]
    | expired _ _ _ refused _ decisions =>
      rw [decisions, ih]
      refine exists_congr fun decision => exists_congr fun now => and_congr_left fun _ => ?_
      refine (or_iff_left ?_).symm
      rintro ⟨hCall, hTakes⟩
      cases hCall
      exact absurd hTakes (by simp [refused])
    | @decided _ decision now _ _ _ taken _ _ _ _ decisions =>
      rw [decisions, mem_append, ih, mem_singleton]
      constructor
      · rintro (⟨other, at', hDecided, hEq⟩ | hNew)
        · exact ⟨other, at', Or.inl hDecided, hEq⟩
        · exact ⟨decision, now, Or.inr ⟨rfl, taken⟩, hNew⟩
      · rintro ⟨other, at', hDecided | ⟨hCall, -⟩, hEq⟩
        · exact Or.inl ⟨other, at', hDecided, hEq⟩
        · cases hCall
          exact Or.inr hEq

theorem run_terminal (hFind : (run calls).requests requestID = some request)
    (hTerminal : request.status ≠ .pending) (more : List Call) :
    (run (calls ++ more)).requests requestID = some request ∧
      (run (calls ++ more)).decisions requestID = (run calls).decisions requestID := by
  induction more using List.reverseRecOn with
  | nil => simpa using hFind
  | append_singleton more call ih =>
    rw [← append_assoc, run_snoc]
    cases step_change (run (calls ++ more)) requestID call with
    | none _ requests decisions => exact ⟨requests.trans ih.1, decisions.trans ih.2⟩
    | created _ isNew => cases isNew.symm.trans ih.1
    | expired before wasPending was | decided before wasPending was =>
      obtain rfl := Option.some.inj (was.symm.trans ih.1)
      exact absurd wasPending hTerminal

/-- A request that was approved had as many approvals as it requires, of different people
other than the requester; nobody has rejected it, and all have decided in time. No request
that is approved, rejected or expired changes, nor do the decisions on it. -/
theorem approved_by_enough (calls : List Call) (requestID : String) (request : ApprovalRequest)
    (hFind : (run calls).requests requestID = some request) (hTerminal : request.status ≠ .pending) :
    (request.status = .approved →
        (∃ actors : List String, actors.Nodup ∧ request.requiredApprovals ≤ (actors.length : Nat) ∧
          request.requestedBy ∉ actors ∧ ∀ actor ∈ actors, ∃ decision now,
            Decided calls requestID decision now ∧ decision.actorID = actor ∧ decision.approved) ∧
        ∀ decision now, Decided calls requestID decision now → decision.approved ∧ now ≤ request.expiresAt) ∧
      ∀ more, (run (calls ++ more)).requests requestID = some request ∧
        (run (calls ++ more)).decisions requestID = (run calls).decisions requestID := by
  refine ⟨fun hApproved => ⟨?_, ?_⟩, run_terminal hFind hTerminal⟩
  · have kept := kept_run hFind
    refine ⟨((run calls).decisions requestID).map (·.actorID), kept.distinct, ?_, ?_, ?_⟩
    · simpa using kept.enough hApproved
    · intro hIn
      obtain ⟨d, hMem, hActor⟩ := mem_map.mp hIn
      exact kept.others d hMem hActor
    · intro actor hIn
      obtain ⟨d, hMem, rfl⟩ := mem_map.mp hIn
      obtain ⟨decision, now, hDecided, rfl⟩ := mem_decisions.mp hMem
      have hApproving : (stamped requestID decision now).approved :=
        kept.approving (by simp [hApproved]) _ hMem
      exact ⟨decision, now, hDecided, rfl, hApproving⟩
  · intro decision now hDecided
    have hMem := mem_decisions.mpr ⟨decision, now, hDecided, rfl⟩
    have kept := kept_run hFind
    have hApproving : (stamped requestID decision now).approved :=
      kept.approving (by simp [hApproved]) _ hMem
    exact ⟨hApproving, kept.inTime _ hMem⟩

end Service

namespace Sample

def request : ApprovalRequest where
  id := "delete-orders"
  requestedBy := "ana"
  requiredApprovals := 2
  expiresAt := 100

def calls : List Call :=
  [.create request, .decide "delete-orders" ⟨"", "ana", true, "", .zero⟩ 10,
    .decide "delete-orders" ⟨"", "ben", true, "", .zero⟩ 20,
    .decide "delete-orders" ⟨"", "ben", true, "", .zero⟩ 30,
    .decide "delete-orders" ⟨"", "cleo", true, "", .zero⟩ 100]

theorem approved_by_two :
    (Service.run calls).requests "delete-orders" = some { request with status := .approved } ∧
      ∃ actors : List String, actors.Nodup ∧ 2 ≤ (actors.length : Int) ∧ "ana" ∉ actors ∧
        ∀ actor ∈ actors, ∃ decision now,
          Service.Decided calls "delete-orders" decision now ∧ decision.actorID = actor ∧
            decision.approved := by
  have hFind : (Service.run calls).requests "delete-orders" =
      some { request with status := .approved } := by decide +kernel
  exact ⟨hFind, ((Service.approved_by_enough calls "delete-orders" _ hFind (by decide)).1 rfl).1⟩

end Sample

end DBVault.Approval
