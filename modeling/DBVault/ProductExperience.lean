import DBVault.Domain
import DBVault.Interaction.Calls
import DBVault.Text.Words

/-! The console's service: the IDs it makes up, and the approval of production restores by
a second person. -/
namespace DBVault.ProductExperience
open Function List Text

def fnv1a (bytes : Bytes) : UInt32 := bytes.foldl (fun h b => (h ^^^ b.toUInt32) * 16777619) 2166136261

/-- `%08x`. -/
def hex32 (h : UInt32) : String := hexEncode [(h >>> 24).toUInt8, (h >>> 16).toUInt8, (h >>> 8).toUInt8, h.toUInt8]

/-- `stableID` of a text. For an empty one it draws four bytes. -/
def stableID (drawn : Bytes) (text : String) : String :=
  if text = "" then hexEncode drawn else hex32 (fnv1a (utf8 text))

theorem hex32_injective : Function.Injective hex32 := by
  intro first second hSame
  have hBytes := hexEncode_injective hSame
  have hShift : ∀ n : Nat, n >>> 24 = n / 16777216 ∧ n >>> 16 = n / 65536 ∧ n >>> 8 = n / 256 :=
    fun n => ⟨Nat.shiftRight_eq_div_pow n 24, Nat.shiftRight_eq_div_pow n 16, Nat.shiftRight_eq_div_pow n 8⟩
  simp only [List.cons.injEq, ← UInt8.toNat_inj, UInt32.toNat_toUInt8, UInt32.toNat_shiftRight,
    UInt32.reduceToNat, Nat.reduceMod, hShift, and_true] at hBytes
  have hFirst := first.toNat_lt
  have hSecond := second.toNat_lt
  exact UInt32.toNat_inj.mp (by omega)

theorem stableID_inj (drawn : Bytes) {first second : String} (hFirst : first ≠ "") (hSecond : second ≠ "") :
    stableID drawn first = stableID drawn second ↔ fnv1a (utf8 first) = fnv1a (utf8 second) := by
  rw [stableID, stableID, if_neg hFirst, if_neg hSecond, hex32_injective.eq_iff]

def firstNonEmpty : List String → String
  | [] => ""
  | value :: rest => if trimSpace value ≠ "" then value else firstNonEmpty rest

inductive ApprovalStatus where
  | pending | approved | rejected
  deriving DecidableEq

def ApprovalStatus.text : ApprovalStatus → String
  | pending => "pending"
  | approved => "approved"
  | rejected => "rejected"

structure RestoreApprovalRequest where
  (id sourceID reason : String)
  targetTime : Option Time
  (target requestedBy : String)
  status : ApprovalStatus := .pending
  decidedBy : String := ""
  decidedAt : Option Time := none
  (createdAt expiresAt : Time)

/-- The arguments of `CreateRestoreApproval` and the time it reads. -/
structure Creation where
  sourceID : String
  reason : String := ""
  targetTime : Option Time := none
  target : String := ""
  requestedBy : String
  now : Time

/-- The arguments of `DecideRestoreApproval` and the time it reads. -/
structure Decision where
  (id approverEmail : String)
  approved : Bool
  now : Time

namespace Creation
variable (c : Creation)

def requester : String := if trimSpace c.requestedBy = "" then "console" else c.requestedBy

def seed : String := c.sourceID ++ "-" ++ c.target ++ "-" ++ decimal c.now

def id : String := "approval-" ++ stableID [] c.seed

theorem seed_ne_empty : c.seed ≠ "" := by
  intro hEmpty
  have hChars := congrArg String.toList hEmpty
  simp [seed] at hChars

theorem id_inj {c other : Creation} : c.id = other.id ↔ fnv1a (utf8 c.seed) = fnv1a (utf8 other.seed) := by
  rw [id, id, ← stableID_inj [] c.seed_ne_empty other.seed_ne_empty]
  simp

def Valid : Prop := trimSpace c.sourceID ≠ ""

instance : Decidable c.Valid := inferInstanceAs (Decidable (_ ≠ _))

def request : RestoreApprovalRequest where
  id := c.id
  sourceID := c.sourceID
  reason := c.reason
  targetTime := c.targetTime
  target := firstNonEmpty [c.target, "production replacement"]
  requestedBy := c.requester
  createdAt := c.now
  expiresAt := c.now + 24 * Time.hour

@[simp] theorem request_requestedBy : c.request.requestedBy = c.requester := by rw [request]

@[simp] theorem request_status : c.request.status = .pending := by rw [request]

@[simp] theorem request_expiresAt : c.request.expiresAt = c.now + 24 * Time.hour := by rw [request]

end Creation

def Decision.approver (d : Decision) : String :=
  if trimSpace d.approverEmail = "" then "security-officer@company.internal" else d.approverEmail

def RestoreApprovalRequest.decided (req : RestoreApprovalRequest) (d : Decision) :
    RestoreApprovalRequest :=
  { req with
    status := if d.approved then .approved else .rejected
    decidedBy := d.approver
    decidedAt := some d.now }

abbrev Approvals := String → Option RestoreApprovalRequest

namespace Approvals
variable (letters : CaseMapping) (s : Approvals)

def createRestoreApproval (c : Creation) : Result RestoreApprovalRequest × Approvals :=
  if ¬ c.Valid then (.error (.other "source_id is required"), s)
  else (.ok c.request, Function.update s c.id (some c.request))

def decideRestoreApproval (d : Decision) : Result RestoreApprovalRequest × Approvals :=
  match s d.id with
  | none => (.error (.other ("approval request " ++ d.id ++ " not found")), s)
  | some req =>
    if req.status ≠ .pending then
      (.error (.other ("approval request is already " ++ req.status.text)), s)
    else if letters.equalFold req.requestedBy d.approver ∧ req.requestedBy ≠ "console" then
      (.error (.other "two-person rule: requester cannot approve their own production restore action"), s)
    else (.ok (req.decided d), Function.update s d.id (some (req.decided d)))

inductive Call where
  | create (c : Creation)
  | decide (d : Decision)

def perform : Call → Result RestoreApprovalRequest × Approvals
  | .create c => s.createRestoreApproval c
  | .decide d => s.decideRestoreApproval letters d

def component : Interaction.Component Approvals Call (Result RestoreApprovalRequest) :=
  ⟨fun _ => none, perform letters⟩

def run (calls : List Call) : Approvals := (component letters).run calls

theorem run_snoc (calls : List Call) (call : Call) :
    run letters (calls ++ [call]) = (perform letters (run letters calls) call).2 :=
  (component letters).run_snoc calls call

def SamePerson (first second : String) : Prop := letters.equalFold (trimSpace first) (trimSpace second) = true

/-- At no time is a request approved by its requester or after its expiry, or replaced by
another one. -/
structure TwoPersonRule (calls : List Call) : Prop where
  approved : ∀ before after, calls = before ++ after → ∀ id req, run letters before id = some req →
    req.status = .approved → ¬ SamePerson letters req.requestedBy req.decidedBy ∧
      ∃ decidedAt, req.decidedAt = some decidedAt ∧ decidedAt ≤ req.expiresAt
  replaced : ∀ before c after, calls = before ++ .create c :: after → c.Valid → run letters before c.id = none

def settling (c : Creation) : Call → Option Decision
  | .decide d =>
    if d.id = c.id ∧ ¬ (letters.equalFold c.requester d.approver ∧ c.requester ≠ "console") then some d
    else none
  | .create _ => none

def settled (c : Creation) (later : List Call) : RestoreApprovalRequest :=
  match later.findSome? (settling letters c) with
  | some d => c.request.decided d
  | none => c.request

variable {letters} {calls : List Call}

theorem settled_snoc (c : Creation) (later : List Call) (call : Call) :
    settled letters c (later ++ [call]) =
      match later.findSome? (settling letters c) with
      | some d => c.request.decided d
      | none => match settling letters c call with
        | some d => c.request.decided d
        | none => c.request := by
  rw [settled, findSome?_append]
  cases later.findSome? (settling letters c) with
  | none => cases hSettling : settling letters c call <;> simp [hSettling]
  | some d => rfl

theorem decided_status (req : RestoreApprovalRequest) (d : Decision) : (req.decided d).status ≠ .pending := by
  cases hApproved : d.approved <;> simp [RestoreApprovalRequest.decided, hApproved]

variable {s : Approvals} {id : String}

theorem decide_elsewhere {d : Decision} (hID : d.id ≠ id) :
    (s.decideRestoreApproval letters d).2 id = s id := by
  unfold decideRestoreApproval
  split
  · rfl
  · split_ifs
    · rfl
    · rfl
    · exact update_of_ne hID.symm ..

variable {c : Creation} {later : List Call}

theorem decide_settled (hFind : s c.id = some (settled letters c later)) (d : Decision) :
    (s.decideRestoreApproval letters d).2 c.id = some (settled letters c (later ++ [.decide d])) := by
  rw [settled_snoc]
  by_cases hID : d.id = c.id
  · unfold settled at hFind
    unfold decideRestoreApproval
    cases hFound : later.findSome? (settling letters c) with
    | some earlier =>
      -- a decision has been taken, and this one is refused
      rw [hFound] at hFind
      rw [hID, hFind]
      simp only [ne_eq, decided_status, not_false_eq_true, if_true]
      exact hFind
    | none =>
      rw [hFound] at hFind
      rw [hID, hFind]
      simp only [Creation.request_status, Creation.request_requestedBy, ne_eq, not_true_eq_false,
        if_false, settling]
      split_ifs with hBlocked hPasses hPasses
      · exact absurd hBlocked hPasses.2
      · exact hFind
      · exact update_self ..
      · exact absurd ⟨hID, hBlocked⟩ hPasses
  · rw [decide_elsewhere hID, hFind, settled, settling, if_neg fun h => hID h.1]

variable {before : List Call}

theorem run_created (hValid : c.Valid)
    (hLater : ∀ other, .create other ∈ later → other.Valid → other.id ≠ c.id) :
    run letters (before ++ .create c :: later) c.id = some (settled letters c later) := by
  induction later using List.reverseRecOn with
  | nil =>
    rw [run_snoc, perform, createRestoreApproval, if_neg (not_not.mpr hValid)]
    exact update_self ..
  | append_singleton later call ih =>
    have hFind := ih fun other hIn => hLater other (mem_append_left _ hIn)
    rw [← cons_append, ← append_assoc, run_snoc]
    cases call with
    | create other =>
      have hSame : settled letters c (later ++ [.create other]) = settled letters c later := by
        rw [settled_snoc, settling, settled]
      rw [hSame, perform, createRestoreApproval]
      split_ifs with hOther
      · have hNe := hLater other (by simp) hOther
        exact (update_of_ne hNe.symm ..).trans hFind
      · exact hFind
    | decide d => exact decide_settled hFind d

theorem created_of_known (hKnown : run letters calls id ≠ none) :
    ∃ c, .create c ∈ calls ∧ c.Valid ∧ c.id = id := by
  induction calls using List.reverseRecOn with
  | nil => exact absurd rfl hKnown
  | append_singleton calls call ih =>
    have hOld : run letters calls id ≠ none → ∃ c, .create c ∈ calls ++ [call] ∧ c.Valid ∧ c.id = id := by
      intro hOld
      obtain ⟨c, hIn, hCreates⟩ := ih hOld
      exact ⟨c, mem_append_left _ hIn, hCreates⟩
    rw [run_snoc] at hKnown
    cases call with
    | create c =>
      rw [perform, createRestoreApproval] at hKnown
      split_ifs at hKnown with hValid
      · by_cases hID : c.id = id
        · exact ⟨c, by simp, hValid, hID⟩
        · exact hOld (by simpa [update_of_ne (Ne.symm hID)] using hKnown)
      · exact hOld hKnown
    | decide d =>
      rw [perform] at hKnown
      by_cases hID : d.id = id
      · subst hID
        refine hOld fun hNone => hKnown ?_
        simp [decideRestoreApproval, hNone]
      · rw [decide_elsewhere hID] at hKnown
        exact hOld hKnown

def SeedsDiffer (calls : List Call) : Prop :=
  ∀ before first middle second after,
    calls = before ++ .create first :: (middle ++ .create second :: after) →
    first.Valid → second.Valid → fnv1a (utf8 first.seed) ≠ fnv1a (utf8 second.seed)

theorem known_created (hValid : c.Valid) : run letters (before ++ .create c :: later) c.id ≠ none := by
  induction later using List.reverseRecOn with
  | nil => simp [run_created hValid]
  | append_singleton later call ih =>
    rw [← cons_append, ← append_assoc, run_snoc]
    cases call with
    | create other =>
      rw [perform, createRestoreApproval]
      split_ifs
      · by_cases hID : c.id = other.id <;> simp [hID, ih]
      · exact ih
    | decide d =>
      rw [perform, decideRestoreApproval]
      split
      · exact ih
      · split_ifs
        · exact ih
        · exact ih
        · by_cases hID : c.id = d.id <;> simp [hID, ih]

theorem replaced_iff :
    (∀ before c after, calls = before ++ .create c :: after → c.Valid →
      run letters before c.id = none) ↔ SeedsDiffer calls := by
  constructor
  · intro hNew before first middle second after hCalls hFirst hSecond hSame
    have hNone := hNew (before ++ .create first :: middle) second after (by simp [hCalls]) hSecond
    rw [← Creation.id_inj.mpr hSame] at hNone
    exact known_created hFirst hNone
  · intro hSeeds before c after hCalls hValid
    by_contra hKnown
    obtain ⟨first, hIn, hFirst, hID⟩ := created_of_known hKnown
    obtain ⟨earlier, middle, rfl⟩ := append_of_mem hIn
    exact hSeeds earlier first middle c after (by simp [hCalls]) hFirst hValid (Creation.id_inj.mp hID)

theorem SeedsDiffer.run_created (hSeeds : SeedsDiffer calls) {after : List Call} (hCalls : calls = before ++ .create c :: later ++ after) (hValid : c.Valid) :
    run letters (before ++ .create c :: later) c.id = some (settled letters c later) := by
  refine Approvals.run_created hValid fun other hIn hOther hID => ?_
  obtain ⟨middle, rest, rfl⟩ := append_of_mem hIn
  exact hSeeds before c middle other (rest ++ after) (by simp [hCalls]) hValid hOther (Creation.id_inj.mp hID.symm)

/-- The rule is kept just in case no two requests have seeds of one hash and, of the
decisions on each request, the first one that the check of the names lets pass does not
approve it late or under the requester's name. -/
theorem twoPersonRule_iff (letters : CaseMapping) (calls : List Call) :
    TwoPersonRule letters calls ↔ SeedsDiffer calls ∧
      ∀ before c later d, calls = before ++ .create c :: later → c.Valid →
        later.findSome? (settling letters c) = some d → d.approved = true →
        ¬ SamePerson letters c.requester d.approver ∧ d.now ≤ c.now + 24 * Time.hour := by
  constructor
  · intro rule
    have hSeeds := replaced_iff.mp rule.replaced
    refine ⟨hSeeds, ?_⟩
    intro before c later d hCalls hValid hFirst hApproved
    have hAll : calls = before ++ .create c :: later ++ [] := by simp [hCalls]
    have hRun : run letters calls c.id = some (c.request.decided d) := by
      rw [hCalls, hSeeds.run_created hAll hValid, settled, hFirst]
    obtain ⟨hPerson, decidedAt, hAt, hTime⟩ := rule.approved calls [] (by simp) c.id _ hRun
      (by simp [RestoreApprovalRequest.decided, hApproved])
    simp only [RestoreApprovalRequest.decided, Creation.request_requestedBy,
      Creation.request_expiresAt, Option.some.injEq] at hPerson hAt hTime
    exact ⟨hPerson, hAt ▸ hTime⟩
  · rintro ⟨hSeeds, hDecisions⟩
    refine ⟨?_, replaced_iff.mpr hSeeds⟩
    intro before after hCalls id req hFind hApproved
    have hKnown : run letters before id ≠ none := by simp [hFind]
    obtain ⟨c, hIn, hValid, rfl⟩ := created_of_known hKnown
    obtain ⟨earlier, later, rfl⟩ := append_of_mem hIn
    rw [hSeeds.run_created hCalls hValid, Option.some.injEq] at hFind
    subst hFind
    unfold settled at hApproved ⊢
    cases hFirst : later.findSome? (settling letters c) with
    | none =>
      rw [hFirst] at hApproved
      cases hApproved
    | some d =>
      rw [hFirst] at hApproved
      have hApproves : d.approved = true := by
        by_contra hRejects
        simp [RestoreApprovalRequest.decided, hRejects] at hApproved
      obtain ⟨hPerson, hTime⟩ := hDecisions earlier c (later ++ after) d (by simp [hCalls]) hValid
        (by simp [findSome?_append, hFirst]) hApproves
      simp only [RestoreApprovalRequest.decided, Creation.request_requestedBy, Creation.request_expiresAt]
      exact ⟨hPerson, d.now, rfl, hTime⟩

end Approvals

namespace Sample
open Approvals

def request : Creation := { sourceID := "orders", requestedBy := "", now := 0 }

def approval (approver : String) (now : Time) : Decision := ⟨request.id, approver, true, now⟩

theorem run_approval (approver : String) (now : Time) :
    run .ascii ([] ++ .create request :: [.decide (approval approver now)]) request.id =
      some (settled .ascii request [.decide (approval approver now)]) :=
  Approvals.run_created (by decide) (by simp)

/-- A request of the console is approved by the console, another one two days late, and a
third one replaces the first. -/
theorem rule_broken :
    ¬ TwoPersonRule .ascii [.create request, .decide (approval "Console" 1)] ∧
    ¬ TwoPersonRule .ascii [.create request, .decide (approval "bob" (48 * Time.hour))] ∧
    ¬ TwoPersonRule .ascii [.create request, .create { request with requestedBy := "mallory" }] := by
  refine ⟨fun rule => ?_, fun rule => ?_, fun rule => ?_⟩
  · have hSame : SamePerson .ascii request.requester (approval "Console" 1).approver := by rfl
    exact (rule.approved _ [] (append_nil _).symm request.id _ (run_approval _ _) rfl).1 hSame
  · obtain ⟨-, decidedAt, hAt, hTime⟩ :=
      rule.approved _ [] (append_nil _).symm request.id _ (run_approval _ _) rfl
    obtain rfl := Option.some.inj hAt
    exact absurd hTime (by decide)
  · have hKnown : run .ascii ([] ++ .create request :: []) request.id ≠ none :=
      known_created (by decide)
    exact hKnown (rule.replaced [.create request] { request with requestedBy := "mallory" } [] rfl
      (by decide))

end Sample

end DBVault.ProductExperience
