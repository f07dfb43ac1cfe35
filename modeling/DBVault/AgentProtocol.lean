import DBVault.Domain
import DBVault.Interaction.Calls

/-! Signed tasks for agents and the memory that keeps an agent from taking one twice. -/
namespace DBVault.AgentProtocol
open Option Function List Text

structure AgentTask where
  (id organisationID projectID agentID type : String)
  payload : Bytes
  (issuedAt expiresAt : Time)
  nonce : String
  deriving DecidableEq

structure Envelope where
  version : Int
  task : AgentTask
  (keyID signature : String)
  deriving DecidableEq

/-- The encodings and the signature scheme. -/
structure Setting where
  /-- `base64.StdEncoding.DecodeString`. -/
  decode : String → Result Bytes
  /-- `json.Marshal` of a task. -/
  canonical : AgentTask → Result Bytes
  /-- `ed25519.Verify` of a public key, a message and a signature. -/
  verify : Bytes → Bytes → Bytes → Bool

abbrev MemoryReplayProtector := String → Option Time

namespace MemoryReplayProtector
variable (seen : MemoryReplayProtector)

/-- The loop of `Accept` that forgets what has expired. -/
def prune (clock : Time) : MemoryReplayProtector :=
  fun key => (seen key).filter fun expiry => !decide (expiry < clock)

def accept (agentID nonce : String) (expires clock : Time) : Bool × MemoryReplayProtector :=
  let seen := seen.prune clock
  let key := agentID ++ ":" ++ nonce
  if (seen key).isSome then (false, seen) else (true, Function.update seen key (some expires))

end MemoryReplayProtector

/-- A call of `Verify` with the reading of the protector's own clock. -/
structure Call where
  envelope : Envelope
  expectedAgent : String
  publicKey : Bytes
  (now clock : Time)

namespace Call
variable (call : Call)

def expiresAt : Time := call.envelope.task.expiresAt

def key : String := call.expectedAgent ++ ":" ++ call.envelope.task.nonce

/-- What `Verify` checks before it asks the protector. -/
def check (env : Setting) : Result Unit := do
  if call.envelope.version ≠ 1 then throw (.other "unsupported task envelope version")
  if call.envelope.task.agentID ≠ call.expectedAgent then
    throw (.other "task is addressed to another agent")
  if call.now + 2 * 60 * Time.nanosPerSecond < call.envelope.task.issuedAt then
    throw (.other "task issued in the future")
  if ¬ call.now < call.expiresAt then throw (.other "task expired")
  let sig ← env.decode call.envelope.signature
  let payload ← env.canonical call.envelope.task
  if !env.verify call.publicKey payload sig then throw (.other "invalid task signature")

end Call

/-- `Verify` with a protector. -/
def verify (env : Setting) (seen : MemoryReplayProtector) (call : Call) :
    Result Unit × MemoryReplayProtector :=
  match call.check env with
  | .error err => (.error err, seen)
  | .ok () =>
    match seen.accept call.expectedAgent call.envelope.task.nonce call.expiresAt call.clock with
    | (true, seen) => (.ok (), seen)
    | (false, seen) => (.error (.other "replayed task"), seen)

def component (env : Setting) : Interaction.Component MemoryReplayProtector Call (Result Unit) :=
  ⟨fun _ => none, verify env⟩

def transcript (env : Setting) (calls : List Call) : List (Call × Result Unit) := (component env).transcript calls

/-- No envelope is accepted a second time for the same agent. -/
def ReplayFree (env : Setting) (calls : List Call) : Prop :=
  ∀ earlier first middle again answer later,
    transcript env calls = earlier ++ (first, .ok ()) :: (middle ++ (again, answer) :: later) →
    again.envelope = first.envelope → again.expectedAgent = first.expectedAgent → answer ≠ .ok ()

/-- Real time does not go back, and a call's time is read before the protector's clock. -/
structure Timed (calls : List Call) : Prop where
  forward : calls.Pairwise fun first second => first.clock ≤ second.clock
  within : ∀ call ∈ calls, call.now ≤ call.clock

variable {env : Setting} {calls : List Call} {seen : MemoryReplayProtector} {call : Call}

theorem MemoryReplayProtector.prune_eq_some {key : String} {clock expiry : Time} :
    seen.prune clock key = some expiry ↔ seen key = some expiry ∧ clock ≤ expiry := by
  simp [prune, filter_eq_some_iff]

/-- What `Verify` does: it fails before it asks the protector, it finds the key, or it
accepts the task and remembers the key. -/
theorem verify_cases (env : Setting) (seen : MemoryReplayProtector) (call : Call) :
    (call.check env ≠ .ok () ∧ ∃ err, verify env seen call = (.error err, seen)) ∨
    (seen.prune call.clock call.key ≠ none ∧ ∃ err, verify env seen call = (.error err, seen.prune call.clock)) ∨
    (call.check env = .ok () ∧ seen.prune call.clock call.key = none ∧
      verify env seen call =
        (.ok (), Function.update (seen.prune call.clock) call.key (some call.expiresAt))) := by
  unfold verify
  split
  · rename_i err hCheck
    exact Or.inl ⟨by simp [hCheck], err, rfl⟩
  · rename_i hCheck
    have hKey : call.expectedAgent ++ ":" ++ call.envelope.task.nonce = call.key := rfl
    simp only [MemoryReplayProtector.accept, hKey]
    by_cases hSeen : seen.prune call.clock call.key = none
    · refine Or.inr (Or.inr ⟨hCheck, hSeen, ?_⟩)
      simp [hSeen]
    · refine Or.inr (Or.inl ⟨hSeen, ?_⟩)
      simp [isSome_iff_ne_none.mpr hSeen]

/-- The keys that are remembered are those of accepted tasks, and none that has not expired
is forgotten. -/
structure Explained (entries : List (Call × Result Unit)) (clock : Time)
    (seen : MemoryReplayProtector) : Prop where
  recorded : ∀ key expiry, seen key = some expiry →
    ∃ call, (call, .ok ()) ∈ entries ∧ call.key = key ∧ call.expiresAt = expiry
  kept : ∀ call, (call, .ok ()) ∈ entries → clock ≤ call.expiresAt → seen call.key = some call.expiresAt

namespace Explained
variable {entries : List (Call × Result Unit)} {clock : Time}

section
variable (explained : Explained entries clock seen)
include explained

theorem prune_eq_none (hClock : clock ≤ call.clock) :
    seen.prune call.clock call.key = none ↔
      ∀ other, (other, .ok ()) ∈ entries → other.key = call.key → other.expiresAt < call.clock := by
  constructor
  · intro hNone other hIn hKey
    by_contra hLater
    have hSeen := explained.kept other hIn (hClock.trans (not_lt.mp hLater))
    rw [hKey] at hSeen
    have hFound := MemoryReplayProtector.prune_eq_some.mpr ⟨hSeen, not_lt.mp hLater⟩
    rw [hNone] at hFound
    cases hFound
  · intro hOthers
    by_contra hFound
    obtain ⟨expiry, hFound⟩ := ne_none_iff_exists'.mp hFound
    obtain ⟨hSeen, hLater⟩ := MemoryReplayProtector.prune_eq_some.mp hFound
    obtain ⟨other, hIn, hKey, rfl⟩ := explained.recorded _ _ hSeen
    exact absurd (hOthers other hIn hKey) (not_lt.mpr hLater)

theorem refused (call : Call) (err : GoError) : Explained (entries ++ [(call, .error err)]) clock seen where
  recorded key expiry hFind :=
    let ⟨other, hIn, hOther⟩ := explained.recorded key expiry hFind
    ⟨other, mem_append_left _ hIn, hOther⟩
  kept other hIn := explained.kept other (by simpa using hIn)

theorem later {next : Time} (hClock : clock ≤ next) : Explained entries next seen where
  recorded := explained.recorded
  kept other hIn hLater := explained.kept other hIn (hClock.trans hLater)

theorem prune : Explained entries clock (seen.prune clock) where
  recorded key expiry hFind := explained.recorded key expiry (MemoryReplayProtector.prune_eq_some.mp hFind).1
  kept other hIn hLater := MemoryReplayProtector.prune_eq_some.mpr ⟨explained.kept other hIn hLater, hLater⟩

theorem accepted (hNew : seen call.key = none) :
    Explained (entries ++ [(call, .ok ())]) clock (Function.update seen call.key (some call.expiresAt)) where
  recorded key expiry hFind := by
    by_cases hKey : key = call.key
    · subst hKey
      rw [update_self, Option.some.injEq] at hFind
      exact ⟨call, by simp, rfl, hFind⟩
    · rw [update_of_ne hKey] at hFind
      obtain ⟨other, hIn, hOther⟩ := explained.recorded key expiry hFind
      exact ⟨other, mem_append_left _ hIn, hOther⟩
  kept other hIn hLater := by
    rcases mem_append.mp hIn with hOld | hLast
    · have hFound := explained.kept other hOld hLater
      have hKey : other.key ≠ call.key := fun hKey => by simp [hKey, hNew] at hFound
      rwa [update_of_ne hKey]
    · obtain ⟨rfl, -⟩ := Prod.mk.inj (mem_singleton.mp hLast)
      exact update_self ..

theorem verify (hClock : clock ≤ call.clock) :
    Explained (entries ++ [(call, (AgentProtocol.verify env seen call).1)]) call.clock
      (AgentProtocol.verify env seen call).2 := by
  have hLater := explained.later hClock
  rcases verify_cases env seen call with ⟨-, err, hVerify⟩ | ⟨-, err, hVerify⟩ | ⟨-, hNew, hVerify⟩
  · rw [hVerify]
    exact hLater.refused call err
  · rw [hVerify]
    exact hLater.prune.refused call err
  · rw [hVerify]
    exact hLater.prune.accepted hNew

end

end Explained

theorem run_explained (hForward : calls.Pairwise fun first second => first.clock ≤ second.clock)
    {clock : Time} (hClock : ∀ call ∈ calls, call.clock ≤ clock) :
    Explained (transcript env calls) clock ((component env).run calls) := by
  induction calls using List.reverseRecOn generalizing clock with
  | nil => exact ⟨fun _ _ h => absurd h.symm (some_ne_none _), fun _ h => absurd h not_mem_nil⟩
  | append_singleton calls call ih =>
    obtain ⟨hEarlier, -, hLast⟩ := pairwise_append.mp hForward
    have hOld := ih hEarlier fun other hIn => hLast other hIn call mem_cons_self
    rw [transcript, Interaction.Component.transcript_snoc, Interaction.Component.run_snoc]
    exact (hOld.verify (le_refl _)).later (hClock call (by simp))

variable {earlier later : List (Call × Result Unit)}

theorem answer_ok_iff (hForward : calls.Pairwise fun first second => first.clock ≤ second.clock) {answer : Result Unit}
    (hSplit : transcript env calls = earlier ++ (call, answer) :: later) :
    answer = .ok () ↔ call.check env = .ok () ∧
      ∀ other, (other, .ok ()) ∈ earlier → other.key = call.key → other.expiresAt < call.clock := by
  obtain ⟨before, after, rfl, rfl, rfl⟩ := (component env).transcript_split hSplit
  obtain ⟨hEarlier, -, hLast⟩ := pairwise_append.mp hForward
  have hRun : Explained (transcript env before) call.clock ((component env).run before) :=
    run_explained hEarlier fun other hIn => hLast other hIn call mem_cons_self
  change (verify env ((component env).run before) call).1 = .ok () ↔ _
  rw [← transcript, ← hRun.prune_eq_none (le_refl _)]
  rcases verify_cases env ((component env).run before) call with
    ⟨hCheck, err, hVerify⟩ | ⟨hSeen, err, hVerify⟩ | ⟨hCheck, hNew, hVerify⟩
  · simp [hVerify, hCheck]
  · simp [hVerify, hSeen]
  · simp [hVerify, hCheck, hNew]

theorem clock_le_of_split (timed : Timed calls) {middle : List (Call × Result Unit)}
    {first again : Call × Result Unit}
    (hSplit : transcript env calls = earlier ++ first :: (middle ++ again :: later)) :
    first.1.clock ≤ again.1.clock := by
  have hForward := timed.forward
  rw [← (component env).transcript_calls calls, ← transcript, hSplit, map_append, map_cons,
    pairwise_append, pairwise_cons] at hForward
  exact hForward.2.1.1 again.1 (by simp)

/-- No envelope is accepted twice just in case every repetition that still passes the checks
but comes to the protector after the expiry finds the key taken by another task. -/
theorem replayFree_iff (timed : Timed calls) :
    ReplayFree env calls ↔
      ∀ earlier first middle again answer later,
        transcript env calls = earlier ++ (first, .ok ()) :: (middle ++ (again, answer) :: later) →
        again.envelope = first.envelope → again.expectedAgent = first.expectedAgent →
        again.check env = .ok () → again.expiresAt < again.clock →
        ∃ other, (other, .ok ()) ∈ middle ∧ other.key = again.key ∧ again.clock ≤ other.expiresAt := by
  have hAnswer : ∀ {earlier first middle again answer later},
      transcript env calls = earlier ++ (first, .ok ()) :: (middle ++ (again, answer) :: later) →
      again.envelope = first.envelope → again.expectedAgent = first.expectedAgent →
      (answer = .ok () ↔ again.check env = .ok () ∧ again.expiresAt < again.clock ∧
        ∀ other, (other, .ok ()) ∈ middle → other.key = again.key → other.expiresAt < again.clock) := by
    intro earlier first middle again answer later hSplit hEnvelope hAgent
    have hKey : first.key = again.key := by rw [Call.key, Call.key, hEnvelope, hAgent]
    have hExpiry : first.expiresAt = again.expiresAt := by
      rw [Call.expiresAt, Call.expiresAt, hEnvelope]
    have hAgain : transcript env calls =
        (earlier ++ (first, .ok ()) :: middle) ++ (again, answer) :: later := by simp [hSplit]
    rw [answer_ok_iff timed.forward hAgain]
    refine and_congr_right fun _ => ⟨fun hOthers => ⟨?_, ?_⟩, ?_⟩
    · exact hExpiry ▸ hOthers first (by simp) hKey
    · exact fun other hIn => hOthers other (by simp [hIn])
    · -- what was accepted before the first had expired by then
      rintro ⟨hLate, hMiddle⟩ other hIn hOther
      have hFirst := ((answer_ok_iff timed.forward hSplit).mp rfl).2
      rcases mem_append.mp hIn with hEarlier | hIn
      · exact (hFirst other hEarlier (hOther.trans hKey.symm)).trans_le (clock_le_of_split timed hSplit)
      · rcases mem_cons.mp hIn with hSame | hIn
        · obtain ⟨rfl, -⟩ := Prod.mk.inj hSame
          exact hExpiry ▸ hLate
        · exact hMiddle other hIn hOther
  constructor
  · intro hFree earlier first middle again answer later hSplit hEnvelope hAgent hCheck hLate
    by_contra hOthers
    refine hFree _ _ _ _ _ _ hSplit hEnvelope hAgent
      ((hAnswer hSplit hEnvelope hAgent).mpr ⟨hCheck, hLate, ?_⟩)
    intro other hIn hKey
    by_contra hLater
    exact hOthers ⟨other, hIn, hKey, not_lt.mp hLater⟩
  · intro hOthers earlier first middle again answer later hSplit hEnvelope hAgent hOk
    obtain ⟨hCheck, hLate, hMiddle⟩ := (hAnswer hSplit hEnvelope hAgent).mp hOk
    obtain ⟨other, hIn, hKey, hLater⟩ :=
      hOthers _ _ _ _ _ _ hSplit hEnvelope hAgent hCheck hLate
    exact absurd (hMiddle other hIn hKey) (not_lt.mpr hLater)

namespace Sample

def trusting : Setting := ⟨fun _ => .ok [], fun _ => .ok [], fun _ _ _ => true⟩

def envelope : Envelope where
  version := 1
  task := ⟨"task-1", "org", "", "agent-1", "backup", [], 0, 10, "nonce-1"⟩
  keyID := "key-1"
  signature := ""

/-- A call of `Verify` for the agent, and the reading of the protector's clock. -/
def at' (now clock : Time) : Call := ⟨envelope, "agent-1", [], now, clock⟩

/-- The task is sent again just before it expires, and the protector looks at its clock just
after. -/
theorem accepted_twice : Timed [at' 1 1, at' 9 11] ∧ ¬ ReplayFree trusting [at' 1 1, at' 9 11] := by
  refine ⟨⟨by simp [at'], by simp [at']⟩, fun hFree => ?_⟩
  exact hFree [] (at' 1 1) [] (at' 9 11) (.ok ()) [] (by rfl) rfl rfl rfl

theorem prompt_replay_refused : ReplayFree trusting [at' 1 1, at' 2 3] := by
  refine (replayFree_iff ⟨by simp [at'], by simp [at']⟩).mpr ?_
  intro earlier first middle again answer later hSplit _ _ _ hLate
  have hIn : again ∈ ([at' 1 1, at' 2 3] : List Call) := by
    rw [← (component trusting).transcript_calls [at' 1 1, at' 2 3], ← transcript, hSplit]
    simp
  rcases mem_cons.mp hIn with rfl | hIn
  · exact absurd hLate (by decide)
  · obtain rfl := mem_singleton.mp hIn
    exact absurd hLate (by decide)

end Sample

end DBVault.AgentProtocol
