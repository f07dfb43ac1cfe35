import DBVault.Calendar.Texts
import DBVault.Digest
import DBVault.Json.Compact
import Mathlib.Data.List.Induction

/-! The audit log: events chained by the hash of the one before, and the check of the
chain. -/
namespace DBVault.Audit
open List Text Json

/-- A map of texts, by its entries in the order of their keys. -/
@[ext] structure Metadata where
  entries : List (String × String)
  ordered : (entries.map Prod.fst).Pairwise (· < ·)

@[ext] structure AuditEvent where
  (id eventType actorType actorID resourceType resourceID outcome : String)
  metadata : Metadata
  createdAt : Time
  (previousHash eventHash : String)

namespace AuditEvent
variable (e : AuditEvent)

/-- The object `json.Marshal` writes, without the empty fields that may be left out. -/
def toValue : Value :=
  .obj ([("id", .str e.id), ("event_type", .str e.eventType), ("actor_type", .str e.actorType)] ++
    omitEmpty (e.actorID = "") ("actor_id", .str e.actorID) ++
    omitEmpty (e.resourceType = "") ("resource_type", .str e.resourceType) ++
    omitEmpty (e.resourceID = "") ("resource_id", .str e.resourceID) ++
    [("outcome", .str e.outcome)] ++
    omitEmpty e.metadata.entries.isEmpty
      ("metadata", .obj (e.metadata.entries.map fun entry => (entry.1, .str entry.2))) ++
    [("created_at", .str e.createdAt.rfc3339Nano)] ++
    omitEmpty (e.previousHash = "") ("previous_hash", .str e.previousHash) ++
    [("event_hash", .str e.eventHash)])

def year : Int := (Time.civil (e.createdAt / Time.nanosPerSecond / 86400)).1

/-- What is hashed. `json.Marshal` fails on years it cannot write, and its error is not
looked at. -/
def message : Bytes := if 0 ≤ e.year ∧ e.year ≤ 9999 then marshal e.toValue else []

end AuditEvent

def chainAuditEvent (h : Hashes) (e : AuditEvent) (previous : String) : AuditEvent :=
  let e := { e with previousHash := previous, eventHash := "" }
  { e with eventHash := (h.sha256 e.message).hex }

def zeroHash : String := String.ofList (List.replicate 64 '0')

/-- What `Record` is given, with the time it reads. -/
structure Record where
  (eventType actorType actorID resourceType resourceID outcome : String)
  metadata : Metadata
  now : Time

def Record.event (r : Record) : AuditEvent where
  id := "audit-" ++ decimal r.now
  eventType := r.eventType
  actorType := r.actorType
  actorID := r.actorID
  resourceType := r.resourceType
  resourceID := r.resourceID
  outcome := r.outcome
  metadata := r.metadata
  createdAt := r.now
  previousHash := ""
  eventHash := ""

structure Service where
  events : List AuditEvent
  lastHash : String

def tampered (what : String) (i : Nat) (e : AuditEvent) : GoError :=
  .other ("audit hash chain integrity verification failed: tamper detected: " ++ what ++
    " at index " ++ decimal i ++ " (event " ++ e.id ++ ")")

/-- The loop of `VerifyIntegrity`, from an index on. -/
def verifyFrom (h : Hashes) (prev : String) (i : Nat) : List AuditEvent → Result Unit
  | [] => .ok ()
  | e :: rest =>
    if e.previousHash ≠ prev then .error (tampered "mismatch" i e)
    else if (chainAuditEvent h e prev).eventHash ≠ e.eventHash then
      .error (tampered "hash mismatch" i e)
    else verifyFrom h e.eventHash (i + 1) rest

namespace Service

def new : Service := ⟨[], zeroHash⟩

variable (h : Hashes) (s : Service)

def record (r : Record) : Service :=
  let chained := chainAuditEvent h r.event s.lastHash
  ⟨s.events ++ [chained], chained.eventHash⟩

def verifyIntegrity : Result Unit := if s.events.length = 0 then .ok () else verifyFrom h zeroHash 0 s.events

def run (records : List Record) : Service := records.foldl (record h) new

end Service

def chainFrom (h : Hashes) (prev : String) : List AuditEvent → List AuditEvent
  | [] => []
  | e :: rest => chainAuditEvent h e prev :: chainFrom h (chainAuditEvent h e prev).eventHash rest

def endHash (prev : String) : List AuditEvent → String
  | [] => prev
  | e :: rest => endHash e.eventHash rest

/-- The text whose hash an event has to carry. -/
def AuditEvent.hashedText (e : AuditEvent) : Bytes := ({ e with eventHash := "" } : AuditEvent).message

def hashed (events : List AuditEvent) : Set Bytes := {message | ∃ e ∈ events, message = e.hashedText}

/-- The event names the hash before it, and has the hash of its own text. -/
structure AuditEvent.Fits (h : Hashes) (e : AuditEvent) (before : String) : Prop where
  previous : e.previousHash = before
  hash : e.eventHash = (h.sha256 e.hashedText).hex

def Broken (h : Hashes) (events : List AuditEvent) : Prop :=
  ∃ before e after, events = before ++ e :: after ∧ ¬ e.Fits h (endHash zeroHash before)

def Chained (h : Hashes) (events : List AuditEvent) : Prop := ∃ originals, events = chainFrom h zeroHash originals

namespace AuditEvent

/-- Leaving out the empty value loses nothing. -/
theorem omitted_inj {α : Type} [DecidableEq α] {f : α → Value} (hf : Function.Injective f) {empty a b : α}
    (h : (if a = empty then none else some (f a)) = if b = empty then none else some (f b)) : a = b := by
  split_ifs at h with ha hb hb
  · rw [ha, hb]
  · exact hf (Option.some.inj h)

theorem lookup_omitEmpty (isEmpty : Bool) (name key : String) (v : Value) :
    (omitEmpty isEmpty (name, v)).lookup key = if key = name ∧ isEmpty = false then some v else none := by
  unfold omitEmpty
  split
  · simp_all
  · by_cases hName : key = name
    · simp_all
    · simp [lookup_cons, beq_false_of_ne hName, hName]

theorem delimited_omitEmpty (isEmpty : Bool) (name : String) {v : Value} (h : Delimited 1 v) :
    ∀ m ∈ omitEmpty isEmpty (name, v), Delimited 1 m.2 := by
  intro m hm
  unfold omitEmpty at hm
  split at hm <;> simp_all

theorem toValue_delimited (e : AuditEvent) : Delimited 2 e.toValue := by
  have hMetadata : Delimited 1 (.obj (e.metadata.entries.map fun entry => (entry.1, .str entry.2))) :=
    delimited_obj (forall_mem_map.mpr fun entry _ => delimited_str 0 entry.2)
  apply delimited_obj
  have hText := fun isEmpty name text => delimited_omitEmpty isEmpty name (delimited_str 1 text)
  simp only [forall_mem_append, forall_mem_cons, not_mem_nil, false_imp_iff, implies_true, and_true, delimited_str]
  exact ⟨⟨⟨⟨⟨trivial, hText _ _ _⟩, hText _ _ _⟩, hText _ _ _⟩, delimited_omitEmpty _ _ hMetadata⟩, hText _ _ _⟩

theorem toValue_inj {e d : AuditEvent} (h : e.toValue = d.toValue) (hYear : e.createdAt.FourDigitYear)
    (hOther : d.createdAt.FourDigitYear) : e = d := by
  have hLookup := fun key => congrArg (lookup key) (Value.obj.inj h)
  simp only [lookup_append, lookup_omitEmpty, lookup_cons, lookup_nil] at hLookup
  have hID := hLookup "id"
  have hType := hLookup "event_type"
  have hActorType := hLookup "actor_type"
  have hOutcome := hLookup "outcome"
  have hTime := hLookup "created_at"
  have hMetadata := hLookup "metadata"
  have hActor := hLookup "actor_id"
  have hResourceType := hLookup "resource_type"
  have hResource := hLookup "resource_id"
  have hPrevious := hLookup "previous_hash"
  have hHash := hLookup "event_hash"
  clear hLookup h
  simp at hID hType hActor hActorType hOutcome hTime hMetadata hResourceType hResource hPrevious hHash
  have hStr : Function.Injective Value.str := fun _ _ h => Value.str.inj h
  have hObj : Function.Injective fun entries : List (String × String) =>
      Value.obj (entries.map fun entry => (entry.1, .str entry.2)) := by
    intro entries others hSame
    refine map_injective_iff.mpr (fun entry other hEntry => ?_) (Value.obj.inj hSame)
    simpa [Prod.ext_iff] using hEntry
  exact AuditEvent.ext hID hType hActorType (omitted_inj hStr hActor) (omitted_inj hStr hResourceType)
    (omitted_inj hStr hResource) hOutcome (Metadata.ext (omitted_inj hObj hMetadata))
    (Time.rfc3339Nano_inj hYear hOther hTime) (omitted_inj hStr hPrevious) hHash

theorem eq_of_hashedText {e d : AuditEvent} (hYear : e.createdAt.FourDigitYear)
    (hTexts : e.hashedText = d.hashedText) (hHash : e.eventHash = d.eventHash) : e = d := by
  have hWritten : ∀ a : AuditEvent, a.createdAt.FourDigitYear →
      a.hashedText = marshal ({ a with eventHash := "" } : AuditEvent).toValue := by
    intro a ha
    rw [hashedText, message, if_pos ⟨ha.1, Int.lt_add_one_iff.mp ha.2⟩]
  have hOther : d.createdAt.FourDigitYear := by
    by_contra hNot
    rw [hWritten e hYear, hashedText, message, if_neg fun h => hNot ⟨h.1, Int.lt_add_one_iff.mpr h.2⟩] at hTexts
    exact marshal_obj_ne_nil _ hTexts
  rw [hWritten e hYear, hWritten d hOther] at hTexts
  have hSame := toValue_inj (marshal_inj (toValue_delimited _) (toValue_delimited _) hTexts) hYear hOther
  calc e = { ({ e with eventHash := "" } : AuditEvent) with eventHash := e.eventHash } := rfl
    _ = d := by rw [hSame, hHash]

end AuditEvent

variable {h : Hashes} {prev : String}

theorem chainAuditEvent_self {e : AuditEvent} (hPrevious : e.previousHash = prev)
    (hHash : (chainAuditEvent h e prev).eventHash = e.eventHash) : chainAuditEvent h e prev = e := by
  obtain ⟨⟩ := e
  subst hPrevious
  simp only [chainAuditEvent, AuditEvent.mk.injEq, true_and] at hHash ⊢
  exact hHash

@[simp] theorem chainAuditEvent_previous (e : AuditEvent) : (chainAuditEvent h e prev).previousHash = prev := rfl

@[simp] theorem chainAuditEvent_again (e : AuditEvent) :
    chainAuditEvent h (chainAuditEvent h e prev) prev = chainAuditEvent h e prev := rfl

theorem verifyFrom_ok_iff {i : Nat} {events : List AuditEvent} :
    verifyFrom h prev i events = .ok () ↔ ∃ originals, events = chainFrom h prev originals := by
  induction events generalizing prev i with
  | nil => exact ⟨fun _ => ⟨[], rfl⟩, fun _ => rfl⟩
  | cons e rest ih =>
    rw [verifyFrom]
    constructor
    · intro hOk
      split_ifs at hOk with hPrevious hHash
      obtain ⟨originals, hRest⟩ := ih.mp hOk
      have hSelf := chainAuditEvent_self (not_not.mp hPrevious) (not_not.mp hHash)
      refine ⟨e :: originals, ?_⟩
      rw [chainFrom, hSelf, ← hRest]
    · rintro ⟨originals, hChain⟩
      cases originals with
      | nil => cases hChain
      | cons o others =>
        obtain ⟨rfl, rfl⟩ := List.cons.inj hChain
        simp only [chainAuditEvent_previous, chainAuditEvent_again, ne_eq, not_true_eq_false, if_false]
        exact ih.mpr ⟨others, rfl⟩

theorem chainFrom_snoc (originals : List AuditEvent) (e : AuditEvent) :
    chainFrom h prev (originals ++ [e]) =
      chainFrom h prev originals ++ [chainAuditEvent h e (endHash prev (chainFrom h prev originals))] := by
  induction originals generalizing prev with
  | nil => rfl
  | cons o rest ih => simp only [cons_append, chainFrom, ih, endHash]

theorem endHash_snoc (events : List AuditEvent) (e : AuditEvent) : endHash prev (events ++ [e]) = e.eventHash := by
  induction events generalizing prev with
  | nil => rfl
  | cons first rest ih => exact ih

theorem chained_snoc_iff {events : List AuditEvent} {e : AuditEvent} :
    Chained h (events ++ [e]) ↔ Chained h events ∧ e.Fits h (endHash zeroHash events) := by
  constructor
  · rintro ⟨originals, hChain⟩
    induction originals using List.reverseRecOn with
    | nil => simp [chainFrom] at hChain
    | append_singleton originals o _ =>
      rw [chainFrom_snoc] at hChain
      obtain ⟨rfl, hLast⟩ := append_inj' hChain rfl
      obtain rfl := (cons.inj hLast).1
      exact ⟨⟨originals, rfl⟩, rfl, rfl⟩
  · rintro ⟨⟨originals, rfl⟩, hFits⟩
    refine ⟨originals ++ [e], ?_⟩
    rw [chainFrom_snoc, chainAuditEvent_self hFits.previous (by rw [hFits.hash, ← hFits.previous]; rfl)]

theorem chained_iff {events : List AuditEvent} : Chained h events ↔ ¬ Broken h events := by
  induction events using List.reverseRecOn with
  | nil => exact ⟨fun _ ⟨before, e, after, hSplit, _⟩ => by simp at hSplit, fun _ => ⟨[], rfl⟩⟩
  | append_singleton events e ih =>
    rw [chained_snoc_iff, ih]
    constructor
    · rintro ⟨hNot, hFits⟩ ⟨before, d, after, hSplit, hBad⟩
      induction after using List.reverseRecOn with
      | nil =>
        obtain ⟨rfl, hLast⟩ := append_inj' hSplit rfl
        exact hBad ((cons.inj hLast).1 ▸ hFits)
      | append_singleton after last _ =>
        rw [← cons_append, ← append_assoc] at hSplit
        exact hNot ⟨before, d, after, (append_inj' hSplit rfl).1, hBad⟩
    · intro hNot
      refine ⟨fun ⟨before, d, after, hSplit, hBad⟩ => hNot ⟨before, d, after ++ [e], by simp [hSplit], hBad⟩, ?_⟩
      by_contra hBad
      exact hNot ⟨events, e, [], rfl, hBad⟩

/-- A chain is determined by its last hash: from the end backwards, equal hashes are of equal
texts, and an event's text has all of its fields, the hash before it among them. -/
theorem chain_determined {events placed : List AuditEvent} (hYears : ∀ e ∈ events, e.createdAt.FourDigitYear)
    (hInj : Set.InjOn h.sha256 (hashed (events ++ placed)))
    (hZero : ∀ message ∈ hashed (events ++ placed), (h.sha256 message).hex ≠ zeroHash)
    (hEvents : Chained h events) (hPlaced : Chained h placed)
    (hEnd : endHash zeroHash events = endHash zeroHash placed) : events = placed := by
  induction events using List.reverseRecOn generalizing placed with
  | nil =>
    induction placed using List.reverseRecOn with
    | nil => rfl
    | append_singleton placed e _ =>
      rw [endHash_snoc, (chained_snoc_iff.mp hPlaced).2.hash] at hEnd
      exact absurd hEnd.symm (hZero _ ⟨e, by simp, rfl⟩)
  | append_singleton events e ih =>
    obtain ⟨hBefore, hFits⟩ := chained_snoc_iff.mp hEvents
    induction placed using List.reverseRecOn with
    | nil =>
      rw [endHash_snoc, hFits.hash] at hEnd
      exact absurd hEnd (hZero _ ⟨e, by simp, rfl⟩)
    | append_singleton placed d _ =>
      obtain ⟨hPlacedBefore, hPlacedFits⟩ := chained_snoc_iff.mp hPlaced
      rw [endHash_snoc, endHash_snoc] at hEnd
      have hTexts : e.hashedText = d.hashedText := by
        apply hInj ⟨e, by simp, rfl⟩ ⟨d, by simp, rfl⟩
        apply Digest.hex_injective
        rw [← hFits.hash, ← hPlacedFits.hash, hEnd]
      obtain rfl : e = d := AuditEvent.eq_of_hashedText (hYears e (by simp)) hTexts hEnd
      have hSubset : hashed (events ++ placed) ⊆ hashed (events ++ [e] ++ (placed ++ [e])) := by
        rintro _ ⟨d, hd, rfl⟩
        exact ⟨d, by simp only [mem_append] at hd ⊢; tauto, rfl⟩
      rw [ih (fun d hd => hYears d (by simp [hd])) (hInj.mono hSubset) (fun m hm => hZero m (hSubset hm)) hBefore
        hPlacedBefore (by rw [← hFits.previous, ← hPlacedFits.previous])]

namespace Service

theorem run_chained (records : List Record) :
    (run h records).events = chainFrom h zeroHash (records.map (·.event)) ∧
      (run h records).lastHash = endHash zeroHash (run h records).events := by
  induction records using List.reverseRecOn with
  | nil => exact ⟨rfl, rfl⟩
  | append_singleton records r ih =>
    have hRun : run h (records ++ [r]) = (run h records).record h r := by simp [run]
    rw [hRun, record, ih.2, ih.1, map_append, map_singleton, chainFrom_snoc]
    exact ⟨rfl, (endHash_snoc _ _).symm⟩

theorem recorded_time (records : List Record) {e : AuditEvent} (he : e ∈ (run h records).events) :
    ∃ r ∈ records, e.createdAt = r.now := by
  induction records using List.reverseRecOn with
  | nil => simp [run, new] at he
  | append_singleton records r ih =>
    have hRun : run h (records ++ [r]) = (run h records).record h r := by simp [run]
    rw [hRun, record, mem_append, mem_singleton] at he
    rcases he with he | rfl
    · obtain ⟨r', hr', hTime⟩ := ih he
      exact ⟨r', mem_append_left _ hr', hTime⟩
    · exact ⟨r, by simp, rfl⟩

theorem verifyIntegrity_ok_iff {s : Service} :
    s.verifyIntegrity h = .ok () ↔ Chained h s.events := by
  unfold verifyIntegrity
  split_ifs with hEmpty
  · exact ⟨fun _ => ⟨[], eq_nil_of_length_eq_zero hEmpty⟩, fun _ => rfl⟩
  · exact verifyFrom_ok_iff

/-- A recorded log is accepted, and another list put in its place is reported exactly if it ends
with the remembered hash or has a hash that does not fit. -/
theorem tampering_reported_iff (records : List Record) (placed : List AuditEvent)
    (hYears : ∀ r ∈ records, r.now.FourDigitYear)
    (hInj : Set.InjOn h.sha256 (hashed ((run h records).events ++ placed)))
    (hZero : ∀ message ∈ hashed ((run h records).events ++ placed), (h.sha256 message).hex ≠ zeroHash) :
    (run h records).verifyIntegrity h = .ok () ∧ (placed ≠ (run h records).events →
      (({ run h records with events := placed } : Service).verifyIntegrity h ≠ .ok () ↔
        endHash zeroHash placed = (run h records).lastHash ∨ Broken h placed)) := by
  obtain ⟨hChained, hLast⟩ := run_chained (h := h) records
  refine ⟨verifyIntegrity_ok_iff.mpr ⟨_, hChained⟩, fun hNe => ?_⟩
  rw [ne_eq, verifyIntegrity_ok_iff, chained_iff, not_not]
  refine ⟨.inr, fun hEither => hEither.elim (fun hEnd => ?_) id⟩
  by_contra hNot
  refine hNe (chain_determined (fun e he => ?_) hInj hZero ⟨_, hChained⟩ (chained_iff.mpr hNot)
    (hLast ▸ hEnd.symm)).symm
  obtain ⟨r, hr, hTime⟩ := recorded_time records he
  exact hTime ▸ hYears r hr

end Service

namespace Sample

def login : Record := ⟨"auth.login", "user", "u1", "", "", "success", ⟨[], .nil⟩, 1⟩

def deletion : Record := ⟨"backup.delete", "user", "u1", "", "", "success", ⟨[], .nil⟩, 2⟩

/-- The last event can be cut off. -/
theorem cut_unnoticed :
    [chainAuditEvent .leading login.event zeroHash] ≠ (Service.run .leading [login, deletion]).events ∧
      ({ Service.run .leading [login, deletion] with
        events := [chainAuditEvent .leading login.event zeroHash] } : Service).verifyIntegrity
          .leading = .ok () := by
  refine ⟨fun hSame => ?_, Service.verifyIntegrity_ok_iff.mpr ⟨[login.event], rfl⟩⟩
  have hLength := congrArg List.length hSame
  simp [Service.run, Service.record, Service.new] at hLength

def renamed : AuditEvent := { chainAuditEvent .leading login.event zeroHash with id := "audit-9" }

def altered : List AuditEvent := [renamed, ((Service.run .leading [login, deletion]).events.getLast (by decide))]

theorem altered_reported :
    ({ Service.run .leading [login, deletion] with events := altered } : Service).verifyIntegrity .leading ≠ .ok () := by
  have hTexts : ∀ e ∈ (Service.run .leading [login, deletion]).events ++ altered,
      (Digest.leading e.hashedText).hex ≠ zeroHash ∧
        ∀ d ∈ (Service.run .leading [login, deletion]).events ++ altered,
          (Digest.leading e.hashedText).bytes = (Digest.leading d.hashedText).bytes → e.hashedText = d.hashedText := by
    decide +kernel
  refine ((Service.tampering_reported_iff (h := .leading) [login, deletion] altered ?_ ?_ ?_).2 ?_).mpr (.inl rfl)
  · simp [login, deletion, Time.FourDigitYear]
    decide
  · rintro _ ⟨e, he, rfl⟩ _ ⟨d, hd, rfl⟩ hSame
    exact (hTexts e he).2 d hd (congrArg Digest.bytes hSame)
  · rintro _ ⟨e, he, rfl⟩
    exact (hTexts e he).1
  · intro hSame
    have hID := congrArg (fun events => events.map (·.id)) hSame
    revert hID
    decide +kernel

end Sample

end DBVault.Audit
