import DBVault.Ports.History

/-! The object store on a file system. `os.Stat` finds directories too, so that one which `Put` has
made for the sake of another key passes for an object, and below a file no directory can be made.
As long as no key leads below another one, none of this shows. -/
namespace DBVault
open List Interaction

/-- The world, with the addresses for which `Put` has made the directories. -/
structure Disk extends World where
  made : List Address := []

/-- The first address lies below the second, which is a directory then. -/
def below (a b : Address) : Bool := (b ++ ['/']).isPrefixOf a

inductive Obstacle where
  | file
  | directory

namespace Disk
variable (P : Ports) (d : Disk)

/-- What a call finds in the place of an object: a file above it, or a directory. -/
def obstacle (key : String) : Option Obstacle :=
  match P.backend, P.backend.locate key with
  | .filesystem, .ok a =>
    if d.objects.entries.any fun entry => below a entry.1 then some .file
    else if d.made.any fun other => below other a then some .directory
    else none
  | _, _ => none

/-- `MkdirAll` comes first, and may have been done by a `Put` that fails. -/
def mkdirs (key : String) (c : Choice) : List Address :=
  match P.backend.locate key, c.fault with
  | .error _, _ => d.made
  | .ok a, .refuse _ => if c.pick = 0 then d.made else a :: d.made
  | .ok a, _ => a :: d.made

def perform : (op : Op) → Choice → Answer op × Disk
  | .put req, c =>
    match d.obstacle P req.key with
    | some .file => (.error (.other "not a directory"), d)
    | some .directory =>
      (reading c (if req.ifNotExists then .ok ⟨req.key, c.pick⟩ else .error (.other "file exists")), d)
    | none =>
      let done := DBVault.perform P d.toWorld (.put req) c
      (done.1, ⟨done.2, d.mkdirs P req.key c⟩)
  | .head key, c =>
    match d.obstacle P key with
    | some .file => (.error (.other "not a directory"), d)
    | some .directory => (reading c (.ok ⟨key, c.pick⟩), d)
    | none => (DBVault.perform P d.toWorld (.head key) c).map id fun w => { d with toWorld := w }
  | op, c => (DBVault.perform P d.toWorld op c).map id fun w => { d with toWorld := w }

end Disk

/-- The environment of programs whose object store is on a file system, if that is the backend. -/
abbrev onDisk (P : Ports) : Environment Answer Disk Choice := ⟨Disk.perform P, fun d => admissible d.toWorld⟩

instance (P : Ports) (d : Disk) (op : Op) (c : Choice) : Decidable ((onDisk P).admissible d op c) :=
  inferInstanceAs (Decidable (admissible d.toWorld op c))

/-- The key under which a call looks for an object or puts one. -/
def Op.key? : Op → Option String
  | .put req => some req.key
  | .head key => some key
  | _ => none

def addresses (P : Ports) (history : History) : List Address :=
  history.filterMap fun e => e.call.op.key?.bind fun key => (P.backend.locate key).toOption

/-- On the file system, no address of the run lies below another one. -/
def Apart (P : Ports) (history : History) : Prop :=
  P.backend = .filesystem → ∀ a ∈ addresses P history, ∀ b ∈ addresses P history, below a b = false

section
variable {P : Ports} {history : History} {e : Event Answer Choice}

theorem mem_addresses {a : Address} : a ∈ addresses P history ↔
    ∃ e ∈ history, ∃ key, e.call.op.key? = some key ∧ P.backend.locate key = .ok a := by
  have hOption : ∀ x : Result Address, x.toOption = some a ↔ x = .ok a := by
    intro x
    cases x <;> simp [Except.toOption]
  simp only [addresses, mem_filterMap, Option.bind_eq_some_iff, hOption]

theorem addresses_subset : addresses P history ⊆ addresses P (e :: history) :=
  filterMap_subset _ (subset_cons_self _ _)

theorem Apart.of_cons (h : Apart P (e :: history)) : Apart P history :=
  fun hBackend a ha b hb => h hBackend a (addresses_subset ha) b (addresses_subset hb)

namespace Disk
variable {d : Disk}

/-- What the disk has was put there by calls of the run. -/
structure Traced (P : Ports) (history : History) (d : Disk) : Prop where
  objects : ∀ a bytes, d.objects.find a = some bytes → a ∈ addresses P history
  made : ∀ a ∈ d.made, a ∈ addresses P history

theorem Traced.obstacle (h : Traced P history d) (hApart : Apart P (e :: history)) {key : String}
    (hKey : e.call.op.key? = some key) : d.obstacle P key = none := by
  unfold Disk.obstacle
  split
  · rename_i a hBackend hLocate
    have hUsed : a ∈ addresses P (e :: history) := mem_addresses.mpr ⟨e, mem_cons_self, key, hKey, hBackend ▸ hLocate⟩
    have hFile : (d.objects.entries.any fun entry => below a entry.1) = false := by
      rw [any_eq_false]
      intro entry hIn
      have hFound := h.objects entry.1 entry.2 (Objects.find_eq_some_iff.mpr hIn)
      simp [hApart hBackend _ hUsed _ (addresses_subset hFound)]
    have hDirectory : (d.made.any fun other => below other a) = false := by
      rw [any_eq_false]
      intro other hIn
      simp [hApart hBackend _ (addresses_subset (h.made other hIn)) _ hUsed]
    simp [hFile, hDirectory]
  · rfl

/-- Where nothing is in the way, a call does on the disk what it does in the world. -/
theorem perform_eq {op : Op} (hFree : ∀ key, op.key? = some key → d.obstacle P key = none) (c : Choice) :
    (d.perform P op c).1 = (DBVault.perform P d.toWorld op c).1 ∧
      (d.perform P op c).2.toWorld = (DBVault.perform P d.toWorld op c).2 := by
  cases op with
  | put req =>
    have hNone := hFree req.key rfl
    constructor <;> simp [perform, hNone]
  | head key =>
    have hNone := hFree key rfl
    constructor <;> simp [perform, hNone]
  | _ => exact ⟨rfl, rfl⟩

theorem mem_mkdirs {key : String} {c : Choice} {a : Address} (hIn : a ∈ d.mkdirs P key c) :
    a ∈ d.made ∨ P.backend.locate key = .ok a := by
  unfold mkdirs at hIn
  split at hIn
  · exact .inl hIn
  · rename_i hLocate _
    split at hIn
    · exact .inl hIn
    · rcases mem_cons.mp hIn with rfl | hIn
      · exact .inr hLocate
      · exact .inl hIn
  · rename_i hLocate _
    rcases mem_cons.mp hIn with rfl | hIn
    · exact .inr hLocate
    · exact .inl hIn

theorem made_perform {op : Op} {c : Choice} {a : Address} (hIn : a ∈ (d.perform P op c).2.made) :
    a ∈ d.made ∨ ∃ key, op.key? = some key ∧ P.backend.locate key = .ok a := by
  cases op with
  | put req =>
    simp only [perform] at hIn
    split at hIn
    · exact .inl hIn
    · exact .inl hIn
    · exact (mem_mkdirs hIn).imp_right fun hLocate => ⟨req.key, rfl, hLocate⟩
  | head key =>
    simp only [perform] at hIn
    split at hIn <;> exact .inl hIn
  | _ => exact .inl hIn

theorem obstacle_located {key : String} {found : Obstacle} (h : d.obstacle P key = some found) :
    ∃ a, P.backend.locate key = .ok a := by
  unfold Disk.obstacle at h
  split at h
  · rename_i a hBackend hLocate
    exact ⟨a, hBackend ▸ hLocate⟩
  · cases h

/-- A call meets an obstacle and changes nothing, or does what it does in the world. -/
theorem perform_cases (P : Ports) (d : Disk) (op : Op) (c : Choice) :
    (d.perform P op c).2 = d ∧ legal P op (d.perform P op c).1 ∨
      (d.perform P op c).1 = (DBVault.perform P d.toWorld op c).1 ∧
        (d.perform P op c).2.toWorld = (DBVault.perform P d.toWorld op c).2 := by
  by_cases hFree : ∀ key, op.key? = some key → d.obstacle P key = none
  · exact .inr (perform_eq hFree c)
  · push Not at hFree
    obtain ⟨key, hKey, hMet⟩ := hFree
    obtain ⟨found, hFound⟩ := Option.ne_none_iff_exists'.mp hMet
    have hLocated := obstacle_located hFound
    left
    cases op with
    | put req => cases hKey; cases found <;> simp [perform, hFound, legal, hLocated]
    | head key => cases hKey; cases found <;> simp [perform, hFound, legal, hLocated]
    | _ => cases hKey

theorem legal_perform (P : Ports) (d : Disk) (op : Op) (c : Choice) : legal P op (d.perform P op c).1 := by
  rcases perform_cases P d op c with ⟨-, hLegal⟩ | ⟨hSame, -⟩
  · exact hLegal
  · exact hSame ▸ DBVault.legal_perform P d.toWorld op c

theorem objects_put {α : Type} {start st : System Answer Disk α} (run : Execution (onDisk P) start history st)
    (hStart : start.world.objects = .empty) : ∀ a bytes, st.world.objects.find a = some bytes →
      ∃ e ∈ history, ∃ req, e.call.op = .put req ∧ P.backend.locate req.key = .ok a ∧ req.body = bytes := by
  apply run.invariant fun history d => ∀ a bytes, d.objects.find a = some bytes →
    ∃ e ∈ history, ∃ req, e.call.op = .put req ∧ P.backend.locate req.key = .ok a ∧ req.body = bytes
  · intro a bytes h
    rw [hStart] at h
    cases h
  · intro history d t op c ih _ a bytes hFind
    have hFound : d.objects.find a = some bytes ∨
        ∃ req, op = .put req ∧ P.backend.locate req.key = .ok a ∧ req.body = bytes := by
      rcases perform_cases P d op c with ⟨hSame, -⟩ | ⟨-, hSame⟩
      · exact .inl (hSame ▸ hFind)
      · exact (perform_step P d.toWorld op c).find (hSame ▸ hFind)
    rcases hFound with hOld | hPut
    · obtain ⟨e, hMem, hPut⟩ := ih a bytes hOld
      exact ⟨e, .tail _ hMem, hPut⟩
    · exact ⟨_, .head _, hPut⟩

/-- A run on the disk in which no key leads below another is one in the world. -/
theorem run_in_world {α : Type} {w : World} {threads : Nat → Program Answer α} {st : System Answer Disk α}
    (hEmpty : w.objects = .empty) (run : Execution (onDisk P) ⟨⟨w, []⟩, threads⟩ history st)
    (hApart : Apart P history) :
    Execution (environment P) ⟨w, threads⟩ history ⟨st.world.toWorld, st.threads⟩ ∧
      ∀ a ∈ st.world.made, a ∈ addresses P history := by
  induction run with
  | start => exact ⟨.start, fun _ h => nomatch h⟩
  | @step history s thread op next choice prior hThread hChoice ih =>
    obtain ⟨hRun, hMade⟩ := ih hApart.of_cons
    have hTraced : Traced P history s.world := by
      refine ⟨fun a bytes hFind => ?_, hMade⟩
      obtain ⟨e, hIn, req, hPut, hLocate, -⟩ := objects_put prior hEmpty a bytes hFind
      exact mem_addresses.mpr ⟨e, hIn, req.key, by rw [hPut]; rfl, hLocate⟩
    obtain ⟨hAnswer, hWorld⟩ := perform_eq (c := choice) fun key hKey =>
      hTraced.obstacle (e := ⟨thread, choice, ⟨op, (s.world.perform P op choice).1⟩⟩) hApart hKey
    constructor
    · have hStep := hRun.step choice hThread hChoice
      simpa only [← hAnswer, ← hWorld] using hStep
    · intro a hIn
      rcases made_perform hIn with hOld | ⟨key, hKey, hLocate⟩
      · exact addresses_subset (hMade a hOld)
      · exact mem_addresses.mpr ⟨_, mem_cons_self, key, hKey, hLocate⟩

end Disk

end

end DBVault
