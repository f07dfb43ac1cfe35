import DBVault.Text.Encoding
import Mathlib.Data.List.Induction

/-! Calls of the filesystem store's `Put` for one key at the same time. A call writes
through a handle on the file it has opened at the temporary path, and goes on doing so
when that file is truncated or moved by another call. -/
namespace DBVault.Filesystem
open Function Text

/-- What `Put` is given for the key. The pieces are what the reads of the body return:
`io.Copy` makes one write of each and writes nothing for an empty one. -/
structure PutRequest where
  pieces : List Bytes
  ifNotExists : Bool
  nonempty : ∀ piece ∈ pieces, piece ≠ []

def PutRequest.body (request : PutRequest) : Bytes := request.pieces.flatten

theorem PutRequest.body_ne_nil (request : PutRequest) (hPieces : request.pieces ≠ []) : request.body ≠ [] := by
  obtain ⟨piece, rest, hPieces⟩ := List.exists_cons_of_ne_nil hPieces
  have hPiece : piece ≠ [] := request.nonempty piece (by simp [hPieces])
  simp [body, hPieces, hPiece]

def writeAt (content : Bytes) (offset : Nat) (piece : Bytes) : Bytes :=
  content.take offset ++ List.replicate (offset - content.length) 0 ++ piece ++
    content.drop (offset + piece.length)

/-- What `Put` returns: the size of what it has copied, the object that was there, or
the error of its `Rename`. -/
inductive PutResult where
  | stored (size : Nat)
  | existing (size : Nat)
  | failed
  deriving DecidableEq

inductive Put where
  | waiting
  | opening
  | copying (file offset : Nat) (rest : List Bytes)
  | ending (result : PutResult)
  | returned (result : PutResult)
  deriving DecidableEq

/-- A `Get` and the reads from the file it has opened. -/
structure Get where
  file : Nat
  /-- A `Put` had returned when it was started. -/
  late : Bool
  data : Bytes
  done : Bool
  deriving DecidableEq

/-- A read of at most so many bytes behind those read before; one that returns none has
met the end of the file. -/
def Get.readFrom (get : Get) (content : Bytes) (size : Nat) : Get :=
  if get.done then get
  else
    let more := (content.drop get.data.length).take size
    { get with data := get.data ++ more, done := size ≠ 0 && more.isEmpty }

/-- What was read is part of the content, and all of it once the end was met. -/
structure Get.Reads (get : Get) (content : Bytes) : Prop where
  data : get.data <+: content
  done : get.done → get.data = content

/-- The files with the entries of the directory for the key and for its temporary path,
and where the calls stand. -/
structure State (Call : Type) where
  files : Nat → Bytes
  count : Nat
  (object temporary : Option Nat)
  puts : Call → Put
  returned : Bool
  gets : Nat → Option Get

inductive Action (Call : Type) where
  | put (call : Call)
  | get (reader : Nat)
  | read (reader size : Nat)

theorem writeAt_nil (piece : Bytes) : writeAt [] 0 piece = piece := by simp [writeAt]

theorem writeAt_self (content : Bytes) : writeAt content 0 content = content := by simp [writeAt]

theorem writeAt_end (content piece : Bytes) : writeAt content content.length piece = content ++ piece := by
  simp [writeAt]

namespace Get

@[simp]
theorem readFrom_file (get : Get) (content : Bytes) (size : Nat) :
    (get.readFrom content size).file = get.file := by
  unfold readFrom
  split <;> rfl

variable {get : Get}

theorem Reads.readFrom {content : Bytes} (reads : get.Reads content) (size : Nat) :
    (get.readFrom content size).Reads content := by
  unfold Get.readFrom
  split
  · exact reads
  · obtain ⟨rest, hRest⟩ := reads.data
    have hDrop : content.drop get.data.length = rest := by simp [← hRest]
    rw [hDrop]
    refine ⟨⟨rest.drop size, by simp [hRest]⟩, ?_⟩
    intro hDone
    have hEnd : size ≠ 0 ∧ (size = 0 ∨ rest = []) := by simpa using hDone
    have hEmpty : rest = [] := hEnd.2.resolve_left hEnd.1
    simpa [hEmpty] using hRest

theorem Reads.of_nil (reads : get.Reads []) (hMore : ¬ get.done) (content : Bytes) : get.Reads content :=
  ⟨by simp [List.prefix_nil.mp reads.data], fun hDone => absurd hDone hMore⟩

end Get

namespace State
variable {Call : Type} [DecidableEq Call]

def start : State Call where
  files _ := []
  count := 0
  object := none
  temporary := none
  puts _ := .waiting
  returned := false
  gets _ := none

def setPut (state : State Call) (call : Call) (put : Put) : State Call :=
  { state with puts := Function.update state.puts call put }

def setGet (state : State Call) (reader : Nat) (get : Get) : State Call :=
  { state with gets := Function.update state.gets reader (some get) }

/-- `os.Stat`, for a `Put` that is not to replace an object. -/
def stat (request : PutRequest) (state : State Call) (call : Call) : State Call :=
  match request.ifNotExists, state.object with
  | true, some file => state.setPut call (.ending (.existing (state.files file).length))
  | _, _ => state.setPut call .opening

/-- `os.OpenFile` of the temporary path, which creates the file or truncates the one
that is there. -/
def openFile (request : PutRequest) (state : State Call) (call : Call) : State Call :=
  match state.temporary with
  | some file =>
    { state with files := Function.update state.files file [] }.setPut call (.copying file 0 request.pieces)
  | none =>
    { state with
      files := Function.update state.files state.count []
      count := state.count + 1
      temporary := some state.count }.setPut call (.copying state.count 0 request.pieces)

def write (state : State Call) (call : Call) (file offset : Nat) (piece : Bytes)
    (rest : List Bytes) : State Call :=
  { state with
    files := Function.update state.files file (writeAt (state.files file) offset piece) }.setPut call
      (.copying file (offset + piece.length) rest)

/-- `os.Rename` of whatever is at the temporary path. -/
def rename (state : State Call) (call : Call) (size : Nat) : State Call :=
  match state.temporary with
  | some file => { state with object := some file, temporary := none }.setPut call (.ending (.stored size))
  | none => state.setPut call (.ending .failed)

/-- The next step of a `Put`. -/
def putStep (request : PutRequest) (state : State Call) (call : Call) : State Call :=
  match state.puts call with
  | .waiting => state.stat request call
  | .opening => state.openFile request call
  | .copying file offset (piece :: rest) => state.write call file offset piece rest
  | .copying _ offset [] => state.rename call offset
  | .ending result => { state with returned := true }.setPut call (.returned result)
  | .returned _ => state

/-- `Get` opens the object, if there is one. -/
def getStep (state : State Call) (reader : Nat) : State Call :=
  match state.gets reader, state.object with
  | none, some file => state.setGet reader { file := file, late := state.returned, data := [], done := false }
  | _, _ => state

def readStep (state : State Call) (reader size : Nat) : State Call :=
  match state.gets reader with
  | some get => state.setGet reader (get.readFrom (state.files get.file) size)
  | none => state

def step (requests : Call → PutRequest) (state : State Call) : Action Call → State Call
  | .put call => state.putStep (requests call) call
  | .get reader => state.getStep reader
  | .read reader size => state.readStep reader size

def run (requests : Call → PutRequest) (schedule : List (Action Call)) : State Call :=
  schedule.foldl (step requests) start

def Started (state : State Call) (call : Call) : Prop := state.puts call ≠ .waiting

def Returned (state : State Call) (call : Call) : Prop := ∃ result, state.puts call = .returned result

/-- Once the calls that were started have returned, the object is the body of one of
them, and a `Get` that was started after one of them had returned never reads anything
but such a body. -/
structure Intact (requests : Call → PutRequest) (state : State Call) : Prop where
  object : (∃ call, state.Started call) → (∀ call, state.Started call → state.Returned call) →
    ∃ file call, state.object = some file ∧ state.Started call ∧ state.files file = (requests call).body
  gets : ∀ reader get, state.gets reader = some get → get.late →
    ∃ call, state.Started call ∧ get.Reads (requests call).body

variable {requests : Call → PutRequest} {state : State Call}

/-- The entries of the directory name files that exist, the temporary path none that
is the object or was opened by a `Get`, and a `Put` past its `Rename` leaves an object. -/
structure Linked (state : State Call) : Prop where
  temporary : ∀ file, state.temporary = some file → file < state.count
  object : ∀ file, state.object = some file → file < state.count ∧ state.temporary ≠ some file
  gets : ∀ reader get, state.gets reader = some get → get.file < state.count ∧ state.temporary ≠ some get.file
  copying : ∀ call file offset rest, state.puts call = .copying file offset rest →
    state.temporary.isSome ∨ state.object.isSome
  ending : ∀ call result, state.puts call = .ending result → state.object.isSome
  returned : ∀ call result, state.puts call = .returned result → state.object.isSome

omit [DecidableEq Call] in
theorem linked_start : (start : State Call).Linked := by constructor <;> simp [start]

variable (requests)

theorem Linked.step (linked : state.Linked) (action : Action Call) :
    (state.step requests action).Linked := by
  obtain ⟨hTemporary, hObject, hGets, hCopying, hEnding, hReturned⟩ := linked
  cases action with
  | put call =>
    simp only [State.step, putStep]
    split
    · unfold stat
      split <;> constructor <;> dsimp only [setPut] <;> grind [update_apply]
    · unfold openFile
      split <;> constructor <;> dsimp only [setPut] <;> grind [update_apply]
    · constructor <;> dsimp only [setPut, write] <;> grind [update_apply]
    · unfold rename
      split <;> constructor <;> dsimp only [setPut] <;> grind [update_apply]
    · constructor <;> dsimp only [setPut] <;> grind [update_apply]
    · exact ⟨hTemporary, hObject, hGets, hCopying, hEnding, hReturned⟩
  | get reader =>
    simp only [State.step, getStep]
    split
    · constructor <;> dsimp only [setGet] <;> grind [update_apply]
    · exact ⟨hTemporary, hObject, hGets, hCopying, hEnding, hReturned⟩
  | read reader size =>
    simp only [State.step, readStep]
    split
    · constructor <;> dsimp only [setGet] <;> grind [update_apply, Get.readFrom_file]
    · exact ⟨hTemporary, hObject, hGets, hCopying, hEnding, hReturned⟩

theorem linked_run (schedule : List (Action Call)) :
    (run requests schedule).Linked := by
  induction schedule using List.reverseRecOn with
  | nil => exact linked_start
  | append_singleton schedule action ih =>
    rw [run, List.foldl_append]
    exact ih.step requests action

theorem puts_step (state : State Call) (action : Action Call)
    (hOther : action ≠ .put call) : (state.step requests action).puts call = state.puts call := by
  cases action with
  | put other =>
    have hCall : call ≠ other := fun hSame => hOther (hSame ▸ rfl)
    simp only [step, putStep]
    split
    · unfold stat
      split <;> simp [setPut, hCall]
    · unfold openFile
      split <;> simp [setPut, hCall]
    · simp [write, setPut, hCall]
    · unfold rename
      split <;> simp [setPut, hCall]
    · simp [setPut, hCall]
    · rfl
  | get reader =>
    simp only [step, getStep]
    split <;> rfl
  | read reader size =>
    simp only [step, readStep]
    split <;> rfl

theorem started_put (state : State Call) (call : Call) :
    (state.step requests (.put call)).Started call := by
  simp only [Started, step, putStep]
  split
  · unfold stat
    split <;> simp [setPut]
  · unfold openFile
    split <;> simp [setPut]
  · simp [write, setPut]
  · unfold rename
    split <;> simp [setPut]
  · simp [setPut]
  · next hPut => simp [hPut]

theorem started_step (action : Action Call)
    (hStarted : state.Started call) : (state.step requests action).Started call := by
  by_cases hAction : action = .put call
  · subst hAction
    exact started_put requests state call
  · rwa [Started, puts_step requests state action hAction]

variable {requests}

/-- The object has that content, and so has all that was read. -/
def Stored (content : Bytes) (state : State Call) : Prop :=
  ∃ file, state.object = some file ∧ state.files file = content ∧
    ∀ reader get, state.gets reader = some get → get.file = file ∧ get.Reads content

/-- The state that one call alone has led to. -/
def Solo (requests : Call → PutRequest) (only : Call) (state : State Call) : Prop :=
  match state.puts only with
  | .waiting | .opening => state.temporary = none ∧ state.object = none ∧ ∀ reader, state.gets reader = none
  | .copying file offset rest =>
    state.temporary = some file ∧ state.object = none ∧ (∀ reader, state.gets reader = none) ∧
      state.files file ++ rest.flatten = (requests only).body ∧
      offset = (state.files file).length
  | .ending _ | .returned _ => Stored (requests only).body state

omit [DecidableEq Call] in
theorem forall_setGet {p : Get → Prop} {reader : Nat} {get : Get} (hNew : p get)
    (hOld : ∀ other found, state.gets other = some found → p found) :
    ∀ other found, (state.setGet reader get).gets other = some found → p found := by
  intro other found hFound
  by_cases hSame : other = reader
  · subst hSame
    obtain rfl : get = found := by simpa [setGet] using hFound
    exact hNew
  · exact hOld other found (by simpa [setGet, hSame] using hFound)

variable {content : Bytes}

omit [DecidableEq Call] in
theorem Stored.getStep (stored : Stored content state) (reader : Nat) :
    Stored content (state.getStep reader) := by
  unfold State.getStep
  split
  · next file hNone hObject =>
    obtain ⟨object, hFile, hContent, hGets⟩ := stored
    refine ⟨object, hFile, hContent, forall_setGet ?_ hGets⟩
    exact ⟨Option.some.inj (hObject.symm.trans hFile), List.nil_prefix, nofun⟩
  · exact stored

omit [DecidableEq Call] in
theorem Stored.readStep (stored : Stored content state) (reader size : Nat) :
    Stored content (state.readStep reader size) := by
  unfold State.readStep
  split
  · next found hFound =>
    obtain ⟨object, hFile, hContent, hGets⟩ := stored
    obtain ⟨hObject, reads⟩ := hGets reader found hFound
    refine ⟨object, hFile, hContent, forall_setGet ?_ hGets⟩
    rw [hObject, hContent]
    exact ⟨by simp [hObject], reads.readFrom size⟩
  · exact stored

theorem Solo.step {only : Call} (solo : Solo requests only state) (action : Action Call)
    (hOnly : ∀ call, (state.step requests action).Started call → call = only) :
    Solo requests only (state.step requests action) := by
  cases action with
  | put call =>
    obtain rfl : call = only := hOnly call (started_put requests state call)
    unfold Solo at solo
    cases hPut : state.puts call with
    | waiting =>
      simp only [hPut] at solo
      simp [Solo, State.step, putStep, hPut, stat, solo, setPut]
    | opening =>
      simp only [hPut] at solo
      simp [Solo, State.step, putStep, hPut, openFile, solo, setPut, PutRequest.body]
    | copying file offset rest =>
      simp only [hPut] at solo
      obtain ⟨hTemporary, hObject, hGets, hBody, hOffset⟩ := solo
      cases rest with
      | nil =>
        have hFile : state.files file = (requests call).body := by simpa using hBody
        simp [Solo, State.step, putStep, hPut, rename, hTemporary, hGets, setPut, hFile, Stored]
      | cons piece rest =>
        simp [Solo, State.step, putStep, hPut, write, hTemporary, hObject, hGets, setPut, hOffset,
          writeAt_end, ← hBody]
    | ending result =>
      simp only [hPut] at solo
      simpa [Solo, State.step, putStep, hPut, setPut, Stored] using solo
    | returned result =>
      simp only [hPut] at solo
      simpa [Solo, State.step, putStep, hPut] using solo
  | get reader =>
    have hPuts : (state.getStep reader).puts = state.puts := by
      unfold getStep
      split <;> rfl
    unfold Solo at solo ⊢
    simp only [State.step, hPuts]
    split at solo
    · simp [getStep, solo]
    · simp [getStep, solo]
    · simp [getStep, solo]
    · exact Stored.getStep solo reader
    · exact Stored.getStep solo reader
  | read reader size =>
    have hPuts : (state.readStep reader size).puts = state.puts := by
      unfold readStep
      split <;> rfl
    unfold Solo at solo ⊢
    simp only [State.step, hPuts]
    split at solo
    · simp [readStep, solo]
    · simp [readStep, solo]
    · simp [readStep, solo]
    · exact Stored.readStep solo reader size
    · exact Stored.readStep solo reader size

theorem solo_run (requests : Call → PutRequest) (schedule : List (Action Call))
    (hOnly : ∀ call, (run requests schedule).Started call → call = only) :
    Solo requests only (run requests schedule) := by
  induction schedule using List.reverseRecOn with
  | nil => simp [run, Solo, start]
  | append_singleton schedule action ih =>
    rw [run, List.foldl_append] at hOnly ⊢
    exact (ih fun call hStarted => hOnly call (started_step requests action hStarted)).step action hOnly

/-- A file is empty or holds the one body that is written, and nothing else was read. -/
structure Light (requests : Call → PutRequest) (only : Call) (state : State Call) : Prop where
  files : ∀ file, state.files file = [] ∨ state.Started only ∧ state.files file = (requests only).body
  copying : ∀ call file offset rest, state.puts call = .copying file offset rest →
    rest = [] ∨ call = only ∧ offset = 0 ∧ rest = [(requests only).body]
  gets : ∀ reader get, state.gets reader = some get → get.Reads [] ∨
    state.Started only ∧ state.files get.file = (requests only).body ∧ get.Reads (requests only).body

omit [DecidableEq Call] in
theorem light_start (requests : Call → PutRequest) (only : Call) : Light requests only start := by
  constructor <;> simp [start]

section
variable {only : Call}

omit [DecidableEq Call] in
/-- A step that reads nothing: it may leave a file as it is, write the body, or truncate
a file that no `Get` has opened. -/
theorem Light.change {next : State Call} (light : Light requests only state)
    (hStarted : state.Started only → next.Started only) (hGets : next.gets = state.gets)
    (hFiles : ∀ file, next.files file = state.files file ∨
      next.Started only ∧ next.files file = (requests only).body ∨
      next.files file = [] ∧ ∀ reader get, state.gets reader = some get → get.file ≠ file)
    (hCopying : ∀ call file offset rest, next.puts call = .copying file offset rest →
      rest = [] ∨ call = only ∧ offset = 0 ∧ rest = [(requests only).body]) :
    Light requests only next where
  files file := by
    rcases hFiles file with hSame | hBody | ⟨hEmpty, -⟩
    · rw [hSame]
      exact (light.files file).imp_right (And.imp_left hStarted)
    · exact Or.inr hBody
    · exact Or.inl hEmpty
  copying := hCopying
  gets reader get hGet := by
    rw [hGets] at hGet
    refine (light.gets reader get hGet).imp_right ?_
    rintro ⟨hOnly, hContent, reads⟩
    refine ⟨hStarted hOnly, ?_, reads⟩
    rcases hFiles get.file with hSame | hBody | ⟨-, hNot⟩
    · rw [hSame, hContent]
    · exact hBody.2
    · exact absurd rfl (hNot reader get hGet)

theorem Light.putStep (light : Light requests only state) (linked : state.Linked)
    (hFew : ∀ call, (requests call).pieces = [] ∨ call = only ∧ (requests call).pieces = [(requests only).body])
    (call : Call) : Light requests only (state.putStep (requests call) call) := by
  have hStarted : state.Started only → (state.putStep (requests call) call).Started only :=
    started_step requests (.put call)
  have hCopying := light.copying
  unfold State.putStep at hStarted ⊢
  split at hStarted
  · unfold stat at hStarted ⊢
    split at hStarted <;> refine light.change hStarted rfl (fun _ => Or.inl rfl) ?_ <;>
      dsimp only [setPut] <;> grind [update_apply]
  · have hNew : (requests call).pieces = [] ∨ call = only ∧ 0 = 0 ∧
        (requests call).pieces = [(requests only).body] := by simpa using hFew call
    have hTruncate : ∀ file, (∀ reader get, state.gets reader = some get → get.file ≠ file) →
        ∀ other, Function.update state.files file [] other = state.files other ∨
          Function.update state.files file [] other = [] ∧
            ∀ reader get, state.gets reader = some get → get.file ≠ other := by
      intro file hUnread other
      by_cases hFile : other = file
      · subst hFile
        exact Or.inr ⟨by simp, hUnread⟩
      · exact Or.inl (by simp [hFile])
    unfold openFile at hStarted ⊢
    split at hStarted
    · rename_i file hTemporary
      refine light.change hStarted rfl (fun other => (hTruncate file ?_ other).imp_right Or.inr) ?_
      · intro reader get hGet hFile
        exact (linked.gets reader get hGet).2 (hFile ▸ hTemporary)
      · dsimp only [setPut]
        grind [update_apply]
    · refine light.change hStarted rfl (fun other => (hTruncate state.count ?_ other).imp_right Or.inr) ?_
      · intro reader get hGet
        exact (linked.gets reader get hGet).1.ne
      · dsimp only [setPut]
        grind [update_apply]
  · rename_i file offset piece rest hPut
    obtain ⟨rfl, rfl, hRest⟩ := (light.copying _ _ _ _ hPut).resolve_left (by simp)
    obtain ⟨rfl, rfl⟩ : piece = (requests call).body ∧ rest = [] := by simpa using hRest
    have hWritten : writeAt (state.files file) 0 (requests call).body = (requests call).body := by
      rcases light.files file with hEmpty | ⟨-, hBody⟩
      · rw [hEmpty, writeAt_nil]
      · rw [hBody, writeAt_self]
    refine light.change hStarted rfl ?_ ?_
    · intro other
      by_cases hFile : other = file
      · subst hFile
        refine Or.inr (Or.inl ⟨?_, ?_⟩)
        · simp [Started, write, setPut]
        · simp [write, setPut, hWritten]
      · exact Or.inl (by simp [write, setPut, hFile])
    · dsimp only [write, setPut]
      grind [update_apply]
  · unfold rename at hStarted ⊢
    split at hStarted <;> refine light.change hStarted rfl (fun _ => Or.inl rfl) ?_ <;>
      dsimp only [setPut] <;> grind [update_apply]
  · refine light.change hStarted rfl (fun _ => Or.inl rfl) ?_
    dsimp only [setPut]
    grind [update_apply]
  · exact light

omit [DecidableEq Call] in
theorem Light.getStep (light : Light requests only state) (reader : Nat) :
    Light requests only (state.getStep reader) := by
  unfold State.getStep
  split
  · refine ⟨light.files, light.copying, forall_setGet ?_ light.gets⟩
    exact Or.inl ⟨List.nil_prefix, nofun⟩
  · exact light

omit [DecidableEq Call] in
theorem Light.readStep (light : Light requests only state) (reader size : Nat) :
    Light requests only (state.readStep reader size) := by
  unfold State.readStep
  split
  · next found hFound =>
    refine ⟨light.files, light.copying, forall_setGet ?_ light.gets⟩
    rw [Get.readFrom_file]
    rcases light.gets reader found hFound with hNothing | ⟨hOnly, hContent, reads⟩
    · by_cases hDone : found.done
      · exact Or.inl (by simpa [Get.readFrom, hDone] using hNothing)
      · rcases light.files found.file with hEmpty | ⟨hOnly, hContent⟩
        · exact Or.inl (hEmpty ▸ hNothing.readFrom size)
        · exact Or.inr ⟨hOnly, hContent, hContent ▸ (hNothing.of_nil hDone (requests only).body).readFrom size⟩
    · exact Or.inr ⟨hOnly, hContent, hContent ▸ reads.readFrom size⟩
  · exact light

theorem light_run (requests : Call → PutRequest) (schedule : List (Action Call))
    (hFew : ∀ call, (requests call).pieces = [] ∨ call = only ∧ (requests call).pieces = [(requests only).body]) :
    Light requests only (run requests schedule) := by
  induction schedule using List.reverseRecOn with
  | nil => exact light_start requests only
  | append_singleton schedule action ih =>
    rw [run, List.foldl_append]
    cases action with
    | put call => exact ih.putStep (linked_run requests schedule) hFew call
    | get reader => exact ih.getStep reader
    | read reader size => exact ih.readStep reader size

end

theorem idle_run (requests : Call → PutRequest) (schedule : List (Action Call))
    (hIdle : ∀ call, ¬ (run requests schedule).Started call) :
    (run requests schedule).object = none ∧ ∀ reader, (run requests schedule).gets reader = none := by
  induction schedule using List.reverseRecOn with
  | nil => exact ⟨rfl, fun _ => rfl⟩
  | append_singleton schedule action ih =>
    rw [run, List.foldl_append] at hIdle ⊢
    obtain ⟨hObject, hGets⟩ := ih fun call hStarted => hIdle call (started_step requests action hStarted)
    cases action with
    | put call => exact absurd (started_put requests _ call) (hIdle call)
    | get reader =>
      rw [run] at hObject hGets
      simp [step, getStep, hObject, hGets]
    | read reader size =>
      rw [run] at hObject hGets
      simp [step, readStep, hObject, hGets]

omit [DecidableEq Call] in
theorem Solo.intact {only : Call} (solo : Solo requests only state)
    (hStarted : state.Started only) : Intact requests state where
  object _ hReturned := by
    obtain ⟨result, hPut⟩ := hReturned only hStarted
    obtain ⟨file, hObject, hContent, -⟩ : Stored (requests only).body state := by simpa [Solo, hPut] using solo
    exact ⟨file, only, hObject, hStarted, hContent⟩
  gets reader get hGet _ := by
    refine ⟨only, hStarted, ?_⟩
    unfold Solo at solo
    split at solo
    · simp [solo.2.2] at hGet
    · simp [solo.2.2] at hGet
    · simp [solo.2.2.1] at hGet
    · obtain ⟨_, _, _, hGets⟩ := solo
      exact (hGets reader get hGet).2
    · obtain ⟨_, _, _, hGets⟩ := solo
      exact (hGets reader get hGet).2

omit [DecidableEq Call] in
theorem Light.intact {only silent : Call} (light : Light requests only state) (linked : state.Linked)
    (hStarted : state.Started silent) (hSilent : (requests silent).pieces = []) : Intact requests state := by
  have hBody : (requests silent).body = [] := by simp [PutRequest.body, hSilent]
  constructor
  · rintro - hReturned
    obtain ⟨result, hPut⟩ := hReturned silent hStarted
    obtain ⟨file, hObject⟩ := Option.isSome_iff_exists.mp (linked.returned silent result hPut)
    rcases light.files file with hEmpty | ⟨hOnly, hContent⟩
    · exact ⟨file, silent, hObject, hStarted, hEmpty.trans hBody.symm⟩
    · exact ⟨file, only, hObject, hOnly, hContent⟩
  · intro reader get hGet _
    rcases light.gets reader get hGet with reads | ⟨hOnly, -, reads⟩
    · exact ⟨silent, hStarted, hBody ▸ reads⟩
    · exact ⟨only, hOnly, reads⟩

theorem few_of_silent {silent : Call} (hPairs : ∀ first second, first ≠ second →
      (requests first).pieces.length + (requests second).pieces.length ≤ 1)
    (hSilent : (requests silent).pieces = []) : ∃ only, ∀ call, (requests call).pieces = [] ∨
      call = only ∧ (requests call).pieces = [(requests only).body] := by
  by_cases hWriter : ∃ only, (requests only).pieces ≠ []
  · obtain ⟨only, hOnly⟩ := hWriter
    have hSome := List.length_pos_iff.mpr hOnly
    have hOther : only ≠ silent := by
      rintro rfl
      exact hOnly hSilent
    have hOne : (requests only).pieces.length = 1 := by
      have hPair := hPairs only silent hOther
      omega
    obtain ⟨piece, hPiece⟩ := List.length_eq_one_iff.mp hOne
    refine ⟨only, fun call => ?_⟩
    by_cases hCall : call = only
    · subst hCall
      exact Or.inr ⟨rfl, by simp [PutRequest.body, hPiece]⟩
    · left
      have hPair := hPairs call only hCall
      exact List.length_eq_zero_iff.mp (by omega)
  · exact ⟨silent, fun call => Or.inl (not_not.mp fun hNot => hWriter ⟨call, hNot⟩)⟩

variable (requests)

theorem intact_of_pairs (hPairs : ∀ first second, first ≠ second →
      (requests first).pieces.length + (requests second).pieces.length ≤ 1)
    (schedule : List (Action Call)) : Intact requests (run requests schedule) := by
  by_cases hSilent : ∃ silent, (run requests schedule).Started silent ∧ (requests silent).pieces = []
  · obtain ⟨silent, hStarted, hSilent⟩ := hSilent
    obtain ⟨only, hFew⟩ := few_of_silent hPairs hSilent
    exact (light_run requests schedule hFew).intact (linked_run requests schedule) hStarted hSilent
  · -- Two calls that both write are ruled out, so that at most one was started.
    by_cases hStarted : ∃ only, (run requests schedule).Started only
    · obtain ⟨only, hOnly⟩ := hStarted
      have hAlone : ∀ call, (run requests schedule).Started call → call = only := by
        intro call hCall
        by_contra hOther
        have hPair := hPairs call only hOther
        have hFirst : (requests call).pieces.length ≠ 0 := fun hZero =>
          hSilent ⟨call, hCall, List.length_eq_zero_iff.mp hZero⟩
        have hSecond : (requests only).pieces.length ≠ 0 := fun hZero =>
          hSilent ⟨only, hOnly, List.length_eq_zero_iff.mp hZero⟩
        omega
      exact (solo_run requests schedule hAlone).intact hOnly
    · obtain ⟨-, hGets⟩ := idle_run requests schedule fun call hCall => hStarted ⟨call, hCall⟩
      exact ⟨fun hSome => absurd hSome hStarted, fun reader get hGet => by simp [hGets] at hGet⟩

theorem copy_all (call : Call) (rest : List Bytes) (state : State Call)
    {file offset : Nat} (hPut : state.puts call = .copying file offset rest) :
    ∃ content stop, (List.replicate rest.length (.put call)).foldl (step requests) state =
      { state with files := Function.update state.files file content }.setPut call (.copying file stop []) := by
  induction rest generalizing state offset with
  | nil => exact ⟨state.files file, offset, by simp [setPut, ← hPut]⟩
  | cons piece rest ih =>
    have hStep : state.step requests (.put call) = state.write call file offset piece rest := by
      simp [step, putStep, hPut]
    have hNext : (state.write call file offset piece rest).puts call =
        .copying file (offset + piece.length) rest := by simp [write, setPut]
    obtain ⟨content, stop, hRun⟩ := ih _ hNext
    refine ⟨content, stop, ?_⟩
    rw [List.length_cons, List.replicate_succ, List.foldl_cons, hStep, hRun]
    simp [write, setPut]

/-- A `Put` that opens the temporary file while another is about to rename it leaves an
empty object. -/
def truncating (requests : Call → PutRequest) (first second : Call) : List (Action Call) :=
  [.put first, .put second, .put first] ++
    List.replicate (requests first).pieces.length (.put first) ++
    [.put second, .put first, .put first, .get 0, .read 0 1]

/-- A `Put` renames the file while another is still writing to it. -/
def overtaking (first second : Call) (piece : Bytes) : List (Action Call) :=
  [.put first, .put second, .put first, .put second, .put second, .put first, .put first, .get 0,
    .read 0 piece.length, .read 0 1]

variable {first second : Call}

theorem run_truncating (hOther : first ≠ second) :
    (run requests (truncating requests first second)).gets 0 =
      some { file := 0, late := true, data := [], done := true } := by
  have hOpened : (run requests [.put first, .put second, .put first]).puts first =
      .copying 0 0 (requests first).pieces := by
    simp [run, step, putStep, stat, openFile, setPut, start, hOther, hOther.symm]
  obtain ⟨content, stop, hCopied⟩ := copy_all requests first _ _ hOpened
  rw [run] at hCopied
  simp only [run, truncating, List.foldl_append, hCopied]
  simp [step, putStep, getStep, readStep, stat, openFile, rename, setPut, setGet, start, hOther,
    hOther.symm, Get.readFrom]

variable {rest : List Bytes} {piece : Bytes}

theorem run_overtaking (hOther : first ≠ second) (hFirst : (requests first).pieces = [])
    (hSecond : (requests second).pieces = piece :: rest) (hPiece : piece ≠ []) :
    (run requests (overtaking first second piece)).gets 0 =
      some { file := 0, late := true, data := piece, done := true } := by
  simp [run, overtaking, step, putStep, getStep, readStep, stat, openFile, write, rename, setPut,
    setGet, start, hOther, hOther.symm, hFirst, hSecond, Get.readFrom, writeAt_nil, hPiece]

theorem put_mem_of_started (schedule : List (Action Call))
    {call : Call} (hStarted : (run requests schedule).Started call) : .put call ∈ schedule := by
  induction schedule using List.reverseRecOn with
  | nil => exact absurd rfl hStarted
  | append_singleton schedule action ih =>
    rw [List.mem_append, List.mem_singleton]
    by_cases hAction : action = .put call
    · exact Or.inr hAction.symm
    · left
      apply ih
      rw [run, List.foldl_append] at hStarted
      simpa only [Started, run, List.foldl_cons, List.foldl_nil,
        puts_step requests _ action hAction] using hStarted

/-- What a late `Get` has read to its end is the body of a call that was started. -/
theorem Intact.read {schedule : List (Action Call)}
    (intact : Intact requests (run requests schedule)) {reader : Nat} {get : Get}
    (hGet : (run requests schedule).gets reader = some get) (hLate : get.late)
    (hDone : get.done) : ∃ call, .put call ∈ schedule ∧ get.data = (requests call).body := by
  obtain ⟨call, hStarted, reads⟩ := intact.gets reader get hGet hLate
  exact ⟨call, put_mem_of_started requests schedule hStarted, reads.done hDone⟩

theorem torn_of_two_writers (hOther : first ≠ second)
    (hFirst : (requests first).pieces ≠ []) (hSecond : (requests second).pieces ≠ []) :
    ¬ Intact requests (run requests (truncating requests first second)) := by
  intro intact
  obtain ⟨call, hCall, hEmpty⟩ := intact.read requests (run_truncating requests hOther) rfl rfl
  have hEither : call = first ∨ call = second := by
    simp only [truncating, List.mem_append, List.mem_cons, List.mem_replicate] at hCall
    grind
  rcases hEither with rfl | rfl
  · exact (requests call).body_ne_nil hFirst hEmpty.symm
  · exact (requests call).body_ne_nil hSecond hEmpty.symm

theorem torn_of_two_writes (hOther : first ≠ second)
    (hFirst : (requests first).pieces = []) {next : Bytes}
    (hSecond : (requests second).pieces = piece :: next :: rest) :
    ¬ Intact requests (run requests (overtaking first second piece)) := by
  have hPiece : piece ≠ [] := (requests second).nonempty piece (by simp [hSecond])
  have hNext : next ≠ [] := (requests second).nonempty next (by simp [hSecond])
  intro intact
  obtain ⟨call, hCall, hData⟩ := intact.read requests (run_overtaking requests hOther hFirst hSecond hPiece) rfl rfl
  have hEither : call = first ∨ call = second := by
    simp only [overtaking, List.mem_cons] at hCall
    grind
  rcases hEither with rfl | rfl
  · exact hPiece (by simpa [PutRequest.body, hFirst] using hData)
  · simp [PutRequest.body, hSecond, hNext] at hData

/-- Exactly when concurrent calls leave the object whole under every schedule: of any two
of them one writes nothing, and the other at most once. Any other two calls can be
scheduled so that a `Get` after one of them has returned reads what is none of the bodies. -/
theorem puts_intact_iff (requests : Call → PutRequest) :
    (∀ schedule, Intact requests (run requests schedule)) ↔
      ∀ first second, first ≠ second →
        (requests first).pieces.length + (requests second).pieces.length ≤ 1 := by
  refine ⟨fun hIntact first second hOther => ?_, intact_of_pairs requests⟩
  cases hFirst : (requests first).pieces with
  | nil =>
    cases hSecond : (requests second).pieces with
    | nil => simp
    | cons piece rest =>
      cases rest with
      | nil => simp
      | cons next rest =>
        exact absurd (hIntact _) (torn_of_two_writes requests hOther hFirst hSecond)
  | cons piece rest =>
    cases hSecond : (requests second).pieces with
    | nil =>
      cases rest with
      | nil => simp
      | cons next rest =>
        exact absurd (hIntact _) (torn_of_two_writes requests hOther.symm hSecond hFirst)
    | cons other more =>
      exact absurd (hIntact _) (torn_of_two_writers requests hOther (by simp [hFirst]) (by simp [hSecond]))

end State

namespace Sample

def requests (call : Bool) : PutRequest where
  pieces := if call then [[1, 1, 1, 1]] else [[2, 2]]
  ifNotExists := true
  nonempty := by cases call <;> simp

def schedule : List (Action Bool) :=
  [.put true, .put false, .put true, .put false, .put true, .put false, .put true, .put false,
    .put true, .put false, .get 0, .read 0 10, .read 0 1]

/-- Both calls have opened the temporary file before either writes to it. When both have
returned, the one without and the other with an error, the object starts with the bytes of
one body and ends with those of the other. -/
theorem object_torn :
    ((State.run requests schedule).puts true, (State.run requests schedule).puts false) =
        (.returned (.stored 4), .returned .failed) ∧
      (State.run requests schedule).object.map (State.run requests schedule).files = some [2, 2, 1, 1] ∧
      ((State.run requests schedule).gets 0).map (fun get => (get.late, get.data, get.done)) =
        some (true, [2, 2, 1, 1], true) ∧
      ∀ call, (requests call).body ≠ [2, 2, 1, 1] := by
  decide

end Sample

end DBVault.Filesystem
