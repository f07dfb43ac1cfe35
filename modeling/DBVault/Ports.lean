import DBVault.Interaction.Solo
import DBVault.Storage.Address
import DBVault.Manifest
import DBVault.Digest

/-! The ports of the application as operations on one world: object store,
catalogue, identifiers, scratch space, source driver and local files. Every
operation can fail; a failed write may or may not have taken effect. -/
namespace DBVault
open Text Interaction

structure SnapshotRequest where
  runID : String
  source : Source
  scratchDirectory : String
  mode : SnapshotMode

inductive Op where
  | now
  | newID (stem : String)
  | createBackupRun (run : BackupRun)
  | updateBackupRun (run : BackupRun)
  | createSnapshot (snap : Snapshot) (links : List SnapshotChunk) (records : List ChunkRecord)
  | getSnapshot (id : String)
  | listSnapshots (sourceID : String)
  | findSnapshotByRoot (sourceID rootDigest : String)
  | reserve (runID : String)
  | sourceSnapshot (req : SnapshotRequest)
  | openArtifact (art : Artifact)
  | compress (data : Bytes)
  | encryptChunk (chunkID : String) (plaintext : Bytes)
  | sign (payload : Bytes)
  | put (req : PutObjectRequest)
  | get (key : String)
  | head (key : String)
  | list (req : ListObjectsRequest)
  | delete (key : String)
  | mapOrder (keys : List String)
  | stat (path : String)
  | mkdirAll (path : String)
  | remove (path : String)
  | openTrunc (path : String)
  | truncate (path : String) (size : Int)
  | writeAt (path : String) (data : Bytes) (offset : Int)
  | sync (path : String)
  | close (path : String)
  | openFile (path : String)
  | rename (oldPath newPath : String)

abbrev Answer : Op → Type
  | .now => Time
  | .newID _ => String
  | .createBackupRun _ | .updateBackupRun _ | .createSnapshot .. => Result Unit
  | .getSnapshot _ => Result (Snapshot × List SnapshotChunk)
  | .listSnapshots _ => Result (List Snapshot)
  | .findSnapshotByRoot .. => Result (Option Snapshot)
  | .reserve _ => Result String
  | .sourceSnapshot _ => Result Artifact
  | .openArtifact _ => Result Stream
  | .compress _ | .encryptChunk .. | .sign _ => Result Bytes
  | .put _ | .head _ => Result StoredObject
  | .get _ | .openFile _ => Result Stream
  | .list _ => Result ListObjectsResult
  | .mapOrder _ => List String
  | .delete _ | .stat _ | .mkdirAll _ | .remove _ | .openTrunc _ | .truncate .. | .writeAt ..
  | .sync _ | .close _ | .rename .. => Result Unit

abbrev Prog (α : Type) := Program Answer α

abbrev ask (op : Op) : Prog (Answer op) := Program.ask op

abbrev PastCall := Call Answer

/-- The functions behind the compressor, encryptor, signer and hash ports, and
the adapter the store is reached through. -/
structure Ports where
  backend : Backend
  hashes : Hashes
  compressorName : String
  (compress decompress : Bytes → Result Bytes)
  /-- `EncryptChunk`, with the nonce it draws. -/
  encryptChunk : Bytes → String → Bytes → Result Bytes
  decryptChunk : String → Bytes → Result Bytes
  sign : Bytes → Result Bytes
  verify : Bytes → Bytes → Result Unit
  /-- `strings.ToLower`. -/
  toLower : String → String

/-- The ports undo each other: what restoring has to rely on. -/
structure Ports.Lawful (P : Ports) : Prop where
  decompress_compress : ∀ {data out}, P.compress data = .ok out → P.decompress out = .ok data
  decrypt_encrypt : ∀ {nonce id plain out}, P.encryptChunk nonce id plain = .ok out →
    P.decryptChunk id out = .ok plain
  verify_sign : ∀ {payload sig}, P.sign payload = .ok sig → P.verify payload sig = .ok ()

/-- `id.Generator.NewID`, with the time and the random bytes it draws. -/
def newID (stem : String) (nano : Int) (random : Bytes) : String :=
  stem ++ "_" ++ decimal nano ++ "_" ++ hexEncode random

structure CatalogueRow where
  snapshot : Snapshot
  links : List SnapshotChunk

structure World where
  objects : Objects := .empty
  rows : List CatalogueRow := []
  runs : List BackupRun := []
  issued : List String := []
  files : String → Option Bytes := fun _ => none

/-- A write that fails is either refused or has taken effect; a read can fail,
break off, or deliver something else. -/
inductive Fault where
  | none
  | refuse (err : GoError)
  | lose (err : GoError)
  | cut (length : Nat) (err : GoError)
  | garble (bytes : Bytes)

structure Choice where
  fault : Fault := .none
  time : Time := 0
  random : Bytes := []
  artifact : Option Artifact := none
  pick : Nat := 0
  order : List String := []

def Choice.Clean (c : Choice) : Prop := c.fault = .none

def Choice.Faithful (c : Choice) : Prop := ∀ bytes, c.fault ≠ .garble bytes

theorem Choice.Clean.faithful {c : Choice} (h : c.Clean) : c.Faithful := by
  intro bytes hGarble
  rw [show c.fault = .none from h] at hGarble
  cases hGarble

def reading {α : Type} (c : Choice) (answer : Result α) : Result α :=
  match c.fault with
  | .refuse err | .lose err => .error err
  | _ => answer

def delivering (c : Choice) (stored : Bytes) : Result Stream :=
  match c.fault with
  | .refuse err | .lose err => .error err
  | .cut length err => .ok ⟨stored.take length, some err⟩
  | .garble bytes => .ok ⟨bytes, Option.none⟩
  | .none => .ok ⟨stored, Option.none⟩

/-- An operation with an effect, which a fault may lose before or after. -/
def writing {α σ : Type} (c : Choice) (answer : Result α) (before after : σ) : Result α × σ :=
  match c.fault with
  | .refuse err => (.error err, before)
  | .lose err => (.error err, after)
  | _ => (answer, after)

def padTo (n : Nat) (bytes : Bytes) : Bytes := bytes ++ List.replicate (n - bytes.length) 0

/-- `File.Truncate`. -/
def truncateBytes (size : Nat) (bytes : Bytes) : Bytes := (padTo size bytes).take size

/-- `File.WriteAt`: a gap before the offset reads as zeros, and writing nothing
changes nothing. -/
def writeBytes (bytes : Bytes) (offset : Nat) (data : Bytes) : Bytes :=
  if data = [] then bytes
  else (padTo offset bytes).take offset ++ data ++ bytes.drop (offset + data.length)

def PutObjectRequest.store (req : PutObjectRequest) (objects : Objects) (a : Address) : Objects :=
  if req.ifNotExists then objects.putNew a req.body else (objects.erase a).putNew a req.body

namespace World

def setFile (w : World) (path : String) (content : Option Bytes) : World :=
  { w with files := fun p => if p = path then content else w.files p }

def findObject (w : World) (backend : Backend) (key : String) : Result Bytes := do
  let a ← backend.locate key
  match w.objects.find a with
  | some bytes => pure bytes
  | none => .error backend.missing

/-- `Put`: with `IfNotExists` an object that is there stays. -/
def putObject (w : World) (backend : Backend) (req : PutObjectRequest) (c : Choice) :
    Result StoredObject × World :=
  match backend.locate req.key with
  | .error err => (.error err, w)
  | .ok a =>
    let objects := req.store w.objects a
    let size := ((objects.find a).getD []).length
    writing c (.ok ⟨req.key, size⟩) w { w with objects := objects }

def deleteObject (w : World) (backend : Backend) (key : String) (c : Choice) : Result Unit × World :=
  match backend.locate key with
  | .error err => (.error err, w)
  | .ok a => writing c (.ok ()) w { w with objects := w.objects.erase a }

def matchingRows (w : World) (sourceID rootDigest : String) : List Snapshot :=
  (w.rows.map (·.snapshot)).filter fun s => s.sourceID = sourceID ∧ s.rootDigest = rootDigest ∧
    (s.status = .committed ∨ s.status = .protectedSnapshot)

end World

/-- One operation on the world. -/
def perform (P : Ports) (w : World) : (op : Op) → Choice → Answer op × World
  | .now, c => (c.time, w)
  | .newID stem, c =>
    let id := newID stem c.time c.random
    (id, { w with issued := id :: w.issued })
  | .createBackupRun run, c | .updateBackupRun run, c =>
    writing c (.ok ()) w { w with runs := run :: w.runs.filter (·.id ≠ run.id) }
  | .createSnapshot snap links _, c =>
    writing c (.ok ()) w
      { w with rows := ⟨snap, links⟩ :: w.rows.filter (·.snapshot.id ≠ snap.id) }
  | .getSnapshot id, c =>
    (reading c (match w.rows.find? (·.snapshot.id == id) with
      | some row => .ok (row.snapshot, row.links)
      | none => .error (.other "snapshot not found")), w)
  | .listSnapshots sourceID, c =>
    (reading c (.ok ((w.rows.map (·.snapshot)).filter fun s => sourceID = "" ∨ s.sourceID = sourceID)), w)
  | .findSnapshotByRoot sourceID root, c =>
    let found := w.matchingRows sourceID root
    (reading c (.ok (found[c.pick % found.length]?)), w)
  | .reserve runID, c => (reading c (.ok runID), w)
  | .sourceSnapshot _, c =>
    (reading c (match c.artifact with
      | some art => .ok art
      | none => .error (.other "snapshot failed")), w)
  | .openArtifact art, c =>
    (match c.fault with
      | .refuse err | .lose err => .error err
      | .cut length err => .ok ⟨art.content.take length, some err⟩
      | _ => .ok ⟨art.content, none⟩, w)
  | .compress data, c => (reading c (P.compress data), w)
  | .encryptChunk id plain, c => (reading c (P.encryptChunk c.random id plain), w)
  | .sign payload, c => (reading c (P.sign payload), w)
  | .put req, c => w.putObject P.backend req c
  | .get key, c =>
    (match w.findObject P.backend key with
      | .ok bytes => delivering c bytes
      | .error err => .error err, w)
  | .head key, c =>
    (reading c (match w.findObject P.backend key with
      | .ok bytes => .ok ⟨key, bytes.length⟩
      | .error err => .error err), w)
  | .list req, c => (reading c (P.backend.list w.objects req), w)
  | .delete key, c => w.deleteObject P.backend key c
  | .mapOrder keys, c => (if c.order.isPerm keys then c.order else keys, w)
  | .stat path, c => (reading c (if (w.files path).isSome then .ok () else .error .notExist), w)
  | .mkdirAll _, c => (reading c (.ok ()), w)
  | .remove path, c => writing c (.ok ()) w (w.setFile path none)
  | .openTrunc path, c => writing c (.ok ()) w (w.setFile path (some []))
  | .truncate path size, c =>
    match w.files path with
    | none => (.error .notExist, w)
    | some bytes => writing c (.ok ()) w (w.setFile path (some (truncateBytes size.toNat bytes)))
  | .writeAt path data offset, c =>
    match w.files path with
    | none => (.error .notExist, w)
    | some bytes =>
      if offset < 0 then (.error (.other "negative offset"), w)
      else writing c (.ok ()) w (w.setFile path (some (writeBytes bytes offset.toNat data)))
  | .sync _, c => (reading c (.ok ()), w)
  | .close _, c => (reading c (.ok ()), w)
  | .openFile path, c =>
    (match w.files path with
      | some bytes => delivering c bytes
      | none => .error .notExist, w)
  | .rename oldPath newPath, c =>
    match w.files oldPath with
    | none => (.error .notExist, w)
    | some bytes => writing c (.ok ()) w ((w.setFile oldPath none).setFile newPath (some bytes))

def admissible (w : World) : Op → Choice → Prop
  | .newID stem, c => newID stem c.time c.random ∉ w.issued
  | _, _ => True

instance (w : World) (op : Op) (c : Choice) : Decidable (admissible w op c) := by
  unfold admissible
  split <;> infer_instance

abbrev environment (P : Ports) : Environment Answer World Choice := ⟨perform P, admissible⟩

instance (P : Ports) (w : World) (op : Op) (c : Choice) : Decidable ((environment P).admissible w op c) :=
  inferInstanceAs (Decidable (admissible w op c))

/-- What every answer satisfies, whatever the world looks like. -/
def legal (P : Ports) : (op : Op) → Answer op → Prop
  | .newID stem, id => ∃ nano random, id = newID stem nano random
  | .openArtifact art, answer => ∀ file, answer = .ok file → file.ending = none → file.bytes = art.content
  | .compress data, answer => ∀ out, answer = .ok out → P.compress data = .ok out
  | .encryptChunk id plain, answer => ∀ out, answer = .ok out → ∃ nonce, P.encryptChunk nonce id plain = .ok out
  | .sign payload, answer => ∀ sig, answer = .ok sig → P.sign payload = .ok sig
  | .put req, answer => ∀ obj, answer = .ok obj → ∃ a, P.backend.locate req.key = .ok a
  | .head key, answer => ∀ obj, answer = .ok obj → ∃ a, P.backend.locate key = .ok a
  | .mapOrder keys, answer => answer.Perm keys
  | _, _ => True

variable {α : Type} {c : Choice} {answer : Result α} {value : α}

theorem reading_ok (h : reading c answer = .ok value) : answer = .ok value := by
  unfold reading at h
  split at h
  · cases h
  · cases h
  · exact h

theorem writing_ok {σ : Type} {before after : σ} (h : (writing c answer before after).1 = .ok value) :
    answer = .ok value ∧ (writing c answer before after).2 = after := by
  unfold writing at h ⊢
  split at h
  · cases h
  · cases h
  · exact ⟨h, rfl⟩

theorem legal_perform (P : Ports) (w : World) (op : Op) (c : Choice) : legal P op (perform P w op c).1 := by
  cases op with
  | newID stem => exact ⟨c.time, c.random, rfl⟩
  | openArtifact art =>
    intro file hFile hEnding
    cases hFault : c.fault <;> simp only [perform, hFault] at hFile <;> cases hFile
    · rfl
    · cases hEnding
    · rfl
  | compress data => exact fun out hOut => reading_ok hOut
  | encryptChunk id plain => exact fun out hOut => ⟨c.random, reading_ok hOut⟩
  | sign payload => exact fun sig hSig => reading_ok hSig
  | put req =>
    intro obj hObj
    simp only [perform, World.putObject] at hObj
    split at hObj
    · cases hObj
    · rename_i a hAddress
      exact ⟨a, hAddress⟩
  | head key =>
    intro obj hObj
    have hRead := reading_ok hObj
    cases hAddress : P.backend.locate key with
    | ok a => exact ⟨a, rfl⟩
    | error err => simp [World.findObject, hAddress, bind, Except.bind] at hRead
  | mapOrder keys =>
    by_cases h : c.order.isPerm keys = true
    · simpa [legal, perform, h] using List.isPerm_iff.mp h
    · simp [legal, perform, h]
  | _ => trivial

end DBVault
