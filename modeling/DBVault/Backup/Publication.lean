import DBVault.Backup.Protocol
import DBVault.Backup.Keys
import DBVault.Ports.Disk

/-! Any number of `Create` calls over one store and catalogue, interleaved
operation by operation and stopped anywhere. What an object under a snapshot
key or a chunk key says about the call that put it. -/
namespace DBVault.Backup
open List Text Text.Path Interaction

namespace Service
variable (s : Service) (cmd : Command)

theorem identified_tiles (art : Artifact) :
    Tiles art.metadata.pageSize 0 0 ((s.identified art).map (·.1)) art.content := by
  have hChunks : (s.identified art).map (·.1) = art.chunks s.target := by
    simp [identified, identify, Function.comp_def]
  rw [hChunks]
  exact art.tiles s.target

variable {art : Artifact}

theorem identified_id (h : x ∈ s.identified art) :
    x.2 = s.ports.hashes.chunkID s.dedupKey art.metadata.pageSize x.1.data := by
  obtain ⟨ch, -, rfl⟩ := mem_map.mp h
  rfl

theorem identified_isHexID (h : x ∈ s.identified art) : Hashes.IsHexID x.2 := by
  rw [s.identified_id h]
  exact s.ports.hashes.chunkID_isHexID _ _ _

theorem chunkInfo_fits (h : x ∈ s.identified art) : (s.chunkInfo cmd x).Fits := by
  have hBounds := (s.identified_tiles art).bounds art.pageSize_pos x.1 (mem_map_of_mem h)
  have hContent := art.content_int64
  simp only [Json.IsInt64, Json.int64Min, Json.int64Max] at hContent
  constructor <;>
    simp only [chunkInfo, Json.IsInt64, Json.int64Min, Json.int64Max] <;> omega

theorem manifest_fits (d : Draft) : (s.manifestOf cmd d).Fits where
  formatVersion := by
    show Json.IsInt64 1
    decide
  database := ⟨d.art.pageSize_int64, d.art.pageCount_int64, d.art.content_int64⟩
  snapshot := by
    constructor
    · simp [manifestOf, manifest]
    · simp [manifestOf, manifest, int, Json.height]
  chunks := by
    intro c hc
    obtain ⟨x, hx, rfl⟩ := mem_map.mp hc
    exact s.chunkInfo_fits cmd hx

theorem completion_fits (snapID : String) (payload : Bytes) (t : Time) :
    Json.IsInt64 (s.completion snapID payload t).formatVersion := by
  show Json.IsInt64 1
  decide

/-- The file of a snapshot, by the `Create` that put it. -/
inductive SnapshotFile (past : List PastCall) (snapshotID : String) : FileKind → Bytes → Prop where
  | manifest {d : Draft} (h : Uploaded s cmd past d) (hID : d.snapID = snapshotID) :
      SnapshotFile past snapshotID .manifest (s.payload cmd d)
  | sig {d : Draft} {sig : Bytes} (h : ManifestPut s cmd past d) (hID : d.snapID = snapshotID)
      (hSign : s.ports.sign (s.payload cmd d) = .ok sig) :
      SnapshotFile past snapshotID .sig sig
  | complete {d : Draft} {t : Time} (h : SigPut s cmd past d) (hID : d.snapID = snapshotID) :
      SnapshotFile past snapshotID .complete (s.completion d.snapID (s.payload cmd d) t).marshal

section
variable {s cmd} {past later : List PastCall} {d : Draft} {req : PutObjectRequest} {a : Address}
  {sourceID snapshotID : String} {kind : FileKind} {bytes : Bytes}

theorem SnapshotFile.mono (h : SnapshotFile s cmd past snapshotID kind bytes)
    (hSub : past ⊆ later) : SnapshotFile s cmd later snapshotID kind bytes := by
  cases h with
  | manifest h hID => exact .manifest (h.mono hSub) hID
  | sig h hID hSign => exact .sig (h.mono hSub) hID hSign
  | complete h hID => exact .complete (h.mono hSub) hID

theorem SnapshotFile.named (h : SnapshotFile s cmd past snapshotID kind bytes) :
    ⟨.newID "snap", snapshotID⟩ ∈ past := by
  cases h with
  | manifest h hID => exact hID ▸ h.named
  | sig h hID hSign => exact hID ▸ h.named
  | complete h hID => exact hID ▸ h.named

theorem Drafted.plain (h : Drafted past d) (hPast : (s.rules cmd).Follows past) : Plain d.snapID.toList := by
  obtain ⟨-, -, -, ⟨nano, random, hID⟩, -⟩ := hPast.of_mem h.named
  have hName : d.snapID = newID "snap" nano random := hID
  rw [hName]
  exact newID_plain (by decide) nano random

/-- Whatever a `Create` puts where a file of a snapshot lies is that file. -/
theorem MayPut.snapshotFile (h : s.MayPut cmd past req) (hPast : (s.rules cmd).Follows past)
    (hLocate : s.ports.backend.locate req.key = .ok a)
    (hEnds : EndsIn a (snapshotTail snapshotID kind.name)) :
    SnapshotFile s cmd past snapshotID kind req.body := by
  cases h with
  | chunk hChunk =>
    obtain ⟨art, x, nonce, compressed, -, hx, -, -, hReq⟩ := hChunk
    rw [hReq] at hLocate
    exact absurd hEnds (chunkTail_snapshotTail (chunkKey_endsIn (s.identified_isHexID hx) hLocate))
  | manifest hUp =>
    obtain ⟨rfl, rfl⟩ := snapshotTail_meet hEnds (snapshotKey_endsIn .manifest (hUp.plain hPast) hLocate)
    exact .manifest hUp rfl
  | sig hPut hSign =>
    obtain ⟨rfl, rfl⟩ := snapshotTail_meet hEnds (snapshotKey_endsIn .sig (hPut.plain hPast) hLocate)
    exact .sig hPut rfl hSign
  | complete hSig =>
    obtain ⟨rfl, rfl⟩ := snapshotTail_meet hEnds (snapshotKey_endsIn .complete (hSig.plain hPast) hLocate)
    exact .complete hSig rfl

/-- Whatever a `Create` puts where a chunk lies is that chunk. -/
theorem MayPut.chunkUpload {id : String} (h : s.MayPut cmd past req) (hPast : (s.rules cmd).Follows past)
    (hLocate : s.ports.backend.locate req.key = .ok a) (hEnds : EndsIn a (chunkTail id)) :
    ∃ art x nonce compressed, Took past art ∧ x ∈ s.identified art ∧ x.2 = id ∧
      s.ports.compress x.1.data = .ok compressed ∧
      s.ports.encryptChunk nonce id compressed = .ok req.body := by
  cases h with
  | chunk hChunk =>
    obtain ⟨art, x, nonce, compressed, hTook, hx, hCompress, hEncrypt, hReq⟩ := hChunk
    rw [hReq] at hLocate
    obtain rfl : x.2 = id := chunkTail_meet (chunkKey_endsIn (s.identified_isHexID hx) hLocate) hEnds
    exact ⟨art, x, nonce, compressed, hTook, hx, rfl, hCompress, hEncrypt⟩
  | manifest hUp =>
    exact absurd (snapshotKey_endsIn .manifest (hUp.plain hPast) hLocate) (chunkTail_snapshotTail hEnds)
  | sig hPut hSign =>
    exact absurd (snapshotKey_endsIn .sig (hPut.plain hPast) hLocate) (chunkTail_snapshotTail hEnds)
  | complete hSig =>
    exact absurd (snapshotKey_endsIn .complete (hSig.plain hPast) hLocate) (chunkTail_snapshotTail hEnds)

theorem began_unique (hPast : (s.rules cmd).Follows past) (h : ⟨.createBackupRun run, answer⟩ ∈ past)
    (h' : ⟨.createBackupRun run', answer'⟩ ∈ past) : run = run' := by
  have hSame := hPast.unique (fun call => ∃ run, call.op = .createBackupRun run)
    (by
      rintro earlier ⟨op, answer⟩ ⟨run, rfl⟩ hPermits other hOther ⟨run', hOp⟩
      exact hPermits other hOther run' hOp)
    h h' ⟨run, rfl⟩ ⟨run', rfl⟩
  cases hSame
  rfl

theorem Took.unique (h : Took past art) (h' : Took past art')
    (hPast : (s.rules cmd).Follows past) : art = art' := by
  obtain ⟨req, hTook⟩ := h
  obtain ⟨req', hTook'⟩ := h'
  have hSame := hPast.unique (fun call => ∃ req, call.op = .sourceSnapshot req)
    (by
      rintro earlier ⟨op, answer⟩ ⟨req, rfl⟩ hPermits other hOther ⟨req', hOp⟩
      exact hPermits other hOther req' hOp)
    hTook hTook' ⟨req, rfl⟩ ⟨req', rfl⟩
  cases hSame
  rfl

theorem named_unique {id id' : String} (hPast : (s.rules cmd).Follows past)
    (h : ⟨.newID "snap", id⟩ ∈ past) (h' : ⟨.newID "snap", id'⟩ ∈ past) : id = id' := by
  have hSame := hPast.unique (fun call => call.op = .newID "snap")
    (by
      rintro earlier ⟨op, answer⟩ rfl hPermits other hOther hOp
      exact hPermits rfl other hOther hOp)
    h h' rfl rfl
  cases hSame
  rfl

theorem Drafted.unique (h : Drafted past d) (h' : Drafted past d')
    (hPast : (s.rules cmd).Follows past) : d = d' := by
  obtain ⟨run, answer, hRun, hNow⟩ := h.began
  obtain ⟨run', answer', hRun', hNow'⟩ := h'.began
  have hArt : d.art = d'.art := h.took.unique h'.took hPast
  have hID : d.snapID = d'.snapID := named_unique hPast h.named h'.named
  have hTime : d.now = d'.now := by rw [← hNow, ← hNow', began_unique hPast hRun hRun']
  exact Draft.ext hArt hID hTime

end

end Service

/-- One `Create` call: the settings it runs with, and its command. -/
structure Job where
  dedupKey : Bytes
  repository : Repository
  targetChunkBytes : Int
  command : Command

namespace Job
variable (P : Ports) (j : Job)

def service : Service := ⟨P, j.dedupKey, j.repository, j.targetChunkBytes⟩

def create : Prog (CreateResult × Option GoError) := (j.service P).create j.command

def rules : Rules Answer := (j.service P).rules j.command

end Job

/-- What a history and the world it led to have to do with each other when the
threads with a job are `Create` calls and the others store nothing. -/
structure Record (P : Ports) (job : Nat → Option Job) (history : History) (w : World) : Prop where
  put : ∀ a bytes, w.objects.find a = some bytes → ∃ e ∈ history, ∃ req,
    e.call.op = .put req ∧ P.backend.locate req.key = .ok a ∧ req.body = bytes
  entered : ∀ row ∈ w.rows, ∃ e ∈ history, ∃ records,
    e.call.op = .createSnapshot row.snapshot row.links records
  fresh : IDsFresh history w
  follows : ∀ t j, job t = some j → (j.rules P).Follows (ownCalls t history)
  idle : ∀ t, job t = none → ∀ call ∈ ownCalls t history,
    (∀ req, call.op ≠ .put req) ∧ ∀ snap links records, call.op ≠ .createSnapshot snap links records

namespace Record
variable {P : Ports} {job : Nat → Option Job} {history : History} {w : World} {sourceID : String}
  {bytes : Bytes}

theorem putter (h : Record P job history w) (hFind : w.objects.find a = some bytes) :
    ∃ t j earlier req, job t = some j ∧ earlier <:+ ownCalls t history ∧
      (j.rules P).Follows earlier ∧ (j.service P).MayPut j.command earlier req ∧
      P.backend.locate req.key = .ok a ∧ req.body = bytes := by
  obtain ⟨⟨t, c, op, answer⟩, hMem, req, hOp, hLocate, hBody⟩ := h.put a bytes hFind
  obtain rfl : op = .put req := hOp
  have hOwn := mem_ownCalls_of_mem hMem
  cases hJob : job t with
  | none => exact absurd rfl ((h.idle t hJob _ hOwn).1 req)
  | some j =>
    obtain ⟨earlier, hSuffix, hPermits, -, hFollows⟩ := (h.follows t j hJob).of_mem hOwn
    exact ⟨t, j, earlier, req, hJob, (suffix_cons _ _).trans hSuffix, hFollows, hPermits, hLocate, hBody⟩

theorem snapshotFile (h : Record P job history w) (kind : FileKind)
    (hHolds : w.Holds P (snapshotKey sourceID snapshotID kind.name) bytes) (hID : Plain snapshotID.toList) :
    ∃ t j, job t = some j ∧ (j.service P).SnapshotFile j.command (ownCalls t history) snapshotID kind bytes := by
  obtain ⟨a, hKey, hFind⟩ := World.holds_iff.mp hHolds
  obtain ⟨t, j, earlier, req, hJob, hSuffix, hFollows, hMay, hLocate, rfl⟩ := h.putter hFind
  exact ⟨t, j, hJob, (hMay.snapshotFile hFollows hLocate (snapshotKey_endsIn kind hID hKey)).mono hSuffix.subset⟩

/-- An object where a chunk lies is that chunk, by the `Create` that put it. -/
theorem chunk (h : Record P job history w) {id : String}
    (hFind : w.objects.find a = some bytes) (hEnds : EndsIn a (chunkTail id)) :
    ∃ t j art x nonce compressed, job t = some j ∧ Service.Took (ownCalls t history) art ∧
      x ∈ (j.service P).identified art ∧ x.2 = id ∧ P.compress x.1.data = .ok compressed ∧
      P.encryptChunk nonce id compressed = .ok bytes := by
  obtain ⟨t, j, earlier, req, hJob, hSuffix, hFollows, hMay, hLocate, rfl⟩ := h.putter hFind
  obtain ⟨art, x, nonce, compressed, hTook, hx, hEq, hCompress, hEncrypt⟩ :=
    hMay.chunkUpload hFollows hLocate hEnds
  exact ⟨t, j, art, x, nonce, compressed, hJob, hTook.mono hSuffix.subset, hx, hEq, hCompress, hEncrypt⟩

variable {t : Nat}

section
variable (h : Record P job history w)
include h

theorem commits (hJob : job t = some j)
    (hCall : ⟨.createSnapshot snap links records, answer⟩ ∈ ownCalls t history) :
    (j.service P).MayCommit j.command (ownCalls t history) snap links := by
  obtain ⟨earlier, hSuffix, ⟨d, up, committed, hComplete, hSnap, hLinks⟩, -⟩ := (h.follows t j hJob).of_mem hCall
  have hSub : earlier ⊆ ownCalls t history := ((suffix_cons _ _).trans hSuffix).subset
  exact ⟨d, up, committed, hComplete.mono hSub, hSnap, hLinks⟩

theorem committer (hRow : row ∈ w.rows) :
    ∃ t j records answer, job t = some j ∧
      ⟨.createSnapshot row.snapshot row.links records, answer⟩ ∈ ownCalls t history := by
  obtain ⟨⟨t, c, op, answer⟩, hMem, records, hOp⟩ := h.entered row hRow
  obtain rfl : op = .createSnapshot row.snapshot row.links records := hOp
  have hOwn := mem_ownCalls_of_mem hMem
  cases hJob : job t with
  | none => exact absurd rfl ((h.idle t hJob _ hOwn).2 _ _ _)
  | some j => exact ⟨t, j, records, answer, hJob, hOwn⟩

theorem committed (hRow : row ∈ w.rows) :
    ∃ t j, job t = some j ∧ (j.service P).MayCommit j.command (ownCalls t history) row.snapshot row.links := by
  obtain ⟨t, j, records, answer, hJob, hCall⟩ := h.committer hRow
  exact ⟨t, j, hJob, h.commits hJob hCall⟩

theorem owner {t' : Nat} {id : String} (hOwn : ⟨.newID "snap", id⟩ ∈ ownCalls t history)
    (hOwn' : ⟨.newID "snap", id⟩ ∈ ownCalls t' history) : t = t' := by
  obtain ⟨e, hMem, rfl, hCall⟩ := mem_ownCalls.mp hOwn
  obtain ⟨e', hMem', rfl, hCall'⟩ := mem_ownCalls.mp hOwn'
  exact h.fresh.apart e hMem e' hMem' "snap" "snap" id hCall hCall'

theorem used_seen (hJob : job t = some j) (hUsed : Service.Used (ownCalls t history) key) :
    ∃ a, P.backend.locate key = .ok a ∧ ∃ call ∈ ownCalls t history, SeenAt P a call := by
  rcases hUsed with ⟨obj, hHead⟩ | ⟨req, obj, rfl, hPut⟩
  · obtain ⟨-, -, -, hLegal, -⟩ := (h.follows t j hJob).of_mem hHead
    obtain ⟨a, hLocate⟩ := hLegal obj rfl
    exact ⟨a, hLocate, _, hHead, .head hLocate⟩
  · obtain ⟨-, -, -, hLegal, -⟩ := (h.follows t j hJob).of_mem hPut
    obtain ⟨a, hLocate⟩ := hLegal obj rfl
    exact ⟨a, hLocate, _, hPut, .put hLocate⟩

end

end Record

/-- The `Create` calls of all threads, on an empty store and catalogue. -/
def backups (P : Ports) (jobs : Nat → Job) : System Answer World (CreateResult × Option GoError) :=
  ⟨{}, fun t => (jobs t).create P⟩

abbrev Ran (P : Ports) (jobs : Nat → Job) (history : History)
    (st : System Answer World (CreateResult × Option GoError)) : Prop :=
  Execution (environment P) (backups P jobs) history st

/-- The same calls with the store on a file system. -/
def backupsOnDisk (P : Ports) (jobs : Nat → Job) : System Answer Disk (CreateResult × Option GoError) :=
  ⟨{}, (backups P jobs).threads⟩

theorem ran_of_disk {P : Ports} {jobs : Nat → Job} {history : History}
    {st : System Answer Disk (CreateResult × Option GoError)}
    (run : Execution (onDisk P) (backupsOnDisk P jobs) history st) (hApart : Apart P history) :
    Ran P jobs history ⟨st.world.toWorld, st.threads⟩ :=
  (Disk.run_in_world rfl run hApart).1

section
variable {P : Ports} {jobs : Nat → Job} {history : History}
  {st : System Answer World (CreateResult × Option GoError)}

theorem backups_obey (P : Ports) (jobs : Nat → Job) (t : Nat) :
    ((backups P jobs).threads t).Obeys ((jobs t).rules P) [] fun result later =>
      result.2 = none → ((jobs t).service P).Outcome (jobs t).command later result.1 :=
  ((jobs t).service P).create_obeys (jobs t).command

theorem follows (run : Ran P jobs history st) (t : Nat) : ((jobs t).rules P).Follows (ownCalls t history) :=
  run.follows (backups_obey P jobs) (fun _ w op c _ => legal_perform P w op c) t

variable {t : Nat}

section
variable (run : Ran P jobs history st)
include run

/-- What a `Create` that has returned without an error has done. -/
theorem outcome (hDone : st.threads t = .done (result, none)) :
    ((jobs t).service P).Outcome (jobs t).command (ownCalls t history) result := by
  have hObeys := run.obeys (backups_obey P jobs) (fun _ w op c _ => legal_perform P w op c) t
  rw [hDone] at hObeys
  exact hObeys rfl

theorem record : Record P (fun t => some (jobs t)) history st.world where
  put := objects_put run rfl
  entered := rows_entered run rfl
  fresh := ids_fresh run
  follows := by
    rintro t j hJob
    obtain rfl : jobs t = j := Option.some.inj hJob
    exact follows run t
  idle := by simp

theorem not_deletesAt (a : Address) : ∀ e ∈ history, ¬ DeletesAt P a e.call.op := by
  rintro ⟨t, c, op, answer⟩ hMem ⟨key, hOp, -⟩
  obtain rfl : op = .delete key := hOp
  obtain ⟨earlier, -, hPermits, -⟩ := (follows run t).of_mem (mem_ownCalls_of_mem hMem)
  exact hPermits

theorem holds_of_used (hUsed : Service.Used (ownCalls t history) key) : ∃ bytes, st.world.Holds P key bytes := by
  obtain ⟨a, hLocate, call, hCall, hSeen⟩ := (record run).used_seen rfl hUsed
  obtain ⟨e, hMem, -, rfl⟩ := mem_ownCalls.mp hCall
  obtain ⟨bytes, hFind⟩ := present_find run (present_of_mem hMem hSeen (not_deletesAt run a))
  exact ⟨bytes, World.holds_iff.mpr ⟨a, hLocate, hFind⟩⟩

end

/-- The snapshot's files are there, belong together, and every chunk the
manifest lists is there. -/
def Published (P : Ports) (w : World) (sourceID snapshotID : String) (completion : Bytes) : Prop :=
  ∃ payload sig c m, w.Holds P (manifestKey sourceID snapshotID) payload ∧
    w.Holds P (sigKey sourceID snapshotID) sig ∧ Completion.unmarshal completion = .ok c ∧
    c.manifestDigest = (P.hashes.sha256 payload).hex ∧ SnapshotManifest.unmarshal payload = .ok m ∧
    ∀ ch ∈ m.chunks, ∃ bytes, w.Holds P ch.objectKey bytes

/-- A file of its snapshot that a `Create` has put is in the store, and it is
this `Create` that put it. -/
theorem own_file (run : Ran P jobs history st) (kind : FileKind) (h : Service.Drafted (ownCalls t history) d)
    (hUsed : Service.Used (ownCalls t history) (snapshotKey (jobs t).command.source.id d.snapID kind.name)) :
    ∃ bytes, st.world.Holds P (snapshotKey (jobs t).command.source.id d.snapID kind.name) bytes ∧
      ((jobs t).service P).SnapshotFile (jobs t).command (ownCalls t history) d.snapID kind
        bytes := by
  obtain ⟨bytes, hHolds⟩ := holds_of_used run hUsed
  obtain ⟨t', j, hJob, hFile⟩ := (record run).snapshotFile kind hHolds (h.plain (follows run t))
  obtain rfl : jobs t' = j := Option.some.inj hJob
  obtain rfl : t = t' := (record run).owner h.named hFile.named
  exact ⟨bytes, hHolds, hFile⟩

theorem holds_manifest (run : Ran P jobs history st)
    (h : ((jobs t).service P).ManifestPut (jobs t).command (ownCalls t history) d) :
    st.world.Holds P (manifestKey (jobs t).command.source.id d.snapID)
      (((jobs t).service P).payload (jobs t).command d) := by
  obtain ⟨obj, hPut⟩ := h.manifestPut
  obtain ⟨bytes, hHolds, hFile⟩ := own_file run .manifest h.toDrafted (.inr ⟨_, obj, rfl, hPut⟩)
  cases hFile with
  | @manifest d' hUp hID =>
    obtain rfl : d = d' := h.toDrafted.unique hUp.toDrafted (follows run t)
    exact hHolds

/-- Once a `Create` has put the signature, the snapshot is complete but for its
completion record. -/
theorem published (run : Ran P jobs history st)
    (h : ((jobs t).service P).SigPut (jobs t).command (ownCalls t history) d) (time : Time) :
    Published P st.world (jobs t).command.source.id d.snapID (((jobs t).service P).completion
      d.snapID (((jobs t).service P).payload (jobs t).command d) time).marshal := by
  obtain ⟨sig, obj, hSign, hPut⟩ := h.sigPut
  obtain ⟨sigBytes, hSig⟩ := holds_of_used run (.inr ⟨_, obj, rfl, hPut⟩)
  refine ⟨_, sigBytes, _, _, holds_manifest run h.toManifestPut, hSig,
    Completion.unmarshal_marshal (Service.completion_fits _ _ _ _), rfl,
    SnapshotManifest.unmarshal_marshal (((jobs t).service P).manifest_fits _ d), ?_⟩
  intro ch hch
  obtain ⟨x, hx, rfl⟩ := mem_map.mp hch
  exact holds_of_used run (h.used x hx)

/-- Where a completion record is, the snapshot is published, and the catalogue names no other. -/
def Ordered (P : Ports) (jobs : Nat → Job) (history : History) (w : World) : Prop :=
  (∀ t snapID completion, ⟨.newID "snap", snapID⟩ ∈ ownCalls t history →
    w.Holds P (completeKey (jobs t).command.source.id snapID) completion →
    Published P w (jobs t).command.source.id snapID completion) ∧
  ∀ row ∈ w.rows, ∃ bytes, w.Holds P row.snapshot.completionObjectKey bytes

theorem Ran.ordered (run : Ran P jobs history st) : Ordered P jobs history st.world := by
  constructor
  · intro t snapID completion hNamed hHolds
    obtain ⟨-, -, -, ⟨nano, random, hID⟩, -⟩ := (follows run t).of_mem hNamed
    have hPlain : Plain snapID.toList := by
      rw [show snapID = newID "snap" nano random from hID]
      exact newID_plain (by decide) nano random
    obtain ⟨t', j, hJob, hFile⟩ := (record run).snapshotFile .complete hHolds hPlain
    obtain rfl : jobs t' = j := Option.some.inj hJob
    cases hFile with
    | @complete d time hSig hEq =>
      obtain rfl : t = t' := (record run).owner hNamed (hEq ▸ hSig.named)
      exact hEq ▸ published run hSig time
  · intro row hRow
    obtain ⟨t, j, hJob, d, up, committed, hComplete, hSnap, -⟩ := (record run).committed hRow
    obtain rfl : jobs t = j := Option.some.inj hJob
    obtain ⟨time, obj, hPut⟩ := hComplete.completePut
    rw [hSnap]
    exact holds_of_used run (.inr ⟨_, obj, rfl, hPut⟩)

end

namespace Sample

def digest (message : Bytes) : Digest := ⟨List.replicate 32 (message.getLastD 0), by simp⟩

def ports (backend : Backend) : Ports where
  backend := backend
  hashes := ⟨fun _ message => digest message, digest⟩
  compressorName := "none"
  compress := .ok
  decompress := .ok
  encryptChunk := fun nonce _ plain => .ok (nonce.headD 0 :: plain)
  decryptChunk := fun _ bytes => .ok bytes.tail
  sign := fun payload => .ok [payload.getLastD 0]
  verify := fun payload sig =>
    if sig = [payload.getLastD 0] then .ok () else .error (.other "signature verification failed")
  toLower := id

/-- With the object store on a file system. -/
abbrev disk : Ports := ports .filesystem

def artifact : Artifact := ⟨⟨"16", 2, 2, ""⟩, [1, 2, 3], by decide, by decide, by decide, by decide⟩

def job : Job := ⟨[7], ⟨"repo", "key"⟩, 4, ⟨⟨"app", "postgres"⟩, .manual⟩⟩

def choices (n : Nat) : Choice := { time := n, artifact := some artifact }

def start (backend : Backend) : System Answer World (CreateResult × Option GoError) :=
  backups (ports backend) fun _ => job

def outcome (backend : Backend) : (CreateResult × Option GoError) × World × (Nat → Choice) :=
  ((start backend).threads 0).run (environment (ports backend)) ((start backend).world, choices)

def history (backend : Backend) : History :=
  ((start backend).threads 0).events (environment (ports backend)) 0 ((start backend).world, choices)

def final (backend : Backend) : System Answer World (CreateResult × Option GoError) :=
  ⟨(outcome backend).2.1, Function.update (start backend).threads 0 (.done (outcome backend).1)⟩

theorem execution :
    Execution (environment (ports .filesystem)) (start .filesystem) (history .filesystem) (final .filesystem) := by
  have hAdmissible : ((start .filesystem).threads 0).Admissible
      (environment (ports .filesystem)) ((start .filesystem).world, choices) := by decide +kernel
  have hSolo := Execution.solo .start 0 choices hAdmissible
  rw [append_nil] at hSolo
  unfold history final outcome
  exact hSolo

theorem committed : ∃ row ∈ (final .filesystem).world.rows, row.snapshot.id = "snap_8_" ∧
    row.snapshot.sourceID = "app" ∧ row.snapshot.snapshotMode = .logical := by decide +kernel

end Sample

end DBVault.Backup
