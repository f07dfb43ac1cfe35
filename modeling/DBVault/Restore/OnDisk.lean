import DBVault.Deduplication

/-! Backups whose object store is on a file system: what is published, restored and taken for a
duplicate. All of it rests on no key of an object leading below another. -/
namespace DBVault.Restore
open List Text Interaction Backup Hashes

section
variable {P : Ports} {jobs : Nat → Job} {history : History}
  {st : System Answer Disk (CreateResult × Option GoError)}

/-- Snapshots are published in order, in every run of any number of `Create` calls, stopped anywhere
and with any failures. -/
theorem publication_order (run : Execution (onDisk P) (backupsOnDisk P jobs) history st)
    (hApart : Apart P history) : Ordered P jobs history st.world.toWorld :=
  (ran_of_disk run hApart).ordered

/-- Every snapshot in the catalogue is the backup of an artifact, and restores to exactly its bytes. -/
theorem backup_restore_roundTrip {key : Bytes} (hP : P.Lawful) (hKey : ∀ t, (jobs t).dedupKey = key)
    (run : Execution (onDisk P) (backupsOnDisk P jobs) history st) (hApart : Apart P history)
    (hInj : Set.InjOn (P.hashes.hmac key) (hashed P jobs history)) (hasSigner : Bool)
    {row : CatalogueRow} (hRow : row ∈ st.world.rows) :
    (∃ art, BackedUp history row art) ∧ ∀ art, BackedUp history row art →
      (row.snapshot.snapshotMode = .onlineBackup → sqliteHeader <+: art.content) →
      Restores ⟨P, hasSigner, key⟩ st.world.toWorld row.snapshot.id art.content :=
  ⟨exists_backedUp (ran_of_disk run hApart) hRow, fun _ hArt hHeader =>
    restores hP hKey (ran_of_disk run hApart) hInj hasSigner hRow hArt hHeader⟩

theorem took_of_done (run : Execution (onDisk P) (backupsOnDisk P jobs) history st) (hApart : Apart P history)
    {t : Nat} {result : CreateResult} (hDone : st.threads t = .done (result, none)) :
    ∃ art, Service.Took (ownCalls t history) art :=
  (outcome (ran_of_disk run hApart) hDone).took

/-- What is stored as a manifest is one that some call has put there, whatever stands in the way of others. -/
theorem manifest_on_disk (run : Execution (onDisk P) (backupsOnDisk P jobs) history st) {a : Address} {id : String}
    {payload : Bytes} (hEnds : EndsIn a (snapshotTail id FileKind.manifest.name))
    (hFind : st.world.objects.find a = some payload) : ∃ e ∈ history, ∃ key d,
      e.call.op.key? = some key ∧ P.backend.locate key = .ok a ∧ Service.Took (ownCalls e.thread history) d.art ∧
      payload = ((jobs e.thread).service P).payload (jobs e.thread).command d := by
  obtain ⟨e, hMem, req, hPut, hLocate, hBody⟩ := Disk.objects_put run rfl a payload hFind
  have hFollows : ((jobs e.thread).rules P).Follows (ownCalls e.thread history) :=
    run.follows (backups_obey P jobs) (fun _ d op c _ => Disk.legal_perform P d op c) e.thread
  obtain ⟨earlier, hSuffix, hPermits, -, hEarlier⟩ := hFollows.of_mem (mem_ownCalls_of_mem hMem)
  rw [hPut] at hPermits
  have hFile := Service.MayPut.snapshotFile hPermits hEarlier hLocate hEnds
  rw [hBody] at hFile
  refine ⟨e, hMem, req.key, ?_⟩
  cases hFile with
  | @manifest d hUp hID =>
    refine ⟨d, by rw [hPut]; rfl, hLocate, hUp.took.mono ?_, rfl⟩
    exact ((suffix_cons _ _).trans hSuffix).subset

end

/-- Equal root digests mean equal page sizes and contents, the same bytes give the same digest, and
what `Create` reports as a duplicate is restored from the snapshot it names. -/
theorem deduplication_sound (P : Ports) (key : Bytes) :
    (∀ (art other : Artifact) (targetBytes otherBytes : Int),
      Set.InjOn (P.hashes.hmac key) (art.rootTexts P.hashes key targetBytes ∪ other.rootTexts P.hashes key otherBytes) →
      art.rootDigest P.hashes key targetBytes = other.rootDigest P.hashes key otherBytes →
      art.metadata.pageSize = other.metadata.pageSize ∧ art.content = other.content) ∧
    (∀ (art other : Artifact) (targetBytes : Int),
      art.metadata.pageSize = other.metadata.pageSize → art.content = other.content →
      art.rootDigest P.hashes key targetBytes = other.rootDigest P.hashes key targetBytes) ∧
    ∀ (jobs : Nat → Job) (history : History) (st : System Answer Disk (CreateResult × Option GoError))
      (hasSigner : Bool), P.Lawful → (∀ t, (jobs t).dedupKey = key) →
      Execution (onDisk P) (backupsOnDisk P jobs) history st → Apart P history →
      Set.InjOn (P.hashes.hmac key) (digested P jobs key history) →
      ∀ t result existing art, st.threads t = .done (result, none) → result.duplicate = true →
        result.snapshot = some existing → Service.Took (ownCalls t history) art →
        Yields ⟨P, hasSigner, key⟩ st.world.toWorld existing.id art.content ∧
        ((existing.snapshotMode = .onlineBackup → sqliteHeader <+: art.content) →
          Restores ⟨P, hasSigner, key⟩ st.world.toWorld existing.id art.content) :=
  ⟨fun _ _ _ _ hInj hRoot => Artifact.eq_of_rootDigest hInj hRoot,
    fun _ _ _ hPage hContent => Artifact.rootDigest_eq_of_content hPage hContent,
    fun _ _ _ _ hP hKey run hApart hInj _ _ _ _ hDone hDuplicate hSnapshot hTook =>
      duplicate_restores hP hKey (ran_of_disk run hApart) hInj hDone hDuplicate hSnapshot hTook⟩

namespace Sample
open Backup.Sample

abbrev DiskRun := History × System Answer Disk (CreateResult × Option GoError)

/-- One more of the calls on the disk, run to its end. -/
def onward (t : Nat) (choices : Nat → Choice) (run : DiskRun) : DiskRun :=
  Interaction.onward (onDisk disk) t choices run

def OnDiskRun (jobs : Nat → Job) (run : DiskRun) : Prop :=
  Execution (onDisk disk) (backupsOnDisk disk jobs) run.1 run.2

abbrev Onward (t : Nat) (choices : Nat → Choice) (run : DiskRun) : Prop :=
  (run.2.threads t).Admissible (onDisk disk) (run.2.world, choices)

theorem OnDiskRun.onward {jobs : Nat → Job} {run : DiskRun} {t : Nat} {choices : Nat → Choice}
    (hRun : OnDiskRun jobs run) (h : Onward t choices run) : OnDiskRun jobs (onward t choices run) :=
  Execution.onward hRun h

def later (n : Nat) : Choice := { time := n + 100, artifact := some artifact }

def first : DiskRun := onward 0 choices ([], backupsOnDisk disk fun _ => job)

def twice : DiskRun := onward 1 later first

theorem twice_facts : Onward 0 choices ([], backupsOnDisk disk fun _ => job) ∧ Onward 1 later first ∧
    (∀ a ∈ addresses disk twice.1, ∀ b ∈ addresses disk twice.1, below a b = false) ∧
    twice.2.world.rows.map (fun row => (row.snapshot.id, row.snapshot.snapshotMode)) = [("snap_8_", .logical)] ∧
    (ended twice 1).map (fun out => (out.1.duplicate, out.1.snapshot.map (fun s => (s.id, s.snapshotMode)), out.2.isNone)) =
      some (true, some ("snap_8_", .logical), true) ∧
    (disk.hashes.hmac [7] (rootMessage 2 3 (artifact.rootEntries disk.hashes [7] 4))).bytes ≠
      (disk.hashes.hmac [7] (chunkMessage 2 [1, 2, 3])).bytes := by
  decide +kernel

theorem twice_run : OnDiskRun (fun _ => job) twice :=
  OnDiskRun.onward (OnDiskRun.onward .start twice_facts.1) twice_facts.2.1

theorem twice_apart : Apart disk twice.1 := fun _ => twice_facts.2.2.1

def TookArtifact (history : History) : Prop := ∀ t art, Service.Took (ownCalls t history) art → art = artifact

theorem TookArtifact.onward {run : DiskRun} (h : TookArtifact run.1) (t : Nat) {choices : Nat → Choice}
    (hChoices : ∀ n, (choices n).artifact = some artifact) : TookArtifact (onward t choices run).1 := by
  rintro t' art ⟨req, hCall⟩
  rw [Sample.onward, Interaction.onward, ownCalls_append, mem_append] at hCall
  rcases hCall with hLater | hEarlier
  · obtain ⟨e, hMem, -, hEvent⟩ := mem_ownCalls.mp hLater
    obtain ⟨n, w, -, hAnswer⟩ := Program.mem_events hMem
    rw [hEvent] at hAnswer
    have hRead := reading_ok hAnswer.symm
    rw [hChoices n] at hRead
    exact (Except.ok.inj hRead).symm
  · exact h t' art ⟨req, hEarlier⟩

theorem tookArtifact_nil : TookArtifact [] := by
  rintro t art ⟨req, hCall⟩
  cases hCall

theorem twice_took : TookArtifact twice.1 := (tookArtifact_nil.onward 0 fun _ => rfl).onward 1 fun _ => rfl

theorem digested_injOn {history : History} (h : TookArtifact history) :
    Set.InjOn (disk.hashes.hmac [7]) (digested disk (fun _ => job) [7] history) := by
  have hChunks : ∀ ch ∈ artifact.chunks 4, ch.data = [1, 2, 3] := by decide
  have hTexts : ∀ message ∈ digested disk (fun _ => job) [7] history,
      message = rootMessage 2 3 (artifact.rootEntries disk.hashes [7] 4) ∨
      message = chunkMessage 2 [1, 2, 3] := by
    rintro message ⟨t, art, hTook, hText⟩
    obtain rfl := h t art hTook
    rcases hText with rfl | ⟨ch, hch, rfl⟩
    · exact .inl rfl
    · exact .inr (by rw [hChunks ch hch]; rfl)
  have hApart := twice_facts.2.2.2.2.2
  intro message hMem message' hMem' hHash
  have hBytes := congrArg Digest.bytes hHash
  rcases hTexts message hMem with rfl | rfl <;> rcases hTexts message' hMem' with rfl | rfl
  · rfl
  · exact absurd hBytes hApart
  · exact absurd hBytes.symm hApart
  · rfl

theorem publication_order_sample : Apart disk twice.1 ∧
    Ordered disk (fun _ => job) twice.1 twice.2.world.toWorld :=
  ⟨twice_apart, publication_order twice_run twice_apart⟩

theorem backup_restore_roundTrip_sample : ∃ row ∈ twice.2.world.rows, BackedUp twice.1 row artifact ∧
    Restores server twice.2.world.toWorld row.snapshot.id [1, 2, 3] := by
  obtain ⟨-, -, -, hRows, -⟩ := twice_facts
  obtain ⟨row, rest, hTwice, hRow, -⟩ := map_eq_cons_iff.mp hRows
  have hMem : row ∈ twice.2.world.rows := by rw [hTwice]; exact mem_cons_self
  obtain ⟨⟨art, hArt⟩, hRestores⟩ := backup_restore_roundTrip (lawful_sample .filesystem) (fun _ => rfl) twice_run
    twice_apart ((digested_injOn twice_took).mono hashed_subset_digested) true hMem
  have hArtifact := hArt
  obtain ⟨t, records, answer, hCall, hTook⟩ := hArt
  obtain rfl := twice_took t art hTook
  refine ⟨row, hMem, hArtifact, hRestores _ hArtifact fun hOnline => ?_⟩
  rw [(Prod.mk.inj hRow).2] at hOnline
  cases hOnline

/-- The second call is a duplicate of the first. -/
theorem deduplication_sound_sample : ∃ result, twice.2.threads 1 = .done (result, none) ∧
    result.duplicate = true ∧ Restores server twice.2.world.toWorld "snap_8_" [1, 2, 3] := by
  obtain ⟨-, -, -, -, hEnded, -⟩ := twice_facts
  obtain ⟨⟨result, err⟩, hOut, hFacts⟩ := Option.map_eq_some_iff.mp hEnded
  obtain ⟨hDuplicate, hSnapshot, hErr⟩ : result.duplicate = true ∧
      result.snapshot.map (fun s => (s.id, s.snapshotMode)) = some ("snap_8_", .logical) ∧ err.isNone = true := by
    simpa using hFacts
  obtain rfl := Option.isNone_iff_eq_none.mp hErr
  obtain ⟨existing, hExisting, hNamed⟩ := Option.map_eq_some_iff.mp hSnapshot
  obtain ⟨hID, hMode⟩ := Prod.mk.inj hNamed
  have hDone := ended_eq hOut
  obtain ⟨art, hTook⟩ := took_of_done twice_run twice_apart hDone
  obtain rfl := twice_took 1 art hTook
  have hSound := (deduplication_sound disk [7]).2.2 (fun _ => job) twice.1 twice.2 true
    (lawful_sample .filesystem) (fun _ => rfl) twice_run twice_apart (digested_injOn twice_took) 1 _ existing
    artifact hDone hDuplicate hExisting hTook
  rw [hID, hMode] at hSound
  exact ⟨result, hDone, hDuplicate, hSound.2 (by simp)⟩

/-- The key of the chunk that the artifact has. -/
def chunkKey : String := chunkObjectKey "app" "key" (digest [3]).hex

/-- One source has the name of another one's chunk. -/
def clashing (t : Nat) : Job := if t = 0 then { job with command := ⟨⟨chunkKey, "postgres"⟩, .manual⟩ } else job

/-- The signer fails, when the chunk has been stored. -/
def unsigned (n : Nat) : Choice := { choices n with fault := if n = 14 then .refuse (.other "signing failed") else .none }

def nested : DiskRun := onward 0 unsigned ([], backupsOnDisk disk clashing)

def repeated (n : Nat) : Choice := { time := n + 200, artifact := some artifact }

/-- The other source is backed up twice. -/
def clash : DiskRun := onward 2 repeated (onward 1 later nested)

/-- The chunk of the snapshot is not stored, and its manifest not put by the source that has the chunk's name. -/
abbrev Lost (run : DiskRun) : Prop :=
  (run.2.world.findObject .filesystem chunkKey).toOption = none ∧
    ((run.2.world.rows.find? (·.snapshot.id == "snap_108_")).map fun row =>
      (row.snapshot.manifestObjectKey, row.snapshot.snapshotMode)) =
        some (manifestKey "app" "snap_108_", .logical) ∧
    (run.2.world.files "out").isNone = true ∧
    ∀ e ∈ run.1, e.thread = 0 → (e.call.op.key?.bind fun key => (Backend.filesystem.locate key).toOption) ≠
      (Backend.filesystem.locate (manifestKey "app" "snap_108_")).toOption

theorem clash_facts : (Onward 0 unsigned ([], backupsOnDisk disk clashing) ∧ Onward 1 later nested ∧
      Onward 2 repeated (onward 1 later nested)) ∧ Lost clash ∧
    (writer.identified artifact).map (fun x => writer.chunkKey job.command x.2) = [chunkKey] ∧
    (clash.2.world.findObject .filesystem (completeKey "app" "snap_108_")).toOption.isSome = true ∧
    (ended clash 2).map (fun out => (out.1.duplicate, out.1.snapshot.map (·.id), out.2.isNone)) =
      some (true, some "snap_108_", true) := by
  decide +kernel

theorem clash_run : OnDiskRun clashing clash := by
  obtain ⟨⟨hNested, hLater, hRepeated⟩, -⟩ := clash_facts
  exact OnDiskRun.onward (OnDiskRun.onward (OnDiskRun.onward .start hNested) hLater) hRepeated

/-- What is parsed of the manifest lists the chunk. -/
theorem not_held {run : DiskRun} (hRun : OnDiskRun clashing run) (hLost : Lost run) (hTook : TookArtifact run.1)
    {payload : Bytes} {man : SnapshotManifest}
    (hPayload : run.2.world.Holds disk (manifestKey "app" "snap_108_") payload)
    (hParsed : SnapshotManifest.unmarshal payload = .ok man) :
    ∃ ch ∈ man.chunks, ¬ ∃ bytes, run.2.world.Holds disk ch.objectKey bytes := by
  obtain ⟨hChunk, -, -, hOther⟩ := hLost
  obtain ⟨a, hLocate, hFind⟩ := World.holds_iff.mp hPayload
  have hEnds := snapshotKey_endsIn .manifest (show Text.Path.Plain "snap_108_".toList by decide) hLocate
  obtain ⟨e, hMem, key, ⟨art, id, now⟩, hKey, hAt, hArt, rfl⟩ := manifest_on_disk hRun hEnds hFind
  obtain rfl := hTook _ _ hArt
  have hThread : e.thread ≠ 0 := by
    intro hZero
    refine hOther e hMem hZero ?_
    rw [hKey, Option.bind_some]
    exact congrArg Except.toOption (hAt.trans hLocate.symm)
  rw [show clashing e.thread = job from if_neg hThread] at hParsed
  have hMarshal := SnapshotManifest.unmarshal_marshal (writer.manifest_fits job.command ⟨artifact, id, now⟩)
  obtain rfl := Except.ok.inj (hParsed.symm.trans hMarshal)
  obtain ⟨x, rest, hIdentified, hName, -⟩ := map_eq_cons_iff.mp clash_facts.2.2.1
  refine ⟨writer.chunkInfo job.command x, mem_map_of_mem (by rw [hIdentified]; exact mem_cons_self), ?_⟩
  rintro ⟨bytes, hHolds⟩
  have hFound : run.2.world.findObject .filesystem chunkKey = .ok bytes := hName ▸ hHolds
  rw [hFound] at hChunk
  cases hChunk

theorem not_restores {run : DiskRun} (hRun : OnDiskRun clashing run) (hLost : Lost run) (hTook : TookArtifact run.1)
    (content : Bytes) : ¬ Restores server run.2.world.toWorld "snap_108_" content := by
  intro hRestores
  have hRow := hLost.2.1
  have hFresh := hLost.2.2.1
  obtain ⟨hOk, -⟩ := hRestores "out" false calm (Option.isNone_iff_eq_none.mp hFresh) calm_clean
  obtain ⟨file, -, row, payload, man, plains, hFind, hAccepted, hOpens, -⟩ :=
    (restore_sound server run.2.world.toWorld "snap_108_" "out" false).of_ok (fun n => (calm_clean n).faithful) hOk
  rw [hFind, Option.map_some, Option.some.injEq, Prod.mk.injEq] at hRow
  have hPayload := hAccepted.signed.manifest
  rw [hRow.1] at hPayload
  obtain ⟨ch, hIn, hNot⟩ := not_held hRun hLost hTook hPayload hAccepted.parsed
  have hOpened := (forall₂_and_left _ _).mp (hOpens.imp fun _ plain h => (⟨⟨plain, h⟩, trivial⟩ : (∃ p, _) ∧ True))
  obtain ⟨plain, encrypted, hHolds, -⟩ := hOpened.1 ch hIn
  exact hNot ⟨encrypted, hHolds⟩

theorem clash_lost : Lost clash := clash_facts.2.1

theorem clash_took : TookArtifact clash.1 :=
  ((tookArtifact_nil.onward 0 fun _ => rfl).onward 1 fun _ => rfl).onward 2 fun _ => rfl

end Sample

open Sample Backup.Sample

/-- A completion record is there and a chunk that the manifest lists is not: its key was a directory. -/
theorem publication_disordered : Execution (onDisk disk) (backupsOnDisk disk clashing)
      clash.1 clash.2 ∧
    ∃ completion, clash.2.world.Holds disk (completeKey "app" "snap_108_") completion ∧
      ¬ Published disk clash.2.world.toWorld "app" "snap_108_" completion := by
  obtain ⟨completion, hCompletion⟩ := Option.isSome_iff_exists.mp clash_facts.2.2.2.1
  refine ⟨clash_run, completion, eq_ok_of_toOption hCompletion, ?_⟩
  rintro ⟨payload, sig, c, man, hPayload, -, -, -, hParsed, hChunks⟩
  obtain ⟨ch, hIn, hNot⟩ := not_held clash_run clash_lost clash_took hPayload hParsed
  exact hNot (hChunks ch hIn)

/-- The snapshot is in the catalogue, and cannot be restored. -/
theorem committed_not_restored : Execution (onDisk disk)
      (backupsOnDisk disk clashing) clash.1 clash.2 ∧
    ∃ row ∈ clash.2.world.rows, row.snapshot.id = "snap_108_" ∧ row.snapshot.snapshotMode = .logical ∧
      ¬ ∃ content, Restores server clash.2.world.toWorld row.snapshot.id content := by
  obtain ⟨row, hFind, hRow⟩ := Option.map_eq_some_iff.mp clash_lost.2.1
  have hID : row.snapshot.id = "snap_108_" := by simpa using find?_some hFind
  refine ⟨clash_run, row, mem_of_find?_eq_some hFind, hID, (Prod.mk.inj hRow).2, ?_⟩
  rintro ⟨content, hRestores⟩
  exact not_restores clash_run clash_lost clash_took content (hID ▸ hRestores)

/-- A call ends as a duplicate of a snapshot that cannot be restored. -/
theorem duplicate_not_restored : Execution (onDisk disk)
      (backupsOnDisk disk clashing) clash.1 clash.2 ∧
    ∃ result existing, clash.2.threads 2 = .done (result, none) ∧ result.duplicate = true ∧
      result.snapshot = some existing ∧ ¬ ∃ content, Restores server clash.2.world.toWorld existing.id content := by
  obtain ⟨⟨result, err⟩, hOut, hFacts⟩ := Option.map_eq_some_iff.mp clash_facts.2.2.2.2
  obtain ⟨hDuplicate, hSnapshot, hErr⟩ : result.duplicate = true ∧
      result.snapshot.map (·.id) = some "snap_108_" ∧ err.isNone = true := by
    simpa using hFacts
  obtain rfl := Option.isNone_iff_eq_none.mp hErr
  obtain ⟨existing, hExisting, hID⟩ := Option.map_eq_some_iff.mp hSnapshot
  refine ⟨clash_run, result, existing, ended_eq hOut, hDuplicate, hExisting, ?_⟩
  rintro ⟨content, hRestores⟩
  exact not_restores clash_run clash_lost clash_took content (hID ▸ hRestores)

end DBVault.Restore
