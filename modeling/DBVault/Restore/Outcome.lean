import DBVault.Restore
import DBVault.Ports.Files

/-! What `Restore` does, both ways round: if it succeeds the target holds the
chunks of a manifest that passed the checks, and if a manifest passes the
checks and its chunks open then it succeeds. -/
namespace DBVault.Restore
open Text Text.Path Interaction RemoteService Attempt World

variable {s : Service} {w : World} {snap : Snapshot} {man : SnapshotManifest} {tmp target : String}

structure Accepted (s : Service) (w : World) (snap : Snapshot) (payload : Bytes)
    (man : SnapshotManifest) : Prop where
  signed : s.Signed w snap payload
  parsed : SnapshotManifest.unmarshal payload = .ok man
  sameID : snap.id = "" ∨ man.snapshotID = snap.id
  root : s.RootFits man

theorem parseManifest_ok : parseManifest payload = .ok man ↔ SnapshotManifest.unmarshal payload = .ok man := by
  unfold parseManifest
  cases SnapshotManifest.unmarshal payload <;> simp [Except.mapError]

theorem checkID_ok : checkID snap man = .ok () ↔ snap.id = "" ∨ man.snapshotID = snap.id := by
  unfold checkID
  by_cases hEmpty : snap.id = "" <;> by_cases hSame : man.snapshotID = snap.id <;>
    simp [hEmpty, hSame]

theorem readAndVerifyManifest_sound :
    Attempt.Ensures (environment s.ports) Choice.Faithful (readAndVerifyManifest s snap) w
      (fun r w' => Accepted s w snap r.1 r.2 ∧ w' = w) (fun _ w' => w' = w) := by
  refine ensures_bind (s.readSigned_sound wording) ?_
  rintro payload _ ⟨hSigned, rfl⟩
  refine ensures_check_bind ?_ fun _ _ => rfl
  intro man hParsed
  refine ensures_check_bind ?_ fun _ _ => rfl
  intro _ hID
  refine ensures_check_bind ?_ fun _ _ => rfl
  intro _ hRoot
  exact ensures_pure ⟨⟨hSigned, parseManifest_ok.mp hParsed, checkID_ok.mp hID, s.checkRoot_ok.mp hRoot⟩, rfl⟩

theorem readAndVerifyManifest_complete (h : Accepted s w snap payload man) :
    Attempt.Ensures (environment s.ports) Choice.Clean (readAndVerifyManifest s snap) w
      (fun r w' => r = (payload, man) ∧ w' = w) failed := by
  refine ensures_bind (s.readSigned_complete wording h.signed) ?_
  rintro _ _ ⟨rfl, rfl⟩
  refine ensures_passed_bind (parseManifest_ok.mpr h.parsed) ?_
  refine ensures_passed_bind (checkID_ok.mpr h.sameID) ?_
  refine ensures_passed_bind (s.checkRoot_ok.mpr h.root) ?_
  exact ensures_pure ⟨rfl, rfl⟩

theorem readAndVerifyManifest_accepts {choices : Nat → Choice} (hClean : ∀ n, (choices n).Clean) :
    (∃ r, ((readAndVerifyManifest s snap).run.run (environment s.ports) (w, choices)).1 = .ok r) ↔
      ∃ payload man, Accepted s w snap payload man := by
  constructor
  · rintro ⟨r, hRun⟩
    exact ⟨r.1, r.2, (readAndVerifyManifest_sound.of_ok (fun n => (hClean n).faithful) hRun).1⟩
  · rintro ⟨payload, man, hAccepted⟩
    obtain ⟨r, hRun, -⟩ := (readAndVerifyManifest_complete hAccepted).succeeds hClean
    exact ⟨r, hRun⟩

theorem checkChunk_ok :
    checkChunk s man ch plain = .ok () ↔ (s.dedupKey.length > 0 → man.database.pageSize > 0 →
      s.ports.hashes.chunkID s.dedupKey man.database.pageSize plain = ch.chunkID) := by
  unfold checkChunk
  by_cases hChecked : s.dedupKey.length > 0 ∧ man.database.pageSize > 0
  · by_cases hID : s.ports.hashes.chunkID s.dedupKey man.database.pageSize plain = ch.chunkID <;>
      simp [hChecked, hID]
  · simp only [hChecked, if_false, true_iff]
    exact fun hKey hPage => absurd ⟨hKey, hPage⟩ hChecked

theorem openChunk_ok :
    openChunk s man ch encrypted = .ok plain ↔ ∃ compressed,
      s.ports.decryptChunk ch.chunkID encrypted = .ok compressed ∧
        s.ports.decompress compressed = .ok plain ∧ checkChunk s man ch plain = .ok () := by
  unfold openChunk
  cases hDecrypt : s.ports.decryptChunk ch.chunkID encrypted with
  | error err => simp [Except.mapError, bind, Except.bind]
  | ok compressed =>
    cases hDecompress : s.ports.decompress compressed with
    | error err => simp [Except.mapError, bind, Except.bind, hDecompress]
    | ok out =>
      cases hCheck : checkChunk s man ch out with
      | error err =>
        simp only [Except.mapError, bind, Except.bind, hDecompress, hCheck, reduceCtorEq,
          Except.ok.injEq, exists_eq_left', false_iff, not_and]
        rintro rfl
        simp [hCheck]
      | ok v =>
        simp only [Except.mapError, bind, Except.bind, hDecompress, hCheck, pure, Except.pure,
          Except.ok.injEq, exists_eq_left']
        constructor
        · rintro rfl
          exact ⟨rfl, hCheck⟩
        · exact fun h => h.1

def Opens (s : Service) (w : World) (man : SnapshotManifest) (ch : ChunkInfo) (plain : Bytes) :
    Prop :=
  ∃ encrypted, w.Holds s.ports ch.objectKey encrypted ∧ openChunk s man ch encrypted = .ok plain

def writeChunk (man : SnapshotManifest) (file : Bytes) (x : ChunkInfo × Bytes) : Bytes :=
  writeBytes file (offset man x.1).toNat x.2

def blank (man : SnapshotManifest) : Bytes :=
  if man.database.logicalSize > 0 then truncateBytes man.database.logicalSize.toNat [] else []

def assemble (man : SnapshotManifest) (plains : List Bytes) : Bytes :=
  (man.chunks.zip plains).foldl (writeChunk man) (blank man)

theorem restoreChunk_sound (hFile : w.files tmp = some file) :
    Attempt.Ensures (environment s.ports) Choice.Faithful (restoreChunk s man tmp ch) w
      (fun _ w' => ∃ plain, Opens s w man ch plain ∧
        w' = w.setFile tmp (some (writeChunk man file (ch, plain)))) (fun _ _ => True) := by
  refine ensures_bind (readObject_sound.mono_failed fun _ _ _ => trivial) ?_
  rintro encrypted _ ⟨hHolds, rfl⟩
  refine ensures_check_bind ?_ fun _ _ => trivial
  intro plain hOpen
  refine ensures_success ?_
  intro c _ _ hWritten
  obtain ⟨bytes, hBytes, -, hWorld⟩ := writeAt_ok s.ports hWritten
  obtain rfl : file = bytes := Option.some.inj (hFile.symm.trans hBytes)
  exact ⟨plain, ⟨encrypted, hHolds, hOpen⟩, hWorld⟩

theorem restoreChunks_sound (chs : List ChunkInfo) (hFile : w.files tmp = some file) :
    Attempt.Ensures (environment s.ports) Choice.Faithful (restoreChunks s man tmp chs) w
      (fun _ w' => ∃ plains, List.Forall₂ (Opens s w man) chs plains ∧
        w' = w.setFile tmp (some ((chs.zip plains).foldl (writeChunk man) file)))
      (fun _ _ => True) := by
  induction chs generalizing w file with
  | nil => exact ensures_pure ⟨[], .nil, (setFile_self hFile).symm⟩
  | cons ch rest ih =>
    refine ensures_bind (restoreChunk_sound hFile) ?_
    rintro _ _ ⟨plain, hOpens, rfl⟩
    refine (ih (setFile_files_self _ _ _)).mono ?_
    rintro _ _ ⟨plains, hRest, rfl⟩
    exact ⟨plain :: plains, .cons hOpens hRest, by simp⟩

theorem restoreChunk_complete
    (hFile : w.files tmp = some file) (hOpens : Opens s w man ch plain) (hOffset : 0 ≤ offset man ch) :
    Attempt.Ensures (environment s.ports) Choice.Clean (restoreChunk s man tmp ch) w
      (fun _ w' => w' = w.setFile tmp (some (writeChunk man file (ch, plain)))) failed := by
  obtain ⟨encrypted, hHolds, hOpen⟩ := hOpens
  refine ensures_bind (readObject_complete hHolds) ?_
  rintro _ _ ⟨rfl, rfl⟩
  refine ensures_passed_bind hOpen ?_
  exact ensures_done (Program.ensures_ask (fun c hc => writeAt_clean s.ports hc hFile hOffset) ⟨rfl, rfl⟩) rfl

variable {plains : List Bytes}

theorem restoreChunks_complete (hFile : w.files tmp = some file)
    (hOpens : List.Forall₂ (Opens s w man) chs plains) (hOffset : ∀ ch ∈ chs, 0 ≤ offset man ch) :
    Attempt.Ensures (environment s.ports) Choice.Clean (restoreChunks s man tmp chs) w
      (fun _ w' => w' = w.setFile tmp (some ((chs.zip plains).foldl (writeChunk man) file)))
      failed := by
  induction chs generalizing w file plains with
  | nil => exact ensures_pure (by simp [setFile_self hFile])
  | cons ch rest ih =>
    cases hOpens with
    | @cons _ plain _ plains hOpen hRest =>
      refine ensures_bind (restoreChunk_complete hFile hOpen (hOffset ch (by simp))) ?_
      rintro _ _ rfl
      refine (ih (setFile_files_self _ _ _) hRest ?_).mono ?_
      · exact fun ch hch => hOffset ch (by simp [hch])
      · rintro _ _ rfl
        simp

theorem setSize_sound (hFile : w.files tmp = some []) :
    Attempt.Ensures (environment s.ports) Choice.Faithful (setSize man tmp) w
      (fun _ w' => w' = w.setFile tmp (some (blank man))) (fun _ _ => True) := by
  unfold setSize blank
  split
  · refine ensures_success ?_
    intro c _ _ hDone
    obtain ⟨bytes, hBytes, hWorld⟩ := truncate_ok s.ports hDone
    obtain rfl : [] = bytes := Option.some.inj (hFile.symm.trans hBytes)
    exact hWorld
  · exact ensures_pure (setFile_self hFile).symm

theorem setSize_complete (hFile : w.files tmp = some []) :
    Attempt.Ensures (environment s.ports) Choice.Clean (setSize man tmp) w
      (fun _ w' => w' = w.setFile tmp (some (blank man))) failed := by
  unfold setSize blank
  split
  · exact ensures_done (Program.ensures_ask (fun c hc => truncate_clean s.ports hc hFile) ⟨rfl, rfl⟩) rfl
  · exact ensures_pure (setFile_self hFile).symm

theorem validate_sound :
    Attempt.Ensures (environment s.ports) Choice.Faithful (validate man tmp) w
      (fun _ w' => w' = w) (fun _ _ => True) := by
  unfold validate
  split
  · refine ensures_success_bind ?_
    intro c _ file _
    exact ensures_check (fun _ _ => rfl) fun _ _ => trivial
  · exact ensures_pure rfl

def Valid (man : SnapshotManifest) (file : Bytes) : Prop :=
  man.database.engine = "" ∨ man.database.engine = "sqlite" → sqliteHeader <+: file

theorem checkHeader_ok (h : sqliteHeader <+: file) : checkHeader ⟨file, none⟩ = .ok () := by
  obtain ⟨rest, rfl⟩ := h
  have hLength : sqliteHeader.length = 16 := by decide
  have hTake : (sqliteHeader ++ rest).take 16 = sqliteHeader := by
    rw [← hLength]
    exact List.take_left
  have hEnough : 16 ≤ (sqliteHeader ++ rest).length := by simp [hLength]
  simp only [checkHeader, Stream.readFull, hEnough, if_true, hTake]

theorem validate_complete (hFile : w.files tmp = some file) (hValid : Valid man file) :
    Attempt.Ensures (environment s.ports) Choice.Clean (validate man tmp) w (fun _ w' => w' = w) failed := by
  unfold validate
  split
  · rename_i hEngine
    refine ensures_done_bind (Program.ensures_ask (fun c hc => openFile_clean s.ports hc hFile) ⟨rfl, rfl⟩) ?_
    rw [checkHeader_ok (hValid hEngine)]
    exact rfl
  · exact ensures_pure rfl

theorem fill_sound (hFile : w.files tmp = some []) :
    Attempt.Ensures (environment s.ports) Choice.Faithful (fill s man tmp) w
      (fun _ w' => ∃ plains, List.Forall₂ (Opens s w man) man.chunks plains ∧
        w' = w.setFile tmp (some (assemble man plains))) (fun _ _ => True) := by
  refine ensures_bind (setSize_sound hFile) ?_
  rintro _ _ rfl
  refine ensures_bind (restoreChunks_sound _ (setFile_files_self _ _ _)) ?_
  rintro _ _ ⟨plains, hOpens, rfl⟩
  refine ensures_success_bind ?_
  intro c _ _ _
  refine ensures_success_bind ?_
  intro c _ _ _
  refine Attempt.Ensures.mono validate_sound ?_
  rintro _ _ rfl
  exact ⟨plains, hOpens, setFile_setFile _ _ _ _⟩

theorem fill_complete (hFile : w.files tmp = some [])
    (hOpens : List.Forall₂ (Opens s w man) man.chunks plains)
    (hOffset : ∀ ch ∈ man.chunks, 0 ≤ offset man ch) (hValid : Valid man (assemble man plains)) :
    Attempt.Ensures (environment s.ports) Choice.Clean (fill s man tmp) w
      (fun _ w' => w' = w.setFile tmp (some (assemble man plains))) failed := by
  refine ensures_bind (setSize_complete hFile) ?_
  rintro _ _ rfl
  refine ensures_bind (restoreChunks_complete (setFile_files_self _ _ _) hOpens hOffset) ?_
  rintro _ _ rfl
  refine ensures_done_bind (Program.ensures_ask (fun c hc => sync_clean s.ports hc) ⟨rfl, rfl⟩) ?_
  refine ensures_done_bind (Program.ensures_ask (fun c hc => close_clean s.ports hc) ⟨rfl, rfl⟩) ?_
  refine (validate_complete (setFile_files_self _ _ _) hValid).mono ?_
  rintro _ _ rfl
  simp [assemble]

theorem append_ne {base suffix other : String} (h : suffix ≠ other) : base ++ suffix ≠ base ++ other := by
  intro hEq
  have hChars := congrArg String.toList hEq
  rw [String.toList_append, String.toList_append] at hChars
  exact h (String.toList_inj.mp (List.append_cancel_left hChars))

theorem tmpPath_ne (target : String) : tmpPath target ≠ target := by simp [tmpPath]

theorem tmpPath_ne_rollbackPath (target : String) (t : Time) : tmpPath target ≠ rollbackPath target t := by
  unfold tmpPath rollbackPath
  rw [String.append_assoc]
  apply append_ne
  intro hEq
  have hChars := congrArg (fun text => text.toList[11]?) hEq
  simp at hChars

theorem keepOld_sound (replace : Bool) :
    Attempt.Ensures (environment s.ports) Choice.Faithful (keepOld target replace) w
      (fun _ w' => w'.files (tmpPath target) = w.files (tmpPath target)) (fun _ _ => True) := by
  unfold keepOld
  split
  · refine ensures_lift_bind ?_
    intro c _
    cases hStat : (perform s.ports w (.stat target) c).1 with
    | error err => exact (rfl : w.files (tmpPath target) = w.files (tmpPath target))
    | ok info =>
      refine ensures_lift_bind ?_
      intro c' _
      refine ensures_success ?_
      intro c'' _ _ hDone
      obtain ⟨bytes, -, hWorld⟩ := rename_ok s.ports hDone
      rw [hWorld, setFile_files_of_ne _ _ (tmpPath_ne_rollbackPath target _),
        setFile_files_of_ne _ _ (tmpPath_ne target)]
      rfl
  · exact ensures_pure rfl

theorem keepOld_complete (replace : Bool) (hFresh : w.files target = none) :
    Attempt.Ensures (environment s.ports) Choice.Clean (keepOld target replace) w (fun _ w' => w' = w) failed := by
  unfold keepOld
  split
  · refine ensures_lift_bind (Program.ensures_ask (fun c hc => stat_clean_none s.ports hc hFresh) ?_)
    exact ensures_pure rfl
  · exact ensures_pure rfl

theorem cleaningUp_sound (h : Attempt.Ensures (environment P) Choice.Faithful body w post fun _ _ => True) :
    Attempt.Ensures (environment P) Choice.Faithful (cleaningUp tmp body) w post fun _ _ => True := by
  refine Program.ensures_bind h ?_
  intro result w' hPost
  cases result with
  | ok value => exact hPost
  | error err => exact fun _ _ _ _ => trivial

theorem cleaningUp_complete (h : Attempt.Ensures (environment P) Choice.Clean body w post fun _ _ => False) :
    Attempt.Ensures (environment P) Choice.Clean (cleaningUp tmp body) w post failed := by
  refine Program.ensures_bind h ?_
  intro result w' hPost
  cases result with
  | ok value => exact hPost
  | error err => exact hPost.elim

def Restored (s : Service) (w : World) (id : String) (file : Bytes) : Prop :=
  ∃ row payload man plains, w.rows.find? (·.snapshot.id == id) = some row ∧
    Accepted s w row.snapshot payload man ∧ List.Forall₂ (Opens s w man) man.chunks plains ∧
    file = assemble man plains

theorem restore_sound (s : Service) (w : World) (id target : String) (replace : Bool) :
    Attempt.Ensures (environment s.ports) Choice.Faithful (restore s id target replace) w
      (fun _ w' => ∃ file, w'.files target = some file ∧ Restored s w id file)
      (fun _ _ => True) := by
  refine ensures_lift_bind ?_
  intro c _
  refine ensures_check_bind ?_ fun _ _ => trivial
  intro _ _
  refine ensures_success_bind ?_
  intro c' _ found hFound
  obtain ⟨row, hRow, hSnap⟩ := getSnapshot_ok s.ports hFound
  refine ensures_bind (readAndVerifyManifest_sound.mono_failed fun _ _ _ => trivial) ?_
  rintro ⟨payload, man⟩ _ ⟨hAccepted, rfl⟩
  refine ensures_success_bind ?_
  intro c'' _ _ _
  refine ensures_lift_bind ?_
  intro cRemove _
  refine ensures_success_bind ?_
  intro cOpen _ _ hOpen
  apply cleaningUp_sound
  obtain ⟨content, hRemove⟩ := remove_cases s.ports _ (tmpPath target) cRemove
  rw [openTrunc_ok s.ports hOpen, hRemove, setFile_setFile]
  refine ensures_bind (fill_sound (setFile_files_self _ _ _)) ?_
  rintro _ _ ⟨plains, hOpens, rfl⟩
  refine ensures_bind (keepOld_sound replace) ?_
  intro _ w' hTmp
  refine ensures_success ?_
  intro cRename _ _ hRename
  obtain ⟨bytes, hBytes, hWorld⟩ := rename_ok s.ports hRename
  rw [hTmp, setFile_files_self] at hBytes
  obtain rfl : assemble man plains = bytes := Option.some.inj hBytes
  refine ⟨assemble man plains, by rw [hWorld, setFile_files_self],
    row, payload, man, plains, hRow, ?_, hOpens, rfl⟩
  rw [hSnap]
  exact hAccepted

theorem restore_complete {id : String} (replace : Bool)
    (hRow : w.rows.find? (·.snapshot.id == id) = some row) (hAccepted : Accepted s w row.snapshot payload man)
    (hOpens : List.Forall₂ (Opens s w man) man.chunks plains) (hOffset : ∀ ch ∈ man.chunks, 0 ≤ offset man ch)
    (hValid : Valid man (assemble man plains)) (hFresh : w.files target = none) :
    Attempt.Ensures (environment s.ports) Choice.Clean (restore s id target replace) w
      (fun _ w' => w'.files target = some (assemble man plains)) (fun _ _ => False) := by
  have hOther := (tmpPath_ne target).symm
  refine ensures_lift_bind (Program.ensures_ask (fun c hc => stat_clean_none s.ports hc hFresh) ?_)
  refine ensures_passed_bind (rfl : checkTarget replace (.error .notExist) = .ok ()) ?_
  refine ensures_done_bind (Program.ensures_ask (fun c hc => getSnapshot_clean s.ports hc hRow) ⟨rfl, rfl⟩) ?_
  refine ensures_bind (readAndVerifyManifest_complete hAccepted) ?_
  rintro _ _ ⟨rfl, rfl⟩
  refine ensures_done_bind (Program.ensures_ask (fun c hc => mkdirAll_clean s.ports hc) ⟨rfl, rfl⟩) ?_
  refine ensures_lift_bind (Program.ensures_ask (fun c hc => remove_clean s.ports hc) ?_)
  refine ensures_done_bind (Program.ensures_ask (fun c hc => openTrunc_clean s.ports hc) ⟨rfl, rfl⟩) ?_
  apply cleaningUp_complete
  refine ensures_bind (fill_complete (setFile_files_self _ _ _) hOpens hOffset hValid) ?_
  rintro _ _ rfl
  rw [setFile_setFile, setFile_setFile]
  refine ensures_bind (keepOld_complete replace (by rw [setFile_files_of_ne _ _ hOther, hFresh])) ?_
  rintro _ _ rfl
  exact ensures_done (Program.ensures_ask
    (fun c hc => rename_clean s.ports hc (setFile_files_self _ _ _)) ⟨rfl, rfl⟩)
    (setFile_files_self _ _ _)

end DBVault.Restore
