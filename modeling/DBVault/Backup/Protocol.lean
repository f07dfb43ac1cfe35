import DBVault.Backup

/-! What a `Create` may have done by each point. Everything here follows from
the program alone: which calls precede an upload, a publication step or a
catalogue entry, whatever the answers to them were. -/
namespace DBVault.Backup
open List Text Interaction Attempt

/-- What one `Create` works on: its artifact, the snapshot's identifier and the
time it started. -/
@[ext] structure Draft where
  art : Artifact
  snapID : String
  now : Time

namespace Service
variable (s : Service) (cmd : Command)

def identified (art : Artifact) : List Identified := s.identify art (art.chunks s.target)

def manifestOf (d : Draft) : SnapshotManifest := s.manifest cmd d.art (s.identified d.art) d.snapID d.now

def payload (d : Draft) : Bytes := (s.manifestOf cmd d).marshal

def Used (past : List PastCall) (key : String) : Prop :=
  (∃ obj, ⟨.head key, .ok obj⟩ ∈ past) ∨ ∃ req obj, req.key = key ∧ ⟨.put req, .ok obj⟩ ∈ past

def Took (past : List PastCall) (art : Artifact) : Prop := ∃ req, ⟨.sourceSnapshot req, .ok art⟩ ∈ past

structure Drafted (past : List PastCall) (d : Draft) : Prop where
  began : ∃ run answer, ⟨.createBackupRun run, answer⟩ ∈ past ∧ run.startedAt = d.now
  took : Took past d.art
  named : ⟨.newID "snap", d.snapID⟩ ∈ past

structure Uploaded (past : List PastCall) (d : Draft) : Prop extends Drafted past d where
  used : ∀ x ∈ s.identified d.art, Used past (s.chunkKey cmd x.2)

structure ManifestPut (past : List PastCall) (d : Draft) : Prop extends Uploaded s cmd past d where
  manifestPut : ∃ obj, ⟨.put (manifestRequest cmd d.snapID (s.payload cmd d)), .ok obj⟩ ∈ past

structure SigPut (past : List PastCall) (d : Draft) : Prop extends ManifestPut s cmd past d where
  sigPut : ∃ sig obj, s.ports.sign (s.payload cmd d) = .ok sig ∧
    ⟨.put (sigRequest cmd d.snapID sig), .ok obj⟩ ∈ past

structure CompletePut (past : List PastCall) (d : Draft) : Prop extends SigPut s cmd past d where
  completePut : ∃ t obj, ⟨.put (completeRequest cmd d.snapID
    (s.completion d.snapID (s.payload cmd d) t).marshal), .ok obj⟩ ∈ past

/-- A chunk of the artifact, compressed and encrypted, goes under its key. -/
def ChunkUpload (past : List PastCall) (req : PutObjectRequest) : Prop :=
  ∃ art x nonce compressed, Took past art ∧ x ∈ s.identified art ∧
    s.ports.compress x.1.data = .ok compressed ∧
    s.ports.encryptChunk nonce x.2 compressed = .ok req.body ∧
    req = chunkRequest (s.chunkKey cmd x.2) req.body

/-- What `Create` may put, after the calls it has made. -/
inductive MayPut (past : List PastCall) : PutObjectRequest → Prop where
  | chunk {req : PutObjectRequest} (h : s.ChunkUpload cmd past req) : MayPut past req
  | manifest {d : Draft} (h : Uploaded s cmd past d) :
      MayPut past (manifestRequest cmd d.snapID (s.payload cmd d))
  | sig {d : Draft} {sig : Bytes} (h : ManifestPut s cmd past d)
      (hSign : s.ports.sign (s.payload cmd d) = .ok sig) :
      MayPut past (sigRequest cmd d.snapID sig)
  | complete {d : Draft} {t : Time} (h : SigPut s cmd past d) :
      MayPut past (completeRequest cmd d.snapID (s.completion d.snapID (s.payload cmd d) t).marshal)

/-- What `Create` may enter into the catalogue. -/
def MayCommit (past : List PastCall) (snap : Snapshot) (links : List SnapshotChunk) : Prop :=
  ∃ d up committed, CompletePut s cmd past d ∧
    snap = s.snapshot cmd d.art (s.identified d.art) d.snapID d.now up committed ∧
    links = (s.identified d.art).map (s.snapshotChunk d.snapID)

/-- The operations `Create` may ask for. It starts one run, takes one artifact
and names one snapshot. -/
def permits (past : List PastCall) : Op → Prop
  | .createBackupRun _ => ∀ call ∈ past, ∀ run, call.op ≠ .createBackupRun run
  | .sourceSnapshot _ => ∀ call ∈ past, ∀ req, call.op ≠ .sourceSnapshot req
  | .newID stem => stem = "snap" → ∀ call ∈ past, call.op ≠ .newID "snap"
  | .put req => s.MayPut cmd past req
  | .createSnapshot snap links _ => s.MayCommit cmd past snap links
  | .findSnapshotByRoot sourceID root =>
    sourceID = cmd.source.id ∧ ∃ art, Took past art ∧ root = s.rootOf art (s.identified art)
  | .now | .updateBackupRun _ | .reserve _ | .openArtifact _ | .compress _ | .encryptChunk ..
  | .sign _ | .head _ => True
  | _ => False

def rules : Rules Answer := ⟨legal s.ports, s.permits cmd⟩

section
variable {s cmd} {past later : List PastCall} {d : Draft}

theorem Used.mono (h : Used past key) (hSub : past ⊆ later) : Used later key := by
  rcases h with ⟨obj, hHead⟩ | ⟨req, obj, hKey, hPut⟩
  · exact .inl ⟨obj, hSub hHead⟩
  · exact .inr ⟨req, obj, hKey, hSub hPut⟩

theorem Took.mono (h : Took past art) (hSub : past ⊆ later) : Took later art := by
  obtain ⟨req, hTook⟩ := h
  exact ⟨req, hSub hTook⟩

theorem Drafted.mono (h : Drafted past d) (hSub : past ⊆ later) : Drafted later d := by
  obtain ⟨⟨run, answer, hBegan, hNow⟩, hTook, hNamed⟩ := h
  exact ⟨⟨run, answer, hSub hBegan, hNow⟩, hTook.mono hSub, hSub hNamed⟩

theorem Uploaded.mono (h : Uploaded s cmd past d) (hSub : past ⊆ later) : Uploaded s cmd later d :=
  ⟨h.toDrafted.mono hSub, fun x hx => (h.used x hx).mono hSub⟩

theorem ManifestPut.mono (h : ManifestPut s cmd past d) (hSub : past ⊆ later) : ManifestPut s cmd later d := by
  obtain ⟨obj, hPut⟩ := h.manifestPut
  exact ⟨h.toUploaded.mono hSub, ⟨obj, hSub hPut⟩⟩

theorem SigPut.mono (h : SigPut s cmd past d) (hSub : past ⊆ later) : SigPut s cmd later d := by
  obtain ⟨sig, obj, hSign, hPut⟩ := h.sigPut
  exact ⟨h.toManifestPut.mono hSub, ⟨sig, obj, hSign, hSub hPut⟩⟩

theorem CompletePut.mono (h : CompletePut s cmd past d) (hSub : past ⊆ later) : CompletePut s cmd later d := by
  obtain ⟨t, obj, hPut⟩ := h.completePut
  exact ⟨h.toSigPut.mono hSub, ⟨t, obj, hSub hPut⟩⟩

theorem Uploaded.put_manifest (h : Uploaded s cmd past d) (obj : StoredObject) :
    ManifestPut s cmd (⟨.put (manifestRequest cmd d.snapID (s.payload cmd d)), .ok obj⟩ :: past) d :=
  ⟨h.mono (subset_cons_self _ _), ⟨obj, mem_cons_self⟩⟩

theorem ManifestPut.put_sig (h : ManifestPut s cmd past d) (hSign : s.ports.sign (s.payload cmd d) = .ok sig)
    (obj : StoredObject) : SigPut s cmd (⟨.put (sigRequest cmd d.snapID sig), .ok obj⟩ :: past) d :=
  ⟨h.mono (subset_cons_self _ _), ⟨sig, obj, hSign, mem_cons_self⟩⟩

theorem SigPut.put_complete (h : SigPut s cmd past d) (t : Time) (obj : StoredObject) :
    CompletePut s cmd (⟨.put (completeRequest cmd d.snapID
      (s.completion d.snapID (s.payload cmd d) t).marshal), .ok obj⟩ :: past) d :=
  ⟨h.mono (subset_cons_self _ _), ⟨t, obj, mem_cons_self⟩⟩

end

section
variable {rules : Rules Answer} {past : List PastCall} {α β : Type} {post : β → List PastCall → Prop}

theorem obeys_call_bind (hPermits : rules.permits past op)
    (h : ∀ answer, rules.legal op answer → Attempt.Obeys rules (f answer) (⟨op, answer⟩ :: past) post) :
    Attempt.Obeys rules (call op >>= f) past post :=
  obeys_bind (obeys_lift hPermits h) fun _ _ hNext => hNext

theorem obeys_orFail_bind
    (h : p.Obeys rules past fun answer later =>
      ∀ value, answer = .ok value → Attempt.Obeys rules (f value) later post) :
    Attempt.Obeys rules (orFail run code p >>= f) past post := by
  have hFirst : Attempt.Obeys rules (orFail run code p) past
      fun value later => Attempt.Obeys rules (f value) later post := by
    refine Program.obeys_bind h ?_
    intro answer later hPost
    cases answer with
    | ok value => exact hPost value rfl
    | error err => trivial
  exact obeys_bind hFirst fun _ _ hNext => hNext

end

variable {past : List PastCall} {d : Draft}

variable {art : Artifact}

theorem uploadChunk_obeys (up : Upload) (hTook : Took past art) (hx : x ∈ s.identified art) :
    Attempt.Obeys (s.rules cmd) (s.uploadChunk cmd up x) past fun _ later => Used later (s.chunkKey cmd x.2) := by
  refine obeys_orFail_bind ⟨trivial, ?_⟩
  rintro _ hCompress compressed rfl
  refine obeys_orFail_bind ⟨trivial, ?_⟩
  rintro _ hEncrypt enc rfl
  obtain ⟨nonce, hEncrypted⟩ := hEncrypt enc rfl
  refine obeys_orFail_bind ⟨?_, ?_⟩
  · exact .chunk ⟨art, x, nonce, compressed, hTook.mono (by simp), hx, hCompress compressed rfl, hEncrypted, rfl⟩
  · rintro _ - stored rfl
    exact .inr ⟨_, stored, rfl, .head _⟩

theorem storeChunk_obeys (up : Upload) (hTook : Took past art) (hx : x ∈ s.identified art) :
    Attempt.Obeys (s.rules cmd) (s.storeChunk cmd up x) past fun _ later => Used later (s.chunkKey cmd x.2) := by
  refine obeys_call_bind trivial ?_
  intro found _
  match found with
  | .ok obj => exact .inl ⟨obj, by simp⟩
  | .error err =>
    dsimp only
    split
    · exact s.uploadChunk_obeys cmd up (hTook.mono (by simp)) hx
    · exact obeys_throw

theorem storeChunks_obeys (ids : List Identified) (up : Upload) (hTook : Took past art)
    (hIds : ∀ x ∈ ids, x ∈ s.identified art) :
    Attempt.Obeys (s.rules cmd) (s.storeChunks cmd ids up) past
      fun _ later => ∀ x ∈ ids, Used later (s.chunkKey cmd x.2) := by
  induction ids generalizing past up with
  | nil => exact obeys_pure (by simp)
  | cons x rest ih =>
    refine obeys_bind (s.storeChunk_obeys cmd up hTook (hIds x (by simp))).extends ?_
    rintro up' later ⟨hUsed, hSuffix⟩
    have hRest := ih up' (hTook.mono hSuffix.subset) fun y hy => hIds y (by simp [hy])
    refine hRest.extends.mono ?_
    rintro _ last ⟨hAll, hSuffix'⟩ y hy
    rcases mem_cons.mp hy with rfl | hy
    · exact hUsed.mono hSuffix'.subset
    · exact hAll y hy

/-- How a `Create` that reports no error has ended. -/
inductive Outcome (past : List PastCall) : CreateResult → Prop where
  | committed {d : Draft} {up : Upload} {run : BackupRun} {snap : Snapshot} {committed : Time}
      {links : List SnapshotChunk} {records : List ChunkRecord} (h : CompletePut s cmd past d)
      (hSnap : snap = s.snapshot cmd d.art (s.identified d.art) d.snapID d.now up committed)
      (hRow : ⟨.createSnapshot snap links records, .ok ()⟩ ∈ past) :
      Outcome past { run := run, snapshot := some snap }
  | duplicate {art : Artifact} {run : BackupRun} {existing : Snapshot} (hTook : Took past art)
      (hFound : ⟨.findSnapshotByRoot cmd.source.id (s.rootOf art (s.identified art)),
        .ok (some existing)⟩ ∈ past) :
      Outcome past { run := run, snapshot := some existing, duplicate := true }

theorem Outcome.took (h : s.Outcome cmd past result) : ∃ art, Took past art := by
  cases h with
  | committed h => exact ⟨_, h.took⟩
  | duplicate hTook => exact ⟨_, hTook⟩

theorem publish_obeys (up : Upload) (h : Uploaded s cmd past d) :
    Attempt.Obeys (s.rules cmd) (s.publish cmd d.art (s.identified d.art) d.snapID d.now up) past
      fun result later => s.Outcome cmd later result := by
  refine obeys_orFail_bind ⟨trivial, ?_⟩
  rintro _ hSign sig rfl
  have hUploaded := h.mono (subset_cons_self ⟨.sign (s.payload cmd d), .ok sig⟩ past)
  refine obeys_orFail_bind ⟨.manifest hUploaded, ?_⟩
  rintro _ - manifestObj rfl
  have hManifest := hUploaded.put_manifest manifestObj
  refine obeys_orFail_bind ⟨.sig hManifest (hSign sig rfl), ?_⟩
  rintro _ - sigObj rfl
  refine obeys_call_bind trivial ?_
  intro t _
  have hSig := (hManifest.put_sig (hSign sig rfl) sigObj).mono (subset_cons_self ⟨.now, t⟩ _)
  refine obeys_orFail_bind ⟨.complete hSig, ?_⟩
  rintro _ - completeObj rfl
  refine obeys_call_bind trivial ?_
  intro committed _
  have hComplete := (hSig.put_complete t completeObj).mono (subset_cons_self ⟨.now, committed⟩ _)
  refine obeys_orFail_bind ⟨⟨d, up, committed, hComplete, rfl, rfl⟩, ?_⟩
  rintro _ - _ rfl
  refine obeys_call_bind trivial ?_
  intro t' _
  refine obeys_call_bind trivial ?_
  intro _ _
  exact obeys_pure (.committed
    (hComplete.mono fun _ hMem => .tail _ (.tail _ (.tail _ hMem))) rfl (.tail _ (.tail _ (.head _))))

theorem commit_obeys (run : BackupRun)
    (hBegan : ∃ run answer, ⟨.createBackupRun run, answer⟩ ∈ past ∧ run.startedAt = now)
    (hTook : Took past art) (hNew : ∀ call ∈ past, call.op ≠ .newID "snap") :
    Attempt.Obeys (s.rules cmd) (s.commit cmd art (s.identified art) now run) past
      fun result later => s.Outcome cmd later result := by
  refine obeys_call_bind (fun _ => hNew) ?_
  intro snapID _
  refine obeys_call_bind trivial ?_
  intro answer _
  have hDrafted : Drafted (⟨.updateBackupRun { run with status := .uploading }, answer⟩ ::
      ⟨.newID "snap", snapID⟩ :: past) ⟨art, snapID, now⟩ := by
    obtain ⟨run', answer', hMem, hNow⟩ := hBegan
    exact ⟨⟨run', answer', by simp [hMem], hNow⟩, hTook.mono (by simp), by simp⟩
  refine obeys_bind (s.storeChunks_obeys cmd (s.identified art) _ hDrafted.took fun _ hx => hx).extends ?_
  rintro up later ⟨hUsed, hSuffix⟩
  exact s.publish_obeys cmd (d := ⟨art, snapID, now⟩) up ⟨hDrafted.mono hSuffix.subset, hUsed⟩

theorem attemptCreate_obeys :
    Attempt.Obeys (s.rules cmd) (s.attemptCreate cmd) [] fun result later => s.Outcome cmd later result := by
  refine obeys_call_bind trivial ?_
  intro now _
  refine obeys_call_bind (by simp [rules, permits]) ?_
  intro runID _
  refine obeys_call_bind (by simp [rules, permits]) ?_
  intro began _
  refine obeys_orFail_bind ⟨trivial, ?_⟩
  rintro _ - dir rfl
  refine obeys_orFail_bind ⟨by simp [rules, permits], ?_⟩
  rintro _ - art rfl
  refine obeys_call_bind trivial ?_
  intro updated _
  refine obeys_orFail_bind ⟨trivial, ?_⟩
  rintro _ hOpen file rfl
  refine obeys_orFail_bind ?_
  intro chs hChs
  obtain rfl : art.chunks s.target = chs := art.chunks_of_file hOpen hChs
  have hTook : Took (⟨.openArtifact art, .ok file⟩ :: ⟨.updateBackupRun _, updated⟩ ::
      ⟨.sourceSnapshot ⟨runID, cmd.source, dir, s.snapshotMode cmd⟩, .ok art⟩ ::
      ⟨.reserve runID, .ok dir⟩ :: ⟨.createBackupRun _, began⟩ :: ⟨.newID "run", runID⟩ ::
      [⟨.now, now⟩]) art := ⟨_, .tail _ (.tail _ (.head _))⟩
  refine obeys_call_bind ⟨rfl, art, hTook, rfl⟩ ?_
  intro found _
  match found with
  | .ok (some existing) =>
    refine obeys_call_bind trivial ?_
    intro t _
    refine obeys_call_bind trivial ?_
    intro _ _
    exact obeys_pure (.duplicate (hTook.mono fun _ hMem => .tail _ (.tail _ (.tail _ hMem)))
      (.tail _ (.tail _ (.head _))))
  | .ok none | .error err =>
    exact s.commit_obeys cmd _
      ⟨_, began, .tail _ (.tail _ (.tail _ (.tail _ (.tail _ (.head _))))), rfl⟩
      (hTook.mono (subset_cons_self _ _)) (by simp)

/-- Everything a `Create` does is permitted, and if it reports no error it has
committed a snapshot or found one. -/
theorem create_obeys :
    (s.create cmd).Obeys (s.rules cmd) [] fun result later => result.2 = none → s.Outcome cmd later result.1 := by
  refine Program.obeys_bind (s.attemptCreate_obeys cmd) ?_
  intro result later hOutcome
  match result with
  | .ok value => exact fun _ => hOutcome
  | .error failure =>
    refine ⟨trivial, fun t _ => ⟨trivial, ?_⟩⟩
    intro _ _ hNone
    cases hNone

def anything : Rules Answer := ⟨fun _ _ => True, fun _ _ => True⟩

theorem obeys_anything {α : Type} (p : Prog α) (past : List PastCall) : p.Obeys anything past fun _ _ => True := by
  induction p generalizing past with
  | done value => trivial
  | call op next ih => exact ⟨trivial, fun answer _ => ih answer _⟩

theorem obeys_skip {α β : Type} {p : Step α} {f : α → Step β} {past : List PastCall}
    {post : β → List PastCall → Prop} (h : ∀ value later, Attempt.Obeys anything (f value) later post) :
    Attempt.Obeys anything (p >>= f) past post := by
  have hFirst : Attempt.Obeys anything p past fun _ _ => True := by
    refine (obeys_anything p.run past).mono ?_
    intro result later _
    cases result <;> trivial
  exact obeys_bind hFirst fun value later _ => h value later

theorem commit_new (art : Artifact) (ids : List Identified) (now : Time) (run : BackupRun)
    (past : List PastCall) :
    Attempt.Obeys anything (s.commit cmd art ids now run) past fun result _ => result.duplicate = false := by
  refine obeys_skip fun snapID _ => obeys_skip fun _ _ => obeys_skip fun up _ => ?_
  refine obeys_skip fun sig _ => obeys_skip fun _ _ => obeys_skip fun _ _ => ?_
  refine obeys_skip fun completedAt _ => obeys_skip fun _ _ => obeys_skip fun committed _ => ?_
  refine obeys_skip fun _ _ => obeys_skip fun t _ => obeys_skip fun _ _ => ?_
  exact obeys_pure rfl

theorem create_duplicate :
    (s.create cmd).Obeys anything [] fun result later =>
      result.1.duplicate = true → ∀ call ∈ later, ∀ req, call.op ≠ .put req := by
  have hAttempt : Attempt.Obeys anything (s.attemptCreate cmd) [] fun result later =>
      result.duplicate = true → ∀ call ∈ later, ∀ req, call.op ≠ .put req := by
    refine obeys_call_bind trivial fun now _ => obeys_call_bind trivial fun runID _ => ?_
    refine obeys_call_bind trivial fun _ _ => obeys_orFail_bind ⟨trivial, ?_⟩
    rintro _ - dir rfl
    refine obeys_orFail_bind ⟨trivial, ?_⟩
    rintro _ - art rfl
    refine obeys_call_bind trivial fun _ _ => obeys_orFail_bind ⟨trivial, ?_⟩
    rintro _ - file rfl
    refine obeys_orFail_bind ?_
    intro chs _
    refine obeys_call_bind trivial fun found _ => ?_
    match found with
    | .ok (some existing) =>
      refine obeys_call_bind trivial fun t _ => obeys_call_bind trivial fun _ _ => ?_
      exact obeys_pure (by simp)
    | .ok none | .error err =>
      refine (s.commit_new cmd art _ now _ _).mono ?_
      intro result later hNew hDuplicate
      rw [hNew] at hDuplicate
      cases hDuplicate
  refine Program.obeys_bind hAttempt ?_
  intro result later hResult
  match result with
  | .ok value => exact hResult
  | .error failure =>
    refine ⟨trivial, fun t _ => ⟨trivial, ?_⟩⟩
    intro _ _ hDuplicate
    cases hDuplicate

end Service

end DBVault.Backup
