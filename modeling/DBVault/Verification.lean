import DBVault.Restore.RoundTrip

/-! `verification.Service.VerifyRemote`, and when a snapshot it reports as
verified is one that `restore` accepts. -/
namespace DBVault.Verification
open List Text Interaction RemoteService Backup Restore.Sample Attempt Restore Backup.Sample SnapshotManifest

structure VerifyResult where
  snapshotID : String
  levels : List String
  chunkCount : Int
  rootDigest : String
  verified : Bool

def wording : Wording where
  code := .verificationFailed
  manifestMissing := fun err => newError .chunkMissing "manifest not found in object storage" (some err)
  badSignature := "invalid manifest signature"
  digestMismatch := "completion manifest digest mismatch"

def headChunk (ch : ChunkInfo) : Attempted Unit :=
  orReturn do
    match ← ask (.head ch.objectKey) with
    | .ok _ => pure (.ok ())
    | .error err => pure (.error (newError .chunkMissing
        ("chunk " ++ ch.chunkID ++ " missing from storage") (some err)))

def headChunks : List ChunkInfo → Attempted Unit
  | [] => pure ()
  | ch :: rest => do
      headChunk ch
      headChunks rest

def verifyRemote (s : RemoteService) (id : String) : Attempted VerifyResult := do
  let (snap, _) ← orReturn (ask (.getSnapshot id))
  let payload ← s.readSigned wording snap
  let man ← orReturn (pure (parseManifest payload))
  orReturn (pure (s.checkRoot wording man))
  headChunks man.chunks
  pure
    { snapshotID := id
      levels := ["publication", "signature", "chunk-existence"]
      chunkCount := man.chunks.length
      rootDigest := expectedRoot man
      verified := true }

variable {s : RemoteService} {w : World} {id : String}

theorem headChunks_sound (chs : List ChunkInfo) :
    Attempt.Ensures (environment s.ports) Choice.Faithful (headChunks chs) w
      (fun _ _ => True) (fun _ _ => True) := by
  induction chs with
  | nil => exact ensures_pure trivial
  | cons ch rest ih =>
    refine ensures_success_bind ?_
    intro c _
    show Program.Ensures _ _ (match (perform s.ports w (.head ch.objectKey) c).1 with
      | .ok _ => _
      | .error _ => _) _ _
    split
    · exact fun _ _ => ih
    · exact fun _ h => by cases h

theorem verifyRemote_sound :
    Attempt.Ensures (environment s.ports) Choice.Faithful (verifyRemote s id) w
      (fun _ _ => ∃ row payload man, w.rows.find? (·.snapshot.id == id) = some row ∧
        s.Signed w row.snapshot payload ∧ unmarshal payload = .ok man ∧
        s.RootFits man) (fun _ _ => True) := by
  refine ensures_success_bind ?_
  intro c _ found hFound
  obtain ⟨row, hRow, hSnap⟩ := getSnapshot_ok s.ports hFound
  refine ensures_bind ((s.readSigned_sound wording).mono_failed fun _ _ _ => trivial) ?_
  rintro payload _ ⟨hSigned, rfl⟩
  refine ensures_check_bind ?_ fun _ _ => trivial
  intro man hParsed
  refine ensures_check_bind ?_ fun _ _ => trivial
  intro _ hRoot
  refine ensures_bind (headChunks_sound man.chunks) ?_
  intro _ _ _
  refine ensures_pure ⟨row, payload, man, hRow, ?_, parseManifest_ok.mp hParsed, s.checkRoot_ok.mp hRoot⟩
  rw [hSnap]
  exact hSigned

variable {failed : GoError → World → Prop}

theorem headChunks_complete {chs : List ChunkInfo}
    (h : ∀ ch ∈ chs, ∃ bytes, w.Holds s.ports ch.objectKey bytes) :
    Attempt.Ensures (environment s.ports) Choice.Clean (headChunks chs) w (fun _ w' => w' = w) failed := by
  induction chs with
  | nil => exact ensures_pure rfl
  | cons ch rest ih =>
    obtain ⟨bytes, hHolds⟩ := h ch (by simp)
    have hHead : Attempt.Ensures (environment s.ports) Choice.Clean (headChunk ch) w
        (fun _ w' => w' = w) failed := by
      intro c hc
      show Program.Ensures _ _ (match (perform s.ports w (.head ch.objectKey) c).1 with
        | .ok _ => _
        | .error _ => _) _ _
      rw [head_clean s.ports hc hHolds]
      rfl
    refine ensures_bind hHead ?_
    rintro _ _ rfl
    exact ih fun ch hch => h ch (by simp [hch])

variable {row : CatalogueRow}

theorem verifyRemote_complete {payload : Bytes} {man : SnapshotManifest} (hRow : w.rows.find? (·.snapshot.id == id) = some row)
    (hSigned : s.Signed w row.snapshot payload) (hParsed : unmarshal payload = .ok man)
    (hRoot : s.RootFits man) (hChunks : ∀ ch ∈ man.chunks, ∃ bytes, w.Holds s.ports ch.objectKey bytes) :
    Attempt.Ensures (environment s.ports) Choice.Clean (verifyRemote s id) w
      (fun r _ => r.verified = true) failed := by
  refine ensures_done_bind (Program.ensures_ask (fun c hc => getSnapshot_clean s.ports hc hRow) ⟨rfl, rfl⟩) ?_
  refine ensures_bind (s.readSigned_complete wording hSigned) ?_
  rintro _ _ ⟨rfl, rfl⟩
  refine ensures_passed_bind (parseManifest_ok.mpr hParsed) ?_
  refine ensures_passed_bind (s.checkRoot_ok.mpr hRoot) ?_
  refine ensures_bind (headChunks_complete hChunks) ?_
  rintro _ _ rfl
  exact ensures_pure rfl

theorem committed_verified {P : Ports} {jobs : Nat → Job} {history : History} {key : Bytes}
    {st : System Answer World (CreateResult × Option GoError)} (hP : P.Lawful)
    (hKey : ∀ t, (jobs t).dedupKey = key) (hasSigner : Bool) (run : Ran P jobs history st)
    (hRow : row ∈ st.world.rows) {choices : Nat → Choice} (hClean : ∀ n, (choices n).Clean) :
    ∃ r, ((verifyRemote ⟨P, hasSigner, key⟩ row.snapshot.id).run.run (environment P)
      (st.world, choices)).1 = .ok r ∧ r.verified = true := by
  obtain ⟨t, j, records, answer, hJob, hCall⟩ := (record run).committer hRow
  obtain rfl : jobs t = j := Option.some.inj hJob
  obtain ⟨d, up, committed, hComplete, hSnap, -⟩ := (record run).commits rfl hCall
  have hAccepted := accepted hP hasSigner run hComplete hSnap
  rw [hKey t] at hAccepted
  refine (verifyRemote_complete (find_row run rfl hRow) hAccepted.signed hAccepted.parsed
    hAccepted.root ?_).succeeds hClean
  intro ch hch
  obtain ⟨x, hx, rfl⟩ := mem_map.mp hch
  exact holds_of_used run (hComplete.used x hx)

/-- After a verification that reports the snapshot as verified, `restore`
accepts the manifest exactly if it carries the identifier asked for. -/
theorem verified_accepted_iff {choices choices' : Nat → Choice}
    (hFaithful : ∀ n, (choices n).Faithful) (hClean : ∀ n, (choices' n).Clean)
    (hVerified : ∃ r, ((verifyRemote s id).run.run (environment s.ports) (w, choices)).1 = .ok r ∧
      r.verified = true) :
    ∃ row payload man, w.rows.find? (·.snapshot.id == id) = some row ∧
      w.Holds s.ports row.snapshot.manifestObjectKey payload ∧
      unmarshal payload = .ok man ∧
      ((∃ r, ((readAndVerifyManifest s row.snapshot).run.run (environment s.ports)
        (w, choices')).1 = .ok r) ↔ id = "" ∨ man.snapshotID = id) := by
  obtain ⟨r, hRun, -⟩ := hVerified
  obtain ⟨row, payload, man, hRow, hSigned, hParsed, hRoot⟩ :=
    verifyRemote_sound.of_ok hFaithful hRun
  have hID : row.snapshot.id = id := by simpa using find?_some hRow
  refine ⟨row, payload, man, hRow, hSigned.manifest, hParsed, ?_⟩
  rw [readAndVerifyManifest_accepts hClean]
  constructor
  · rintro ⟨payload', man', hAccepted⟩
    obtain rfl : payload' = payload :=
      Except.ok.inj (hAccepted.signed.manifest.symm.trans hSigned.manifest)
    obtain rfl : man' = man := Except.ok.inj (hAccepted.parsed.symm.trans hParsed)
    rw [← hID]
    exact hAccepted.sameID
  · intro hSame
    rw [← hID] at hSame
    exact ⟨payload, man, hSigned, hParsed, hSame, hRoot⟩

theorem verified_accepted_iff_sample :
    ∃ row payload man,
      (final .filesystem).world.rows.find? (·.snapshot.id == "snap_8_") = some row ∧
      (final .filesystem).world.Holds server.ports
        row.snapshot.manifestObjectKey payload ∧ unmarshal payload = .ok man ∧
      ((∃ r, ((readAndVerifyManifest server row.snapshot).run.run
        (environment server.ports) ((final .filesystem).world, calm)).1 =
          .ok r) ↔ "snap_8_" = "" ∨ man.snapshotID = "snap_8_") := by
  obtain ⟨row, hMem, hID, -⟩ := Backup.Sample.committed
  have hVerified := committed_verified (lawful_sample .filesystem) (fun _ => rfl) true
    execution hMem calm_clean
  rw [hID] at hVerified
  exact verified_accepted_iff (fun n => (calm_clean n).faithful) calm_clean hVerified

/-- With the files of one snapshot in the place of another's, the other is
reported as verified, and `restore` refuses it. -/
theorem replaced_files_verified_not_accepted :
    (∃ r, ((verifyRemote server "snap_0_").run.run
      (environment server.ports) (world "snap_0_" 0, calm)).1 = .ok r ∧ r.verified = true) ∧
    (world "snap_0_" 0).rows.find? (·.snapshot.id == "snap_0_") = some (entry "snap_0_") ∧
    ¬ ∃ r, ((readAndVerifyManifest server
      (entry "snap_0_").snapshot).run.run (environment server.ports)
        (world "snap_0_" 0, calm)).1 = .ok r := by
  have hRow : (world "snap_0_" 0).rows.find? (·.snapshot.id == "snap_0_") = some (entry "snap_0_") := by rfl
  have hSigned := signed Restore.Sample.man (mem_cons_self (a := "snap_0_")) 0
  refine ⟨?_, hRow, ?_⟩
  · refine (verifyRemote_complete hRow hSigned parsed rootFits ?_).succeeds calm_clean
    intro ch hch
    obtain ⟨x, hx, rfl⟩ := mem_map.mp hch
    exact ⟨_, chunk_holds Restore.Sample.man (by simp) 0 hx⟩
  · rw [readAndVerifyManifest_accepts calm_clean]
    rintro ⟨payload, man, hAccepted⟩
    obtain rfl : Restore.Sample.payload = payload :=
      Except.ok.inj (hSigned.manifest.symm.trans hAccepted.signed.manifest)
    obtain rfl : Restore.Sample.man = man :=
      Except.ok.inj (parsed.symm.trans hAccepted.parsed)
    rcases hAccepted.sameID with hEmpty | hSame
    · exact absurd hEmpty (by decide)
    · exact absurd hSame (by decide)

end DBVault.Verification
