import DBVault.Backup.Publication
import DBVault.Restore.Outcome

/-! Backups restore to what was backed up: the chunks of an artifact, written
where the manifest says, make the artifact again, and whatever lies under a
chunk's key opens to that chunk. -/
namespace DBVault.Restore
open List Text Text.Path Interaction RemoteService Backup Service Sample Filesystem

theorem writeBytes_end (done rest data : Bytes) :
    writeBytes (done ++ rest) done.length data = done ++ data ++ rest.drop data.length := by
  unfold writeBytes
  split
  · rename_i hEmpty
    simp [hEmpty]
  · have hPad : padTo done.length (done ++ rest) = done ++ rest := by simp [padTo]
    rw [hPad, take_left]
    simp [drop_append]

variable {p seq start : Int} {cs : List PlainChunk} {content : Bytes}

theorem next_offset {buf rest : Bytes} (hPages : rest ≠ [] → pagesOf p buf.length * p = buf.length)
    (hRest : rest ≠ []) : (start + pagesOf p buf.length) * p = start * p + buf.length := by
  rw [Int.add_mul, hPages hRest]

theorem tiles_offset (h : Tiles p seq start cs content) :
    ∀ ch ∈ cs, start * p ≤ ch.pageStart * p ∧ ch.pageStart * p ≤ start * p + content.length := by
  induction h with
  | nil => simp
  | @cons seq start buf rest others hBuf hPages hRest ih =>
    intro ch hch
    rw [length_append, Nat.cast_add]
    rcases mem_cons.mp hch with rfl | hch
    · simp only [plainChunk]
      omega
    · have hNe : rest ≠ [] := fun hNil => by simp [hRest.eq_nil_iff.mpr hNil] at hch
      have hNext : (start + pagesOf p buf.length) * p = start * p + buf.length := next_offset hPages hNe
      have hLater := ih ch hch
      omega

def place (p : Int) (file : Bytes) (ch : PlainChunk) : Bytes :=
  writeBytes file (mulInt64 ch.pageStart p).toNat ch.data

theorem mulInt64_eq {m n : Int} (hLow : 0 ≤ m * n) (hHigh : m * n ≤ Json.int64Max) : mulInt64 m n = m * n := by
  simp only [Json.int64Max] at hHigh
  exact Int.bmod_eq_of_le (by omega) (by omega)

theorem place_tiles (h : Tiles p seq start cs content) (done : Bytes)
    (hStart : content ≠ [] → (done.length : Int) = start * p)
    (hSize : ((done ++ content).length : Int) ≤ Json.int64Max) :
    cs.foldl (place p) (done ++ List.replicate content.length 0) = done ++ content := by
  induction h generalizing done with
  | nil => simp
  | @cons seq start buf rest others hBuf hPages hRest ih =>
    have hOffset : (mulInt64 start p).toNat = done.length := by
      rw [mulInt64_eq] <;> rw [← hStart (by simp [hBuf])]
      · simp
      · omega
      · simp at hSize; omega
    have hWrite : place p (done ++ List.replicate (buf ++ rest).length 0)
        (plainChunk p seq start buf) = (done ++ buf) ++ List.replicate rest.length 0 := by
      simp only [place, plainChunk, hOffset]
      rw [writeBytes_end]
      simp
    rw [foldl_cons, hWrite, ih]
    · simp
    · intro hNe
      rw [next_offset hPages hNe, ← hStart (by simp [hBuf])]
      simp
    · simpa using hSize

section
variable {P : Ports} {jobs : Nat → Job} {history : History}
  {st : System Answer World (CreateResult × Option GoError)} {t : Nat} {d : Draft}

theorem holds_sig (run : Ran P jobs history st)
    (h : ((jobs t).service P).SigPut (jobs t).command (ownCalls t history) d) :
    ∃ sig, st.world.Holds P (sigKey (jobs t).command.source.id d.snapID) sig ∧
      P.sign (((jobs t).service P).payload (jobs t).command d) = .ok sig := by
  obtain ⟨sig, obj, -, hPut⟩ := h.sigPut
  obtain ⟨bytes, hHolds, hFile⟩ := own_file run .sig h.toDrafted (.inr ⟨_, obj, rfl, hPut⟩)
  cases hFile with
  | @sig d' _ hManifest hID hSign =>
    obtain rfl : d = d' := h.toDrafted.unique hManifest.toDrafted (follows run t)
    exact ⟨bytes, hHolds, hSign⟩

theorem holds_complete (run : Ran P jobs history st)
    (h : ((jobs t).service P).CompletePut (jobs t).command (ownCalls t history) d) :
    ∃ time, st.world.Holds P (completeKey (jobs t).command.source.id d.snapID)
      (((jobs t).service P).completion d.snapID
        (((jobs t).service P).payload (jobs t).command d) time).marshal := by
  obtain ⟨time, obj, hPut⟩ := h.completePut
  obtain ⟨bytes, hHolds, hFile⟩ := own_file run .complete h.toDrafted (.inr ⟨_, obj, rfl, hPut⟩)
  cases hFile with
  | @complete d' time hSig hID =>
    obtain rfl : d = d' := h.toDrafted.unique hSig.toDrafted (follows run t)
    exact ⟨time, hHolds⟩

end

variable {snap : Snapshot}

theorem signatureKey_eq {sourceID snapshotID : String}
    (h : snap.manifestObjectKey = manifestKey sourceID snapshotID) :
    signatureKey snap = sigKey sourceID snapshotID := by
  have hChars : snap.manifestObjectKey.toList =
      (sourceID ++ "/snapshots/" ++ snapshotID ++ "/manifest").toList ++ ".json".toList := by
    simp [h, manifestKey, snapshotKey]
  have hKey : String.ofList (trimSuffix ".json".toList snap.manifestObjectKey.toList) ++ ".sig" =
      sigKey sourceID snapshotID := by
    rw [hChars, trimSuffix_append, String.ofList_toList]
    apply String.toList_inj.mp
    simp [sigKey, snapshotKey]
  have hLong : sigKey sourceID snapshotID ≠ "" ∧ sigKey sourceID snapshotID ≠ ".sig" := by
    constructor
    · intro hEq
      have hLength := congrArg (fun key => key.toList.length) hEq
      simp [sigKey, snapshotKey] at hLength
    · intro hEq
      have hLength := congrArg (fun key => key.toList.length) hEq
      simp [sigKey, snapshotKey] at hLength
      omega
  simp only [signatureKey, hKey, hLong.1, hLong.2, or_self, if_false]

variable {P : Ports} {jobs : Nat → Job} {history : History}
  {st : System Answer World (CreateResult × Option GoError)} {t : Nat} {d : Draft} {key : Bytes}

theorem manifest_rootFits (hasSigner : Bool) (j : Job) (d : Draft) :
    RemoteService.RootFits ⟨P, hasSigner, j.dedupKey⟩ ((j.service P).manifestOf j.command d) := by
  have hRoot : (j.service P).rootOf d.art ((j.service P).identified d.art) ≠ "" := Digest.hex_ne_empty _
  have hExpected : expectedRoot ((j.service P).manifestOf j.command d) =
      (j.service P).rootOf d.art ((j.service P).identified d.art) := by
    simp [expectedRoot, manifestOf, manifest, hRoot]
  constructor
  · rw [hExpected]
    exact hRoot
  · intro _ hChunks
    constructor
    · apply P.hashes.treeRoot_of_leaves (· ≠ "")
      · intro left right
        exact P.hashes.keyed_ne_empty _ _
      · intro id hID
        obtain ⟨ch, hch, rfl⟩ := mem_map.mp hID
        obtain ⟨x, hx, rfl⟩ := mem_map.mp hch
        obtain ⟨digest, hDigest⟩ := (j.service P).identified_isHexID hx
        rw [show ((j.service P).chunkInfo j.command x).chunkID = x.2 from rfl, hDigest]
        exact digest.hex_ne_empty
      · intro hNil
        rw [map_eq_nil_iff] at hNil
        simp [hNil] at hChunks
    · rw [hExpected]
      right
      simp only [computedDigest, rootOf, manifestOf, manifest, map_map]
      rfl

theorem accepted (hP : P.Lawful) (hasSigner : Bool) (run : Ran P jobs history st)
    {up : Service.Upload} {committed : Time}
    (h : ((jobs t).service P).CompletePut (jobs t).command (ownCalls t history) d)
    (hSnap : snap = ((jobs t).service P).snapshot (jobs t).command d.art
      (((jobs t).service P).identified d.art) d.snapID d.now up committed) :
    Accepted ⟨P, hasSigner, (jobs t).dedupKey⟩ st.world snap
      (((jobs t).service P).payload (jobs t).command d)
      (((jobs t).service P).manifestOf (jobs t).command d) := by
  subst hSnap
  obtain ⟨sig, hSig, hSign⟩ := holds_sig run h.toSigPut
  obtain ⟨time, hComplete⟩ := holds_complete run h
  constructor
  · constructor
    · exact holds_manifest run h.toManifestPut
    · exact ⟨sig, by rw [signatureKey_eq rfl]; exact hSig, fun _ => hP.verify_sign hSign⟩
    · intro _
      exact ⟨_, _, hComplete, Completion.unmarshal_marshal (completion_fits _ _ _ _), rfl⟩
  · exact SnapshotManifest.unmarshal_marshal (manifest_fits _ _ d)
  · exact .inr rfl
  · exact manifest_rootFits hasSigner (jobs t) d

def hashed (P : Ports) (jobs : Nat → Job) (history : History) : Set Bytes :=
  {message | ∃ t art x, Service.Took (ownCalls t history) art ∧
    x ∈ ((jobs t).service P).identified art ∧
    message = Hashes.chunkMessage art.metadata.pageSize x.1.data}

variable {art : Artifact}

theorem data_eq_of_id (hKey : ∀ t, (jobs t).dedupKey = key)
    (hInj : Set.InjOn (P.hashes.hmac key) (hashed P jobs history)) {t t' : Nat}
    (hTook : Service.Took (ownCalls t history) art) (hTook' : Service.Took (ownCalls t' history) art')
    (hx : x ∈ ((jobs t).service P).identified art) (hx' : x' ∈ ((jobs t').service P).identified art')
    (hID : x.2 = x'.2) : art.metadata.pageSize = art'.metadata.pageSize ∧ x.1.data = x'.1.data := by
  apply Hashes.chunkMessage_inj
  apply hInj ⟨t, art, x, hTook, hx, rfl⟩ ⟨t', art', x', hTook', hx', rfl⟩
  rw [identified_id _ hx, identified_id _ hx'] at hID
  have hHash := Digest.hex_injective hID
  rw [show ((jobs t).service P).dedupKey = key from hKey t,
    show ((jobs t').service P).dedupKey = key from hKey t'] at hHash
  exact hHash

theorem sealed_chunk (hKey : ∀ t, (jobs t).dedupKey = key) (run : Ran P jobs history st)
    (hInj : Set.InjOn (P.hashes.hmac key) (hashed P jobs history))
    (hTook : Service.Took (ownCalls t history) art) (hx : x ∈ ((jobs t).service P).identified art)
    (hFind : st.world.objects.find a = some bytes) (hEnds : EndsIn a (chunkTail x.2)) :
    ∃ nonce compressed, P.compress x.1.data = .ok compressed ∧
      P.encryptChunk nonce x.2 compressed = .ok bytes := by
  obtain ⟨t', j, art', x', nonce, compressed, hJob, hTook', hx', hID, hCompress, hEncrypt⟩ :=
    (record run).chunk hFind hEnds
  obtain rfl : jobs t' = j := Option.some.inj hJob
  obtain ⟨-, hData⟩ := data_eq_of_id hKey hInj hTook' hTook hx' hx hID
  rw [hData] at hCompress
  exact ⟨nonce, compressed, hCompress, hEncrypt⟩

theorem assemble_manifest (j : Job) (d : Draft) :
    assemble ((j.service P).manifestOf j.command d)
      (((j.service P).identified d.art).map (·.1.data)) = d.art.content := by
  have hBlank : blank ((j.service P).manifestOf j.command d) = [] ++ List.replicate d.art.content.length 0 := by
    unfold blank
    split
    · simp [manifestOf, manifest, Artifact.size, truncateBytes, padTo]
    · rename_i hSize
      have hLength : d.art.content.length = 0 := by
        simp only [manifestOf, manifest, Artifact.size] at hSize
        omega
      simp [hLength]
  have hPlace := place_tiles ((j.service P).identified_tiles d.art) [] (by simp)
    (by simpa using d.art.content_int64.2)
  rw [foldl_map] at hPlace
  have hZip : ((j.service P).manifestOf j.command d).chunks.zip
      (((j.service P).identified d.art).map (·.1.data)) =
      ((j.service P).identified d.art).map fun x => ((j.service P).chunkInfo j.command x, x.1.data) := zip_map'
  rw [assemble, hBlank, hZip, foldl_map]
  exact hPlace

theorem offset_nonneg (j : Job) (d : Draft) :
    ∀ ch ∈ ((j.service P).manifestOf j.command d).chunks,
      0 ≤ offset ((j.service P).manifestOf j.command d) ch := by
  intro ch hch
  obtain ⟨x, hx, rfl⟩ := mem_map.mp hch
  obtain ⟨hLow, hHigh⟩ := tiles_offset ((j.service P).identified_tiles d.art) x.1 (mem_map_of_mem hx)
  have hContent := d.art.content_int64.2
  show 0 ≤ mulInt64 x.1.pageStart d.art.metadata.pageSize
  rw [mulInt64_eq (by omega) (by omega)]
  omega

def BackedUp (history : History) (row : CatalogueRow) (art : Artifact) : Prop :=
  ∃ t records answer, ⟨.createSnapshot row.snapshot row.links records, answer⟩ ∈ ownCalls t history ∧
    Service.Took (ownCalls t history) art

/-- Restoring the snapshot into any target that does not exist succeeds and
leaves the content there. -/
def Restores (s : Service) (w : World) (id : String) (content : Bytes) : Prop :=
  ∀ (target : String) (replace : Bool) (choices : Nat → Choice), w.files target = none →
    (∀ n, (choices n).Clean) →
    let out := (restore s id target replace).run.run (environment s.ports) (w, choices)
    out.1 = .ok () ∧ out.2.1.files target = some content

theorem exists_backedUp (run : Ran P jobs history st) (hRow : row ∈ st.world.rows) :
     ∃ art, BackedUp history row art := by
  obtain ⟨t, j, records, answer, hJob, hCall⟩ := (record run).committer hRow
  obtain ⟨d, up, committed, hComplete, -⟩ := (record run).commits hJob hCall
  exact ⟨d.art, t, records, answer, hCall, hComplete.took⟩

theorem mode_of_engine {j : Job} {d : Draft}
    (h : ((j.service P).manifestOf j.command d).database.engine = "" ∨
      ((j.service P).manifestOf j.command d).database.engine = "sqlite") :
    (j.service P).snapshotMode j.command = .onlineBackup := by
  have hEngine : (j.service P).engine j.command = "sqlite" := by
    rcases h with h | h
    · simp only [manifestOf, manifest, engine] at h
      split at h
      · exact absurd h (by decide)
      · contradiction
    · exact h
  simp [snapshotMode, hEngine]

/-- The store has what it takes to restore the snapshot as the content. -/
def Readable (s : Service) (w : World) (snap : Snapshot) (content : Bytes) : Prop :=
  ∃ payload man plains, Accepted s w snap payload man ∧ Forall₂ (Opens s w man) man.chunks plains ∧
    (∀ ch ∈ man.chunks, 0 ≤ offset man ch) ∧ Valid man content ∧ assemble man plains = content

theorem Readable.restores (h : Readable s w row.snapshot content)
    (hRow : w.rows.find? (·.snapshot.id == row.snapshot.id) = some row) :
    Restores s w row.snapshot.id content := by
  obtain ⟨payload, man, plains, hAccepted, hOpens, hOffset, hValid, rfl⟩ := h
  intro target replace choices hFresh hClean
  obtain ⟨_, hResult, hFile⟩ :=
    (restore_complete replace hRow hAccepted hOpens hOffset hValid hFresh).succeeds hClean
  exact ⟨hResult, hFile⟩

section
variable (hP : P.Lawful) (hKey : ∀ t, (jobs t).dedupKey = key) (run : Ran P jobs history st)
  (hInj : Set.InjOn (P.hashes.hmac key) (hashed P jobs history)) (hasSigner : Bool)
include hP hKey run hInj

theorem opens_chunk (man : SnapshotManifest)
    (hUp : ((jobs t).service P).Uploaded (jobs t).command (ownCalls t history) d)
    (hPage : man.database.pageSize = d.art.metadata.pageSize)
    (hx : x ∈ ((jobs t).service P).identified d.art) :
    Opens ⟨P, hasSigner, key⟩ st.world man (((jobs t).service P).chunkInfo (jobs t).command x) x.1.data := by
  obtain ⟨bytes, hHolds⟩ := holds_of_used run (hUp.used x hx)
  obtain ⟨a, hLocate, hFind⟩ := World.holds_iff.mp hHolds
  obtain ⟨nonce, compressed, hCompress, hEncrypt⟩ := sealed_chunk hKey run hInj hUp.took hx hFind
    (chunkKey_endsIn (identified_isHexID _ hx) hLocate)
  refine ⟨bytes, hHolds, openChunk_ok.mpr ⟨compressed, ?_, ?_, ?_⟩⟩
  · exact hP.decrypt_encrypt hEncrypt
  · exact hP.decompress_compress hCompress
  · apply checkChunk_ok.mpr
    intro _ _
    rw [hPage, show (((jobs t).service P).chunkInfo (jobs t).command x).chunkID = x.2 from rfl,
      identified_id _ hx, show ((jobs t).service P).dedupKey = key from hKey t]
    rfl

theorem opens_chunks (hUp : ((jobs t).service P).Uploaded (jobs t).command (ownCalls t history) d) :
    List.Forall₂
      (Opens ⟨P, hasSigner, key⟩ st.world (((jobs t).service P).manifestOf (jobs t).command d))
      (((jobs t).service P).manifestOf (jobs t).command d).chunks
      ((((jobs t).service P).identified d.art).map (·.1.data)) := by
  apply forall₂_map_left_iff.mpr
  apply forall₂_map_right_iff.mpr
  apply forall₂_same.mpr
  intro x hx
  exact opens_chunk hP hKey run hInj hasSigner _ hUp rfl hx

theorem readable (hArt : BackedUp history row art)
    (hHeader : row.snapshot.snapshotMode = .onlineBackup → sqliteHeader <+: art.content) :
    Readable ⟨P, hasSigner, key⟩ st.world row.snapshot art.content := by
  obtain ⟨t, records, answer, hCall, hTook⟩ := hArt
  obtain ⟨d, up, committed, hComplete, hSnap, -⟩ := (record run).commits rfl hCall
  obtain rfl : d.art = art := hComplete.took.unique hTook (follows run t)
  have hAccepted := accepted hP hasSigner run hComplete hSnap
  rw [hKey t] at hAccepted
  refine ⟨_, _, _, hAccepted, opens_chunks hP hKey run hInj hasSigner hComplete.toUploaded,
    offset_nonneg (jobs t) d, fun hEngine => hHeader ?_, assemble_manifest (jobs t) d⟩
  rw [hSnap]
  exact mode_of_engine hEngine

theorem restores (hRow : row ∈ st.world.rows) (hArt : BackedUp history row art)
    (hHeader : row.snapshot.snapshotMode = .onlineBackup → sqliteHeader <+: art.content) :
    Restores ⟨P, hasSigner, key⟩ st.world row.snapshot.id art.content :=
  (readable hP hKey run hInj hasSigner hArt hHeader).restores (find_row run rfl hRow)

end

theorem lawful_sample (backend : Backend) : (Sample.ports backend).Lawful where
  decompress_compress := by
    rintro data out ⟨⟩
    rfl
  decrypt_encrypt := by
    rintro nonce id plain out ⟨⟩
    rfl
  verify_sign := by
    rintro payload sig ⟨⟩
    simp [Sample.ports]

theorem identified_sample (backend : Backend) :
    ∃ y, (Sample.job.service (Sample.ports backend)).identified Sample.artifact = [y] := by
  apply length_eq_one_iff.mp
  simp only [identified, identify, length_map]
  show (Sample.artifact.chunks 4).length = 1
  decide

namespace Sample
open Backup.Sample

def server : Service := ⟨ports .filesystem, true, [7]⟩

def calm (_ : Nat) : Choice := {}

theorem calm_clean (n : Nat) : (calm n).Clean := rfl

def writer : Backup.Service := job.service (ports .filesystem)

def draft : Draft := ⟨artifact, "snap_8_", 0⟩

def man : SnapshotManifest := writer.manifestOf job.command draft

def payload : Bytes := man.marshal

def completion (m : SnapshotManifest) : Completion := writer.completion "snap_8_" m.marshal 0

/-- A manifest with its signature and completion record under some snapshot's
name, and the chunks of the draft. -/
def files (m : SnapshotManifest) (snapID : String) (nonce : UInt8) : List (String × Bytes) :=
  (manifestKey "app" snapID, m.marshal) :: (sigKey "app" snapID, [m.marshal.getLastD 0]) ::
    (completeKey "app" snapID, (completion m).marshal) ::
      (writer.identified artifact).map fun x => (writer.chunkKey job.command x.2, nonce :: x.1.data)

def entry (snapID : String) : CatalogueRow where
  snapshot := writer.snapshot job.command artifact (writer.identified artifact) snapID 0
    { run := ⟨"run", "app", "repo", .manual, .publishing, none, none, 0, 0, 0, "", "", 0, none⟩ } 0
  links := []

def worldOf (m : SnapshotManifest) (snapID : String) (nonce : UInt8) : World where
  objects := .ofList ((files m snapID nonce).map fun f => (f.1.toList, f.2))
  rows := [entry snapID]

abbrev world : String → UInt8 → World := worldOf man

variable {snapID : String}

theorem holds {m : SnapshotManifest} {key : String} {nonce : UInt8} {a : Address}
    {bytes : Bytes} (hLocate : safePath key = .ok a)
    (hLookup : ((files m snapID nonce).map fun f => (f.1.toList, f.2)).lookup a = some bytes) :
    (worldOf m snapID nonce).Holds server.ports key bytes := by
  apply World.holds_iff.mpr
  refine ⟨a, hLocate, ?_⟩
  simp only [worldOf]
  rw [Objects.find_ofList]
  exact hLookup

theorem verify_last (message : Bytes) : server.ports.verify message [message.getLastD 0] = .ok () :=
  (lawful_sample .filesystem).verify_sign rfl

theorem parsed : SnapshotManifest.unmarshal payload = .ok man :=
  SnapshotManifest.unmarshal_marshal (writer.manifest_fits job.command draft)

theorem file_located (h : snapID ∈ ["snap_0_", "snap_8_"]) :
    safePath (manifestKey "app" snapID) = .ok (manifestKey "app" snapID).toList ∧
      safePath (sigKey "app" snapID) = .ok (sigKey "app" snapID).toList ∧
      safePath (completeKey "app" snapID) = .ok (completeKey "app" snapID).toList := by
  simp only [mem_cons, not_mem_nil, or_false] at h
  rcases h with rfl | rfl <;> exact ⟨rfl, rfl, rfl⟩

theorem file_lookup (h : snapID ∈ ["snap_0_", "snap_8_"])
    (payload sig record : Bytes) (chunks : List (Address × Bytes)) :
    let files := ((manifestKey "app" snapID).toList, payload) ::
      ((sigKey "app" snapID).toList, sig) :: ((completeKey "app" snapID).toList, record) :: chunks
    files.lookup (manifestKey "app" snapID).toList = some payload ∧
      files.lookup (sigKey "app" snapID).toList = some sig ∧
      files.lookup (completeKey "app" snapID).toList = some record := by
  simp only [mem_cons, not_mem_nil, or_false] at h
  rcases h with rfl | rfl <;> exact ⟨rfl, rfl, rfl⟩

theorem signed (m : SnapshotManifest) (h : snapID ∈ ["snap_0_", "snap_8_"]) (nonce : UInt8) :
    server.Signed (worldOf m snapID nonce) (entry snapID).snapshot m.marshal := by
  obtain ⟨hManifest, hSig, hRecord⟩ := file_lookup h m.marshal [m.marshal.getLastD 0] (completion m).marshal _
  obtain ⟨hManifestPath, hSigPath, hRecordPath⟩ := file_located h
  constructor
  · exact holds hManifestPath hManifest
  · refine ⟨[m.marshal.getLastD 0], ?_, fun _ => verify_last m.marshal⟩
    rw [signatureKey_eq rfl]
    exact holds hSigPath hSig
  · exact fun _ => ⟨(completion m).marshal, completion m, holds hRecordPath hRecord,
      Completion.unmarshal_marshal (completion_fits _ _ _ _), rfl⟩

theorem chunk_located (hx : x ∈ writer.identified artifact) :
    safePath (writer.chunkKey job.command x.2) = .ok (writer.chunkKey job.command x.2).toList := by
  have hAll : ∀ x ∈ writer.identified artifact,
      (safePath (writer.chunkKey job.command x.2)).toOption =
        some (writer.chunkKey job.command x.2).toList := by decide +kernel
  have hOption := hAll x hx
  cases hPath : safePath (writer.chunkKey job.command x.2) with
  | error err => simp [hPath, Except.toOption] at hOption
  | ok a => rw [hPath] at hOption; exact congrArg _ (Option.some.inj hOption)

theorem chunk_apart (h : snapID ∈ ["snap_0_", "snap_8_"]) (hx : x ∈ writer.identified artifact) :
    ∀ key ∈ [manifestKey "app" snapID, sigKey "app" snapID, completeKey "app" snapID],
      ((writer.chunkKey job.command x.2).toList == key.toList) = false := by
  have hAll : ∀ snapID ∈ ["snap_0_", "snap_8_"], ∀ x ∈ writer.identified artifact,
      ∀ key ∈ [manifestKey "app" snapID, sigKey "app" snapID, completeKey "app" snapID],
        ((writer.chunkKey job.command x.2).toList == key.toList) = false := by decide +kernel
  exact hAll snapID h x hx

theorem chunk_holds (m : SnapshotManifest) (h : snapID ∈ ["snap_0_", "snap_8_"])
    (nonce : UInt8) {x : Service.Identified} (hx : x ∈ writer.identified artifact) :
    (worldOf m snapID nonce).Holds server.ports (writer.chunkKey job.command x.2) (nonce :: x.1.data) := by
  have hApart := chunk_apart h hx
  simp only [mem_cons, not_mem_nil, or_false, forall_eq_or_imp, forall_eq] at hApart
  apply holds (chunk_located hx)
  obtain ⟨y, hy⟩ := identified_sample .filesystem
  have hOne : writer.identified artifact = [y] := hy
  rw [hOne, mem_singleton] at hx
  subst hx
  simp only [files, hOne, map_cons, map_nil, lookup_cons, hApart, beq_self_eq_true]

theorem rootFits : server.RootFits man := manifest_rootFits true job draft

end Sample

end DBVault.Restore
