import DBVault.Restore.Tampering

/-! Root digests stand for contents: equal digests mean equal page sizes and
bytes, however the artifacts were cut into chunks, so a backup that is dropped
as a duplicate is kept by the snapshot it duplicates. -/
namespace DBVault
open List Text Interaction Backup Hashes

namespace Artifact
variable (h : Hashes) (key : Bytes)

def rootEntries (art : Artifact) (targetBytes : Int) : List (String × Int) :=
  (art.chunks targetBytes).map fun ch => (h.chunkID key art.metadata.pageSize ch.data, ch.plaintextSize)

def rootDigest (art : Artifact) (targetBytes : Int) : String :=
  h.rootDigest key (art.rootEntries h key targetBytes) art.size art.metadata.pageSize

def rootTexts (art : Artifact) (targetBytes : Int) : Set Bytes :=
  insert (rootMessage art.metadata.pageSize art.size (art.rootEntries h key targetBytes))
    {message | ∃ ch ∈ art.chunks targetBytes, message = chunkMessage art.metadata.pageSize ch.data}

variable {h key} {art other : Artifact} {targetBytes otherBytes : Int}

theorem rootEntries_isHexID : ∀ e ∈ art.rootEntries h key targetBytes, Hashes.IsHexID e.1 := by
  intro e he
  obtain ⟨ch, -, rfl⟩ := mem_map.mp he
  exact h.chunkID_isHexID key art.metadata.pageSize ch.data

theorem data_eq_of_entries {p q : Int} {cs ds : List PlainChunk}
    (hSame : ∀ ch ∈ cs, ∀ ch' ∈ ds, h.chunkID key p ch.data = h.chunkID key q ch'.data → ch.data = ch'.data)
    (hEntries : cs.map (fun ch => (h.chunkID key p ch.data, ch.plaintextSize)) =
      ds.map fun ch => (h.chunkID key q ch.data, ch.plaintextSize)) :
    cs.map (·.data) = ds.map (·.data) := by
  induction cs generalizing ds with
  | nil =>
    cases ds with
    | nil => rfl
    | cons ch' rest' => cases hEntries
  | cons ch rest ih =>
    cases ds with
    | nil => cases hEntries
    | cons ch' rest' =>
      simp only [map_cons, List.cons.injEq, Prod.mk.injEq] at hEntries ⊢
      constructor
      · exact hSame ch (.head _) ch' (.head _) hEntries.1.1
      · exact ih (fun c hc c' hc' => hSame c (.tail _ hc) c' (.tail _ hc')) hEntries.2

theorem eq_of_rootDigest
    (hInj : Set.InjOn (h.hmac key) (art.rootTexts h key targetBytes ∪ other.rootTexts h key otherBytes))
    (hRoot : art.rootDigest h key targetBytes = other.rootDigest h key otherBytes) :
    art.metadata.pageSize = other.metadata.pageSize ∧ art.content = other.content := by
  have hMessage := hInj (.inl (.inl rfl)) (.inr (.inl rfl)) (Digest.hex_injective hRoot)
  obtain ⟨hPage, -, hEntries⟩ := rootMessage_inj rootEntries_isHexID rootEntries_isHexID hMessage
  refine ⟨hPage, ?_⟩
  have hData : (art.chunks targetBytes).map (·.data) = (other.chunks otherBytes).map (·.data) := by
    apply data_eq_of_entries _ hEntries
    intro ch hch ch' hch' hID
    exact (chunkMessage_inj (hInj (.inl (.inr ⟨ch, hch, rfl⟩)) (.inr (.inr ⟨ch', hch', rfl⟩))
      (Digest.hex_injective hID))).2
  calc art.content = ((art.chunks targetBytes).map (·.data)).flatten := (art.tiles targetBytes).flatten.symm
    _ = ((other.chunks otherBytes).map (·.data)).flatten := by rw [hData]
    _ = other.content := (other.tiles otherBytes).flatten

theorem rootDigest_eq_of_content (hPage : art.metadata.pageSize = other.metadata.pageSize)
    (hContent : art.content = other.content) :
    art.rootDigest h key targetBytes = other.rootDigest h key targetBytes := by
  have hChunks : art.chunks targetBytes = other.chunks targetBytes := by
    simp only [Artifact.chunks, hPage, hContent]
  simp only [rootDigest, rootEntries, Artifact.size, hChunks, hPage, hContent]

end Artifact

theorem Backup.Service.rootOf_eq (s : Backup.Service) (art : Artifact) :
    s.rootOf art (s.identified art) = art.rootDigest s.ports.hashes s.dedupKey s.target := by
  simp only [Service.rootOf, Service.identified, Service.identify, map_map]
  rfl

namespace Restore

/-- Restoring the snapshot leaves the content in the target, whatever was there,
if it succeeds at all. -/
def Yields (s : Service) (w : World) (id : String) (content : Bytes) : Prop :=
  ∀ (target : String) (replace : Bool) (choices : Nat → Choice), (∀ n, (choices n).Faithful) →
    let out := (restore s id target replace).run.run (environment s.ports) (w, choices)
    out.1 = .ok () → out.2.1.files target = some content

theorem Opens.unique {s : Service} {w : World} {man : SnapshotManifest} {ch : ChunkInfo}
    {plain plain' : Bytes} (h : Opens s w man ch plain) (h' : Opens s w man ch plain') : plain = plain' := by
  obtain ⟨encrypted, hHolds, hOpen⟩ := h
  obtain ⟨encrypted', hHolds', hOpen'⟩ := h'
  obtain rfl : encrypted = encrypted' := Except.ok.inj (hHolds.symm.trans hHolds')
  exact Except.ok.inj (hOpen.symm.trans hOpen')

section
variable {P : Ports} {jobs : Nat → Job} {history : History} {key : Bytes}
  {st : System Answer World (CreateResult × Option GoError)}

theorem yields (hP : P.Lawful) (hKey : ∀ t, (jobs t).dedupKey = key) (run : Ran P jobs history st)
    (hInj : Set.InjOn (P.hashes.hmac key) (hashed P jobs history)) (hasSigner : Bool)
    (hRow : row ∈ st.world.rows) (hArt : BackedUp history row art) :
    Yields ⟨P, hasSigner, key⟩ st.world row.snapshot.id art.content := by
  obtain ⟨t, records, answer, hCall, hTook⟩ := hArt
  obtain ⟨d, up, committed, hComplete, hSnap, -⟩ := (record run).commits rfl hCall
  obtain rfl : d.art = art := hComplete.took.unique hTook (follows run t)
  have hAccepted := accepted hP hasSigner run hComplete hSnap
  rw [hKey t] at hAccepted
  intro target replace choices hFaithful out hOk
  obtain ⟨_, hFile, row', payload, man, plains, hFind, hAccepted', hOpens, rfl⟩ :=
    (restore_sound ⟨P, hasSigner, key⟩ st.world row.snapshot.id target replace).of_ok hFaithful hOk
  obtain rfl : row = row' := Option.some.inj ((find_row run rfl hRow).symm.trans hFind)
  obtain rfl : _ = payload := Except.ok.inj (hAccepted.signed.manifest.symm.trans hAccepted'.signed.manifest)
  obtain rfl : _ = man := Except.ok.inj (hAccepted.parsed.symm.trans hAccepted'.parsed)
  have hPlains : _ = plains := plains_unique (fun _ _ _ _ h h' => h.unique h')
    (opens_chunks hP hKey run hInj hasSigner hComplete.toUploaded) hOpens
  rw [hFile, ← hPlains, assemble_manifest (jobs t) d]

def digested (P : Ports) (jobs : Nat → Job) (key : Bytes) (history : History) : Set Bytes :=
  {message | ∃ t art, Service.Took (ownCalls t history) art ∧
    message ∈ art.rootTexts P.hashes key ((jobs t).service P).target}

theorem hashed_subset_digested : hashed P jobs history ⊆ digested P jobs key history := by
  rintro _ ⟨t, art, x, hTook, hx, rfl⟩
  obtain ⟨ch, hch, rfl⟩ := mem_map.mp hx
  exact ⟨t, art, hTook, .inr ⟨ch, hch, rfl⟩⟩

theorem rootOf_run (hKey : ∀ t, (jobs t).dedupKey = key) (t : Nat) (art : Artifact) :
    ((jobs t).service P).rootOf art (((jobs t).service P).identified art) =
      art.rootDigest P.hashes key ((jobs t).service P).target := by
  rw [Service.rootOf_eq, show ((jobs t).service P).dedupKey = key from hKey t]
  rfl

theorem duplicate_backedUp (hKey : ∀ t, (jobs t).dedupKey = key)
    (run : Ran P jobs history st)
    (hInj : Set.InjOn (P.hashes.hmac key) (digested P jobs key history)) {t : Nat} (hTook : Service.Took (ownCalls t history) art)
    (hFound : ⟨.findSnapshotByRoot (jobs t).command.source.id (((jobs t).service P).rootOf art
      (((jobs t).service P).identified art)), .ok (some existing)⟩ ∈ ownCalls t history) :
    ∃ row ∈ st.world.rows, ∃ other, row.snapshot.id = existing.id ∧
      row.snapshot.snapshotMode = existing.snapshotMode ∧ BackedUp history row other ∧
      other.content = art.content := by
  obtain ⟨e, hMem, -, hCall⟩ := mem_ownCalls.mp hFound
  obtain ⟨hRoot, ⟨⟨t', c', op, answer⟩, hMem', links, records, hOp⟩, row, hRow, hID⟩ :=
    found_entered run rfl hMem hCall
  obtain rfl : op = .createSnapshot existing links records := hOp
  obtain ⟨d, up, committed, hComplete, hSnap, -⟩ := (record run).commits rfl (mem_ownCalls_of_mem hMem')
  obtain ⟨t'', j, records'', answer'', hJob, hEntered⟩ := (record run).committer hRow
  obtain rfl : jobs t'' = j := Option.some.inj hJob
  obtain ⟨d'', up'', committed'', hComplete'', hSnap'', -⟩ := (record run).commits rfl hEntered
  have hName : d''.snapID = d.snapID := by
    rw [hSnap'', hSnap] at hID
    exact hID
  obtain rfl : t'' = t' := (record run).owner (hName ▸ hComplete''.named) hComplete.named
  refine ⟨row, hRow, d''.art, hID, ?_, ⟨t'', records'', answer'', hEntered, hComplete''.took⟩, ?_⟩
  · rw [hSnap'', hSnap]
    rfl
  · have hDigest : d.art.rootDigest P.hashes key ((jobs t'').service P).target =
        art.rootDigest P.hashes key ((jobs t).service P).target := by
      rw [← rootOf_run hKey, ← rootOf_run hKey, ← hRoot, hSnap]
      rfl
    rw [hComplete''.took.unique hComplete.took (follows run t'')]
    apply (Artifact.eq_of_rootDigest (hInj.mono ?_) hDigest).2
    rintro message (hText | hText)
    · exact ⟨t'', d.art, hComplete.took, hText⟩
    · exact ⟨t, art, hTook, hText⟩

/-- What `Create` reports as a duplicate is restored from the snapshot it names. -/
theorem duplicate_restores {hasSigner : Bool} (hP : P.Lawful) (hKey : ∀ t, (jobs t).dedupKey = key)
    (run : Ran P jobs history st) (hInj : Set.InjOn (P.hashes.hmac key) (digested P jobs key history)) {t : Nat}
    {result : CreateResult} {existing : Snapshot} (hDone : st.threads t = .done (result, none))
    (hDuplicate : result.duplicate = true) (hSnapshot : result.snapshot = some existing)
    (hTook : Service.Took (ownCalls t history) art) :
    Yields ⟨P, hasSigner, key⟩ st.world existing.id art.content ∧
      ((existing.snapshotMode = .onlineBackup → sqliteHeader <+: art.content) →
        Restores ⟨P, hasSigner, key⟩ st.world existing.id art.content) := by
  cases outcome run hDone with
  | committed => cases hDuplicate
  | duplicate hTook' hFound =>
    obtain rfl := hTook'.unique hTook (follows run t)
    obtain rfl := Option.some.inj hSnapshot
    obtain ⟨row, hRow, other, hID, hMode, hBackedUp, hContent⟩ :=
      duplicate_backedUp hKey run hInj hTook hFound
    have hHashed := hInj.mono hashed_subset_digested
    rw [← hID, ← hMode, ← hContent]
    exact ⟨yields hP hKey run hHashed hasSigner hRow hBackedUp,
      restores hP hKey run hHashed hasSigner hRow hBackedUp⟩

end

end Restore

end DBVault
