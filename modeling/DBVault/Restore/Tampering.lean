import DBVault.Restore.RoundTrip

/-! The chunks of a restored file are pinned down by the manifest: whatever
happens to the chunk objects, two restores that succeed give the same file. -/
namespace DBVault.Restore
open List Text Interaction RemoteService Backup

section
variable {s : Service} {w w₁ w₂ : World} {man : SnapshotManifest}

def opened (s : Service) (w : World) (man : SnapshotManifest) : Set Bytes :=
  {message | ∃ ch ∈ man.chunks, ∃ plain, Opens s w man ch plain ∧
    message = Hashes.chunkMessage man.database.pageSize plain}

theorem Opens.chunkID (hKey : s.dedupKey ≠ [])
    (hPage : 0 < man.database.pageSize) (h : Opens s w man ch plain) :
    s.ports.hashes.chunkID s.dedupKey man.database.pageSize plain = ch.chunkID := by
  obtain ⟨encrypted, -, hOpen⟩ := h
  obtain ⟨compressed, -, -, hCheck⟩ := openChunk_ok.mp hOpen
  exact checkChunk_ok.mp hCheck (length_pos_iff.mpr hKey) hPage

theorem opens_unique (hKey : s.dedupKey ≠ []) (hPage : 0 < man.database.pageSize)
    (hInj : Set.InjOn (s.ports.hashes.hmac s.dedupKey) (opened s w₁ man ∪ opened s w₂ man))
    (hch : ch ∈ man.chunks) (h : Opens s w₁ man ch plain) (h' : Opens s w₂ man ch plain') : plain = plain' := by
  have hID : s.ports.hashes.chunkID s.dedupKey man.database.pageSize plain =
      s.ports.hashes.chunkID s.dedupKey man.database.pageSize plain' :=
    (h.chunkID hKey hPage).trans (h'.chunkID hKey hPage).symm
  have hMessage := hInj (.inl ⟨ch, hch, plain, h, rfl⟩) (.inr ⟨ch, hch, plain', h', rfl⟩)
    (Digest.hex_injective hID)
  exact (Hashes.chunkMessage_inj hMessage).2

theorem plains_unique
    (hUnique : ∀ ch ∈ chs, ∀ plain plain', Opens s w₁ man ch plain → Opens s w₂ man ch plain' → plain = plain')
    (h : List.Forall₂ (Opens s w₁ man) chs plains) (h' : List.Forall₂ (Opens s w₂ man) chs plains') :
    plains = plains' := by
  induction h generalizing plains' with
  | nil =>
    cases h'
    rfl
  | @cons ch plain rest plains hOpens _ ih =>
    cases h' with
    | @cons _ plain' _ plains' hOpens' hRest' =>
      rw [hUnique ch (by simp) plain plain' hOpens hOpens', ih (fun ch hch => hUnique ch (by simp [hch])) hRest']

/-- Two stores with the same manifest, signature and completion record, and
anything at all for chunks: if both restores succeed the files are the same. -/
theorem tampered_chunks_same_file {id target₁ target₂ : String} {replace₁ replace₂ : Bool}
    {choices₁ choices₂ : Nat → Choice} {row : CatalogueRow} {payload : Bytes}
    (hKey : s.dedupKey ≠ [])
    (hRow₁ : w₁.rows.find? (·.snapshot.id == id) = some row)
    (hRow₂ : w₂.rows.find? (·.snapshot.id == id) = some row)
    (hAgree : ∀ key ∈ [row.snapshot.manifestObjectKey, signatureKey row.snapshot,
      row.snapshot.completionObjectKey],
      w₁.findObject s.ports.backend key = w₂.findObject s.ports.backend key)
    (hPayload : w₁.Holds s.ports row.snapshot.manifestObjectKey payload)
    (hParsed : SnapshotManifest.unmarshal payload = .ok man) (hPage : 0 < man.database.pageSize)
    (hInj : Set.InjOn (s.ports.hashes.hmac s.dedupKey) (opened s w₁ man ∪ opened s w₂ man))
    (hFaithful₁ : ∀ n, (choices₁ n).Faithful) (hFaithful₂ : ∀ n, (choices₂ n).Faithful)
    (hOk₁ : ((restore s id target₁ replace₁).run.run (environment s.ports) (w₁, choices₁)).1 = .ok ())
    (hOk₂ : ((restore s id target₂ replace₂).run.run (environment s.ports) (w₂, choices₂)).1 = .ok ()) :
    ∃ file,
      ((restore s id target₁ replace₁).run.run (environment s.ports) (w₁, choices₁)).2.1.files
        target₁ = some file ∧
      ((restore s id target₂ replace₂).run.run (environment s.ports) (w₂, choices₂)).2.1.files
        target₂ = some file := by
  obtain ⟨_, hFile₁, row₁, payload₁, man₁, plains₁, hFind₁, hAccepted₁, hOpens₁, rfl⟩ :=
    (restore_sound s w₁ id target₁ replace₁).of_ok hFaithful₁ hOk₁
  obtain ⟨_, hFile₂, row₂, payload₂, man₂, plains₂, hFind₂, hAccepted₂, hOpens₂, rfl⟩ :=
    (restore_sound s w₂ id target₂ replace₂).of_ok hFaithful₂ hOk₂
  obtain rfl : row = row₁ := Option.some.inj (hRow₁.symm.trans hFind₁)
  obtain rfl : row = row₂ := Option.some.inj (hRow₂.symm.trans hFind₂)
  obtain rfl : payload = payload₁ := Except.ok.inj (hPayload.symm.trans hAccepted₁.signed.manifest)
  obtain rfl : payload = payload₂ := by
    apply Except.ok.inj
    rw [← hAccepted₂.signed.manifest, ← hAgree _ (by simp)]
    exact hPayload.symm
  obtain rfl : man = man₁ := Except.ok.inj (hParsed.symm.trans hAccepted₁.parsed)
  obtain rfl : man = man₂ := Except.ok.inj (hParsed.symm.trans hAccepted₂.parsed)
  obtain rfl : plains₁ = plains₂ := plains_unique
    (fun ch hch _ _ h h' => opens_unique hKey hPage hInj hch h h') hOpens₁ hOpens₂
  exact ⟨_, hFile₁, hFile₂⟩

end

namespace Sample
open Backup.Sample

theorem opens (nonce : UInt8) :
    List.Forall₂ (Opens server (world "snap_8_" nonce) man) man.chunks
      ((writer.identified artifact).map (·.1.data)) := by
  apply forall₂_map_left_iff.mpr
  apply forall₂_map_right_iff.mpr
  apply forall₂_same.mpr
  intro x hx
  refine ⟨_, chunk_holds man (by simp) nonce hx, openChunk_ok.mpr ⟨x.1.data, rfl, rfl, checkChunk_ok.mpr ?_⟩⟩
  intro _ _
  exact (writer.identified_id hx).symm

theorem restored (nonce : UInt8) :
    ((restore server "snap_8_" "out" false).run.run (environment server.ports)
      (world "snap_8_" nonce, calm)).1 = .ok () := by
  have hAssemble : assemble man ((writer.identified artifact).map (·.1.data)) = artifact.content :=
    assemble_manifest job draft
  have hAccepted : Accepted server (world "snap_8_" nonce) (entry "snap_8_").snapshot payload man :=
    ⟨signed man (by simp) nonce, parsed, .inr rfl, rootFits⟩
  have hValid : Valid man (assemble man ((writer.identified artifact).map (·.1.data))) := by
    rintro (hEngine | hEngine)
    · exact absurd hEngine (by decide)
    · exact absurd hEngine (by decide)
  have hRow : (world "snap_8_" nonce).rows.find? (·.snapshot.id == "snap_8_") = some (entry "snap_8_") := by rfl
  obtain ⟨_, hResult, -⟩ := (restore_complete false hRow hAccepted (opens nonce)
    (offset_nonneg job draft) hValid rfl).succeeds calm_clean
  exact hResult

theorem opened_eq
    (hy : writer.identified artifact = [y]) (hOpened : message ∈ opened server (world "snap_8_" nonce) man) :
    message = Hashes.chunkMessage man.database.pageSize y.1.data := by
  obtain ⟨ch, hch, plain, ⟨encrypted, hHolds, hOpen⟩, rfl⟩ := hOpened
  obtain ⟨x, hx, rfl⟩ := mem_map.mp hch
  obtain rfl : x = y := by
    rw [← mem_singleton, ← hy]
    exact hx
  obtain rfl := Except.ok.inj (hHolds.symm.trans (chunk_holds man (by simp) nonce hx))
  obtain ⟨compressed, hDecrypt, hDecompress, -⟩ := openChunk_ok.mp hOpen
  cases hDecrypt
  cases hDecompress
  rfl

theorem opened_subsingleton :
    (opened server (world "snap_8_" 0) man ∪ opened server (world "snap_8_" 1) man).Subsingleton := by
  obtain ⟨y, hy⟩ := identified_sample .filesystem
  have hMessage : ∀ message ∈ opened server (world "snap_8_" 0) man ∪
      opened server (world "snap_8_" 1) man,
      message = Hashes.chunkMessage man.database.pageSize y.1.data := by
    rintro message (hOpened | hOpened)
    · exact opened_eq hy hOpened
    · exact opened_eq hy hOpened
  intro message hMem message' hMem'
  rw [hMessage message hMem, hMessage message' hMem']

theorem files_agree : ∀ key ∈ [(entry "snap_8_").snapshot.manifestObjectKey,
    signatureKey (entry "snap_8_").snapshot, (entry "snap_8_").snapshot.completionObjectKey],
    (world "snap_8_" 0).findObject server.ports.backend key =
      (world "snap_8_" 1).findObject server.ports.backend key := by
  have hFile : ∀ {key : String} {a : Address} {bytes : Bytes}, Filesystem.safePath key = .ok a →
      (∀ nonce, ((files man "snap_8_" nonce).map fun f => (f.1.toList, f.2)).lookup a = some bytes) →
      (world "snap_8_" 0).findObject server.ports.backend key =
        (world "snap_8_" 1).findObject server.ports.backend key :=
    fun hPath hLookup => (holds hPath (hLookup 0)).trans (holds hPath (hLookup 1)).symm
  intro key hKey
  simp only [mem_cons, not_mem_nil, or_false] at hKey
  rcases hKey with rfl | rfl | rfl <;> exact hFile rfl fun _ => rfl

end Sample

theorem tampered_chunks_same_file_sample : ∃ file,
    ((restore Sample.server "snap_8_" "out" false).run.run (environment Sample.server.ports)
      (Sample.world "snap_8_" 0, Sample.calm)).2.1.files "out" = some file ∧
    ((restore Sample.server "snap_8_" "out" false).run.run (environment Sample.server.ports)
      (Sample.world "snap_8_" 1, Sample.calm)).2.1.files "out" = some file := by
  exact tampered_chunks_same_file (by decide) rfl rfl Sample.files_agree
    (Sample.signed Sample.man (by simp) 0).manifest Sample.parsed (by decide)
    (Sample.opened_subsingleton.injOn _) (fun n => (Sample.calm_clean n).faithful)
    (fun n => (Sample.calm_clean n).faithful) (Sample.restored 0) (Sample.restored 1)

end DBVault.Restore
