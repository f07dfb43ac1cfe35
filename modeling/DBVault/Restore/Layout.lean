import DBVault.Restore.Tampering

/-! Where the bytes of a restored file come from. Chunks are written at offsets that no digest
covers; where the offsets tile the file, it is the chunks one after the other. -/
namespace DBVault.Restore
open List Text Interaction RemoteService Backup Sample

/-- A chunk that is not empty starts where those before it end. -/
def TiledFrom (man : SnapshotManifest) : Nat → List (ChunkInfo × Nat) → Prop
  | _, [] => True
  | start, (ch, size) :: rest => (size ≠ 0 → offset man ch = start) ∧ TiledFrom man (start + size) rest

/-- Chunks of these sizes fill the file. -/
structure Tiled (man : SnapshotManifest) (sizes : List Nat) : Prop where
  total : man.database.logicalSize = sizes.sum
  offsets : TiledFrom man 0 (man.chunks.zip sizes)

section
variable {s : Service} {w : World} {man : SnapshotManifest} {plains : List Bytes}

theorem blank_eq (man : SnapshotManifest) : blank man = List.replicate man.database.logicalSize.toNat 0 := by
  unfold blank
  split
  · simp [truncateBytes, padTo]
  · rename_i hSize
    rw [Int.toNat_of_nonpos (by omega)]
    rfl

/-- Written one after the other over zeros, the chunks replace them from the front. -/
theorem writeChunks_eq (chunks : List ChunkInfo) (plains : List Bytes) (done : Bytes)
    (hLength : chunks.length = plains.length)
    (hTiled : TiledFrom man done.length (chunks.zip (plains.map length))) :
    (chunks.zip plains).foldl (writeChunk man) (done ++ List.replicate (plains.map length).sum 0) =
      done ++ plains.flatten := by
  induction chunks generalizing plains done with
  | nil =>
    obtain rfl := length_eq_zero_iff.mp hLength.symm
    simp
  | cons ch chunks ih =>
    obtain ⟨plain, rest, rfl⟩ := exists_cons_of_length_eq_add_one hLength.symm
    obtain ⟨hOffset, hRest⟩ := hTiled
    have hWrite : writeChunk man (done ++ List.replicate ((plain :: rest).map length).sum 0) (ch, plain) =
        (done ++ plain) ++ List.replicate (rest.map length).sum 0 := by
      by_cases hEmpty : plain = []
      · simp [writeChunk, writeBytes, hEmpty]
      · have hStart : (offset man ch).toNat = done.length := by
          rw [hOffset (by simpa using hEmpty), Int.toNat_natCast]
        simp only [writeChunk, hStart]
        rw [writeBytes_end]
        simp
    rw [zip_cons_cons, foldl_cons, hWrite, ih rest (done ++ plain) (by simpa using hLength)
      (by rw [length_append]; exact hRest)]
    simp

theorem assemble_of_tiled (hLength : man.chunks.length = plains.length) (hTiled : Tiled man (plains.map length)) :
    assemble man plains = plains.flatten := by
  have hBlank : blank man = [] ++ List.replicate (plains.map length).sum 0 := by
    rw [blank_eq, hTiled.total, Int.toNat_natCast, nil_append]
  rw [assemble, hBlank, writeChunks_eq _ _ [] hLength hTiled.offsets, nil_append]

/-- A restored file has the manifest's size and is the verified chunks in order, if the offsets
of the manifest tile the file. -/
theorem restored_contents {id target : String} {replace : Bool} {choices : Nat → Choice}
    (hFaithful : ∀ n, (choices n).Faithful)
    (hOk : ((restore s id target replace).run.run (environment s.ports) (w, choices)).1 = .ok ()) :
    ∃ row payload man plains file, w.rows.find? (·.snapshot.id == id) = some row ∧
      Accepted s w row.snapshot payload man ∧ List.Forall₂ (Opens s w man) man.chunks plains ∧
      ((restore s id target replace).run.run (environment s.ports) (w, choices)).2.1.files target =
        some file ∧
      (Tiled man (plains.map length) →
        (file.length : Int) = man.database.logicalSize ∧ file = plains.flatten) := by
  obtain ⟨file, hFile, row, payload, man, plains, hFind, hAccepted, hOpens, hAssemble⟩ :=
    (restore_sound s w id target replace).of_ok hFaithful hOk
  refine ⟨row, payload, man, plains, file, hFind, hAccepted, hOpens, hFile, fun hTiled => ?_⟩
  have hContents : file = plains.flatten := hAssemble.trans (assemble_of_tiled hOpens.length_eq hTiled)
  refine ⟨?_, hContents⟩
  rw [hContents, length_flatten, hTiled.total]

end

theorem restored_contents_sample :
    ∃ row payload man plains file,
      (world "snap_8_" 0).rows.find? (·.snapshot.id == "snap_8_") = some row ∧
      Accepted Sample.server (world "snap_8_" 0) row.snapshot payload man ∧
      List.Forall₂ (Opens Sample.server (world "snap_8_" 0) man) man.chunks plains ∧
      ((restore Sample.server "snap_8_" "out" false).run.run (environment Sample.server.ports)
        (world "snap_8_" 0, calm)).2.1.files "out" = some file ∧
      (Tiled man (plains.map length) →
        (file.length : Int) = man.database.logicalSize ∧ file = plains.flatten) :=
  restored_contents (fun n => (calm_clean n).faithful) (restored 0)

example : Tiled Sample.man [3] := ⟨by decide +kernel, fun _ => by decide +kernel, trivial⟩

namespace Sample
open Backup.Sample

def shifted : SnapshotManifest := { man with chunks := man.chunks.map fun ch => { ch with pageStart := 1 } }

theorem shifted_fits : shifted.Fits := by
  have hFits : man.Fits := writer.manifest_fits job.command draft
  refine ⟨hFits.formatVersion, hFits.database, hFits.snapshot, ?_⟩
  intro ch hch
  obtain ⟨original, hOriginal, rfl⟩ := mem_map.mp hch
  have hPage : Json.IsInt64 1 := by decide
  exact { hFits.chunks original hOriginal with pageStart := hPage }

theorem shifted_rootFits : server.RootFits shifted := by
  have hTree : server.treeRoot shifted = server.treeRoot man := by
    simp only [treeRoot, shifted, map_map]
    rfl
  have hDigest : server.computedDigest shifted = server.computedDigest man := by
    simp only [computedDigest, shifted, map_map]
    rfl
  constructor
  · exact rootFits.present
  · intro hKey hChunks
    rw [hTree, hDigest]
    exact rootFits.computed hKey (by simpa [shifted] using hChunks)

theorem shifted_opens :
    List.Forall₂ (Opens server (worldOf shifted "snap_8_" 0) shifted) shifted.chunks
      ((writer.identified artifact).map (·.1.data)) := by
  apply forall₂_map_left_iff.mpr
  apply forall₂_map_left_iff.mpr
  apply forall₂_map_right_iff.mpr
  apply forall₂_same.mpr
  intro x hx
  refine ⟨_, chunk_holds shifted (by simp) 0 hx,
    openChunk_ok.mpr ⟨x.1.data, rfl, rfl, checkChunk_ok.mpr ?_⟩⟩
  intro _ _
  exact (writer.identified_id hx).symm

end Sample

/-- A manifest that passes every check can leave a hole at the start of the file
and bytes past its size. -/
theorem shifted_chunk_restored :
    Accepted Sample.server (Sample.worldOf Sample.shifted "snap_8_" 0)
      (entry "snap_8_").snapshot Sample.shifted.marshal Sample.shifted ∧
    Sample.shifted.database.logicalSize = 3 ∧
    List.Forall₂ (Opens Sample.server (Sample.worldOf Sample.shifted "snap_8_" 0) Sample.shifted)
      Sample.shifted.chunks [[1, 2, 3]] ∧
    ((restore Sample.server "snap_8_" "out" false).run.run (environment Sample.server.ports)
      (Sample.worldOf Sample.shifted "snap_8_" 0, calm)).1 = .ok () ∧
    ((restore Sample.server "snap_8_" "out" false).run.run (environment Sample.server.ports)
      (Sample.worldOf Sample.shifted "snap_8_" 0, calm)).2.1.files "out" = some [0, 0, 1, 2, 3] := by
  have hAccepted : Accepted Sample.server (Sample.worldOf Sample.shifted "snap_8_" 0)
      (entry "snap_8_").snapshot Sample.shifted.marshal Sample.shifted :=
    ⟨signed Sample.shifted (by simp) 0,
      SnapshotManifest.unmarshal_marshal Sample.shifted_fits, .inr rfl, Sample.shifted_rootFits⟩
  have hPlains : (Sample.writer.identified Backup.Sample.artifact).map (·.1.data) = [[1, 2, 3]] := by
    decide +kernel
  have hOpens := Sample.shifted_opens
  rw [hPlains] at hOpens
  have hAssemble : assemble Sample.shifted [[1, 2, 3]] = [0, 0, 1, 2, 3] := by decide +kernel
  have hOffset : ∀ ch ∈ Sample.shifted.chunks, 0 ≤ offset Sample.shifted ch := by
    intro ch hch
    obtain ⟨original, -, rfl⟩ := mem_map.mp hch
    exact (by decide : (0 : Int) ≤ mulInt64 1 2)
  have hValid : Valid Sample.shifted (assemble Sample.shifted [[1, 2, 3]]) := by
    rintro (hEngine | hEngine)
    · exact absurd hEngine (by decide)
    · exact absurd hEngine (by decide)
  have hRow : (Sample.worldOf Sample.shifted "snap_8_" 0).rows.find?
      (·.snapshot.id == "snap_8_") = some (entry "snap_8_") := by rfl
  obtain ⟨_, hResult, hFile⟩ := (restore_complete false hRow hAccepted hOpens hOffset hValid
    rfl).succeeds calm_clean
  rw [hAssemble] at hFile
  exact ⟨hAccepted, rfl, hOpens, hResult, hFile⟩

end DBVault.Restore
