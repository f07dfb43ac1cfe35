import DBVault.GarbageCollection.Safety
import DBVault.Scanner
import DBVault.Storage.Spelling

/-! The layout of keys as the writer and its readers see it. `Create` writes
below the source's identifier; `Plan`, `Scan` and `Startup` list `chunks/` and
`snapshots/` at the top. -/
namespace DBVault.KeyLayout
open List Text Text.Path Interaction Backup Backend Backup.Sample GarbageCollection Service

/-- Every `Create` has stored nothing or has returned without an error. -/
def Settled (history : History) (st : System Answer World (CreateResult × Option GoError)) : Prop :=
  ∀ t, (∀ call ∈ ownCalls t history, ∀ req, call.op ≠ .put req) ∨
    ∃ result, st.threads t = .done (result, none)

inductive Owns (s : Service) (cmd : Command) (d : Draft) : String → Prop where
  | chunk {x : Service.Identified} (hx : x ∈ s.identified d.art) : Owns s cmd d (s.chunkKey cmd x.2)
  | file (kind : FileKind) : Owns s cmd d (snapshotKey cmd.source.id d.snapID kind.name)

theorem owns_of_mayPut (hPast : (s.rules cmd).Follows past) (hDrafted : Service.Drafted past d)
    (hEarlier : earlier ⊆ past) (h : s.MayPut cmd earlier req) : Owns s cmd d req.key := by
  cases h with
  | chunk hChunk =>
    obtain ⟨art, x, nonce, compressed, hTook, hx, -, -, hReq⟩ := hChunk
    obtain rfl : d.art = art := hDrafted.took.unique (hTook.mono hEarlier) hPast
    rw [hReq]
    exact .chunk hx
  | manifest hUp =>
    obtain rfl := hDrafted.unique (hUp.toDrafted.mono hEarlier) hPast
    exact .file .manifest
  | sig hPut =>
    obtain rfl := hDrafted.unique (hPut.toDrafted.mono hEarlier) hPast
    exact .file .sig
  | complete hSig =>
    obtain rfl := hDrafted.unique (hSig.toDrafted.mono hEarlier) hPast
    exact .file .complete

section
variable {P : Ports} {jobs : Nat → Job} {history : History}
  {st : System Answer World (CreateResult × Option GoError)}

/-- The row of the snapshot that a `Create` has committed. -/
structure RowOf (P : Ports) (jobs : Nat → Job) (history : History) (row : CatalogueRow) (t : Nat)
    (d : Draft) : Prop where
  complete : ((jobs t).service P).CompletePut (jobs t).command (ownCalls t history) d
  snapshot : ∃ up committed, row.snapshot = ((jobs t).service P).snapshot (jobs t).command d.art
    (((jobs t).service P).identified d.art) d.snapID d.now up committed

theorem rowOf_of_mem (run : Ran P jobs history st)
    {row : CatalogueRow} (hRow : row ∈ st.world.rows) : ∃ t d, RowOf P jobs history row t d := by
  obtain ⟨t, j, hJob, d, up, committed, hComplete, hSnap, -⟩ := (record run).committed hRow
  obtain rfl : jobs t = j := Option.some.inj hJob
  exact ⟨t, d, hComplete, up, committed, hSnap⟩

theorem rowOf_of_put (run : Ran P jobs history st) (hSettled : Settled history st) {t : Nat}
    (hPut : ⟨.put req, answer⟩ ∈ ownCalls t history) :
    ∃ row ∈ st.world.rows, ∃ d, RowOf P jobs history row t d := by
  rcases hSettled t with hNone | ⟨result, hDone⟩
  · exact absurd rfl (hNone _ hPut req)
  have hStart : ∀ t, ((backups P jobs).threads t).Obeys anything [] fun result later =>
      result.1.duplicate = true → ∀ call ∈ later, ∀ req, call.op ≠ .put req :=
    fun t => ((jobs t).service P).create_duplicate (jobs t).command
  have hDuplicate := run.obeys hStart (fun _ _ _ _ _ => trivial) t
  rw [hDone] at hDuplicate
  cases outcome run hDone with
  | duplicate => exact absurd rfl (hDuplicate rfl _ hPut req)
  | @committed d up r snap committed links records hComplete hSnap hRow =>
    obtain ⟨row, hMem, hID⟩ := row_kept run hRow
    obtain ⟨t', d', hRowOf⟩ := rowOf_of_mem run hMem
    obtain ⟨up', committed', hSnapshot⟩ := hRowOf.snapshot
    have hSame : d'.snapID = d.snapID := by
      rw [hSnapshot, hSnap] at hID
      exact hID
    obtain rfl : t' = t := (record run).owner (hSame ▸ hRowOf.complete.named) hComplete.named
    exact ⟨row, hMem, d', hRowOf⟩

variable {a : Address} {kind : FileKind}

theorem object_owner (run : Ran P jobs history st)
    (hSettled : Settled history st) (hFind : st.world.objects.find a = some bytes) :
    ∃ row ∈ st.world.rows, ∃ t d key, RowOf P jobs history row t d ∧
      Owns ((jobs t).service P) (jobs t).command d key ∧ P.backend.locate key = .ok a := by
  obtain ⟨⟨t, c, op, answer⟩, hMem, req, hOp, hLocate, -⟩ := (record run).put a bytes hFind
  obtain rfl : op = .put req := hOp
  have hOwn := mem_ownCalls_of_mem hMem
  obtain ⟨row, hRow, d, hRowOf⟩ := rowOf_of_put run hSettled hOwn
  obtain ⟨earlier, hSuffix, hMay, -⟩ := (follows run t).of_mem hOwn
  exact ⟨row, hRow, t, d, req.key, hRowOf, owns_of_mayPut (follows run t)
    hRowOf.complete.toDrafted ((suffix_cons _ _).trans hSuffix).subset hMay, hLocate⟩

def fileKey (row : CatalogueRow) (kind : FileKind) : String :=
  snapshotKey row.snapshot.sourceID row.snapshot.id kind.name

def fileAt (P : Ports) (row : CatalogueRow) (kind : FileKind) : Address :=
  join (P.backend.place (components (fileKey row kind).toList))

variable {row : CatalogueRow} {t : Nat} {d : Draft}

theorem RowOf.fileKey_eq (h : RowOf P jobs history row t d) (kind : FileKind) :
    fileKey row kind = snapshotKey (jobs t).command.source.id d.snapID kind.name := by
  obtain ⟨up, committed, hSnapshot⟩ := h.snapshot
  rw [fileKey, hSnapshot]
  rfl

theorem RowOf.plain (run : Ran P jobs history st)
    (h : RowOf P jobs history row t d) : Plain row.snapshot.id.toList := by
  obtain ⟨up, committed, hSnapshot⟩ := h.snapshot
  rw [hSnapshot]
  exact h.complete.plain (follows run t)

theorem components_fileKey (hID : Plain row.snapshot.id.toList) (kind : FileKind) :
    components (fileKey row kind).toList = components row.snapshot.sourceID.toList ++
      snapshotTail row.snapshot.id kind.name :=
  components_snapshotKey _ hID.slashFree kind.plain.slashFree

theorem file_there (run : Ran P jobs history st) (hRow : row ∈ st.world.rows) (kind : FileKind) :
    P.backend.locate (fileKey row kind) = .ok (fileAt P row kind) ∧
      ∃ bytes, st.world.objects.find (fileAt P row kind) = some bytes := by
  obtain ⟨t, d, h⟩ := rowOf_of_mem run hRow
  have hUsed : Service.Used (ownCalls t history) (snapshotKey (jobs t).command.source.id d.snapID kind.name) := by
    cases kind with
    | manifest =>
      obtain ⟨obj, hPut⟩ := h.complete.manifestPut
      exact .inr ⟨_, obj, rfl, hPut⟩
    | sig =>
      obtain ⟨sig, obj, -, hPut⟩ := h.complete.sigPut
      exact .inr ⟨_, obj, rfl, hPut⟩
    | complete =>
      obtain ⟨time, obj, hPut⟩ := h.complete.completePut
      exact .inr ⟨_, obj, rfl, hPut⟩
  obtain ⟨bytes, hHolds⟩ := holds_of_used run hUsed
  rw [← h.fileKey_eq] at hHolds
  obtain ⟨a, hLocate, hFind⟩ := World.holds_iff.mp hHolds
  obtain rfl : a = fileAt P row kind := locate_ok hLocate
  exact ⟨hLocate, bytes, hFind⟩

theorem fileAt_endsIn (run : Ran P jobs history st) (hRow : row ∈ st.world.rows) (kind : FileKind) :
    EndsIn (fileAt P row kind) (snapshotTail row.snapshot.id kind.name) := by
  obtain ⟨t, d, h⟩ := rowOf_of_mem run hRow
  exact snapshotKey_endsIn kind (h.plain run) (file_there run hRow kind).1

omit P jobs history st row t d in
theorem chunkFileName_ne {id : String} (kind : FileKind) : [(chunkFileName id).toList] ≠ [kind.name.toList] := by
  intro hSame
  have hLast : (chunkFileName id).toList.getLast? = some 'k' := by simp [chunkFileName]
  rw [singleton_inj.mp hSame] at hLast
  cases kind <;> exact absurd hLast (by decide)

theorem file_of_name (run : Ran P jobs history st) (hSettled : Settled history st)
    (hFind : st.world.objects.find a = some bytes) (hName : EndsIn a [kind.name.toList]) :
    ∃ row ∈ st.world.rows, a = fileAt P row kind := by
  obtain ⟨row, hRow, t, d, key, hRowOf, hOwns, hLocate⟩ := object_owner run hSettled hFind
  cases hOwns with
  | @chunk x hx =>
    have hEnds := chunkKey_endsIn (((jobs t).service P).identified_isHexID hx) hLocate
    have hLast : EndsIn a [(chunkFileName x.2).toList] :=
      EndsIn.last [x.2.toList.take 2, (x.2.toList.drop 2).take 2] hEnds
    exact absurd (hLast.unique hName rfl (by simp)) (chunkFileName_ne kind)
  | file kind' =>
    have hEnds := snapshotKey_endsIn kind' (hRowOf.complete.plain (follows run t)) hLocate
    have hLast : EndsIn a [kind'.name.toList] := EndsIn.last ["snapshots".toList, d.snapID.toList] hEnds
    have hSame : kind'.name.toList = kind.name.toList := singleton_inj.mp (hLast.unique hName rfl (by simp))
    obtain rfl := FileKind.name_inj (String.toList_inj.mp hSame)
    refine ⟨row, hRow, ?_⟩
    rw [locate_ok hLocate, fileAt, hRowOf.fileKey_eq]

def hasName (kind : FileKind) (obj : StoredObject) : Bool := ('/' :: kind.name.toList).isSuffixOf obj.key.toList

theorem isManifest_eq : isManifest = hasName .manifest := rfl

theorem isCompletion_eq : isCompletion = hasName .complete := rfl

theorem endsIn_of_hasName
    (h : hasName kind (P.backend.shownAs entry) = true) : EndsIn entry.1 [kind.name.toList] := by
  obtain ⟨front, hFront⟩ := isSuffixOf_iff_suffix.mp h
  have hParts : components (P.backend.keyOf entry.1).toList = components front ++ [kind.name.toList] := by
    rw [show (P.backend.keyOf entry.1).toList = front ++ '/' :: kind.name.toList from hFront.symm,
      components_append, components_slashFree kind.plain.slashFree]
  exact endsIn_of_keyOf hParts

theorem hasName_fileKey (kind : FileKind) (h : obj.key = fileKey row kind) : hasName kind obj = true := by
  rw [hasName, h, isSuffixOf_iff_suffix]
  exact ⟨(row.snapshot.sourceID ++ "/snapshots/" ++ row.snapshot.id).toList, by simp [fileKey, snapshotKey]⟩

def shownFiles (P : Ports) (w : World) (kind : FileKind) : List Address :=
  ((P.backend.covered w.objects "snapshots/").filter
    fun entry => hasName kind (P.backend.shownAs entry)).map (·.1)

theorem filter_shown (entries : List (Address × Bytes)) (kind : FileKind) :
    (entries.map P.backend.shownAs).filter (hasName kind) =
      (entries.filter fun entry => hasName kind (P.backend.shownAs entry)).map P.backend.shownAs := by
  rw [filter_map]
  rfl

theorem shownFiles_nodup (w : World) (kind : FileKind) : (shownFiles P w kind).Nodup :=
  covered_nodup.sublist (filter_sublist.map _)

theorem fileAt_inj (run : Ran P jobs history st) (hRow : row ∈ st.world.rows)
    (hOther : other ∈ st.world.rows) (h : fileAt P row kind = fileAt P other kind) : row = other := by
  have hIDs := (snapshotTail_meet (fileAt_endsIn run hRow kind) (h ▸ fileAt_endsIn run hOther kind)).1
  exact inj_on_of_nodup_map (rows_nodup run rfl) hRow hOther hIDs

theorem mem_shownFiles (run : Ran P jobs history st) (hSettled : Settled history st)
    (h : a ∈ shownFiles P st.world kind) : ∃ row ∈ st.world.rows, a = fileAt P row kind := by
  obtain ⟨entry, hEntry, rfl⟩ := mem_map.mp h
  obtain ⟨hCovered, hName⟩ := mem_filter.mp hEntry
  exact file_of_name run hSettled (mem_covered.mp hCovered).1 (endsIn_of_hasName hName)

theorem shown_iff (run : Ran P jobs history st) (hRow : row ∈ st.world.rows) (kind : FileKind) :
    P.backend.covers "snapshots/" (fileAt P row kind) = true ∧
        P.backend.keyOf (fileAt P row kind) = fileKey row kind ↔
      P.backend.Finds row.snapshot.sourceID := by
  obtain ⟨t, d, h⟩ := rowOf_of_mem run hRow
  exact shows_iff (components_fileKey (h.plain run) kind)
    (snapshotTail_plain (h.plain run) kind) (by simp [snapshotTail]) (file_there run hRow kind).1

theorem shownFiles_perm (run : Ran P jobs history st) (hSettled : Settled history st)
    (hFinds : ∀ row ∈ st.world.rows, P.backend.Finds row.snapshot.sourceID) (kind : FileKind) :
    (shownFiles P st.world kind).Perm (st.world.rows.map (fileAt P · kind)) := by
  have hNodup : (st.world.rows.map (fileAt P · kind)).Nodup := by
    apply List.Nodup.map_on
    · exact fun row hRow other hOther => fileAt_inj run hRow hOther
    · exact List.Nodup.of_map _ (rows_nodup run rfl)
  apply (perm_ext_iff_of_nodup (shownFiles_nodup _ _) hNodup).mpr
  intro a
  constructor
  · intro hMem
    obtain ⟨row, hRow, rfl⟩ := mem_shownFiles run hSettled hMem
    exact mem_map_of_mem hRow
  · intro hMem
    obtain ⟨row, hRow, rfl⟩ := mem_map.mp hMem
    obtain ⟨hCovers, hKey⟩ := (shown_iff run hRow kind).mpr (hFinds row hRow)
    obtain ⟨bytes, hFind⟩ := (file_there run hRow kind).2
    refine mem_map.mpr ⟨(_, bytes), mem_filter.mpr ⟨?_, ?_⟩, rfl⟩
    · exact mem_covered.mpr ⟨hFind, hCovers⟩
    · exact hasName_fileKey kind hKey

open GarbageCollection (references Stored)

theorem length_references (w : World) (entries : List (Address × Bytes)) :
    ((entries.map P.backend.shownAs).flatMap (references P w)).length =
      ((entries.map (·.1)).map fun a => (references P w ⟨P.backend.keyOf a, 0⟩).length).sum := by
  rw [length_flatMap, map_map, map_map]
  rfl

theorem references_manifest (run : Ran P jobs history st)
    (h : RowOf P jobs history row t d) (hKey : obj.key = fileKey row .manifest) :
    references P st.world obj = (((jobs t).service P).identified d.art).map
      fun x => ((jobs t).service P).chunkKey (jobs t).command x.2 := by
  have hHolds : st.world.findObject P.backend
      (snapshotKey (jobs t).command.source.id d.snapID FileKind.manifest.name) =
        .ok (((jobs t).service P).payload (jobs t).command d) :=
    holds_manifest run h.complete.toManifestPut
  have hMan : manifestAt P st.world obj.key = some (((jobs t).service P).manifestOf (jobs t).command d) := by
    rw [hKey, h.fileKey_eq, manifestAt, hHolds]
    simp only [payload, SnapshotManifest.unmarshal_marshal (manifest_fits _ _ d)]
    rfl
  rw [references, hMan]
  simp [manifestOf, Service.manifest, chunkInfo]

theorem RowOf.chunkCount_eq (h : RowOf P jobs history row t d) :
    row.snapshot.chunkCount = (((jobs t).service P).identified d.art).length := by
  obtain ⟨up, committed, hSnapshot⟩ := h.snapshot
  rw [hSnapshot]
  rfl

def chunkReferences (w : World) : Int := (w.rows.map (·.snapshot.chunkCount)).sum

theorem references_counted (run : Ran P jobs history st) (hSettled : Settled history st)
    (hFinds : ∀ row ∈ st.world.rows, P.backend.Finds row.snapshot.sourceID) :
    (((((P.backend.covered st.world.objects "snapshots/").map P.backend.shownAs).filter
      (hasName .manifest)).flatMap (references P st.world)).length : Int) = chunkReferences st.world := by
  have hEach : ∀ row ∈ st.world.rows,
      ((references P st.world ⟨P.backend.keyOf (fileAt P row .manifest), 0⟩).length : Int) =
        row.snapshot.chunkCount := by
    intro row hRow
    obtain ⟨t, d, h⟩ := rowOf_of_mem run hRow
    rw [references_manifest run h ((shown_iff run hRow .manifest).mpr (hFinds row hRow)).2,
      h.chunkCount_eq, length_map]
  have hPerm := (shownFiles_perm run hSettled hFinds .manifest).map
    fun a => (references P st.world ⟨P.backend.keyOf a, 0⟩).length
  rw [shownFiles] at hPerm
  rw [filter_shown, length_references, hPerm.sum_nat, chunkReferences, map_map]
  generalize st.world.rows = rows at hEach
  induction rows with
  | nil => rfl
  | cons row rest ih =>
    rw [map_cons, map_cons, sum_cons, sum_cons, Int.natCast_add,
      ih fun other hOther => hEach other (.tail _ hOther), ← hEach row (.head _)]
    rfl

def firstFiles (P : Ports) (w : World) (kind : FileKind) : List Address :=
  ((P.backend.firstPage (P.backend.covered w.objects "snapshots/")).filter
    fun entry => hasName kind (P.backend.shownAs entry)).map (·.1)

theorem firstFiles_sublist (w : World) (kind : FileKind) : (firstFiles P w kind).Sublist (shownFiles P w kind) :=
  ((firstPage_sublist _ _).filter _).map _

def Orphan (P : Ports) (w : World) (key : String) : Prop :=
  ∃ a bytes id, w.objects.find a = some bytes ∧ EndsIn a (chunkTail id) ∧ P.backend.keyOf a = key ∧
    ∀ man, Stored w man → ∀ ch ∈ man.chunks, P.backend.locate ch.objectKey ≠ .ok a

theorem not_orphan (run : Ran P jobs history st)
    (hSettled : Settled history st) (key : String) : ¬ Orphan P st.world key := by
  rintro ⟨a, bytes, id, hFind, hEnds, -, hUnlisted⟩
  obtain ⟨row, -, t, d, key, hRowOf, hOwns, hLocate⟩ := object_owner run hSettled hFind
  cases hOwns with
  | chunk hx => exact hUnlisted _ (stored_manifest run hRowOf.complete.toManifestPut) _ (mem_map_of_mem hx) hLocate
  | file kind =>
    exact chunkTail_snapshotTail hEnds (snapshotKey_endsIn kind (hRowOf.complete.plain (follows run t)) hLocate)

/-- What the readers say is what the writer has done. -/
structure Agrees (P : Ports) (w : World) (p : GarbageCollection.Plan) (r : Scanner.ScanResult)
    (summary : Recovery.Summary) : Prop where
  counted : p.referencedChunks = chunkReferences w
  deletable : ∀ key, key ∈ p.deleteKeys ↔ Orphan P w key
  valid : r.validSnapshots = w.rows.length
  noneLocal : r.localOnlySnapshots = []
  recovered : summary.remoteCompletions = w.rows.length

/-- The readers are led to what the writer has stored: they find every source,
no completion record lies beyond the first page, and no chunk is stored where
the listing of `chunks/` looks, which only a key identifier with `..` can do. -/
structure Visible (P : Ports) (w : World) : Prop where
  finds : ∀ row ∈ w.rows, P.backend.Finds row.snapshot.sourceID
  firstPage : ∀ row ∈ w.rows, fileAt P row .complete ∈
    (P.backend.firstPage (P.backend.covered w.objects "snapshots/")).map (·.1)
  apart : P.backend = .filesystem → P.backend.covered w.objects "chunks/" = []

variable {key : String}

theorem owns_components {s : Service} {cmd : Command} (hID : Plain d.snapID.toList)
    (hSource : cmd.source.id ≠ "") (h : Owns s cmd d key) :
    ∃ tail, components key.toList = components cmd.source.id.toList ++ tail := by
  cases h with
  | @chunk x hx =>
    refine ⟨"chunks".toList :: components s.repository.keyID.toList ++ chunkTail x.2, ?_⟩
    rw [chunkKey, components_chunkObjectKey _ _ (s.identified_isHexID hx), chunkDirectory,
      if_pos hSource, append_assoc]
  | file kind => exact ⟨_, components_snapshotKey _ hID.slashFree kind.plain.slashFree⟩

theorem RowOf.sourceID_eq (h : RowOf P jobs history row t d) :
    row.snapshot.sourceID = (jobs t).command.source.id := by
  obtain ⟨up, committed, hSnapshot⟩ := h.snapshot
  rw [hSnapshot]
  rfl

theorem Visible.chunks_apart (run : Ran P jobs history st) (hSettled : Settled history st)
    (h : Visible P st.world) : P.backend.covered st.world.objects "chunks/" = [] := by
  cases hBackend : P.backend with
  | filesystem => exact hBackend ▸ h.apart hBackend
  | s3 base =>
    apply eq_nil_iff_forall_not_mem.mpr
    rintro entry hEntry
    rw [← hBackend] at hEntry
    obtain ⟨hFind, hCovers⟩ := mem_covered.mp hEntry
    obtain ⟨row, hRow, t, d, key, hRowOf, hOwns, hLocate⟩ := object_owner run hSettled hFind
    have hFinds := h.finds row hRow
    rw [hRowOf.sourceID_eq] at hFinds
    obtain ⟨tail, hKey⟩ := owns_components (hRowOf.complete.plain (follows run t)) hFinds.ne_empty hOwns
    rw [hBackend] at hFinds hLocate hCovers
    rw [s3_not_chunks hKey hFinds hLocate] at hCovers
    cases hCovers

theorem completion_key (h : RowOf P jobs history row t d) :
    row.snapshot.status = .committed ∧ row.snapshot.completionObjectKey = fileKey row .complete := by
  obtain ⟨up, committed, hSnapshot⟩ := h.snapshot
  rw [fileKey, hSnapshot]
  exact ⟨rfl, rfl⟩

theorem finds_of_shown (run : Ran P jobs history st)
    (hSettled : Settled history st) (hRow : row ∈ st.world.rows)
    (h : fileKey row .complete ∈
      (((P.backend.covered st.world.objects "snapshots/").map P.backend.shownAs).filter
        (hasName .complete)).map (·.key)) :
    P.backend.Finds row.snapshot.sourceID := by
  rw [filter_shown, map_map] at h
  obtain ⟨entry, hEntry, hKey⟩ := mem_map.mp h
  have hShown : entry.1 ∈ shownFiles P st.world .complete := mem_map_of_mem hEntry
  obtain ⟨other, hOther, hPlace⟩ := mem_shownFiles run hSettled hShown
  have hSpelt : P.backend.keyOf entry.1 = fileKey row .complete := hKey
  obtain ⟨t, d, hRowOf⟩ := rowOf_of_mem run hRow
  have hEnds : EndsIn entry.1 (snapshotTail row.snapshot.id FileKind.complete.name) :=
    endsIn_of_keyOf (hSpelt ▸ components_fileKey (hRowOf.plain run) .complete)
  have hIDs := (snapshotTail_meet (hPlace ▸ fileAt_endsIn run hOther .complete) hEnds).1
  obtain rfl := inj_on_of_nodup_map (rows_nodup run rfl) hOther hRow hIDs
  have hCovers := (mem_covered.mp (mem_filter.mp hEntry).1).2
  exact (shown_iff run hRow .complete).mp ⟨hPlace ▸ hCovers, hPlace ▸ hSpelt⟩

theorem listing_refused (run : Ran P jobs history st) :
    ∀ pathPrefix ∈ ["chunks/", "snapshots/"], ∀ err,
      P.backend.shown st.world.objects pathPrefix = .error err → st.world.objects.entries = [] := by
  intro pathPrefix hPrefix err hError
  by_contra hSome
  obtain ⟨⟨a, bytes⟩, rest, hEntries⟩ := exists_cons_of_ne_nil hSome
  have hFind : st.world.objects.find a = some bytes :=
    Objects.find_eq_some_iff.mpr (by rw [hEntries]; exact .head _)
  obtain ⟨e, -, req, -, hLocate, -⟩ := (record run).put a bytes hFind
  have hShown : ∃ objs, P.backend.shown st.world.objects pathPrefix = .ok objs := by
    rcases mem_pair.mp hPrefix with rfl | rfl
    · exact shown_ok "chunks".toList hLocate ⟨by decide, by decide, by decide, by decide⟩ (by decide) _
    · exact shown_ok "snapshots".toList hLocate ⟨by decide, by decide, by decide, by decide⟩ (by decide) _
  obtain ⟨objs, hShown⟩ := hShown
  rw [hError] at hShown
  cases hShown

theorem rows_of_empty (run : Ran P jobs history st)
    (hEmpty : st.world.objects.entries = []) : st.world.rows = [] := by
  apply eq_nil_iff_forall_not_mem.mpr
  intro row hRow
  obtain ⟨bytes, hFind⟩ := (file_there run hRow .manifest).2
  rw [Objects.find_eq_some_iff, hEmpty] at hFind
  cases hFind

theorem length_shownFiles (w : World) (kind : FileKind) :
    (((P.backend.covered w.objects "snapshots/").map P.backend.shownAs).filter
      (hasName kind)).length = (shownFiles P w kind).length := by
  rw [filter_shown, length_map, shownFiles, length_map]

theorem length_firstFiles (w : World) (kind : FileKind) :
    (((P.backend.firstPage (P.backend.covered w.objects "snapshots/")).map
      P.backend.shownAs).filter (hasName kind)).length = (firstFiles P w kind).length := by
  rw [filter_shown, length_map, firstFiles, length_map]

theorem mem_firstFiles_of_firstPage {w : World} (hShown : a ∈ shownFiles P w kind)
    (hPage : a ∈ (P.backend.firstPage (P.backend.covered w.objects "snapshots/")).map (·.1)) :
    a ∈ firstFiles P w kind := by
  obtain ⟨entry, hEntry, rfl⟩ := mem_map.mp hShown
  obtain ⟨other, hOther, hSame⟩ := mem_map.mp hPage
  obtain ⟨hCovered, hName⟩ := mem_filter.mp hEntry
  have hEq : other = entry := inj_on_of_nodup_map covered_nodup
    ((firstPage_sublist _ _).subset hOther) hCovered hSame
  exact mem_map_of_mem (mem_filter.mpr ⟨hEq ▸ hOther, hName⟩)

variable {p : GarbageCollection.Plan} {r : Scanner.ScanResult} {summary : Recovery.Summary}

theorem agrees_of_visible (run : Ran P jobs history st)
    (hSettled : Settled history st) (h : Visible P st.world)
    (hPlan : GarbageCollection.Counted P st.world
      ((P.backend.covered st.world.objects "chunks/").map P.backend.shownAs)
      ((P.backend.covered st.world.objects "snapshots/").map P.backend.shownAs) p)
    (hScan : Scanner.Found st.world ((P.backend.covered st.world.objects "snapshots/").map P.backend.shownAs) r)
    (hStartup : summary.remoteCompletions = (firstFiles P st.world .complete).length) :
    Agrees P st.world p r summary := by
  have hPerm := shownFiles_perm run hSettled h.finds .complete
  have hLength : (shownFiles P st.world .complete).length = st.world.rows.length := by
    rw [hPerm.length_eq, length_map]
  refine ⟨?_, ?_, ?_, ?_, ?_⟩
  · rw [hPlan.referencedChunks, isManifest_eq]
    exact references_counted run hSettled h.finds
  · intro key
    rw [hPlan.deleteKeys, h.chunks_apart run hSettled]
    simp [not_orphan run hSettled key]
  · rw [hScan.valid, isCompletion_eq, length_shownFiles, hLength]
  · apply eq_nil_iff_forall_not_mem.mpr
    intro id hID
    obtain ⟨row, hRow, -, -, hMissing⟩ := (hScan.localOnly id).mp hID
    apply hMissing
    obtain ⟨t, d, hRowOf⟩ := rowOf_of_mem run hRow
    have hMem : fileAt P row .complete ∈ shownFiles P st.world .complete := hPerm.mem_iff.mpr (mem_map_of_mem hRow)
    obtain ⟨entry, hEntry, hPlace⟩ := mem_map.mp hMem
    rw [isCompletion_eq, filter_shown, map_map, (completion_key hRowOf).2,
      ← ((shown_iff run hRow .complete).mpr (h.finds row hRow)).2, ← hPlace]
    exact mem_map_of_mem hEntry
  · rw [hStartup, ← hLength]
    have hAll : (shownFiles P st.world .complete).Perm (firstFiles P st.world .complete) := by
      apply (perm_ext_iff_of_nodup (shownFiles_nodup _ _)
        ((shownFiles_nodup _ _).sublist (firstFiles_sublist _ _))).mpr
      intro a
      refine ⟨fun hMem => ?_, fun hMem => (firstFiles_sublist _ _).subset hMem⟩
      obtain ⟨row, hRow, rfl⟩ := mem_shownFiles run hSettled hMem
      exact mem_firstFiles_of_firstPage hMem (h.firstPage row hRow)
    rw [hAll.length_eq]

theorem mem_references (run : Ran P jobs history st) (hSettled : Settled history st)
    (hFinds : ∀ row ∈ st.world.rows, P.backend.Finds row.snapshot.sourceID)
    (h : key ∈ (((P.backend.covered st.world.objects "snapshots/").map P.backend.shownAs).filter
      (hasName .manifest)).flatMap (references P st.world)) :
    ∃ row ∈ st.world.rows, ∃ t d, RowOf P jobs history row t d ∧
      Owns ((jobs t).service P) (jobs t).command d key := by
  obtain ⟨obj, hObj, hKey⟩ := mem_flatMap.mp h
  rw [filter_shown] at hObj
  obtain ⟨entry, hEntry, rfl⟩ := mem_map.mp hObj
  have hShown : entry.1 ∈ shownFiles P st.world .manifest := mem_map_of_mem hEntry
  obtain ⟨row, hRow, hPlace⟩ := mem_shownFiles run hSettled hShown
  obtain ⟨t, d, hRowOf⟩ := rowOf_of_mem run hRow
  have hSpelt : P.backend.keyOf entry.1 = fileKey row .manifest := by
    rw [hPlace]
    exact ((shown_iff run hRow .manifest).mpr (hFinds row hRow)).2
  rw [references_manifest run hRowOf hSpelt] at hKey
  obtain ⟨x, hx, rfl⟩ := mem_map.mp hKey
  exact ⟨row, hRow, t, d, hRowOf, .chunk hx⟩

theorem visible_of_agrees (run : Ran P jobs history st) (hSettled : Settled history st)
    (hPlan : GarbageCollection.Counted P st.world
      ((P.backend.covered st.world.objects "chunks/").map P.backend.shownAs)
      ((P.backend.covered st.world.objects "snapshots/").map P.backend.shownAs) p)
    (hScan : Scanner.Found st.world ((P.backend.covered st.world.objects "snapshots/").map P.backend.shownAs) r)
    (hStartup : summary.remoteCompletions = (firstFiles P st.world .complete).length)
    (h : Agrees P st.world p r summary) : Visible P st.world := by
  have hFinds : ∀ row ∈ st.world.rows, P.backend.Finds row.snapshot.sourceID := by
    intro row hRow
    obtain ⟨t, d, hRowOf⟩ := rowOf_of_mem run hRow
    obtain ⟨hStatus, hKey⟩ := completion_key hRowOf
    apply finds_of_shown run hSettled hRow
    by_contra hMissing
    have hLocal := (hScan.localOnly row.snapshot.id).mpr
      ⟨row, hRow, rfl, hStatus, by rw [hKey, isCompletion_eq]; exact hMissing⟩
    rw [h.noneLocal] at hLocal
    cases hLocal
  have hPerm := shownFiles_perm run hSettled hFinds .complete
  refine ⟨hFinds, ?_, ?_⟩
  · -- as many completion records on the first page as there are in all
    have hLength : (firstFiles P st.world .complete).length = (shownFiles P st.world .complete).length := by
      rw [hPerm.length_eq, length_map]
      exact Int.ofNat.inj (hStartup.symm.trans h.recovered)
    have hSame := (firstFiles_sublist st.world .complete).eq_of_length hLength
    intro row hRow
    have hMem : fileAt P row .complete ∈ firstFiles P st.world .complete := by
      rw [hSame]
      exact hPerm.mem_iff.mpr (mem_map_of_mem hRow)
    obtain ⟨entry, hEntry, hPlace⟩ := mem_map.mp hMem
    exact mem_map.mpr ⟨entry, (mem_filter.mp hEntry).1, hPlace⟩
  · intro hBackend
    apply eq_nil_iff_forall_not_mem.mpr
    intro entry hEntry
    -- what is shown and not deleted is referenced, under a key of another directory
    have hReferenced : P.backend.keyOf entry.1 ∈
        (((P.backend.covered st.world.objects "snapshots/").map P.backend.shownAs).filter
          (hasName .manifest)).flatMap (references P st.world) := by
      by_contra hNot
      have hDeleted := (hPlan.deleteKeys (P.backend.keyOf entry.1)).mpr
        ⟨mem_map.mpr ⟨_, mem_map_of_mem hEntry, rfl⟩, hNot⟩
      exact not_orphan run hSettled _ ((h.deletable _).mp hDeleted)
    obtain ⟨row, hRow, t, d, hRowOf, hOwns⟩ := mem_references run hSettled hFinds hReferenced
    have hFound := hFinds row hRow
    rw [hRowOf.sourceID_eq] at hFound
    obtain ⟨tail, hKey⟩ := owns_components (hRowOf.complete.plain (follows run t)) hFound.ne_empty hOwns
    have hCovers := (mem_covered.mp hEntry).2
    rw [hBackend] at hFound hKey hCovers
    exact filesystem_not_chunks hFound hKey hCovers rfl

end

/-- When every `Create` has committed and the readers meet no faults, `Plan`,
`Scan` and `Startup` agree with the writer if and only if they are led to what
it has stored. -/
theorem readers_agree_iff {P : Ports} {jobs : Nat → Job} {history : History}
    {st : System Answer World (CreateResult × Option GoError)}
    (run : Execution (environment P) (backups P jobs) history st) (hSettled : Settled history st) {fuel : Nat}
    (hFuel : st.world.objects.entries.length < fuel) (repo : String) (mode : Scanner.Mode)
    {recovered : Option (Result (List String))} (hRecovered : ∀ err, recovered ≠ some (.error err))
    {planning scanning starting : Nat → Choice} (hPlanning : ∀ n, (planning n).Clean)
    (hScanning : ∀ n, (scanning n).Clean) (hStarting : ∀ n, (starting n).Clean) :
    ∃ p planErr r scanErr,
      ((plan repo fuel).run (environment P) (st.world, planning)).1 = some (p, planErr) ∧
      ((Scanner.scan repo mode fuel).run (environment P) (st.world, scanning)).1 = some (r, scanErr) ∧
      (Agrees P st.world p r ((Recovery.startup recovered).run (environment P) (st.world, starting)).1.1 ↔
        Visible P st.world) := by
  obtain ⟨p, planErr, hPlan, hCounted⟩ :=
    (plan_ensures hFuel (listing_refused run) repo).run hPlanning
  obtain ⟨r, scanErr, hScan, hFound⟩ := (Scanner.scan_ensures hFuel
    (fun err hError => rows_of_empty run (listing_refused run _ (by simp) err hError))
    repo mode).run hScanning
  have hStartup := (Recovery.startup_ensures P st.world hRecovered).run hStarting
  rw [isCompletion_eq, length_firstFiles] at hStartup
  exact ⟨p, planErr, r, scanErr, hPlan, hScan,
    visible_of_agrees run hSettled hCounted hFound hStartup,
    fun h => agrees_of_visible run hSettled h hCounted hFound hStartup⟩

section
open GarbageCollection.Sample

theorem settled_sample {sourceID : String} (hNoError : (outcome sourceID).1.2 = none) :
    Settled (history sourceID) (final sourceID) := by
  intro t
  by_cases hThread : t = 0
  · subst hThread
    exact .inr ⟨_, final_threads hNoError⟩
  · refine .inl ?_
    intro call hCall
    obtain ⟨e, hMem, hOwn, -⟩ := mem_ownCalls.mp hCall
    exact absurd (hOwn.symm.trans (Program.events_thread hMem)) hThread

theorem readers_agree_sample : ∃ p planErr r scanErr,
    ((plan "repo" 5).run (environment (ports .filesystem))
      ((final "snapshots").world, fun _ => {})).1 = some (p, planErr) ∧
    ((Scanner.scan "repo" .quick 5).run (environment (ports .filesystem))
      ((final "snapshots").world, fun _ => {})).1 = some (r, scanErr) ∧
    Agrees (ports .filesystem) (final "snapshots").world p r
      ((Recovery.startup none).run (environment (ports .filesystem))
        ((final "snapshots").world, fun _ => {})).1.1 := by
  have hRun : Execution (environment (ports .filesystem)) (start "snapshots")
      (history "snapshots") (final "snapshots") := execution (by decide +kernel)
  -- one evaluation of the run serves all the facts about its end
  obtain ⟨hNoError, hFuel, hSource⟩ : (outcome "snapshots").1.2 = none ∧
      (final "snapshots").world.objects.entries.length < 5 ∧
      ∀ row ∈ (final "snapshots").world.rows, row.snapshot.sourceID = "snapshots" := by
    decide +kernel
  have hCalm : ∀ n : Nat, ((fun _ => {} : Nat → Choice) n).Clean := fun _ => rfl
  have hQueue : ∀ err, (none : Option (Result (List String))) ≠ some (.error err) := by simp
  obtain ⟨p, planErr, r, scanErr, hPlan, hScan, hAgrees⟩ :=
    readers_agree_iff hRun (settled_sample hNoError) hFuel "repo" .quick hQueue hCalm hCalm hCalm
  refine ⟨p, planErr, r, scanErr, hPlan, hScan, hAgrees.mpr ⟨?_, ?_, ?_⟩⟩
  · intro row hRow
    rw [hSource row hRow]
    exact ⟨by decide, by decide⟩
  · decide +kernel
  · intro _
    decide +kernel

/-- Nothing that is backed up from a source called `app` is seen by the readers. -/
theorem readers_miss_app :
    Execution (environment (ports .filesystem))
      (backups (ports .filesystem) fun _ => job "app") (history "app") (final "app") ∧
    Settled (history "app") (final "app") ∧ ∃ p r,
      ((plan "repo" 5).run (environment (ports .filesystem))
        ((final "app").world, fun _ => {})).1 = some (p, none) ∧
      ((Scanner.scan "repo" .quick 5).run (environment (ports .filesystem))
        ((final "app").world, fun _ => {})).1 = some (r, none) ∧
      ¬ Agrees (ports .filesystem) (final "app").world p r
        ((Recovery.startup none).run (environment (ports .filesystem))
          ((final "app").world, fun _ => {})).1.1 ∧
      p.referencedChunks = 0 ∧ chunkReferences (final "app").world = 1 ∧
      r.validSnapshots = 0 ∧ r.localOnlySnapshots = ["snap_8_"] := by
  obtain ⟨hNoError, hReferences, hPlan, hScan⟩ : (outcome "app").1.2 = none ∧
      chunkReferences (final "app").world = 1 ∧
      (((plan "repo" 5).run (environment (ports .filesystem)) ((final "app").world, fun _ => {})).1.any
        fun out => out.2.isNone && out.1.referencedChunks == 0) = true ∧
      (((Scanner.scan "repo" .quick 5).run
        (environment (ports .filesystem)) ((final "app").world, fun _ => {})).1.any
        fun out => out.2.isNone && out.1.validSnapshots == 0 &&
          out.1.localOnlySnapshots == ["snap_8_"]) = true := by
    decide +kernel
  obtain ⟨⟨p, err⟩, hPlanned, hCount⟩ := (Option.any_eq_true _ _).mp hPlan
  obtain ⟨⟨r, err'⟩, hScanned, hFound⟩ := (Option.any_eq_true _ _).mp hScan
  simp only [Bool.and_eq_true, Option.isNone_iff_eq_none, beq_iff_eq] at hCount hFound
  obtain ⟨rfl, hCount⟩ := hCount
  obtain ⟨⟨rfl, hValid⟩, hLocal⟩ := hFound
  refine ⟨execution (by decide +kernel), settled_sample hNoError, p, r, hPlanned,
    hScanned, ?_, hCount, hReferences, hValid, hLocal⟩
  intro hAgrees
  have hSame := hAgrees.counted
  rw [hCount, hReferences] at hSame
  cases hSame

end

end DBVault.KeyLayout
