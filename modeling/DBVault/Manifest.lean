import DBVault.Domain

/-! Snapshot manifests and completion records, with the JSON they are stored
as. Fields appear in the order and under the names of the Go struct tags. -/
namespace DBVault
open List Text Json

def int (n : Int) : Value := .num (.ofInt n)

def stringField {σ : Type} (name : String) (get : σ → String) (set : σ → String → σ) : StructField σ where
  name := name
  store v s := (intoString v (get s)).map (set s)

def intField {σ : Type} (name : String) (get : σ → Int) (set : σ → Int → σ) : StructField σ where
  name := name
  store v s := (intoInt v (get s)).map (set s)

variable {σ : Type} {name : String}

theorem storeMember_of {fields : List (StructField σ)} {field : StructField σ}
    {v : Value} {s s' : σ} (h : findField fields name = some field)
    (hStore : field.store v s = .ok s') : storeMember fields s (name, v) = .ok s' := by
  simp only [storeMember, h, hStore]

theorem storeMember_string {fields : List (StructField σ)} {get : σ → String}
    {set : σ → String → σ} (h : findField fields name = some (stringField name get set)) (s : σ)
    (value : String) : storeMember fields s (name, .str value) = .ok (set s value) := by
  simp only [storeMember, h]
  rfl

theorem storeMember_int {fields : List (StructField σ)} {get : σ → Int}
    {set : σ → Int → σ} (h : findField fields name = some (intField name get set)) (s : σ)
    {value : Int} (hValue : IsInt64 value) :
    storeMember fields s (name, int value) = .ok (set s value) := by
  simp only [storeMember, h, intField, int, intoInt_ofInt hValue]
  rfl

structure DatabaseInfo where
  (engine sqliteVersion : String := "")
  (pageSize pageCount logicalSize : Int := 0)
  schemaDigest : String := ""

/-- The `chunking` map holds arbitrary JSON; its numbers stay literals. -/
structure SnapshotInfo where
  (mode createdAt rootDigest : String := "")
  chunking : List (String × Value) := []

structure ChunkInfo where
  (index sequence : Int := 0)
  (chunkID objectKey : String := "")
  (pageStart pageCount plaintextSize compressedSize storedSize : Int := 0)
  (compression keyID : String := "")
  deriving DecidableEq

structure SnapshotManifest where
  format : String := ""
  formatVersion : Int := 0
  (repositoryID snapshotID sourceID rootDigest : String := "")
  database : DatabaseInfo := {}
  snapshot : SnapshotInfo := {}
  chunks : List ChunkInfo := []

structure Completion where
  format : String := ""
  formatVersion : Int := 0
  (snapshotID manifestDigest committedAt : String := "")

namespace DatabaseInfo

def fields : List (StructField DatabaseInfo) :=
  [stringField "engine" (·.engine) fun d x => { d with engine := x },
   stringField "sqlite_version" (·.sqliteVersion) fun d x => { d with sqliteVersion := x },
   intField "page_size" (·.pageSize) fun d x => { d with pageSize := x },
   intField "page_count" (·.pageCount) fun d x => { d with pageCount := x },
   intField "logical_size" (·.logicalSize) fun d x => { d with logicalSize := x },
   stringField "schema_digest" (·.schemaDigest) fun d x => { d with schemaDigest := x }]

def toValue (d : DatabaseInfo) : Value :=
  .obj (("engine", .str d.engine) ::
    (omitEmpty (d.sqliteVersion == "") ("sqlite_version", .str d.sqliteVersion) ++
    ("page_size", int d.pageSize) ::
    (omitEmpty (d.pageCount == 0) ("page_count", int d.pageCount) ++
    ("logical_size", int d.logicalSize) ::
    (omitEmpty (d.schemaDigest == "") ("schema_digest", .str d.schemaDigest) ++ []))))

def Fits (d : DatabaseInfo) : Prop := IsInt64 d.pageSize ∧ IsInt64 d.pageCount ∧ IsInt64 d.logicalSize

theorem into_toValue {d : DatabaseInfo} (h : d.Fits) : intoStruct fields d.toValue {} = .ok d := by
  obtain ⟨hPageSize, hPageCount, hLogicalSize⟩ := h
  obtain ⟨engine, version, pageSize, pageCount, logicalSize, schema⟩ := d
  refine (storeMembers_cons (storeMember_string rfl _ _) _).trans ?_
  refine (storeMembers_omitEmpty (storeMember_string rfl _ _) (by simp) _).trans ?_
  refine (storeMembers_cons (storeMember_int rfl _ hPageSize) _).trans ?_
  refine (storeMembers_omitEmpty (storeMember_int rfl _ hPageCount) (by simp) _).trans ?_
  refine (storeMembers_cons (storeMember_int rfl _ hLogicalSize) _).trans ?_
  refine (storeMembers_omitEmpty (storeMember_string rfl _ _) (by simp) _).trans ?_
  rfl

end DatabaseInfo

namespace SnapshotInfo

def fields : List (StructField SnapshotInfo) :=
  [stringField "mode" (·.mode) fun i x => { i with mode := x },
   stringField "created_at" (·.createdAt) fun i x => { i with createdAt := x },
   stringField "root_digest" (·.rootDigest) fun i x => { i with rootDigest := x },
   ⟨"chunking", fun v i => (intoMap v i.chunking).map fun x => { i with chunking := x }⟩]

def toValue (i : SnapshotInfo) : Value :=
  .obj (("mode", .str i.mode) :: ("created_at", .str i.createdAt) ::
    ("root_digest", .str i.rootDigest) ::
    (omitEmpty i.chunking.isEmpty ("chunking", .obj i.chunking) ++ []))

/-- The `chunking` map has one entry per name and only plain values. -/
def Fits (i : SnapshotInfo) : Prop := (i.chunking.map (·.1)).Nodup ∧ ∀ entry ∈ i.chunking, height entry.2 = 0

theorem intoMap_nodup {entries : List (String × Value)} (h : (entries.map (·.1)).Nodup) :
    intoMap (.obj entries) [] = .ok entries := by
  have hFold : ∀ (rest done : List (String × Value)), ((done ++ rest).map (·.1)).Nodup →
      rest.foldl (fun entries m => entries.filter (·.1 ≠ m.1) ++ [m]) done = done ++ rest := by
    intro rest
    induction rest with
    | nil => simp
    | cons m rest ih =>
      intro done hNodup
      have hKeep : done.filter (·.1 ≠ m.1) = done := by
        rw [filter_eq_self]
        intro entry hEntry
        have hDisjoint := (nodup_append.mp (map_append ▸ hNodup)).2.2
        simpa using hDisjoint entry.1 (mem_map_of_mem hEntry) m.1 (by simp)
      rw [foldl_cons, hKeep, ih _ (by simpa using hNodup)]
      simp
  simpa [intoMap] using hFold entries [] (by simpa using h)

theorem into_toValue {i : SnapshotInfo} (h : i.Fits) : intoStruct fields i.toValue {} = .ok i := by
  obtain ⟨mode, createdAt, root, chunking⟩ := i
  have hChunking : storeMember fields ⟨mode, createdAt, root, []⟩ ("chunking", .obj chunking) =
      .ok ⟨mode, createdAt, root, chunking⟩ :=
    storeMember_of rfl (by simp only [intoMap_nodup h.1]; rfl)
  refine (storeMembers_cons (storeMember_string rfl _ _) _).trans ?_
  refine (storeMembers_cons (storeMember_string rfl _ _) _).trans ?_
  refine (storeMembers_cons (storeMember_string rfl _ _) _).trans ?_
  refine (storeMembers_omitEmpty hChunking (by simp) _).trans ?_
  rfl

end SnapshotInfo

namespace ChunkInfo

def fields : List (StructField ChunkInfo) :=
  [intField "index" (·.index) fun c x => { c with index := x },
   intField "sequence" (·.sequence) fun c x => { c with sequence := x },
   stringField "chunk_id" (·.chunkID) fun c x => { c with chunkID := x },
   stringField "object_key" (·.objectKey) fun c x => { c with objectKey := x },
   intField "page_start" (·.pageStart) fun c x => { c with pageStart := x },
   intField "page_count" (·.pageCount) fun c x => { c with pageCount := x },
   intField "plaintext_size" (·.plaintextSize) fun c x => { c with plaintextSize := x },
   intField "compressed_size" (·.compressedSize) fun c x => { c with compressedSize := x },
   intField "stored_size" (·.storedSize) fun c x => { c with storedSize := x },
   stringField "compression" (·.compression) fun c x => { c with compression := x },
   stringField "key_id" (·.keyID) fun c x => { c with keyID := x }]

def toValue (c : ChunkInfo) : Value :=
  .obj (omitEmpty (c.index == 0) ("index", int c.index) ++
    ("sequence", int c.sequence) :: ("chunk_id", .str c.chunkID) ::
    ("object_key", .str c.objectKey) :: ("page_start", int c.pageStart) ::
    ("page_count", int c.pageCount) :: ("plaintext_size", int c.plaintextSize) ::
    (omitEmpty (c.compressedSize == 0) ("compressed_size", int c.compressedSize) ++
    [("stored_size", int c.storedSize), ("compression", .str c.compression), ("key_id", .str c.keyID)]))

structure Fits (c : ChunkInfo) : Prop where
  index : IsInt64 c.index
  sequence : IsInt64 c.sequence
  pageStart : IsInt64 c.pageStart
  pageCount : IsInt64 c.pageCount
  plaintextSize : IsInt64 c.plaintextSize
  compressedSize : IsInt64 c.compressedSize
  storedSize : IsInt64 c.storedSize

theorem into_toValue {c : ChunkInfo} (h : c.Fits) : intoStruct fields c.toValue {} = .ok c := by
  obtain ⟨hIndex, hSequence, hPageStart, hPageCount, hPlain, hCompressed, hStored⟩ := h
  obtain ⟨index, sequence, chunkID, objectKey, pageStart, pageCount, plain, compressed, stored,
    compression, keyID⟩ := c
  refine (storeMembers_omitEmpty (storeMember_int rfl _ hIndex) (by simp) _).trans ?_
  refine (storeMembers_cons (storeMember_int rfl _ hSequence) _).trans ?_
  refine (storeMembers_cons (storeMember_string rfl _ _) _).trans ?_
  refine (storeMembers_cons (storeMember_string rfl _ _) _).trans ?_
  refine (storeMembers_cons (storeMember_int rfl _ hPageStart) _).trans ?_
  refine (storeMembers_cons (storeMember_int rfl _ hPageCount) _).trans ?_
  refine (storeMembers_cons (storeMember_int rfl _ hPlain) _).trans ?_
  refine (storeMembers_omitEmpty (storeMember_int rfl _ hCompressed) (by simp) _).trans ?_
  refine (storeMembers_cons (storeMember_int rfl _ hStored) _).trans ?_
  refine (storeMembers_cons (storeMember_string rfl _ _) _).trans ?_
  refine (storeMembers_cons (storeMember_string rfl _ _) _).trans ?_
  rfl

end ChunkInfo

namespace SnapshotManifest

def fields : List (StructField SnapshotManifest) :=
  [stringField "format" (·.format) fun m x => { m with format := x },
   intField "format_version" (·.formatVersion) fun m x => { m with formatVersion := x },
   stringField "repository_id" (·.repositoryID) fun m x => { m with repositoryID := x },
   stringField "snapshot_id" (·.snapshotID) fun m x => { m with snapshotID := x },
   stringField "source_id" (·.sourceID) fun m x => { m with sourceID := x },
   stringField "root_digest" (·.rootDigest) fun m x => { m with rootDigest := x },
   ⟨"database", fun v m => (intoStruct DatabaseInfo.fields v m.database).map fun x => { m with database := x }⟩,
   ⟨"snapshot", fun v m => (intoStruct SnapshotInfo.fields v m.snapshot).map fun x => { m with snapshot := x }⟩,
   ⟨"chunks", fun v m =>
      (intoSlice {} (intoStruct ChunkInfo.fields) v m.chunks).map fun x => { m with chunks := x }⟩]

def toValue (m : SnapshotManifest) : Value :=
  .obj (("format", .str m.format) :: ("format_version", int m.formatVersion) ::
    ("repository_id", .str m.repositoryID) :: ("snapshot_id", .str m.snapshotID) ::
    ("source_id", .str m.sourceID) ::
    (omitEmpty (m.rootDigest == "") ("root_digest", .str m.rootDigest) ++
    [("database", m.database.toValue), ("snapshot", m.snapshot.toValue),
      ("chunks", .arr (m.chunks.map ChunkInfo.toValue))]))

/-- `json.MarshalIndent(manifest, "", "  ")`. -/
def marshal (m : SnapshotManifest) : Bytes := marshalIndent m.toValue

/-- `json.Unmarshal(payload, &man)`. -/
def unmarshal (payload : Bytes) : Except DecodeError SnapshotManifest :=
  Json.unmarshal (intoStruct fields) {} payload

structure Fits (m : SnapshotManifest) : Prop where
  formatVersion : IsInt64 m.formatVersion
  database : m.database.Fits
  snapshot : m.snapshot.Fits
  chunks : ∀ c ∈ m.chunks, c.Fits

variable {m : SnapshotManifest}

theorem into_toValue (h : m.Fits) : intoStruct fields m.toValue {} = .ok m := by
  obtain ⟨hVersion, hDatabase, hSnapshot, hChunks⟩ := h
  obtain ⟨format, version, repository, snapshotID, source, root, database, snapshot, chunks⟩ := m
  have hSlice : intoSlice {} (intoStruct ChunkInfo.fields) (.arr (chunks.map ChunkInfo.toValue)) [] =
      .ok chunks := intoElements_map fun c hc => ChunkInfo.into_toValue (hChunks c hc)
  refine (storeMembers_cons (storeMember_string rfl _ _) _).trans ?_
  refine (storeMembers_cons (storeMember_int rfl _ hVersion) _).trans ?_
  refine (storeMembers_cons (storeMember_string rfl _ _) _).trans ?_
  refine (storeMembers_cons (storeMember_string rfl _ _) _).trans ?_
  refine (storeMembers_cons (storeMember_string rfl _ _) _).trans ?_
  refine (storeMembers_omitEmpty (storeMember_string rfl _ _) (by simp) _).trans ?_
  refine (storeMembers_cons (storeMember_of rfl
    (by simp only [DatabaseInfo.into_toValue hDatabase]; rfl)) _).trans ?_
  refine (storeMembers_cons (storeMember_of rfl
    (by simp only [SnapshotInfo.into_toValue hSnapshot]; rfl)) _).trans ?_
  refine (storeMembers_cons (storeMember_of rfl (by simp only [hSlice]; rfl)) _).trans ?_
  rfl

theorem height_toValue (h : m.snapshot.Fits) : height m.toValue ≤ 3 := by
  have hDatabase : height m.database.toValue = 1 := by
    simp [DatabaseInfo.toValue, height_obj, heightMembers, heightMembers_append, heightMembers_omitEmpty, int]
  have hSnapshot : height m.snapshot.toValue ≤ 2 := by
    have hMap : heightMembers m.snapshot.chunking ≤ 0 :=
      heightMembers_le fun entry hEntry => Nat.le_of_eq (h.2 entry hEntry)
    have hEntry := heightMembers_omitEmpty_le m.snapshot.chunking.isEmpty ("chunking", .obj m.snapshot.chunking)
    simp only [height_obj] at hEntry
    simp only [SnapshotInfo.toValue, height_obj, height_str, heightMembers, append_nil]
    omega
  have hChunk : ∀ c : ChunkInfo, height c.toValue = 1 := by
    intro c
    simp [ChunkInfo.toValue, height_obj, heightMembers, heightMembers_append, heightMembers_omitEmpty, int]
  have hChunks : heightElements (m.chunks.map ChunkInfo.toValue) ≤ 1 := by
    refine heightElements_le ?_
    intro v hv
    obtain ⟨c, -, rfl⟩ := mem_map.mp hv
    exact Nat.le_of_eq (hChunk c)
  have hRoot : heightMembers (omitEmpty (m.rootDigest == "") ("root_digest", .str m.rootDigest)) = 0 :=
    heightMembers_omitEmpty (by simp)
  simp only [toValue, int, height_obj, height_arr, height_str, height_num, heightMembers,
    heightMembers_append, hRoot]
  omega

theorem unmarshal_marshal (h : m.Fits) : unmarshal m.marshal = .ok m := by
  have hHeight : height m.toValue ≤ maxNestingDepth := (height_toValue h.snapshot).trans (by decide)
  rw [unmarshal, marshal, unmarshal_marshalIndent _ _ hHeight, into_toValue h]

/-- What is signed determines the manifest, and is read back as it. -/
theorem marshal_determines :
    Set.InjOn marshal {m | m.Fits} ∧ ∀ m : SnapshotManifest, m.Fits → unmarshal m.marshal = .ok m := by
  refine ⟨?_, fun m => unmarshal_marshal⟩
  intro m hFits m' hFits' hSame
  have hRead := unmarshal_marshal hFits
  rw [hSame, unmarshal_marshal hFits'] at hRead
  exact (Except.ok.inj hRead).symm

end SnapshotManifest

namespace Completion

def fields : List (StructField Completion) :=
  [stringField "format" (·.format) fun c x => { c with format := x },
   intField "format_version" (·.formatVersion) fun c x => { c with formatVersion := x },
   stringField "snapshot_id" (·.snapshotID) fun c x => { c with snapshotID := x },
   stringField "manifest_digest" (·.manifestDigest) fun c x => { c with manifestDigest := x },
   stringField "committed_at" (·.committedAt) fun c x => { c with committedAt := x }]

def toValue (c : Completion) : Value :=
  .obj [("format", .str c.format), ("format_version", int c.formatVersion),
    ("snapshot_id", .str c.snapshotID), ("manifest_digest", .str c.manifestDigest),
    ("committed_at", .str c.committedAt)]

def marshal (c : Completion) : Bytes := marshalIndent c.toValue

def unmarshal (payload : Bytes) : Except DecodeError Completion := Json.unmarshal (intoStruct fields) {} payload

theorem unmarshal_marshal {c : Completion} (h : IsInt64 c.formatVersion) : unmarshal c.marshal = .ok c := by
  obtain ⟨format, version, snapshotID, digest, committedAt⟩ := c
  rw [unmarshal, marshal, unmarshal_marshalIndent _ _
    (by simp [toValue, height_obj, heightMembers, int, maxNestingDepth])]
  refine (storeMembers_cons (storeMember_string rfl _ _) _).trans ?_
  refine (storeMembers_cons (storeMember_int rfl _ h) _).trans ?_
  refine (storeMembers_cons (storeMember_string rfl _ _) _).trans ?_
  refine (storeMembers_cons (storeMember_string rfl _ _) _).trans ?_
  refine (storeMembers_cons (storeMember_string rfl _ _) _).trans ?_
  rfl

end Completion

end DBVault
