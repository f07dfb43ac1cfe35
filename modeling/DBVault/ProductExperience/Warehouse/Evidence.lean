import DBVault.ProductExperience.Warehouse
import DBVault.Text.Path

/-! The evidence about a table accounts for its files: over any syncs that succeed it counts the
rows and the bytes of the files it lists, each listed once. -/
namespace DBVault.ProductExperience.Warehouse
open List Text Text.Path

/-- The file a sync that succeeds writes, if it writes one. -/
def Source.writtenPath (source : Source) (s : State) (c : SyncCall) : Option String :=
  match source.resolveWarehouseSyncMode c.opts (getWarehouseEvidence s c) with
  | .ok (.full, _, _) => some (source.parquetPath .full .unknown c.now)
  | .ok (.incremental, column, last) =>
    if source.readBack (source.answer (.past column last) s.table) = [] then none
    else some (source.partPath s c column last)
  | .error _ => none

def Source.sizesAfter (source : Source) (sizes : String → Int) (s : State) (c : SyncCall) : String → Int :=
  match source.writtenPath s c, c.size with
  | some path, .ok size => Function.update sizes path size
  | _, _ => sizes

/-- The states that syncs lead to which all succeed, with the sizes of the files and the time of
the last sync. The clock advances from sync to sync; between them the table changes. -/
inductive Synced (source : Source) : Option Time → State → (String → Int) → Prop where
  | start (table : List Row) (files : String → Option (List Row)) (sizes : String → Int) :
    Synced source none ⟨table, files, none⟩ sizes
  | change {last : Option Time} {s : State} {sizes : String → Int} (before : Synced source last s sizes)
    (table : List Row) : Synced source last { s with table := table } sizes
  | sync {last : Option Time} {s : State} {sizes : String → Int} (before : Synced source last s sizes)
    (c : SyncCall) (later : ∀ t ∈ last, t < c.now) (ok : (source.syncWarehouseTable s c).1 = .ok ()) :
    Synced source (some c.now) (source.syncWarehouseTable s c).2 (source.sizesAfter sizes s c)

structure Accounts (files : String → Option (List Row)) (sizes : String → Int)
    (ds : WarehouseDataset) : Prop where
  rows : ds.rowCount = (ds.parquetPaths.map fun path => (((files path).getD []).length : Int)).sum
  bytes : ds.bytesParquet = (ds.parquetPaths.map sizes).sum
  distinct : ds.parquetPaths.Nodup
  full : ds.lastSyncMode = .full → ∃ path, ds.parquetPaths = [path]

namespace Source
variable {source : Source}

theorem last_component (front : List Char) (hName : '/' ∉ name) :
    (components (front ++ '/' :: name)).getLast? = some name := by
  rw [components_append, components_slashFree hName, getLast?_concat]

theorem parquetPath_incremental (source : Source) (type : WatermarkType) (now : Time) :
    (components (source.parquetPath .incremental type now).toList).getLast? =
      some ("part-".toList ++ (decimalChars now ++ ".parquet".toList)) := by
  have hName : '/' ∉ "part-".toList ++ (decimalChars now ++ ".parquet".toList) := by
    have hNumber := not_mem_decimalChars now (show '/'.isDigit = false by decide) (by decide)
    simpa using hNumber
  by_cases hDate : type = .date
  · rw [← last_component (source.dir ++ "/dt=" ++ dayText now).toList hName]
    simp [parquetPath, hDate]
  · rw [← last_component source.dir.toList hName]
    simp [parquetPath, hDate]

theorem parquetPath_inj {type type' : WatermarkType} {now now' : Time}
    (hSame : source.parquetPath .incremental type now = source.parquetPath .incremental type' now') :
    now = now' := by
  have hNames := parquetPath_incremental source type now
  rw [hSame, parquetPath_incremental, Option.some.injEq] at hNames
  exact (decimalChars_injective (append_cancel_right (append_cancel_left hNames))).symm

theorem parquetPath_ne_full (type type' : WatermarkType) (now now' : Time) :
    source.parquetPath .incremental type now ≠ source.parquetPath .full type' now' := by
  intro hSame
  have hName := parquetPath_incremental source type now
  have hData := last_component source.dir.toList (show '/' ∉ "data.parquet".toList by decide)
  rw [hSame] at hName
  have hFull : (source.parquetPath .full type' now').toList =
      source.dir.toList ++ '/' :: "data.parquet".toList := by
    simp [parquetPath]
  rw [hFull, hData] at hName
  simp at hName

def Dated (source : Source) (last : Time) (path : String) : Prop :=
  path = source.parquetPath .full .unknown 0 ∨
    ∃ type now, now ≤ last ∧ path = source.parquetPath .incremental type now

/-- What holds of the evidence after any syncs. -/
def Kept (source : Source) (last : Option Time) (s : State) (sizes : String → Int) : Prop :=
  ∀ ds, s.evidence = some ds → Accounts s.files sizes ds ∧
    ∃ time, last = some time ∧ ∀ path ∈ ds.parquetPaths, source.Dated time path

variable {s : State} {c : SyncCall} {sizes : String → Int} {last : Option Time} {p : WarehouseDataset}

theorem evidence_of_read (hPrev : getWarehouseEvidence s c = some p) : s.evidence = some p := by
  unfold getWarehouseEvidence at hPrev
  split at hPrev
  · exact hPrev
  · cases hPrev

variable {path : String}

theorem sizesAfter_written {size : Int} (hPath : source.writtenPath s c = some path)
    (hSize : c.size = .ok size) : source.sizesAfter sizes s c = Function.update sizes path size := by
  rw [sizesAfter, hPath, hSize]

theorem map_update {β : Type} {paths : List String} (hNew : path ∉ paths)
    {f : String → β} {value : β} : paths.map (Function.update f path value) = paths.map f := by
  apply map_congr_left
  intro other hOther
  have hApart : other ≠ path := by
    rintro rfl
    exact hNew hOther
  exact Function.update_of_ne hApart _ _

variable {column mark : String}

theorem kept_full
    (hResolve : source.resolveWarehouseSyncMode c.opts (getWarehouseEvidence s c) = .ok (.full, column, mark))
    {prev : Option WarehouseDataset} {result : QueryResult}
    (hOk : (source.storeExtracted s c .full prev column mark result).1 = .ok ()) :
    source.Kept (some c.now) (source.storeExtracted s c .full prev column mark result).2
      (source.sizesAfter sizes s c) := by
  obtain ⟨used, path, rawBytes, size, -, hSize, hPath, hAfter⟩ := storeExtracted_ok hOk
  have hWritten : source.writtenPath s c = some path := by
    rw [writtenPath, hResolve, hPath]
    rfl
  rw [hAfter, sizesAfter_written hWritten hSize]
  intro ds hEvidence
  obtain rfl := Option.some.inj hEvidence
  refine ⟨⟨?_, ?_, nodup_singleton _, fun _ => ⟨path, rfl⟩⟩, c.now, rfl, ?_⟩
  · simp [datasetOf]
  · simp [datasetOf]
  · intro other hOther
    rw [mem_singleton.mp hOther, hPath]
    exact .inl rfl

theorem kept_appended (kept : source.Kept last s sizes) (hLater : ∀ t ∈ last, t < c.now) (hPrev : getWarehouseEvidence s c = some p)
    (hResolve : source.resolveWarehouseSyncMode c.opts (some p) = .ok (.incremental, column, mark))
    (hSomething : source.readBack (source.answer (.past column mark) s.table) ≠ [])
    (hOk : (source.storeExtracted s c .incremental (some p) column mark
      (source.executeLiveDBQuery (.past column mark) s.table c.shown)).1 = .ok ()) :
    source.Kept (some c.now) (source.storeExtracted s c .incremental (some p) column mark
      (source.executeLiveDBQuery (.past column mark) s.table c.shown)).2 (source.sizesAfter sizes s c) := by
  obtain ⟨used, path, rawBytes, size, hUsed, hSize, hPath, hAfter⟩ := storeExtracted_ok hOk
  obtain rfl := hUsed rfl
  have hWritten : source.writtenPath s c = some path := by
    rw [writtenPath, hPrev, hResolve]
    simp only [hSomething, if_false]
    rw [hPath]
    rfl
  obtain ⟨accounts, time, hTime, hDated⟩ := kept p (evidence_of_read hPrev)
  have hClock := hLater time hTime
  -- No part listed before is of this time.
  have hNew : path ∉ p.parquetPaths := by
    intro hListed
    rcases hDated path hListed with hFull | ⟨type, now, hBefore, hPart⟩
    · exact parquetPath_ne_full _ _ _ _ (hPath.symm.trans hFull)
    · obtain rfl := parquetPath_inj (hPath.symm.trans hPart)
      exact absurd hClock (not_lt.mpr hBefore)
  rw [hAfter, sizesAfter_written hWritten hSize]
  intro ds hEvidence
  obtain rfl := Option.some.inj hEvidence
  refine ⟨⟨?_, ?_, ?_, fun hFull => ?_⟩, c.now, rfl, ?_⟩
  · have hOthers : p.parquetPaths.map (fun other => (((Function.update s.files path
        (some (source.executeLiveDBQuery (.past used mark) s.table c.shown).rows) other).getD []).length : Int)) =
        p.parquetPaths.map fun other => (((s.files other).getD []).length : Int) := by
      simpa only [map_map, Function.comp_def] using
        congrArg (List.map fun rows : Option (List Row) => ((rows.getD []).length : Int))
          (map_update hNew (f := s.files))
    simp only [datasetOf_incremental, map_append, sum_append, hOthers]
    rw [← accounts.rows]
    simp [datasetOf]
  · simp only [datasetOf_incremental, map_append, sum_append, map_update hNew]
    rw [← accounts.bytes]
    simp [datasetOf]
  · rw [datasetOf_incremental, ← concat_eq_append]
    exact accounts.distinct.concat hNew
  · cases hFull
  · intro other hOther
    rw [datasetOf_incremental] at hOther
    rcases mem_append.mp hOther with hOld | hOwn
    · refine (hDated other hOld).imp_right ?_
      rintro ⟨type, now, hBefore, hPart⟩
      exact ⟨type, now, hBefore.trans hClock.le, hPart⟩
    · exact .inr ⟨_, c.now, le_refl _, (mem_singleton.mp hOwn).trans hPath⟩

theorem kept_sync (kept : source.Kept last s sizes) (hLater : ∀ t ∈ last, t < c.now)
    (hOk : (source.syncWarehouseTable s c).1 = .ok ()) :
    source.Kept (some c.now) (source.syncWarehouseTable s c).2 (source.sizesAfter sizes s c) := by
  cases succeeds hOk with
  | full column mark hResolve hSame =>
    rw [hSame] at hOk ⊢
    exact kept_full hResolve hOk
  | unchanged p column mark hPrev hResolve hNothing hSame =>
    rw [hSame] at hOk ⊢
    have hSizes : source.sizesAfter sizes s c = sizes := by
      simp [sizesAfter, writtenPath, hPrev, hResolve, hNothing]
    rw [upsertWarehouseEvidence_ok hOk, hSizes]
    obtain ⟨accounts, time, hTime, hDated⟩ := kept p (evidence_of_read hPrev)
    intro ds hEvidence
    obtain rfl := Option.some.inj hEvidence
    refine ⟨⟨accounts.rows, accounts.bytes, accounts.distinct, fun hFull => ?_⟩, c.now, rfl, ?_⟩
    · cases hFull
    · intro path hPath
      refine (hDated path hPath).imp_right ?_
      rintro ⟨type, now, hBefore, hPart⟩
      exact ⟨type, now, hBefore.trans (hLater time hTime).le, hPart⟩
  | appended p column mark hPrev hResolve hSomething hSame =>
    rw [hSame] at hOk ⊢
    exact kept_appended kept hLater hPrev hResolve hSomething hOk

theorem kept (synced : Synced source last s sizes) : source.Kept last s sizes := by
  induction synced with
  | start table files sizes =>
    intro ds hEvidence
    cases hEvidence
  | change before table ih => exact ih
  | sync before c later ok ih => exact kept_sync ih later ok

theorem recorded (hOk : (source.syncWarehouseTable s c).1 = .ok ()) :
    ∃ ds, (source.syncWarehouseTable s c).2.evidence = some ds := by
  cases succeeds hOk with
  | full column mark hResolve hSame =>
    rw [hSame] at hOk ⊢
    obtain ⟨used, path, rawBytes, size, -, -, -, hAfter⟩ := storeExtracted_ok hOk
    exact ⟨_, congrArg State.evidence hAfter⟩
  | unchanged p column mark hPrev hResolve hNothing hSame =>
    rw [hSame] at hOk ⊢
    exact ⟨_, congrArg State.evidence (upsertWarehouseEvidence_ok hOk)⟩
  | appended p column mark hPrev hResolve hSomething hSame =>
    rw [hSame] at hOk ⊢
    obtain ⟨used, path, rawBytes, size, -, -, -, hAfter⟩ := storeExtracted_ok hOk
    exact ⟨_, congrArg State.evidence hAfter⟩

/-- After each of any syncs that succeed, at advancing times, the evidence counts the rows and the
bytes of the files it lists, lists no file twice, and lists one after a full refresh. -/
theorem evidence_accounts (synced : Synced source last s sizes) (c : SyncCall)
    (later : ∀ t ∈ last, t < c.now) (ok : (source.syncWarehouseTable s c).1 = .ok ()) :
    ∃ ds, (source.syncWarehouseTable s c).2.evidence = some ds ∧
      Accounts (source.syncWarehouseTable s c).2.files (source.sizesAfter sizes s c) ds := by
  obtain ⟨ds, hEvidence⟩ := recorded ok
  exact ⟨ds, hEvidence, (kept (.sync synced c later ok) ds hEvidence).1⟩

end Source

namespace Sample

theorem orders_accounted : ∃ ds, (orders.run steps).evidence = some ds ∧ ds.rowCount = 2 ∧
    Accounts (orders.run steps).files
      (orders.sizesAfter (orders.sizesAfter (fun _ => 0) ⟨[row "9"], fun _ => none, none⟩
        { opts := ⟨false, "id"⟩, now := 1 }) (orders.run (steps.take 3)) (incremental 2)) ds := by
  have hFirst : Synced orders (some 1) (orders.run (steps.take 2)) _ :=
    .sync (.start [row "9"] (fun _ => none) fun _ => 0) { opts := ⟨false, "id"⟩, now := 1 } (by simp)
      (eq_ok_of_toOption (by decide +kernel))
  obtain ⟨ds, hEvidence, accounts⟩ := Source.evidence_accounts (hFirst.change [row "9", row "10"])
    (incremental 2) (by simp [incremental]) (eq_ok_of_toOption (by decide +kernel))
  have hCount : (orders.run steps).evidence.map (·.rowCount) = some 2 := by decide +kernel
  rw [show (orders.run steps).evidence = some ds from hEvidence] at hCount
  exact ⟨ds, hEvidence, Option.some.inj hCount, accounts⟩

end Sample

end DBVault.ProductExperience.Warehouse
