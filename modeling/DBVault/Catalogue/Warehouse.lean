import DBVault.Calendar.Texts
import DBVault.Catalogue
import Mathlib.Data.List.Find

/-! The evidence about warehouse tables in the catalogues: what was upserted last for a table is
what is read, as far as SQLite has columns for it. -/
namespace Keyed.Table
open List

variable {κ ρ : Type} {key : ρ → κ} [DecidableEq κ]

def storeAll (key : ρ → κ) (items : List ρ) : Table key := items.foldl store empty

theorem storeAll_concat (items : List ρ) (r : ρ) :
    storeAll key (items ++ [r]) = (storeAll key items).store r := foldl_concat ..

theorem find_storeAll (items : List ρ) (k : κ) :
    (storeAll key items).find k = items.reverse.find? fun r => key r = k := by
  induction items using reverseRecOn with
  | nil => rfl
  | append_singleton items r ih =>
    rw [storeAll_concat, find_store, ih, reverse_concat, find?_cons]
    by_cases hKey : key r = k
    · simp [hKey]
    · simp [hKey, Ne.symm hKey]

theorem mem_of_mem_storeAll (hIn : r ∈ (storeAll key items).rows) : r ∈ items := by
  rw [mem_rows, find_storeAll] at hIn
  exact mem_reverse.mp (mem_of_find?_eq_some hIn)

end Keyed.Table

namespace DBVault.Catalogue
open List Keyed

structure WarehouseColumn where
  (name type : String)
  nullable : Bool
  deriving DecidableEq

/-- The fields with columns of their own in SQLite, which are written and read as they are, and but
for the pair that identifies a row are updated. -/
structure WarehouseFields where
  (databaseID datasetName : String)
  (sourceEngine watermarkColumn watermarkType lastWatermarkValue lastSyncMode : String := "")
  (rowCount bytesRaw bytesParquet : Int := 0)
  lastSyncStatus : String := ""
  deriving DecidableEq

/-- A list that is none is `nil`. -/
structure WarehouseDataset extends WarehouseFields where
  (id databaseName : String := "")
  columns : Option (List WarehouseColumn) := none
  parquetPaths : Option (List String) := none
  schemaVerified : Bool := false
  lastSyncAt : Time := .zero
  deriving DecidableEq

def warehouseDatasetKey (databaseID datasetName : String) : String := databaseID ++ ":" ++ datasetName

namespace WarehouseFields

def key (ds : WarehouseFields) : String := warehouseDatasetKey ds.databaseID ds.datasetName

def pair (ds : WarehouseFields) : String × String := (ds.databaseID, ds.datasetName)

end WarehouseFields

/-! ### In SQLite -/

/-- A row of `warehouse_datasets`. The time is a text; a JSON text stands for what it is written of. -/
structure WarehouseRow extends WarehouseFields where
  id : String
  columnsJSON : Option (List WarehouseColumn)
  parquetPathsJSON : Option (List String)
  schemaVerified : Int
  lastSyncAt : String
  deriving DecidableEq

namespace WarehouseRow

def of (ds : WarehouseDataset) : WarehouseRow where
  toWarehouseFields := ds.toWarehouseFields
  id := ds.key
  columnsJSON := ds.columns
  parquetPathsJSON := ds.parquetPaths
  schemaVerified := if ds.schemaVerified then 1 else 0
  lastSyncAt := ds.lastSyncAt.rfc3339Nano

/-- `DO UPDATE SET`: all but the ID and the pair. -/
def doUpdate (old excluded : WarehouseRow) : WarehouseRow :=
  { excluded with id := old.id, databaseID := old.databaseID, datasetName := old.datasetName }

/-- `scanWarehouseDataset`, with `time.Parse`. -/
def scan (parse : String → Option Time) (row : WarehouseRow) : WarehouseDataset where
  toWarehouseFields := row.toWarehouseFields
  id := row.key
  columns := some (row.columnsJSON.getD [])
  parquetPaths := some (row.parquetPathsJSON.getD [])
  schemaVerified := row.schemaVerified ≠ 0
  lastSyncAt := if row.lastSyncAt = "" then .zero else (parse row.lastSyncAt).getD .zero

end WarehouseRow

abbrev Rows := Table fun row : WarehouseRow => row.pair

/-- A conflict on the pair is an update; one on the ID alone is an error. -/
def upsertWarehouseDataset (t : Rows) (ds : WarehouseDataset) : Result Unit × Rows :=
  let row := WarehouseRow.of ds
  if hPair : row.pair ∈ t.rows.map (·.pair) then
    (.ok (), t.modify (fun old => if old.pair = row.pair then old.doUpdate row else old) fun old => by
      split <;> rfl)
  else if row.id ∈ t.rows.map (·.id) then
    (.error (Database.uniqueFailed "warehouse_datasets.id"), t)
  else (.ok (), t.insert row hPair)

def upserts (calls : List WarehouseDataset) : Rows :=
  calls.foldl (fun t ds => (upsertWarehouseDataset t ds).2) .empty

def getWarehouseDataset (parse : String → Option Time) (t : Rows)
    (databaseID datasetName : String) : Option WarehouseDataset :=
  (t.find (databaseID, datasetName)).map (·.scan parse)

def listWarehouseDatasets (parse : String → Option Time) (t : Rows)
    (order : Arrangement WarehouseRow) (databaseID : String) : List WarehouseDataset :=
  let rows := (order.apply t.rows).filter fun row => databaseID = "" || row.databaseID = databaseID
  (rows.insertionSort fun row row' => row.lastSyncAt ≥ row'.lastSyncAt).map (·.scan parse)

/-! ### In a JSON file -/

namespace Restricted

def upsertWarehouseDatasets (calls : List WarehouseDataset) : Table fun ds : WarehouseDataset => ds.key :=
  .storeAll _ calls

def listWarehouseDatasets (t : Table fun ds : WarehouseDataset => ds.key) (order : Arrangement WarehouseDataset)
    (databaseID : String) : List WarehouseDataset :=
  ((order.apply t.rows).filter fun ds => databaseID = "" || ds.databaseID = databaseID).insertionSort
    fun ds ds' => ds.lastSyncAt ≥ ds'.lastSyncAt

end Restricted

/-! ### What survives -/

def lastUpsert (calls : List WarehouseDataset) (pair : String × String) : Option WarehouseDataset :=
  calls.reverse.find? fun ds => ds.pair = pair

/-- The dataset as written: the ID is the canonical key, and a list that is `nil` is empty. -/
def WarehouseDataset.canonical (ds : WarehouseDataset) : WarehouseDataset :=
  { ds with
    id := ds.key, columns := some (ds.columns.getD []), parquetPaths := some (ds.parquetPaths.getD []) }

/-- The list has one record for each pair of the database that is kept, and no other. -/
def OnePerPair (kept : String × String → Option WarehouseDataset) (databaseID : String)
    (listed : List WarehouseDataset) : Prop :=
  (listed.map (·.pair)).Nodup ∧
    ∀ ds, ds ∈ listed ↔ (databaseID = "" ∨ ds.databaseID = databaseID) ∧ kept ds.pair = some ds

theorem onePerPair_of {ρ : Type} {rows listed : List ρ} (read : ρ → WarehouseDataset)
    {kept : String × String → Option WarehouseDataset} {databaseID : String}
    (hRows : ∀ ds, ds ∈ rows.map read ↔ kept ds.pair = some ds)
    (hDistinct : (rows.map fun r => (read r).pair).Nodup)
    (hListed : listed.Perm (rows.filter fun r => databaseID = "" || (read r).databaseID = databaseID)) :
    OnePerPair kept databaseID (listed.map read) := by
  constructor
  · have hPairs := (hListed.map fun r => (read r).pair).nodup_iff
    rw [map_map]
    exact hPairs.mpr (hDistinct.sublist (filter_sublist.map _))
  · intro ds
    rw [← hRows]
    simp only [mem_map, hListed.mem_iff, mem_filter, Bool.or_eq_true, decide_eq_true_eq]
    constructor
    · rintro ⟨r, ⟨hIn, hDatabase⟩, rfl⟩
      exact ⟨hDatabase, r, hIn, rfl⟩
    · rintro ⟨hDatabase, r, hIn, rfl⟩
      exact ⟨r, ⟨hIn, hDatabase⟩, rfl⟩

theorem perm_listed {ρ : Type} (order : Arrangement ρ) (rows : List ρ) (shown : ρ → Bool) (le : ρ → ρ → Prop)
    [DecidableRel le] : (((order.apply rows).filter shown).insertionSort le).Perm (rows.filter shown) :=
  (perm_insertionSort _ _).trans ((order.perm rows).filter _)

theorem upsert_eq_store (hCanonical : ∀ r ∈ t.rows, r.id = r.key)
    (hClash : ∀ r ∈ t.rows, r.id = ds.key → r.pair = ds.pair) :
    (upsertWarehouseDataset t ds).2 = t.store (.of ds) := by
  simp only [upsertWarehouseDataset]
  split
  · rename_i hPair
    simp only [Table.modify, Table.store, if_pos hPair, Table.mk.injEq]
    apply map_congr_left
    intro old hOld
    split
    · rename_i hSame
      have hID := hCanonical old hOld
      obtain ⟨hDatabase, hDataset⟩ := Prod.mk.inj hSame
      rw [WarehouseFields.key, hDatabase, hDataset] at hID
      simp only [WarehouseRow.doUpdate, hID, hDatabase, hDataset]
      rfl
    · rfl
  · rename_i hPair
    have hID : (WarehouseRow.of ds).id ∉ t.rows.map (·.id) := by
      intro hIn
      obtain ⟨r, hRow, hSame⟩ := mem_map.mp hIn
      exact hPair (mem_map.mpr ⟨r, hRow, hClash r hRow hSame⟩)
    simp only [hID, if_false, Table.insert, Table.store, if_neg hPair]

section
variable {parse : String → Option Time} {calls : List WarehouseDataset}

def KeyedApart (calls : List WarehouseDataset) : Prop := ∀ a ∈ calls, ∀ b ∈ calls, a.key = b.key → a.pair = b.pair

theorem upserts_eq (hKeys : KeyedApart calls) : upserts calls = .storeAll _ (calls.map .of) := by
  induction calls using reverseRecOn with
  | nil => rfl
  | append_singleton calls ds ih =>
    have hBefore := ih fun a ha b hb => hKeys a (mem_append_left _ ha) b (mem_append_left _ hb)
    have hRow : ∀ r ∈ (upserts calls).rows, ∃ a ∈ calls, WarehouseRow.of a = r := by
      intro r hIn
      rw [hBefore] at hIn
      exact mem_map.mp (Table.mem_of_mem_storeAll hIn)
    have hStore : (upsertWarehouseDataset (upserts calls) ds).2 = (upserts calls).store (.of ds) := by
      apply upsert_eq_store
      · intro r hIn
        obtain ⟨a, -, rfl⟩ := hRow r hIn
        rfl
      · intro r hIn hSame
        obtain ⟨a, ha, rfl⟩ := hRow r hIn
        exact hKeys a (mem_append_left _ ha) ds (by simp) hSame
    rw [map_append, map_singleton, Table.storeAll_concat, ← hBefore, ← hStore, upserts, foldl_concat]
    rfl

theorem find_upserts (hKeys : KeyedApart calls) (pair : String × String) :
     (upserts calls).find pair = (lastUpsert calls pair).map .of := by
  rw [upserts_eq hKeys, Table.find_storeAll, ← map_reverse, find?_map]
  rfl

variable {ds : WarehouseDataset}

theorem find_key (hKeys : KeyedApart calls) (hIn : ds ∈ calls) :
    (calls.reverse.find? fun a => a.key = ds.key) = lastUpsert calls ds.pair := by
  apply find?_congr
  intro a ha
  have hPair : a.pair = ds.pair → a.key = ds.key :=
    congrArg fun pair : String × String => warehouseDatasetKey pair.1 pair.2
  exact decide_eq_decide.mpr ⟨hKeys a (mem_reverse.mp ha) ds hIn, hPair⟩

/-- SQLite has a column for every field but the name of the database. -/
def WarehouseDataset.Storable (ds : WarehouseDataset) : Prop := ds.databaseName = "" ∧ ds.lastSyncAt.FourDigitYear

theorem scan_of_iff (hParse : ∀ t : Time, parse t.rfc3339Nano = some t ↔ t.FourDigitYear) :
    (WarehouseRow.of ds).scan parse = ds.canonical ↔ ds.Storable := by
  have hText : ds.lastSyncAt.rfc3339Nano ≠ "" := by
    intro hEmpty
    have hChars := ds.lastSyncAt.toList_rfc3339Nano
    simp [hEmpty] at hChars
  have hZero : Time.zero.FourDigitYear := ⟨by decide +kernel, by decide +kernel⟩
  -- a time that does not read back is read as another one or as the zero time
  have hTime : (parse ds.lastSyncAt.rfc3339Nano).getD .zero = ds.lastSyncAt ↔ ds.lastSyncAt.FourDigitYear := by
    rw [← hParse]
    cases hRead : parse ds.lastSyncAt.rfc3339Nano with
    | some t => simp
    | none =>
      have hNot := mt (hParse ds.lastSyncAt).mpr (by simp [hRead])
      simp only [Option.getD_none, reduceCtorEq, iff_false]
      exact fun hSame => hNot (hSame ▸ hZero)
  have hScan : (WarehouseRow.of ds).scan parse =
      { ds.canonical with
        databaseName := "", lastSyncAt := (parse ds.lastSyncAt.rfc3339Nano).getD .zero } := by
    cases hFlag : ds.schemaVerified <;>
      simp [WarehouseRow.scan, WarehouseRow.of, WarehouseDataset.canonical, hText, hFlag]
  rw [WarehouseDataset.Storable, ← hTime, hScan]
  constructor
  · intro hSame
    exact ⟨(congrArg WarehouseDataset.databaseName hSame).symm, congrArg WarehouseDataset.lastSyncAt hSame⟩
  · rintro ⟨hName, hSame⟩
    rw [hSame]
    simp [WarehouseDataset.canonical, hName]

/-- A row has the canonical key of its pair for its ID, and no two rows have one. -/
theorem upserts_keyed (calls : List WarehouseDataset) :
    (∀ r ∈ (upserts calls).rows, r.id = r.key) ∧ ((upserts calls).rows.map (·.id)).Nodup := by
  induction calls using reverseRecOn with
  | nil => exact ⟨fun r hIn => (not_mem_nil hIn).elim, nodup_nil⟩
  | append_singleton calls ds ih =>
    obtain ⟨hKeys, hDistinct⟩ := ih
    rw [upserts, foldl_concat]
    change (∀ r ∈ (upsertWarehouseDataset (upserts calls) ds).2.rows, r.id = r.key) ∧
      ((upsertWarehouseDataset (upserts calls) ds).2.rows.map (·.id)).Nodup
    simp only [upsertWarehouseDataset]
    split_ifs with hPair hID
    · simp only [Table.modify, mem_map, map_map]
      constructor
      · rintro _ ⟨r, hIn, rfl⟩
        have hKey := hKeys r hIn
        split
        · exact hKey
        · exact hKey
      · have hSame : ((·.id) ∘ fun old : WarehouseRow =>
            if old.pair = (WarehouseRow.of ds).pair then old.doUpdate (.of ds) else old) = (·.id) := by
          funext old
          simp only [Function.comp_apply]
          split <;> rfl
        rwa [hSame]
    · exact ⟨hKeys, hDistinct⟩
    · simp only [Table.insert, map_append, map_singleton, mem_append, mem_singleton]
      refine ⟨?_, by simpa using hDistinct.concat hID⟩
      rintro r (hIn | rfl)
      · exact hKeys r hIn
      · rfl

/-- The last upsert for a pair is what is read for it, and both catalogues list it once. -/
structure Survives (parse : String → Option Time) (calls : List WarehouseDataset) : Prop where
  read : ∀ databaseID datasetName, getWarehouseDataset parse (upserts calls) databaseID datasetName =
    (lastUpsert calls (databaseID, datasetName)).map .canonical
  listed : ∀ order databaseID, OnePerPair (fun pair => (lastUpsert calls pair).map .canonical) databaseID
    (listWarehouseDatasets parse (upserts calls) order databaseID)
  restricted : ∀ order databaseID, OnePerPair (lastUpsert calls) databaseID
    (Restricted.listWarehouseDatasets (Restricted.upsertWarehouseDatasets calls) order databaseID)

theorem lastUpsert_of_mem (hIn : ds ∈ calls) : ∃ last, lastUpsert calls ds.pair = some last ∧ last.pair = ds.pair := by
  have hSome : (lastUpsert calls ds.pair).isSome := by
    simpa [lastUpsert] using ⟨ds, hIn, rfl⟩
  obtain ⟨last, hLast⟩ := Option.isSome_iff_exists.mp hSome
  exact ⟨last, hLast, by simpa using find?_some hLast⟩

/-- Of two pairs with one key only one has a row. -/
theorem Survives.keyedApart (h : Survives parse calls) : KeyedApart calls := by
  have hRow : ∀ ds ∈ calls, ∃ r ∈ (upserts calls).rows, r.pair = ds.pair := by
    intro ds hIn
    obtain ⟨last, hLast, -⟩ := lastUpsert_of_mem hIn
    have hRead := h.read ds.databaseID ds.datasetName
    change _ = (lastUpsert calls ds.pair).map _ at hRead
    rw [hLast, getWarehouseDataset, Option.map_some, Option.map_eq_some_iff] at hRead
    obtain ⟨r, hFind, -⟩ := hRead
    exact ⟨r, Table.find_eq_some.mp hFind⟩
  obtain ⟨hKeys, hDistinct⟩ := upserts_keyed calls
  intro a ha b hb hSame
  obtain ⟨r, hIn, hPair⟩ := hRow a ha
  obtain ⟨r', hIn', hPair'⟩ := hRow b hb
  have hKey : ∀ {r : WarehouseRow} {ds : WarehouseDataset}, r.pair = ds.pair → r.key = ds.key :=
    fun h => congrArg (fun pair : String × String => warehouseDatasetKey pair.1 pair.2) h
  have hID : r.id = r'.id := by
    rw [hKeys r hIn, hKeys r' hIn', hKey hPair, hKey hPair', hSame]
  rw [← hPair, ← hPair', inj_on_of_nodup_map hDistinct hIn hIn' hID]

theorem scan_upserts (hParse : ∀ t : Time, parse t.rfc3339Nano = some t ↔ t.FourDigitYear) (hKeys : KeyedApart calls)
    (pair : String × String) :
    ((upserts calls).find pair).map (·.scan parse) = (lastUpsert calls pair).map .canonical ↔
      ∀ ds, lastUpsert calls pair = some ds → ds.Storable := by
  rw [find_upserts hKeys]
  cases lastUpsert calls pair with
  | none => simp
  | some ds => simpa using scan_of_iff hParse

/-- With a `time.Parse` that reads the times of four-digit years, and no other, as they were written:
what was upserted survives exactly if the pairs have keys of their own, and the last upsert for a
pair names no database and is of a four-digit year. -/
theorem evidence_survives_iff (hParse : ∀ t : Time, parse t.rfc3339Nano = some t ↔ t.FourDigitYear) :
    Survives parse calls ↔
      KeyedApart calls ∧ ∀ pair ds, lastUpsert calls pair = some ds → ds.Storable := by
  constructor
  · intro hSurvives
    have hKeys := hSurvives.keyedApart
    exact ⟨hKeys, fun pair => (scan_upserts hParse hKeys pair).mp (hSurvives.read pair.1 pair.2)⟩
  rintro ⟨hKeys, hStorable⟩
  have hScan := fun pair => (scan_upserts hParse hKeys pair).mpr (hStorable pair)
  refine ⟨fun databaseID datasetName => hScan _, fun order databaseID => ?_, fun order databaseID => ?_⟩
  · refine onePerPair_of _ (fun ds => ?_) (upserts calls).distinct (perm_listed order _ _ _)
    simp only [← hScan, mem_map, Option.map_eq_some_iff, Table.find_eq_some]
    constructor
    · rintro ⟨r, hIn, rfl⟩
      exact ⟨r, ⟨hIn, rfl⟩, rfl⟩
    · rintro ⟨r, ⟨hIn, -⟩, rfl⟩
      exact ⟨r, hIn, rfl⟩
  · rw [← map_id (Restricted.listWarehouseDatasets ..)]
    refine onePerPair_of id (fun ds => ?_) ?_ (perm_listed order _ _ _)
    · rw [map_id, Table.mem_rows, Restricted.upsertWarehouseDatasets, Table.find_storeAll]
      constructor
      · intro hLast
        rwa [find_key hKeys (mem_reverse.mp (mem_of_find?_eq_some hLast))] at hLast
      · intro hLast
        rwa [find_key hKeys (mem_reverse.mp (mem_of_find?_eq_some hLast))]
    · apply Nodup.of_map fun pair => warehouseDatasetKey pair.1 pair.2
      rw [map_map]
      exact (Restricted.upsertWarehouseDatasets calls).distinct

end

namespace Sample

def orders : WarehouseDataset := { databaseID := "db1", databaseName := "shop", datasetName := "orders" }

open Classical in
noncomputable def parse (text : String) : Option Time :=
  if h : ∃ t : Time, t.FourDigitYear ∧ t.rfc3339Nano = text then some h.choose else none

theorem parse_rfc3339Nano (t : Time) : parse t.rfc3339Nano = some t ↔ t.FourDigitYear := by
  constructor
  · intro hRead
    rw [parse] at hRead
    split at hRead
    · rename_i hText
      exact Option.some.inj hRead ▸ hText.choose_spec.1
    · cases hRead
  · intro ht
    have hText : ∃ u : Time, u.FourDigitYear ∧ u.rfc3339Nano = t.rfc3339Nano := ⟨t, ht, rfl⟩
    rw [parse, dif_pos hText]
    exact congrArg some (Time.rfc3339Nano_inj hText.choose_spec.1 ht hText.choose_spec.2)

def renamed : WarehouseDataset := { orders with databaseName := "", rowCount := 5 }

/-- The name was written by the first upsert only. -/
theorem orders_survive : Survives parse [orders, renamed] ∧ ¬ Survives parse [renamed, orders] := by
  rw [evidence_survives_iff parse_rfc3339Nano, evidence_survives_iff parse_rfc3339Nano]
  have hKeys : ∀ {calls}, calls ⊆ [orders, renamed] → KeyedApart calls := by
    intro calls hCalls a ha b hb _
    rcases List.mem_pair.mp (hCalls ha) with rfl | rfl <;> rcases List.mem_pair.mp (hCalls hb) with rfl | rfl <;> rfl
  refine ⟨⟨hKeys (Subset.refl _), fun pair ds hLast => ?_⟩, fun h => ?_⟩
  · have hIs : ds = renamed := by
      by_cases hPair : renamed.pair = pair
      · simpa [lastUpsert, hPair, eq_comm] using hLast
      · have hOther : orders.pair ≠ pair := hPair
        simp [lastUpsert, hPair, hOther] at hLast
    subst hIs
    exact ⟨rfl, by decide +kernel, by decide +kernel⟩
  · exact absurd (h.2 orders.pair orders rfl).1 (by decide)

/-- The name of the database is not stored, and a dataset whose key is taken by that of another
pair is not stored at all. -/
theorem evidence_lost :
    ((getWarehouseDataset (fun _ => some .zero) (upserts [orders]) "db1" "orders").map
      (·.databaseName) = some "" ∧ orders.databaseName = "shop") ∧
    getWarehouseDataset (fun _ => some .zero)
      (upserts [{ databaseID := "a:b", datasetName := "c" }, { databaseID := "a", datasetName := "b:c" }])
        "a" "b:c" = none := by
  decide +kernel

end Sample

end DBVault.Catalogue
