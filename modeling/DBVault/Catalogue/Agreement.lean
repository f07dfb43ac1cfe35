import DBVault.Calendar.Texts
import DBVault.Catalogue
import Mathlib.Data.List.Find

/-! When the three catalogues do the same. -/
namespace DBVault.Catalogue
open List Keyed Interaction SnapshotRow

/-- The same success or failure, and the same snapshots. Lists may differ in their order. -/
def SameAnswer : Answer → Answer → Prop
  | .created (.ok _), .created (.ok _) => True
  | .created (.error _), .created (.error _) => True
  | .got (.ok (snap, _)), .got (.ok (snap', _)) => snap = snap'
  | .got (.error _), .got (.error _) => True
  | .listed snaps, .listed snaps' => snaps.Perm snaps'
  | .found snap, .found snap' => snap = snap'
  | _, _ => False

structure Orders where
  (memory restricted : Arrangement Snapshot)
  production : Arrangement SnapshotRow

structure Answers where
  (memory restricted production : Answer)

def Answers.Same (a : Answers) : Prop := SameAnswer a.memory a.restricted ∧ SameAnswer a.restricted a.production

structure System where
  (memory restricted : Maps)
  production : Database

/-- The three catalogues side by side, given the same calls. -/
def together : Component System (Orders × Call) Answers where
  start := ⟨memory.start, restricted.start, production.start⟩
  perform s := fun (orders, call) =>
    let inMemory := memory.perform s.memory (orders.memory, call)
    let inFile := restricted.perform s.restricted (orders.restricted, call)
    let inDatabase := production.perform s.production (orders.production, call)
    (⟨inMemory.1, inFile.1, inDatabase.1⟩, ⟨inMemory.2, inFile.2, inDatabase.2⟩)

def Agreed (calls : List (Orders × Call)) : Prop := ∀ entry ∈ together.transcript calls, entry.2.Same

def created (calls : List Call) : List Snapshot :=
  calls.flatMap fun
    | .createSnapshot snap _ => [snap]
    | _ => []

def createdLinks (calls : List Call) : List SnapshotChunk :=
  calls.flatMap fun
    | .createSnapshot _ links => links
    | _ => []

def liveRoots (snaps : List Snapshot) : List (String × String) :=
  (snaps.filter (live ·.status)).map fun s => (s.sourceID, s.rootDigest)

/-- A search is not for a protected snapshot. -/
def Call.Searches (before : List Call) : Call → Prop
  | .findSnapshotByRoot sourceID rootDigest => ∀ snap ∈ created before,
      snap.sourceID = sourceID → snap.rootDigest = rootDigest → snap.status ≠ .protectedSnapshot
  | _ => True

/-- Nothing is created twice, and no protected snapshot is searched for. -/
structure Distinguished (calls : List Call) : Prop where
  ids : ((created calls).map (·.id)).Nodup
  roots : (liveRoots (created calls)).Nodup
  links : ((createdLinks calls).map fun l => (l.snapshotID, l.sequence)).Nodup
  searches : ∀ before call after, calls = before ++ call :: after → call.Searches before

def Call.Admitted (before : List Call) : Call → Prop
  | .createSnapshot snap links =>
    snap.id ∉ (created before).map (·.id) ∧
      (live snap.status = true → (snap.sourceID, snap.rootDigest) ∉ liveRoots (created before)) ∧
      ((createdLinks before ++ links).map fun l => (l.snapshotID, l.sequence)).Nodup
  | call => call.Searches before

@[simp] theorem created_snoc (calls : List Call) (call : Call) :
    created (calls ++ [call]) = created calls ++ created [call] := by
  simp [created]

@[simp] theorem createdLinks_snoc (calls : List Call) (call : Call) :
    createdLinks (calls ++ [call]) = createdLinks calls ++ createdLinks [call] := by
  simp [createdLinks]

theorem Distinguished.nil : Distinguished [] := by
  refine ⟨nodup_nil, nodup_nil, nodup_nil, ?_⟩
  intro before call after hSplit
  simp at hSplit

theorem nodup_map_snoc {α β : Type} (f : α → β) {items : List α} {item : α} :
    ((items ++ [item]).map f).Nodup ↔ (items.map f).Nodup ∧ f item ∉ items.map f := by
  rw [map_append, map_singleton, ← concat_eq_append, nodup_concat, and_comm]

theorem liveRoots_snoc (snaps : List Snapshot) (snap : Snapshot) :
    (liveRoots (snaps ++ [snap])).Nodup ↔ (liveRoots snaps).Nodup ∧
      (live snap.status = true → (snap.sourceID, snap.rootDigest) ∉ liveRoots snaps) := by
  unfold liveRoots
  cases hLive : live snap.status with
  | false => simp [filter_append, hLive]
  | true =>
    rw [filter_append, filter_singleton, hLive, cond_true, nodup_map_snoc]
    simp

theorem distinguished_snoc {calls : List Call} {call : Call} :
    Distinguished (calls ++ [call]) ↔ Distinguished calls ∧ call.Admitted calls := by
  constructor
  · rintro ⟨hIDs, hRoots, hLinks, hSearches⟩
    obtain ⟨hBefore, hLast⟩ := forall_split_snoc.mp hSearches
    rw [created_snoc] at hIDs hRoots
    rw [createdLinks_snoc] at hLinks
    cases call with
    | createSnapshot snap links =>
      obtain ⟨hOldIDs, hNewID⟩ := (nodup_map_snoc Snapshot.id).mp hIDs
      obtain ⟨hOldRoots, hNewRoot⟩ := (liveRoots_snoc _ _).mp hRoots
      have hOldLinks := hLinks
      rw [map_append] at hOldLinks
      have hGiven : createdLinks [.createSnapshot snap links] = links := by simp [createdLinks]
      exact ⟨⟨hOldIDs, hOldRoots, hOldLinks.of_append_left, hBefore⟩, hNewID, hNewRoot, hGiven ▸ hLinks⟩
    | _ => exact ⟨⟨by simpa [created] using hIDs, by simpa [created] using hRoots,
        by simpa [createdLinks] using hLinks, hBefore⟩, hLast⟩
  · rintro ⟨hOld, hNew⟩
    cases call with
    | createSnapshot snap links =>
      obtain ⟨hID, hRoot, hLinks⟩ := hNew
      refine ⟨?_, ?_, ?_, forall_split_snoc.mpr ⟨hOld.searches, trivial⟩⟩
      · rw [created_snoc]
        exact (nodup_map_snoc Snapshot.id).mpr ⟨hOld.ids, hID⟩
      · rw [created_snoc]
        exact (liveRoots_snoc _ _).mpr ⟨hOld.roots, hRoot⟩
      · simpa [createdLinks] using hLinks
    | _ => exact ⟨by simpa [created] using hOld.ids, by simpa [created] using hOld.roots,
        by simpa [createdLinks] using hOld.links, forall_split_snoc.mpr ⟨hOld.searches, hNew⟩⟩

structure Holds (s : System) (calls : List Call) : Prop where
  memory : s.memory.snapshots.rows = created calls
  restricted : s.restricted.snapshots.rows = created calls
  production : s.production.snapshots.rows = (created calls).map .of
  links : s.production.links.rows = (createdLinks calls).map .of

namespace Database
variable {db : Database}

theorem insertSnapshot_ok (hID : row.id ∉ db.snapshots.rows.map SnapshotRow.id)
    (hRoot : ¬ (live row.status = true ∧ db.indexed row)) :
    ∃ after, db.insertSnapshot row = .ok after ∧
      after.snapshots.rows = db.snapshots.rows ++ [row] ∧ after.links = db.links := by
  rw [insertSnapshot, dif_neg hID, dif_neg hRoot]
  exact ⟨_, rfl, rfl, rfl⟩

theorem insertSnapshot_error
    (hTaken : row.id ∈ db.snapshots.rows.map SnapshotRow.id ∨ live row.status = true ∧ db.indexed row) :
    ∃ err, db.insertSnapshot row = .error err := by
  by_cases hID : row.id ∈ db.snapshots.rows.map SnapshotRow.id
  · exact ⟨_, dif_pos hID⟩
  · have hRoot := hTaken.resolve_left hID
    rw [insertSnapshot, dif_neg hID, dif_pos hRoot]
    exact ⟨_, rfl⟩

theorem insertLinks_cases (rows : List LinkRow) (db : Database) :
    ((db.links.rows ++ rows).map LinkRow.key).Nodup ∧
        (∃ after, rows.foldlM insertLink db = .ok after ∧
          after.snapshots = db.snapshots ∧ after.links.rows = db.links.rows ++ rows) ∨
      ¬ ((db.links.rows ++ rows).map LinkRow.key).Nodup ∧ ∃ err, rows.foldlM insertLink db = .error err := by
  induction rows generalizing db with
  | nil => exact .inl ⟨by simpa using db.links.distinct, db, rfl, rfl, by simp⟩
  | cons row rest ih =>
    by_cases hKey : row.key ∈ db.links.rows.map LinkRow.key
    · refine .inr ⟨?_, uniqueFailed _, by rw [foldlM_cons, insertLink, dif_pos hKey]; rfl⟩
      intro hNodup
      rw [map_append, nodup_append] at hNodup
      exact hNodup.2.2 _ hKey _ (by simp) rfl
    · have hInsert : db.insertLink row = .ok { db with links := db.links.insert row hKey } := dif_neg hKey
      have hRows : (db.links.insert row hKey).rows ++ rest = db.links.rows ++ row :: rest := by simp [Table.insert]
      rw [foldlM_cons, hInsert, ← hRows]
      exact ih { db with links := db.links.insert row hKey }

variable {calls : List Call} {snap : Snapshot} {links : List SnapshotChunk}

theorem mem_ids (hRows : db.snapshots.rows = (created calls).map .of) :
    (of snap).id ∈ db.snapshots.rows.map SnapshotRow.id ↔ snap.id ∈ (created calls).map (·.id) := by
  rw [hRows, map_map]
  rfl

theorem indexed_iff (hRows : db.snapshots.rows = (created calls).map .of) :
    db.indexed (.of snap) ↔ (snap.sourceID, snap.rootDigest) ∈ liveRoots (created calls) := by
  rw [indexed, hRows, filter_map, map_map]
  rfl

theorem linkKeys (hRows : db.links.rows = (createdLinks calls).map .of) :
    (db.links.rows ++ links.map LinkRow.of).map LinkRow.key =
      (createdLinks calls ++ links).map fun l => (l.snapshotID, l.sequence) := by
  rw [hRows, ← map_append, map_map]
  rfl

theorem createSnapshot_ok (hRows : db.snapshots.rows = (created calls).map .of)
    (hLinks : db.links.rows = (createdLinks calls).map .of)
    (hAdmitted : (Call.createSnapshot snap links).Admitted calls) :
    ∃ after, db.createSnapshot snap links = .ok after ∧
      after.snapshots.rows = (created calls ++ [snap]).map .of ∧
      after.links.rows = (createdLinks calls ++ links).map .of := by
  obtain ⟨hID, hRoot, hKeys⟩ := hAdmitted
  have hNew : ¬ (live (of snap).status = true ∧ db.indexed (.of snap)) :=
    fun hTaken => hRoot hTaken.1 ((indexed_iff hRows).mp hTaken.2)
  obtain ⟨mid, hInsert, hMidRows, hMidLinks⟩ := insertSnapshot_ok (mt (mem_ids hRows).mp hID) hNew
  rw [createSnapshot, hInsert]
  rcases insertLinks_cases (links.map .of) mid with ⟨-, after, hAfter, hKept, hAdded⟩ | ⟨hClash, -⟩
  · refine ⟨after, hAfter, ?_, ?_⟩
    · rw [hKept, hMidRows, hRows]
      simp
    · rw [hAdded, hMidLinks, hLinks]
      simp
  · rw [hMidLinks, linkKeys hLinks] at hClash
    exact absurd hKeys hClash

theorem createSnapshot_error (hRows : db.snapshots.rows = (created calls).map .of)
    (hLinks : db.links.rows = (createdLinks calls).map .of)
    (hAdmitted : ¬ (Call.createSnapshot snap links).Admitted calls) :
    ∃ err, db.createSnapshot snap links = .error err := by
  by_cases hTaken : (of snap).id ∈ db.snapshots.rows.map SnapshotRow.id ∨
      live (of snap).status = true ∧ db.indexed (.of snap)
  · obtain ⟨err, hInsert⟩ := insertSnapshot_error hTaken
    exact ⟨err, by rw [createSnapshot, hInsert]; rfl⟩
  · obtain ⟨hID, hNew⟩ := not_or.mp hTaken
    obtain ⟨mid, hInsert, -, hMidLinks⟩ := insertSnapshot_ok hID hNew
    rw [createSnapshot, hInsert]
    rcases insertLinks_cases (links.map .of) mid with ⟨hKeys, -⟩ | ⟨-, err, hFail⟩
    · rw [hMidLinks, linkKeys hLinks] at hKeys
      exact absurd ⟨mt (mem_ids hRows).mpr hID,
        fun hLive hRoot => hNew ⟨hLive, (indexed_iff hRows).mpr hRoot⟩, hKeys⟩ hAdmitted
    · exact ⟨err, hFail⟩

end Database

section
variable {s : System} {calls : List Call}

theorem Arrangement.find?_apply {α : Type} (order : Arrangement α) {items : List α} {p : α → Bool}
    (hOne : ∀ a ∈ items, ∀ b ∈ items, p a = true → p b = true → a = b) :
    (order.apply items).find? p = items.find? p := by
  have hMem : ∀ a, a ∈ order.apply items ↔ a ∈ items := fun a => (order.perm items).mem_iff
  cases hFind : items.find? p with
  | none =>
    rw [find?_eq_none] at hFind ⊢
    exact fun a hIn => hFind a ((hMem a).mp hIn)
  | some found =>
    have hFound := mem_of_find?_eq_some hFind
    have hHolds := find?_some hFind
    cases hOther : (order.apply items).find? p with
    | none => exact absurd hHolds (find?_eq_none.mp hOther found ((hMem found).mpr hFound))
    | some other =>
      have hIn := (hMem other).mp (mem_of_find?_eq_some hOther)
      rw [hOne other hIn found hFound (find?_some hOther) hHolds]

theorem Distinguished.live_unique (hDistinct : Distinguished calls) {a b : Snapshot} (ha : a ∈ created calls)
    (hb : b ∈ created calls) (hLiveA : live a.status = true) (hLiveB : live b.status = true)
    (hSource : a.sourceID = b.sourceID) (hRoot : a.rootDigest = b.rootDigest) : a = b := by
  refine inj_on_of_nodup_map hDistinct.roots (mem_filter.mpr ⟨ha, hLiveA⟩) (mem_filter.mpr ⟨hb, hLiveB⟩) ?_
  rw [hSource, hRoot]

def wanted (counts : SnapshotStatus → Bool) (sourceID rootDigest : String) (s : Snapshot) : Bool :=
  s.sourceID = sourceID && s.rootDigest = rootDigest && counts s.status

variable {counts : SnapshotStatus → Bool}

theorem wanted_iff {sourceID rootDigest : String} {snap : Snapshot} :
    wanted counts sourceID rootDigest snap = true ↔
      snap.sourceID = sourceID ∧ snap.rootDigest = rootDigest ∧ counts snap.status = true := by
  simp [wanted, and_assoc]

variable {m : Maps}

theorem withRoot_eq (hRows : m.snapshots.rows = created calls) (hDistinct : Distinguished calls)
    (order : Arrangement Snapshot)
    (hLive : ∀ status, counts status = true → live status = true) (sourceID rootDigest : String) :
    m.withRoot order counts sourceID rootDigest = (created calls).find? (wanted counts sourceID rootDigest) := by
  rw [Maps.withRoot, hRows]
  refine order.find?_apply ?_
  intro a ha b hb hA hB
  obtain ⟨hSourceA, hRootA, hStatusA⟩ := wanted_iff.mp hA
  obtain ⟨hSourceB, hRootB, hStatusB⟩ := wanted_iff.mp hB
  exact hDistinct.live_unique ha hb (hLive _ hStatusA) (hLive _ hStatusB)
    (hSourceA.trans hSourceB.symm) (hRootA.trans hRootB.symm)

variable {db : Database}

theorem findSnapshotByRoot_eq (hRows : db.snapshots.rows = (created calls).map .of)
    (order : Arrangement SnapshotRow) (sourceID rootDigest : String) (hDistinct : Distinguished calls) :
    db.findSnapshotByRoot order sourceID rootDigest = (created calls).find? (wanted live sourceID rootDigest) := by
  rw [Database.findSnapshotByRoot, hRows, order.find?_apply, find?_map, Option.map_map]
  · exact Option.map_id'
  · simp only [forall_mem_map]
    intro a ha b hb hA hB
    obtain ⟨hSourceA, hRootA, hStatusA⟩ := wanted_iff.mp hA
    obtain ⟨hSourceB, hRootB, hStatusB⟩ := wanted_iff.mp hB
    rw [hDistinct.live_unique ha hb hStatusA hStatusB (hSourceA.trans hSourceB.symm) (hRootA.trans hRootB.symm)]

theorem find_wanted_iff (hDistinct : Distinguished calls) (sourceID rootDigest : String) :
    (created calls).find? (wanted (· = .committed) sourceID rootDigest) =
        (created calls).find? (wanted live sourceID rootDigest) ↔
      (Call.findSnapshotByRoot sourceID rootDigest).Searches calls := by
  constructor
  · intro hSame snap hIn hSource hRoot hStatus
    have hWanted : wanted live sourceID rootDigest snap = true :=
      wanted_iff.mpr ⟨hSource, hRoot, by rw [hStatus]; rfl⟩
    cases hFind : (created calls).find? (wanted live sourceID rootDigest) with
    | none => exact find?_eq_none.mp hFind snap hIn hWanted
    | some found =>
      have hFound := wanted_iff.mp (find?_some hFind)
      have hCommitted := wanted_iff.mp (find?_some (hSame.trans hFind))
      have hOne := hDistinct.live_unique hIn (mem_of_find?_eq_some hFind)
        (wanted_iff.mp hWanted).2.2 hFound.2.2 (hSource.trans hFound.1.symm)
        (hRoot.trans hFound.2.1.symm)
      rw [← hOne, hStatus] at hCommitted
      simp at hCommitted
  · intro hSearches
    refine find?_congr ?_
    intro snap hIn
    have hNot : snap.sourceID = sourceID → snap.rootDigest = rootDigest →
        snap.status ≠ .protectedSnapshot := hSearches snap hIn
    rw [Bool.eq_iff_iff, wanted_iff, wanted_iff]
    simp only [live, Bool.or_eq_true, decide_eq_true_eq]
    tauto

theorem ofSource_perm (hRows : m.snapshots.rows = created calls) (order : Arrangement Snapshot)
    (sourceID : String) :
    (m.ofSource order sourceID).Perm ((created calls).filter fun s => sourceID = "" || s.sourceID = sourceID) := by
  rw [Maps.ofSource, hRows]
  exact (order.perm _).filter _

theorem listSnapshots_perm (hRows : db.snapshots.rows = (created calls).map .of)
    (order : Arrangement SnapshotRow) (sourceID : String) : (db.listSnapshots order sourceID).Perm
      ((created calls).filter fun s => sourceID = "" || s.sourceID = sourceID) := by
  have hRowsOf : ((created calls).map of).filter (fun row =>
      sourceID = "" || row.sourceID = sourceID) =
        ((created calls).filter fun s => sourceID = "" || s.sourceID = sourceID).map .of :=
    filter_map
  have hFiltered := (order.perm db.snapshots.rows).filter fun row => sourceID = "" || row.sourceID = sourceID
  have hListed := ((perm_insertionSort (fun row row' : SnapshotRow =>
    row.createdAt ≥ row'.createdAt) _).trans hFiltered).map (·.json)
  rw [hRows, hRowsOf, map_map] at hListed
  simpa [Database.listSnapshots, hRows, Function.comp_def, of] using hListed

theorem find_id_eq (hMaps : m.snapshots.rows = created calls)
    (hRows : db.snapshots.rows = (created calls).map .of) (id : String) :
    db.snapshots.find id = (m.snapshots.find id).map .of := by
  rw [Table.find, Table.find, hMaps, hRows, find?_map]
  rfl

theorem getSnapshot_same (hHolds : Holds s calls) (id : String) :
    SameAnswer (.got (s.memory.getSnapshot (.other "snapshot not found") id))
        (.got (s.restricted.getSnapshot .notExist id)) ∧
      SameAnswer (.got (s.restricted.getSnapshot .notExist id)) (.got (s.production.getSnapshot id)) := by
  have hSame : s.memory.snapshots.find id = s.restricted.snapshots.find id := by
    rw [Table.find, Table.find, hHolds.memory, hHolds.restricted]
  have hRow := find_id_eq hHolds.restricted hHolds.production id
  unfold Maps.getSnapshot Database.getSnapshot
  rw [hSame, hRow]
  cases s.restricted.snapshots.find id with
  | none => exact ⟨trivial, trivial⟩
  | some snap => exact ⟨rfl, rfl⟩

theorem perform_same_iff (hHolds : Holds s calls) (hDistinct : Distinguished calls)
    (request : Orders × Call) :
    (together.perform s request).1.Same ↔ request.2.Admitted calls := by
  obtain ⟨orders, call⟩ := request
  cases call with
  | createSnapshot snap links =>
    by_cases hAdmitted : (Call.createSnapshot snap links).Admitted calls
    · obtain ⟨after, hCreate, -⟩ := Database.createSnapshot_ok hHolds.production hHolds.links hAdmitted
      simp [together, memory, Memory.perform, restricted, Restricted.perform, production,
        Database.perform, hCreate, Answers.Same, SameAnswer, hAdmitted]
    · obtain ⟨err, hCreate⟩ := Database.createSnapshot_error hHolds.production hHolds.links hAdmitted
      simp [together, memory, Memory.perform, restricted, Restricted.perform, production,
        Database.perform, hCreate, Answers.Same, SameAnswer, hAdmitted]
  | getSnapshot id => exact iff_of_true (getSnapshot_same hHolds id) trivial
  | listSnapshots sourceID =>
    refine iff_of_true ⟨?_, ?_⟩ trivial
    · exact (ofSource_perm hHolds.memory _ _).trans
        (((perm_insertionSort _ _).trans (ofSource_perm hHolds.restricted _ _)).symm)
    · exact ((perm_insertionSort _ _).trans (ofSource_perm hHolds.restricted _ _)).trans
        (listSnapshots_perm hHolds.production _ _).symm
  | findSnapshotByRoot sourceID rootDigest =>
    have hCommitted : ∀ status : SnapshotStatus, decide (status = .committed) = true → live status = true := by
      intro status hStatus
      simp [live, of_decide_eq_true hStatus]
    have hMemory := withRoot_eq hHolds.memory hDistinct orders.memory hCommitted sourceID rootDigest
    have hRestricted := withRoot_eq hHolds.restricted hDistinct orders.restricted
      (fun _ hLive => hLive) sourceID rootDigest
    have hProduction := findSnapshotByRoot_eq hHolds.production orders.production sourceID rootDigest hDistinct
    show (s.memory.withRoot _ _ _ _ = s.restricted.withRoot _ _ _ _ ∧
      s.restricted.withRoot _ _ _ _ = s.production.findSnapshotByRoot _ _ _) ↔ _
    rw [hMemory, hRestricted, hProduction, find_wanted_iff hDistinct]
    exact and_iff_left rfl

theorem Holds.snoc_read (hHolds : Holds s calls) (hCreated : created [call] = [])
    (hLinks : createdLinks [call] = []) : Holds s (calls ++ [call]) := by
  obtain ⟨hMemory, hRestricted, hRows, hLinkRows⟩ := hHolds
  refine ⟨?_, ?_, ?_, ?_⟩
  · rw [created_snoc, hCreated, append_nil, hMemory]
  · rw [created_snoc, hCreated, append_nil, hRestricted]
  · rw [created_snoc, hCreated, append_nil, hRows]
  · rw [createdLinks_snoc, hLinks, append_nil, hLinkRows]

theorem perform_holds (hHolds : Holds s calls) (request : Orders × Call)
    (hAdmitted : request.2.Admitted calls) : Holds (together.perform s request).2 (calls ++ [request.2]) := by
  obtain ⟨orders, call⟩ := request
  cases call with
  | createSnapshot snap links =>
    obtain ⟨after, hCreate, hRows, hLinks⟩ := Database.createSnapshot_ok hHolds.production hHolds.links hAdmitted
    have hProduction : (together.perform s (orders, .createSnapshot snap links)).2.production =
        after := by
      simp [together, production, Database.perform, hCreate]
    have hStore : ∀ m : Maps, m.snapshots.rows = created calls →
        (m.createSnapshot snap links).snapshots.rows = created calls ++ [snap] := by
      intro m hMaps
      rw [← hMaps]
      exact Table.store_of_new (hMaps ▸ hAdmitted.1)
    have hCreated : created [.createSnapshot snap links] = [snap] := rfl
    have hGiven : createdLinks [.createSnapshot snap links] = links := by simp [createdLinks]
    refine ⟨?_, ?_, ?_, ?_⟩
    · rw [created_snoc, hCreated]
      exact hStore _ hHolds.memory
    · rw [created_snoc, hCreated]
      exact hStore _ hHolds.restricted
    · rw [created_snoc, hCreated, hProduction, hRows]
    · rw [createdLinks_snoc, hGiven, hProduction, hLinks]
  | _ => exact hHolds.snoc_read rfl rfl

end

theorem agreed_and_holds (calls : List (Orders × Call)) :
    (Agreed calls ↔ Distinguished (calls.map Prod.snd)) ∧
      (Distinguished (calls.map Prod.snd) → Holds (together.run calls) (calls.map Prod.snd)) := by
  induction calls using List.reverseRecOn with
  | nil =>
    refine ⟨iff_of_true ?_ Distinguished.nil, fun _ => ⟨rfl, rfl, rfl, rfl⟩⟩
    intro entry hIn
    cases hIn
  | append_singleton calls request ih =>
    obtain ⟨hAgreed, hHolds⟩ := ih
    have hSnoc : Agreed (calls ++ [request]) ↔
        Agreed calls ∧ (together.perform (together.run calls) request).1.Same := by
      unfold Agreed
      rw [Component.transcript_snoc]
      simp [or_imp, forall_and]
    rw [map_append, map_singleton, distinguished_snoc, hSnoc, hAgreed, Component.run_snoc]
    refine ⟨and_congr_right fun hDistinct => ?_, fun ⟨hDistinct, hAdmitted⟩ => ?_⟩
    · exact perform_same_iff (hHolds hDistinct) hDistinct request
    · exact perform_holds (hHolds hDistinct) request hAdmitted

/-- `json.Marshal` writes every time of the snapshot a call creates. -/
def Call.Written : Call → Prop
  | .createSnapshot snap _ =>
    ∀ t ∈ snap.createdAt :: (snap.committedAt.toList ++ snap.verifiedAt.toList), t.FourDigitYear
  | _ => True

/-- The catalogues agree on every call of a run exactly if nothing is created twice and no
protected snapshot is searched for. -/
theorem catalogues_agree_iff (calls : List (Orders × Call)) (_ : ∀ entry ∈ calls, entry.2.Written) :
    Agreed calls ↔ Distinguished (calls.map Prod.snd) :=
  (agreed_and_holds calls).1

namespace Sample

def kept : Orders := ⟨.kept _, .kept _, .kept _⟩

def snapshot (id : String) (status : SnapshotStatus) : Snapshot where
  id := id
  sourceID := "orders"
  repositoryID := "repo_local"
  status := status
  snapshotMode := .onlineBackup
  databaseSize := 4096
  pageSize := 4096
  pageCount := 1
  rootDigest := "root"
  schemaDigest := ""
  chunkCount := 0
  uniqueChunkCount := 0
  compressedBytes := 0
  uniqueUploadedBytes := 0
  createdAt := 0
  committedAt := none
  verifiedAt := none
  manifestObjectKey := ""
  completionObjectKey := ""

def create : Orders × Call := (kept, .createSnapshot (snapshot "s1" .protectedSnapshot) [])

def search : Orders × Call := (kept, .findSnapshotByRoot "orders" "root")

def other : Orders × Call := (kept, .createSnapshot (snapshot "s2" .committed) [])

theorem second_root_disagrees :
    (∀ entry ∈ [create, other], entry.2.Written) ∧ ¬ Agreed [create, other] := by
  have hWritten : ∀ entry ∈ [create, other], entry.2.Written := by
    simp [create, other, Call.Written, snapshot, Time.FourDigitYear]
    decide +kernel
  refine ⟨hWritten, fun hAgreed => ?_⟩
  have hDistinct := (catalogues_agree_iff _ hWritten).mp hAgreed
  exact absurd hDistinct.roots (by decide)

/-- The catalogue in memory does not find a protected snapshot. -/
theorem protected_not_found : ¬ Agreed [create, search] := by
  intro hAgreed
  have hEntry : (search, (together.perform (together.run [create]) search).1) ∈
      together.transcript [create, search] := by
    simp [Component.transcript, Component.transcriptFrom, Component.run]
  have hSame : (together.run [create]).memory.withRoot (.kept _) (· = .committed) "orders" "root" =
      (together.run [create]).restricted.withRoot (.kept _) live "orders" "root" :=
    (hAgreed _ hEntry).1
  exact absurd hSame (by decide +kernel)

end Sample

end DBVault.Catalogue
