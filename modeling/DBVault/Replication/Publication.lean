import DBVault.KeyLayout
import DBVault.Replication

/-! A replica gets the completion record of a snapshot last, however often `Replicate` stops. -/
namespace DBVault.Replication
open List Text Text.Path Interaction Backup World Attempt KeyLayout

def listed (P : Ports) (w : World) (snap : Snapshot) : List String :=
  match w.findObject P.backend snap.manifestObjectKey with
  | .error _ => []
  | .ok payload =>
    match SnapshotManifest.unmarshal payload with
    | .error _ => []
    | .ok man => man.chunks.map (·.objectKey)

def contents (P : Ports) (w : World) (snap : Snapshot) : List String :=
  listed P w snap ++ [snap.manifestObjectKey, sigKey snap.sourceID snap.id]

/-- What `Replicate` copies of a snapshot. -/
abbrev copied (P : Ports) (w : World) (snap : Snapshot) : List String := contents P w snap ++ [snap.completionObjectKey]

def Consistent (P R : Ports) (primary replica : World) : Prop :=
  ∀ key bytes copy, primary.Holds P key bytes → replica.Holds R key copy → copy = bytes

def HasAll (R : Ports) (replica : World) (keys : List String) : Prop :=
  ∀ key ∈ keys, ∃ bytes, replica.Holds R key bytes

/-- A replica with the completion record of a snapshot has all of it. -/
def PublishedLast (P R : Ports) (primary : World) (snap : Snapshot) (replica : World) : Prop :=
  (∃ bytes, replica.Holds R snap.completionObjectKey bytes) → HasAll R replica (contents P primary snap)

def Replica (P R : Ports) (primary : World) (snap : Snapshot) (replica : World) : Prop :=
  ∀ key ∈ copied P primary snap,
    ∃ bytes, primary.Holds P key bytes ∧ replica.Holds R key bytes

section
variable {P R : Ports} {primary w w' : World} {key : String}

def Retains (R : Ports) (w w' : World) : Prop := ∀ key bytes, w.Holds R key bytes → w'.Holds R key bytes

theorem Retains.refl (R : Ports) (w : World) : Retains R w w := fun _ _ h => h

theorem Retains.trans {w'' : World} (h : Retains R w w') (h' : Retains R w' w'') : Retains R w w'' :=
  fun key bytes hHolds => h' key bytes (h key bytes hHolds)

variable {keys : List String}

theorem HasAll.mono (h : HasAll R w keys) (hRetains : Retains R w w') : HasAll R w' keys := by
  intro key hKey
  obtain ⟨bytes, hHolds⟩ := h key hKey
  exact ⟨bytes, hRetains key bytes hHolds⟩

theorem HasAll.append {more : List String} (h : HasAll R w keys) (h' : HasAll R w more) :
    HasAll R w (keys ++ more) := forall_mem_append.mpr ⟨h, h'⟩

/-- A put leaves the replica as it was, and then succeeds only for an object that is there, or
adds the whole body. -/
theorem putStream_cases (R : Ports) (w : World) (key : String) (body : Stream) (c : Choice) :
    (putStream R w key body c).2 = w ∧
        (∀ obj, (putStream R w key body c).1 = .ok obj → ∃ bytes, w.Holds R key bytes) ∨
      body.ending = none ∧ ∃ a, R.backend.locate key = .ok a ∧
        (putStream R w key body c).2 = { w with objects := w.objects.putNew a body.bytes } := by
  unfold putStream
  cases body.ending with
  | none =>
    cases hLocate : R.backend.locate key with
    | error err =>
      refine .inl ⟨by simp [putObject, hLocate], ?_⟩
      simp [putObject, hLocate]
    | ok a =>
      simp only [putObject, hLocate, PutObjectRequest.store, if_true, writing]
      split
      · exact .inl ⟨rfl, fun obj hOk => by cases hOk⟩
      · exact .inr ⟨trivial, a, rfl, rfl⟩
      · exact .inr ⟨trivial, a, rfl, rfl⟩
  | some err =>
    refine .inl ?_
    cases hBackend : R.backend with
    | s3 base => exact ⟨rfl, fun obj hOk => by cases hOk⟩
    | filesystem =>
      cases hFind : w.findObject .filesystem key with
      | error missing => exact ⟨rfl, fun obj hOk => by cases hOk⟩
      | ok bytes => exact ⟨rfl, fun _ _ => ⟨bytes, by rw [World.Holds, hBackend, hFind]⟩⟩

variable {a : Address}

theorem holds_putNew (hLocate : R.backend.locate key = .ok a) :
    World.Holds { w with objects := w.objects.putNew a bytes } R other copy ↔
      w.Holds R other copy ∨ R.backend.locate other = .ok a ∧ w.objects.find a = none ∧ copy = bytes := by
  simp only [holds_iff, Objects.find_putNew]
  constructor
  · rintro ⟨b, hOther, hFind⟩
    split at hFind
    · rename_i hNew
      obtain ⟨rfl, hNone⟩ := hNew
      exact .inr ⟨hOther, hNone, (Option.some.inj hFind).symm⟩
    · exact .inl ⟨b, hOther, hFind⟩
  · rintro (⟨b, hOther, hFind⟩ | ⟨hOther, hNone, rfl⟩)
    · refine ⟨b, hOther, ?_⟩
      rw [if_neg]
      · exact hFind
      · rintro ⟨rfl, hNone⟩
        rw [hNone] at hFind
        cases hFind
    · exact ⟨a, hOther, if_pos ⟨rfl, hNone⟩⟩

theorem retains_putNew (hLocate : R.backend.locate key = .ok a) :
    Retains R w { w with objects := w.objects.putNew a bytes } :=
  fun _ _ hHolds => (holds_putNew hLocate).mpr (.inl hHolds)

theorem exists_holds_putNew (hLocate : R.backend.locate key = .ok a) :
    ∃ copy, World.Holds { w with objects := w.objects.putNew a bytes } R key copy := by
  obtain ⟨copy, hFind⟩ := w.objects.find_putNew_isSome a bytes
  exact ⟨copy, holds_iff.mpr ⟨a, hLocate, hFind⟩⟩

theorem Consistent.putNew (h : Consistent P R primary w)
    (hLocate : R.backend.locate key = .ok a) (hSource : primary.Holds P key bytes) :
    Consistent P R primary { w with objects := w.objects.putNew a bytes } := by
  intro other found copy hFound hCopy
  rcases (holds_putNew hLocate).mp hCopy with hOld | ⟨hOther, -, rfl⟩
  · exact h other found copy hFound hOld
  · obtain ⟨b, hKeyAt, hBytes⟩ := holds_iff.mp hSource
    obtain ⟨b', hOtherAt, hFoundAt⟩ := holds_iff.mp hFound
    obtain rfl := Backend.locate_meet hLocate hOther hKeyAt hOtherAt
    exact Option.some.inj (hBytes.symm.trans hFoundAt)

end

/-- An address in use on the replica, or that of a key to be copied. -/
def Placed (R : Ports) (all : List String) (s : Stores) (a : Address) : Prop :=
  (∃ bytes, s.replica.objects.find a = some bytes) ∨ a ∈ s.made ∨ ∃ key ∈ all, R.backend.locate key = .ok a

/-- On a replica on a file system, none of these addresses lies below another. -/
def Clear (R : Ports) (all : List String) (s : Stores) : Prop :=
  R.backend = .filesystem → ∀ a b, Placed R all s a → Placed R all s b → below a b = false

section
variable {R : Ports} {all : List String} {s : Stores} {key : String}

theorem Clear.obstacle (h : Clear R all s) (hKey : key ∈ all) : s.disk.obstacle R key = none := by
  unfold Disk.obstacle
  split
  · rename_i a hBackend hLocate
    have hPlace : Placed R all s a := .inr (.inr ⟨key, hKey, hBackend ▸ hLocate⟩)
    have hFile : (s.disk.objects.entries.any fun entry => below a entry.1) = false := by
      rw [any_eq_false]
      intro entry hIn
      simp [h hBackend _ _ hPlace (.inl ⟨_, Objects.find_eq_some_iff.mpr hIn⟩)]
    have hDirectory : (s.disk.made.any fun other => below other a) = false := by
      rw [any_eq_false]
      intro other hIn
      simp [h hBackend _ _ (.inr (.inl hIn)) hPlace]
    simp [hFile, hDirectory]
  · rfl

theorem placed_put (hKey : key ∈ all) {body : Stream} {c : Choice} {a : Address}
    (hPlaced : Placed R all { s with replica := (putStream R s.replica key body c).2, made := s.disk.mkdirs R key c } a) :
    Placed R all s a := by
  rcases hPlaced with ⟨bytes, hFind⟩ | hMade | hOther
  · rcases putStream_cases R s.replica key body c with ⟨hSame, -⟩ | ⟨-, b, hLocate, hAdded⟩
    · rw [hSame] at hFind
      exact .inl ⟨bytes, hFind⟩
    · rw [hAdded, Objects.find_putNew] at hFind
      split at hFind
      · rename_i hNew
        exact .inr (.inr ⟨key, hKey, hNew.1 ▸ hLocate⟩)
      · exact .inl ⟨bytes, hFind⟩
  · exact (Disk.mem_mkdirs hMade).elim (fun hOld => .inr (.inl hOld)) fun hLocate => .inr (.inr ⟨key, hKey, hLocate⟩)
  · exact .inr (.inr hOther)

/-- Where nothing is in the way, a put does what it does in the world. -/
theorem Clear.perform_put (h : Clear R all s) (hKey : key ∈ all) (P : Ports) (body : Stream) (c : Choice) :
    perform P R s (.put key body) c = ((putStream R s.replica key body c).1,
        { s with replica := (putStream R s.replica key body c).2, made := s.disk.mkdirs R key c }) ∧
      Clear R all { s with replica := (putStream R s.replica key body c).2, made := s.disk.mkdirs R key c } := by
  constructor
  · simp [perform, h.obstacle hKey]
  · exact fun hBackend a b ha hb => h hBackend a b (placed_put hKey ha) (placed_put hKey hb)

theorem Clear.perform_head (h : Clear R all s) (hKey : key ∈ all) (P : Ports) (c : Choice) :
    (perform P R s (.head key) c).1 = (DBVault.perform R s.replica (.head key) c).1 := by
  have hFree : ∀ other, (Op.head key).key? = some other → s.disk.obstacle R other = none :=
    fun _ hSome => Option.some.inj hSome ▸ h.obstacle hKey
  exact (Disk.perform_eq hFree c).1

end

/-- The primary store is as it was, the replica consistent with it and clear, and the snapshot
published last. -/
structure Safe (P R : Ports) (primary : World) (snap : Snapshot) (all : List String) (s : Stores) : Prop where
  unchanged : s.primary = primary
  consistent : Consistent P R primary s.replica
  published : PublishedLast P R primary snap s.replica
  clear : Clear R all s

/-- The key may be put: it is not that of the completion record, unless everything else is
there. -/
def MayPut (P R : Ports) (primary : World) (snap : Snapshot) (s : Stores) (key : String) : Prop :=
  ∀ a, R.backend.locate key = .ok a → R.backend.locate snap.completionObjectKey = .ok a →
    HasAll R s.replica (contents P primary snap)

section
variable {P R : Ports} {primary : World} {snap : Snapshot} {all : List String} {s : Stores} {key : String}

theorem Safe.put (h : Safe P R primary snap all s) (hKey : key ∈ all) (hMay : MayPut P R primary snap s key)
    (hBody : body.ending = none → primary.Holds P key body.bytes) (c : Choice) :
    Safe P R primary snap all (perform P R s (.put key body) c).2 ∧
      Retains R s.replica (perform P R s (.put key body) c).2.replica ∧
      ∀ obj, (perform P R s (.put key body) c).1 = .ok obj →
        ∃ bytes, (perform P R s (.put key body) c).2.replica.Holds R key bytes := by
  obtain ⟨hPut, hClear⟩ := h.clear.perform_put hKey P body c
  rw [hPut]
  rcases putStream_cases R s.replica key body c with ⟨hSame, hThere⟩ | ⟨hWhole, a, hLocate, hAdded⟩
  · rw [hSame] at hClear ⊢
    exact ⟨⟨h.unchanged, h.consistent, h.published, hClear⟩, .refl R _, hThere⟩
  · rw [hAdded] at hClear ⊢
    have hRetains : Retains R s.replica
        { s.replica with objects := s.replica.objects.putNew a body.bytes } := retains_putNew hLocate
    refine ⟨⟨h.unchanged, h.consistent.putNew hLocate (hBody hWhole), ?_, hClear⟩, hRetains,
      fun _ _ => exists_holds_putNew hLocate⟩
    rintro ⟨copy, hCopy⟩
    rcases (holds_putNew hLocate).mp hCopy with hOld | ⟨hMeets, -, -⟩
    · exact (h.published ⟨copy, hOld⟩).mono hRetains
    · exact (hMay a hLocate hMeets).mono hRetains

theorem copyObject_ensures (h : Safe P R primary snap all s) (hKey : key ∈ all) (hMay : MayPut P R primary snap s key) :
    (copyObject key).Ensures (stores P R) Choice.Faithful s fun result s' =>
      Safe P R primary snap all s' ∧ Retains R s.replica s'.replica ∧
        (result = .ok () → ∃ bytes, s'.replica.Holds R key bytes) := by
  intro c hFaithful
  have hStores : ((stores P R).perform s (.get key) c).2 = s := rfl
  rw [hStores]
  cases hGet : ((stores P R).perform s (.get key) c).1 with
  | error err => exact ⟨h, .refl R _, fun hOk => by cases hOk⟩
  | ok r =>
    have hBody : r.ending = none → primary.Holds P key r.bytes := by
      intro hEnding
      rw [← h.unchanged]
      exact perform_get_faithful hFaithful key hGet hEnding
    intro c' _
    obtain ⟨hSafe, hRetains, hThere⟩ := h.put hKey hMay hBody c'
    cases hPut : ((stores P R).perform s (.put key r) c').1 with
    | error err => exact ⟨hSafe, hRetains, fun hOk => by cases hOk⟩
    | ok obj => exact ⟨hSafe, hRetains, fun _ => hThere obj hPut⟩

end

theorem ensures_orReturn {α : Type} {env : Environment Reply Stores Choice} {good : Choice → Prop}
    {p : Program Reply (Result α)} {s : Stores} {res : Replicated} {post : α → Stores → Prop}
    {failed : Replicated × GoError → Stores → Prop}
    (h : p.Ensures env good s fun result s' =>
      match result with
      | .ok value => post value s'
      | .error err => failed (res, err) s') :
    Attempt.Ensures env good (orReturn res p) s post failed := by
  refine Program.ensures_bind h ?_
  intro result s' hResult
  cases result with
  | ok value => exact hResult
  | error err => exact hResult

/-- The stores stay safe and, unless it fails, the call leaves the keys in the replica. -/
def Copies (P R : Ports) (primary : World) (snap : Snapshot) (all : List String) (s : Stores) (keys : List String)
    {α : Type} (p : Step α) : Prop :=
  Attempt.Ensures (stores P R) Choice.Faithful p s
    (fun _ s' => Safe P R primary snap all s' ∧ Retains R s.replica s'.replica ∧ HasAll R s'.replica keys)
    fun _ s' => Safe P R primary snap all s'

section
variable {P R : Ports} {primary : World} {snap : Snapshot} {all : List String} {s : Stores} {key : String}

variable {α : Type}

theorem Copies.pure (h : Safe P R primary snap all s) (value : α) :
    Copies P R primary snap all s [] (pure value : Step α) :=
  ⟨h, .refl R _, by simp [HasAll]⟩

variable {keys : List String}

theorem Copies.bind {β : Type} {p : Step α} {f : α → Step β} {more : List String}
    (hFirst : Copies P R primary snap all s keys p)
    (hSecond : ∀ value s', Safe P R primary snap all s' → Retains R s.replica s'.replica →
      HasAll R s'.replica keys → Copies P R primary snap all s' more (f value)) :
    Copies P R primary snap all s (keys ++ more) (p >>= f) := by
  refine ensures_bind hFirst ?_
  rintro value s' ⟨hSafe, hRetains, hKeys⟩
  refine (hSecond value s' hSafe hRetains hKeys).mono ?_
  rintro _ s'' ⟨hSafe', hRetains', hMore⟩
  exact ⟨hSafe', hRetains.trans hRetains', (hKeys.mono hRetains').append hMore⟩

theorem copied_ensures (res : Replicated) (h : Safe P R primary snap all s) (hKey : key ∈ all)
    (hMay : MayPut P R primary snap s key) :
    Copies P R primary snap all s [key] (orReturn res (copyObject key)) := by
  refine ensures_orReturn ((copyObject_ensures h hKey hMay).mono ?_)
  rintro result s' ⟨hSafe, hRetains, hThere⟩
  cases result with
  | ok value => exact ⟨hSafe, hRetains, forall_mem_singleton.mpr (hThere rfl)⟩
  | error err => exact hSafe

theorem copyChunk_ensures (res : Replicated) (h : Safe P R primary snap all s) (hKey : key ∈ all)
    (hMay : MayPut P R primary snap s key) : Copies P R primary snap all s [key] (copyChunk res key) := by
  intro c _
  have hStores : ((stores P R).perform s (.head key) c).2 = s := rfl
  rw [hStores]
  cases hHead : ((stores P R).perform s (.head key) c).1 with
  | ok obj =>
    have hThere := perform_head_ok ((h.clear.perform_head hKey P c).symm.trans hHead)
    exact ⟨h, .refl R _, forall_mem_singleton.mpr hThere⟩
  | error err => exact (copied_ensures res h hKey hMay).bind fun _ _ hSafe _ _ => .pure hSafe _

def Apart (R : Ports) (snap : Snapshot) (key : String) : Prop :=
  ∀ a, R.backend.locate key = .ok a → R.backend.locate snap.completionObjectKey ≠ .ok a

theorem Apart.mayPut (h : Apart R snap key) : MayPut P R primary snap s key :=
  fun a hKey hComplete => absurd hComplete (h a hKey)

theorem copyChunks_ensures (hAll : keys ⊆ all) (hApart : ∀ key ∈ keys, Apart R snap key) (res : Replicated)
    (h : Safe P R primary snap all s) : Copies P R primary snap all s keys (copyChunks res keys) := by
  induction keys generalizing s res with
  | nil => exact .pure h res
  | cons key rest ih =>
    obtain ⟨hKey, hRest⟩ := forall_mem_cons.mp hApart
    obtain ⟨hFirst, hMore⟩ := cons_subset.mp hAll
    exact (copyChunk_ensures res h hFirst hKey.mayPut).bind fun res' _ hSafe _ _ => ih hMore hRest res' hSafe

theorem copyFiles_ensures {first second last : String} (res : Replicated)
    (h : Safe P R primary snap all s) (hAll : [first, second, last] ⊆ all) (hFirst : Apart R snap first) (hSecond : Apart R snap second)
    (hLast : ∀ s', Retains R s.replica s'.replica → HasAll R s'.replica [first, second] →
      MayPut P R primary snap s' last) :
    Copies P R primary snap all s [first, second, last] (copyFiles res [first, second, last]) := by
  obtain ⟨hIn, hIn', hIn'', -⟩ : first ∈ all ∧ second ∈ all ∧ last ∈ all ∧ [] ⊆ all := by
    simpa only [cons_subset] using hAll
  refine (copied_ensures res h hIn hFirst.mayPut).bind fun _ s₁ hSafe₁ hRetains₁ hFirst₁ => ?_
  refine (copied_ensures res hSafe₁ hIn' hSecond.mayPut).bind fun _ s₂ hSafe₂ hRetains₂ hSecond₂ => ?_
  have hBoth : HasAll R s₂.replica [first, second] := (hFirst₁.mono hRetains₂).append hSecond₂
  have hMay := hLast s₂ (hRetains₁.trans hRetains₂) hBoth
  exact (copied_ensures res hSafe₂ hIn'' hMay).bind fun _ _ hSafe₃ _ _ => .pure hSafe₃ ()

/-- What `Replicate` relies on of a snapshot in the catalogue. -/
structure Stored (P : Ports) (primary : World) (row : CatalogueRow) (man : SnapshotManifest) : Prop where
  found : primary.rows.find? (·.snapshot.id == row.snapshot.id) = some row
  manifest : ∃ payload, primary.Holds P row.snapshot.manifestObjectKey payload ∧
    SnapshotManifest.unmarshal payload = .ok man
  signature : signatureKey row.snapshot = sigKey row.snapshot.sourceID row.snapshot.id
  there : HasAll P primary (copied P primary row.snapshot)

variable {row : CatalogueRow} {man : SnapshotManifest}

theorem Stored.listed_eq (h : Stored P primary row man) :
    listed P primary row.snapshot = man.chunks.map (·.objectKey) := by
  obtain ⟨payload, hHolds, hMan⟩ := h.manifest
  simp [listed, hHolds, hMan]

theorem getSnapshot_ensures (h : Stored P primary row man) (hSafe : Safe P R primary snap all s) :
    (ask (.getSnapshot row.snapshot.id)).Ensures (stores P R) Choice.Faithful s fun result s' =>
      s = s' ∧ ∀ entry, result = .ok entry → entry = (row.snapshot, row.links) := by
  intro c _
  refine ⟨rfl, ?_⟩
  intro entry hOk
  have hRead := reading_ok hOk
  rw [hSafe.unchanged, h.found] at hRead
  exact (Except.ok.inj hRead).symm

theorem readPayload_ensures (h : Stored P primary row man) (hSafe : Safe P R primary snap all s) :
    (readObject row.snapshot.manifestObjectKey).Ensures (stores P R) Choice.Faithful s
      fun result s' => s = s' ∧ ∀ payload, result = .ok payload → decode payload = .ok man := by
  intro c hFaithful
  have hStores : ((stores P R).perform s (.get row.snapshot.manifestObjectKey) c).2 = s := rfl
  rw [hStores]
  cases hGet : ((stores P R).perform s (.get row.snapshot.manifestObjectKey) c).1 with
  | error err => exact ⟨rfl, fun payload hOk => by cases hOk⟩
  | ok r =>
    refine ⟨rfl, ?_⟩
    intro payload hRead
    obtain ⟨stored, hHolds, hMan⟩ := h.manifest
    cases hEnding : r.ending with
    | some err => simp [Stream.readAll, hEnding] at hRead
    | none =>
      have hBytes := perform_get_faithful hFaithful _ hGet hEnding
      rw [hSafe.unchanged] at hBytes
      have hSame : stored = r.bytes := Except.ok.inj (hHolds.symm.trans hBytes)
      obtain rfl : r.bytes = payload := by simpa [Stream.readAll, hEnding] using hRead
      rw [decode, ← hSame, hMan]
      rfl

theorem read_ensures {p : Program Reply (Result α)} {post : α → Prop} (h : Safe P R primary snap all s)
    (hRead : p.Ensures (stores P R) Choice.Faithful s fun result s' =>
      s = s' ∧ ∀ value, result = .ok value → post value) :
    Attempt.Ensures (stores P R) Choice.Faithful (orReturn {} p) s
      (fun value s' => s = s' ∧ post value) fun _ s' => Safe P R primary snap all s' := by
  refine ensures_orReturn (hRead.mono ?_)
  rintro result s' ⟨rfl, hValue⟩
  cases result with
  | ok value => exact ⟨rfl, hValue value rfl⟩
  | error err => exact h

theorem readManifest_ensures (hStored : Stored P primary row man) (service : Service)
    (destinationID : String) (h : Safe P R primary snap all s) :
    Attempt.Ensures (stores P R) Choice.Faithful
      (readManifest service row.snapshot.id destinationID) s
      (fun read s' => s = s' ∧ (row.snapshot, man) = read)
      fun _ s' => Safe P R primary snap all s' := by
  have hCheck : (pure (checkStores service destinationID) : Program Reply _).Ensures (stores P R)
      Choice.Faithful s fun result s' => s = s' ∧ ∀ value, result = .ok value → True :=
    ⟨rfl, fun _ _ => trivial⟩
  refine ensures_bind (read_ensures h hCheck) ?_
  rintro _ _ ⟨rfl, -⟩
  refine ensures_bind (read_ensures h (getSnapshot_ensures hStored h)) ?_
  rintro _ _ ⟨rfl, rfl⟩
  refine ensures_bind (read_ensures h (readPayload_ensures hStored h)) ?_
  rintro payload _ ⟨rfl, hDecode⟩
  rw [hDecode]
  exact ⟨rfl, rfl⟩

theorem copySnapshot_ensures (hStored : Stored P primary row man)
    (hAll : copied P primary row.snapshot ⊆ all)
    (hApart : ∀ key ∈ contents P primary row.snapshot, Apart R snap key)
    (hMeet : ∀ a, R.backend.locate row.snapshot.completionObjectKey = .ok a →
      R.backend.locate snap.completionObjectKey = .ok a → snap = row.snapshot)
    (res : Replicated) (h : Safe P R primary snap all s) :
    Copies P R primary snap all s (copied P primary row.snapshot)
      (copySnapshot res row.snapshot man) := by
  rw [copied, contents, append_assoc, append_subset] at hAll
  rw [copied, contents, append_assoc, copySnapshot, ← hStored.listed_eq, hStored.signature]
  refine (copyChunks_ensures hAll.1 (fun key hKey => hApart key (mem_append_left _ hKey)) res h).bind
    fun res s₁ hSafe _ hChunks => ?_
  refine (copyFiles_ensures res hSafe hAll.2 (hApart _ (by simp [contents]))
    (hApart _ (by simp [contents])) ?_).bind fun _ _ hSafe' _ _ => .pure hSafe' res
  -- Where the two completion records meet they are one, and everything else is there.
  intro s₂ hRetains hFiles a hComplete hOther
  rw [hMeet a hComplete hOther]
  exact (hChunks.mono hRetains).append hFiles

end

section
variable {P R : Ports} {jobs : Nat → Job} {history : History}
  {st : System Answer World (CreateResult × Option GoError)} {row other : CatalogueRow}
  (run : Execution (environment P) (backups P jobs) history st) (hRow : row ∈ st.world.rows)

/-- The key of a chunk, or of a file other than the completion record. -/
inductive ContentKey (row : CatalogueRow) : String → Prop where
  | chunk {sourceID keyVersion id : String} (hID : Hashes.IsHexID id) :
      ContentKey row (chunkObjectKey sourceID keyVersion id)
  | file {kind : FileKind} (hKind : kind ≠ .complete) :
      ContentKey row (fileKey row kind)

theorem manifest_key {t : Nat} (h : KeyLayout.RowOf P jobs history row t d) :
    row.snapshot.manifestObjectKey = fileKey row .manifest := by
  obtain ⟨up, committed, hSnapshot⟩ := h.snapshot
  rw [fileKey, hSnapshot]
  rfl

include run hRow

theorem stored_of_row :
    ∃ man, Stored P st.world row man ∧ (∀ key ∈ contents P st.world row.snapshot, ContentKey row key) ∧
      ∃ t art, Service.Took (ownCalls t history) art ∧ man.chunks =
        (((jobs t).service P).identified art).map (((jobs t).service P).chunkInfo (jobs t).command) := by
  obtain ⟨t, d, hRowOf⟩ := rowOf_of_mem run hRow
  have hManifestKey := manifest_key hRowOf
  have hManifest := holds_manifest run hRowOf.complete.toManifestPut
  have hMan := SnapshotManifest.unmarshal_marshal (((jobs t).service P).manifest_fits (jobs t).command d)
  have hHolds : st.world.Holds P row.snapshot.manifestObjectKey
      (((jobs t).service P).payload (jobs t).command d) := by
    rw [hManifestKey, hRowOf.fileKey_eq]
    exact hManifest
  have hListed : listed P st.world row.snapshot = (((jobs t).service P).identified d.art).map
      fun x => ((jobs t).service P).chunkKey (jobs t).command x.2 := by
    simp only [listed, hHolds, Service.payload, hMan]
    exact map_map
  have hFile : ∀ kind, ∃ bytes, st.world.Holds P (fileKey row kind) bytes := by
    intro kind
    obtain ⟨hLocate, bytes, hFind⟩ := file_there run hRow kind
    exact ⟨bytes, holds_iff.mpr ⟨_, hLocate, hFind⟩⟩
  refine ⟨((jobs t).service P).manifestOf (jobs t).command d, ⟨find_row run rfl hRow,
    ⟨_, hHolds, hMan⟩, Restore.signatureKey_eq hManifestKey, ?_⟩, ?_, t, d.art, hRowOf.complete.took, rfl⟩
  · intro key hKey
    rw [copied, contents, hListed, hManifestKey, (completion_key hRowOf).2] at hKey
    simp only [mem_append, mem_map, mem_cons, not_mem_nil, or_false] at hKey
    rcases hKey with (⟨x, hx, rfl⟩ | rfl | rfl) | rfl
    · exact holds_of_used run (hRowOf.complete.used x hx)
    · exact hFile .manifest
    · exact hFile .sig
    · exact hFile .complete
  · intro key hKey
    rw [contents, hListed, hManifestKey] at hKey
    simp only [mem_append, mem_map, mem_cons, not_mem_nil, or_false] at hKey
    rcases hKey with ⟨x, hx, rfl⟩ | rfl | rfl
    · exact .chunk (((jobs t).service P).identified_isHexID hx)
    · exact .file (show FileKind.manifest ≠ .complete by simp)
    · exact .file (show FileKind.sig ≠ .complete by simp)

theorem plain_of_row : Plain row.snapshot.id.toList := by
  obtain ⟨t, d, hRowOf⟩ := rowOf_of_mem run hRow
  exact hRowOf.plain run

theorem completion_endsIn (hAt : R.backend.locate row.snapshot.completionObjectKey = .ok a) :
    EndsIn a (snapshotTail row.snapshot.id FileKind.complete.name) := by
  obtain ⟨t, d, hRowOf⟩ := rowOf_of_mem run hRow
  rw [(completion_key hRowOf).2] at hAt
  exact snapshotKey_endsIn .complete (hRowOf.plain run) hAt

theorem ContentKey.apart (hOther : other ∈ st.world.rows)
    (hKey : ContentKey row key) : Apart R other.snapshot key := by
  intro a hAt hComplete
  have hEnds := completion_endsIn run hOther hComplete
  cases hKey with
  | chunk hID => exact chunkTail_snapshotTail (chunkKey_endsIn hID hAt) hEnds
  | file hKind =>
    have hFile := snapshotKey_endsIn _ (plain_of_row run hRow) hAt
    exact hKind (snapshotTail_meet hFile hEnds).2

theorem completion_meet (hOther : other ∈ st.world.rows)
    (hAt : R.backend.locate row.snapshot.completionObjectKey = .ok a)
    (hOtherAt : R.backend.locate other.snapshot.completionObjectKey = .ok a) :
    other.snapshot = row.snapshot := by
  have hID := (snapshotTail_meet (completion_endsIn run hRow hAt) (completion_endsIn run hOther hOtherAt)).1
  have hFind := find_row run rfl hRow
  rw [hID, find_row run rfl hOther] at hFind
  rw [Option.some.inj hFind]

end

def Succeeds (P R : Ports) (primary : World) (all : List String) (s : Stores) {α : Type} (p : Step α) : Prop :=
  Attempt.Ensures (stores P R) Choice.Clean p s (fun _ s' => s'.primary = primary ∧ Clear R all s') fun _ _ => False

section
variable {P R : Ports} {primary : World} {all : List String} {s : Stores} {key : String}

theorem copyObject_succeeds (hPrimary : s.primary = primary) (hClear : Clear R all s) (hKey : key ∈ all)
    (hHolds : primary.Holds P key bytes) (hLocate : R.backend.locate key = .ok a) :
    (copyObject key).Ensures (stores P R) Choice.Clean s fun result s' =>
      result = .ok () ∧ s'.primary = primary ∧ Clear R all s' := by
  have hGet : ∀ c, c.Clean → (stores P R).perform s (.get key) c = (.ok ⟨bytes, none⟩, s) := by
    intro c hClean
    simp only [perform, hPrimary, perform_get_clean hClean hHolds]
  refine Program.ensures_ask_bind hGet ?_
  intro c hClean
  obtain ⟨hPut, hAfter⟩ := hClear.perform_put hKey P ⟨bytes, none⟩ c
  have hDone : ∃ obj, (putStream R s.replica key ⟨bytes, none⟩ c).1 = .ok obj := by
    simp only [putStream, putObject, hLocate, writing_clean hClean]
    exact ⟨_, rfl⟩
  obtain ⟨obj, hObj⟩ := hDone
  rw [show (stores P R).perform s (.put key ⟨bytes, none⟩) c = _ from hPut, hObj]
  exact ⟨rfl, hPrimary, hAfter⟩

theorem copied_succeeds (res : Replicated) (hPrimary : s.primary = primary) (hClear : Clear R all s)
    (hKey : key ∈ all) {bytes : Bytes}
    (hHolds : primary.Holds P key bytes) {a : Address} (hLocate : R.backend.locate key = .ok a) :
    Succeeds P R primary all s (orReturn res (copyObject key)) := by
  refine ensures_orReturn ((copyObject_succeeds hPrimary hClear hKey hHolds hLocate).mono ?_)
  rintro result s' ⟨rfl, hSame⟩
  exact hSame

def Copyable (P R : Ports) (primary : World) (all : List String) (key : String) : Prop :=
  key ∈ all ∧ (∃ bytes, primary.Holds P key bytes) ∧ ∃ a, R.backend.locate key = .ok a

variable {keys : List String}

theorem copyChunks_succeeds (hKeys : ∀ key ∈ keys, Copyable P R primary all key)
    (res : Replicated) (hPrimary : s.primary = primary) (hClear : Clear R all s) :
    Succeeds P R primary all s (copyChunks res keys) := by
  induction keys generalizing s res with
  | nil => exact ⟨hPrimary, hClear⟩
  | cons key rest ih =>
    obtain ⟨⟨hKey, ⟨bytes, hHolds⟩, a, hLocate⟩, hRest⟩ := forall_mem_cons.mp hKeys
    have hChunk : Succeeds P R primary all s (copyChunk res key) := by
      intro c _
      have hStores : ((stores P R).perform s (.head key) c).2 = s := rfl
      rw [hStores]
      cases ((stores P R).perform s (.head key) c).1 with
      | ok obj => exact ⟨hPrimary, hClear⟩
      | error err => exact ensures_bind (copied_succeeds res hPrimary hClear hKey hHolds hLocate) fun _ _ hSame => hSame
    exact ensures_bind hChunk fun res' _ hSame => ih hRest res' hSame.1 hSame.2

theorem copyFiles_succeeds (hKeys : ∀ key ∈ keys, Copyable P R primary all key)
    (res : Replicated) (hPrimary : s.primary = primary) (hClear : Clear R all s) :
    Succeeds P R primary all s (copyFiles res keys) := by
  induction keys generalizing s with
  | nil => exact ⟨hPrimary, hClear⟩
  | cons key rest ih =>
    obtain ⟨⟨hKey, ⟨bytes, hHolds⟩, a, hLocate⟩, hRest⟩ := forall_mem_cons.mp hKeys
    exact ensures_bind (copied_succeeds res hPrimary hClear hKey hHolds hLocate) fun _ _ hSame =>
      ih hRest hSame.1 hSame.2

variable {row : CatalogueRow} {man : SnapshotManifest} {service : Service} {destinationID : String}

theorem readManifest_succeeds (hStored : Stored P primary row man) (hCheck : checkStores service destinationID = .ok ())
    (hPrimary : s.primary = primary) : Attempt.Ensures (stores P R) Choice.Clean
      (readManifest service row.snapshot.id destinationID) s
      (fun read s' => s = s' ∧ (row.snapshot, man) = read) fun _ _ => False := by
  obtain ⟨payload, hHolds, hMan⟩ := hStored.manifest
  have hDecode : decode payload = .ok man := by
    rw [decode, hMan]
    rfl
  have hRow : ∀ c, c.Clean → (stores P R).perform s (.getSnapshot row.snapshot.id) c =
      (.ok (row.snapshot, row.links), s) := by
    intro c hClean
    simp only [perform, hPrimary, getSnapshot_clean P hClean hStored.found]
  have hGet : ∀ c, c.Clean → (stores P R).perform s (.get row.snapshot.manifestObjectKey) c =
      (.ok ⟨payload, none⟩, s) := by
    intro c hClean
    simp only [perform, hPrimary, perform_get_clean hClean hHolds]
  unfold readManifest
  rw [hCheck]
  refine Program.ensures_ask_bind hRow ?_
  refine Program.ensures_ask_bind hGet ?_
  show Attempt.Ensures (stores P R) Choice.Clean
    (orReturn {} (pure (decode payload)) >>= fun man => pure (row.snapshot, man)) s _ _
  rw [hDecode]
  exact ⟨rfl, rfl⟩

theorem replicate_succeeds (hStored : Stored P primary row man)
    (hKeys : ∀ key ∈ copied P primary row.snapshot,
      ∃ a, R.backend.locate key = .ok a) (hCheck : checkStores service destinationID = .ok ())
    (hPrimary : s.primary = primary)
    (hClear : Clear R (copied P primary row.snapshot) s) :
    Attempt.Ensures (stores P R) Choice.Clean (replicate service row.snapshot.id destinationID) s
      (fun _ _ => True) fun _ _ => False := by
  have hCopyable : ∀ key ∈ copied P primary row.snapshot,
      Copyable P R primary (copied P primary row.snapshot) key :=
    fun key hKey => ⟨hKey, hStored.there key hKey, hKeys key hKey⟩
  have hList : copied P primary row.snapshot = man.chunks.map (·.objectKey) ++
      [row.snapshot.manifestObjectKey, signatureKey row.snapshot, row.snapshot.completionObjectKey] := by
    simp [copied, contents, hStored.listed_eq, hStored.signature]
  generalize copied P primary row.snapshot = all at hClear hCopyable hList
  have hEach : ∀ key ∈ man.chunks.map (·.objectKey) ++ [row.snapshot.manifestObjectKey, signatureKey row.snapshot,
      row.snapshot.completionObjectKey], Copyable P R primary all key := hList ▸ hCopyable
  rw [forall_mem_append] at hEach
  refine ensures_bind (readManifest_succeeds hStored hCheck hPrimary) ?_
  rintro _ _ ⟨rfl, rfl⟩
  refine ensures_bind (copyChunks_succeeds hEach.1 _ hPrimary hClear) ?_
  intro res s' hSame
  exact ensures_bind (copyFiles_succeeds hEach.2 res hSame.1 hSame.2) fun _ _ _ => trivial

end

/-- One call of `Replicate`: what it returns and what it leaves. -/
def call (P R : Ports) (service : Service) (snapshotID destinationID : String) (s : Stores)
    (choices : Nat → Choice) : Except (Replicated × GoError) Replicated × Stores :=
  let out := (replicate service snapshotID destinationID).run.run (stores P R) (s, choices)
  (out.1, out.2.1)

/-- What is left of a call when it has read the manifest. -/
def afterRead (P R : Ports) (snap : Snapshot) (man : SnapshotManifest) (destinationID : String) (s : Stores)
    (choices : Nat → Choice) : Except (Replicated × GoError) Replicated × Stores :=
  let out := (copySnapshot { snapshotID := snap.id, destinationID := destinationID } snap man).run.run
    (stores P R) (s, choices)
  (out.1, out.2.1)

section
variable {P R : Ports} {primary : World} {row : CatalogueRow} {man : SnapshotManifest} {service : Service}
  {destinationID : String} (hStored : Stored P primary row man) (hCheck : checkStores service destinationID = .ok ())
  {s : Stores} (hPrimary : s.primary = primary) {choices : Nat → Choice} (hSame : ∀ n, choices n = choices 0)
  (hClean : (choices 0).Clean)
include hStored hCheck hPrimary hSame hClean

theorem call_eq : call P R service row.snapshot.id destinationID s choices =
    afterRead P R row.snapshot man destinationID s choices := by
  obtain ⟨c, rfl⟩ : ∃ c, choices = fun _ => c := ⟨choices 0, funext hSame⟩
  have hOnly : ∀ choice, choice = c → choice.Clean := by
    rintro _ rfl
    exact hClean
  have hRun : (replicate service row.snapshot.id destinationID).run.Ensures (stores P R) (· = c) s fun result s' =>
      (result, s') = afterRead P R row.snapshot man destinationID s fun _ => c := by
    refine Program.ensures_bind ((readManifest_succeeds (R := R) hStored hCheck hPrimary).restrict hOnly) ?_
    rintro (err | read) s' hPost
    · exact hPost.elim
    · obtain ⟨rfl, rfl⟩ := hPost
      exact Program.ensures_of_run rfl
  exact hRun.run fun _ => rfl

/-- A call that leaves the completion record, and one of the chunks not. Of the manifest it has read
only the chunks matter. -/
theorem not_publishedLast {like : SnapshotManifest} (hLike : man.chunks = like.chunks) {key : String}
    (hListed : key ∈ like.chunks.map (·.objectKey))
    (hComplete : ((afterRead P R row.snapshot like destinationID s choices).2.replica.findObject R.backend
      row.snapshot.completionObjectKey).toOption.isSome = true)
    (hMissing : ((afterRead P R row.snapshot like destinationID s choices).2.replica.findObject R.backend
      key).toOption = none) :
    ¬ PublishedLast P R primary row.snapshot (call P R service row.snapshot.id destinationID s choices).2.replica := by
  have hAfter : afterRead P R row.snapshot man destinationID s choices =
      afterRead P R row.snapshot like destinationID s choices := by
    simp only [afterRead, copySnapshot, hLike]
  rw [call_eq hStored hCheck hPrimary hSame hClean, hAfter]
  intro hPublished
  obtain ⟨bytes, hBytes⟩ := Option.isSome_iff_exists.mp hComplete
  obtain ⟨copy, hCopy⟩ := hPublished ⟨bytes, eq_ok_of_toOption hBytes⟩ key
    (by simp [contents, hStored.listed_eq, hLike, hListed])
  rw [World.Holds] at hCopy
  rw [hCopy] at hMissing
  cases hMissing

end

def calls (P R : Ports) (service : Service) (snapshotID destinationID : String) (s : Stores)
    (stops : List (Nat → Choice)) : Stores :=
  stops.foldl (fun s choices => (call P R service snapshotID destinationID s choices).2) s

section
variable {P R : Ports} {jobs : Nat → Job} {history : History}
  {st : System Answer World (CreateResult × Option GoError)} {row other : CatalogueRow}

theorem replica_of_hasAll (hStored : Stored P st.world row man) (hConsistent : Consistent P R st.world w)
    (hAll : HasAll R w (copied P st.world row.snapshot)) :
    Replica P R st.world row.snapshot w := by
  intro key hKey
  obtain ⟨bytes, hBytes⟩ := hStored.there key hKey
  obtain ⟨copy, hCopy⟩ := hAll key hKey
  obtain rfl := hConsistent key bytes copy hBytes hCopy
  exact ⟨copy, hBytes, hCopy⟩

theorem Replica.readable (h : Replica P { P with backend := backend } w snap w')
    (hSig : signatureKey snap = sigKey snap.sourceID snap.id) (rows : List CatalogueRow)
    (hReadable : Restore.Readable ⟨P, hasSigner, key⟩ w snap content) :
    Restore.Readable ⟨{ P with backend := backend }, hasSigner, key⟩ { w' with rows := rows } snap content := by
  -- Every key that a restore reads is one of those copied.
  have hCopy {key bytes} (hIn : key ∈ contents P w snap ++ [snap.completionObjectKey])
      (hHolds : w.Holds P key bytes) : w'.Holds { P with backend := backend } key bytes := by
    obtain ⟨copy, hPrimary, hReplica⟩ := h key hIn
    obtain rfl : copy = bytes := Except.ok.inj (hPrimary.symm.trans hHolds)
    exact hReplica
  obtain ⟨payload, man, plains, ⟨⟨hManifest, ⟨sig, hSigned, hVerify⟩, hCompletion⟩, hParsed, hID, hRoot⟩,
    hOpens, hRest⟩ := hReadable
  have hListed : listed P w snap = man.chunks.map (·.objectKey) := by
    simp only [listed, show w.findObject P.backend _ = _ from hManifest, hParsed]
  refine ⟨payload, man, plains, ⟨⟨hCopy (by simp [contents]) hManifest,
    ⟨sig, hCopy (by simp [contents, hSig]) hSigned, hVerify⟩, fun hNamed => ?_⟩, hParsed, hID,
    ⟨hRoot.present, hRoot.computed⟩⟩, ?_, hRest⟩
  · obtain ⟨record, comp, hRecord, hDigest⟩ := hCompletion hNamed
    exact ⟨record, comp, hCopy (by simp) hRecord, hDigest⟩
  · obtain ⟨hLength, hEach⟩ := forall₂_iff_zip.mp hOpens
    refine forall₂_iff_zip.mpr ⟨hLength, fun hPair => ?_⟩
    obtain ⟨encrypted, hHolds, hOpen⟩ := hEach hPair
    have hIn := mem_map_of_mem (f := (·.objectKey)) (of_mem_zip hPair).1
    exact ⟨encrypted, hCopy (by simp [contents, hListed, hIn]) hHolds, hOpen⟩

variable (run : Execution (environment P) (backups P jobs) history st) (hRow : row ∈ st.world.rows)
  (service : Service) (destinationID : String)
include run hRow

theorem call_ensures (hOther : other ∈ st.world.rows)
    (h : Safe P R st.world other.snapshot (copied P st.world row.snapshot) s)
    {choices : Nat → Choice} (hFaithful : ∀ n, (choices n).Faithful) :
    Safe P R st.world other.snapshot (copied P st.world row.snapshot) (call P R service row.snapshot.id destinationID s choices).2 ∧
      ∀ res, (call P R service row.snapshot.id destinationID s choices).1 = .ok res →
        HasAll R (call P R service row.snapshot.id destinationID s choices).2.replica
          (copied P st.world row.snapshot) := by
  obtain ⟨man, hStored, hContents, -⟩ := stored_of_row run hRow
  have hEnsures : Copies P R st.world other.snapshot (copied P st.world row.snapshot) s
      (copied P st.world row.snapshot)
      (replicate service row.snapshot.id destinationID) := by
    refine ensures_bind (readManifest_ensures hStored service destinationID h) ?_
    rintro _ _ ⟨rfl, rfl⟩
    exact copySnapshot_ensures hStored (Subset.refl _)
      (fun key hKey => (hContents key hKey).apart run hRow hOther)
      (fun a hAt hOtherAt => completion_meet run hRow hOther hAt hOtherAt) _ h
  have hRun := Program.Ensures.run hEnsures hFaithful
  unfold call
  cases hResult : ((replicate service row.snapshot.id destinationID).run.run (stores P R) (s, choices)).1 with
  | ok res =>
    rw [hResult] at hRun
    exact ⟨hRun.1, fun _ _ => hRun.2.2⟩
  | error err =>
    rw [hResult] at hRun
    exact ⟨hRun, fun res hOk => by cases hOk⟩

theorem calls_safe (hOther : other ∈ st.world.rows) (hFaithful : ∀ choices ∈ stops, ∀ n, (choices n).Faithful)
    (h : Safe P R st.world other.snapshot (copied P st.world row.snapshot) s) :
    Safe P R st.world other.snapshot (copied P st.world row.snapshot) (calls P R service row.snapshot.id destinationID s stops) := by
  induction stops generalizing s with
  | nil => exact h
  | cons choices rest ih =>
    obtain ⟨hFirst, hRest⟩ := forall_mem_cons.mp hFaithful
    exact ih hRest (call_ensures run hRow service destinationID hOther h hFirst).1

end

section
variable {P R : Ports} {jobs : Nat → Job} {history : History}
  {st : System Answer Disk (CreateResult × Option GoError)} {row : CatalogueRow}
  (run : Execution (onDisk P) (backupsOnDisk P jobs) history st) (hApart : DBVault.Apart P history)
  (hRow : row ∈ st.world.rows)
include run hApart hRow

theorem stored_on_disk : ∃ man, Stored P st.world.toWorld row man ∧ ∃ t art, Service.Took (ownCalls t history) art ∧
    man.chunks = (((jobs t).service P).identified art).map (((jobs t).service P).chunkInfo (jobs t).command) :=
  (stored_of_row (ran_of_disk run hApart) hRow).imp fun _ => And.imp_right And.right

theorem backedUp_on_disk : ∃ art, Restore.BackedUp history row art :=
  Restore.exists_backedUp (ran_of_disk run hApart) hRow

theorem located_of_row : ∀ key ∈ copied P st.world.toWorld row.snapshot, ∃ a, P.backend.locate key = .ok a := by
  obtain ⟨man, hStored, -⟩ := stored_on_disk run hApart hRow
  intro key hKey
  obtain ⟨bytes, hHolds⟩ := hStored.there key hKey
  exact (holds_iff.mp hHolds).imp fun _ => And.left

theorem call_succeeds {service : Service} {destinationID : String} (hCheck : checkStores service destinationID = .ok ())
    (hKeys : ∀ key ∈ copied P st.world.toWorld row.snapshot, ∃ a, R.backend.locate key = .ok a)
    {replica : World} {made : List Address}
    (hClear : Clear R (copied P st.world.toWorld row.snapshot) ⟨st.world.toWorld, replica, made⟩)
    {choices : Nat → Choice} (hClean : ∀ n, (choices n).Clean) :
    ∃ res, (call P R service row.snapshot.id destinationID ⟨st.world.toWorld, replica, made⟩ choices).1 = .ok res := by
  obtain ⟨man, hStored, -⟩ := stored_on_disk run hApart hRow
  obtain ⟨res, hOk, -⟩ := (replicate_succeeds hStored hKeys hCheck rfl hClear).succeeds hClean
  exact ⟨res, hOk⟩

/-- To an empty replica of the primary's kind, nothing is in the way. -/
theorem clear_empty (hBackend : R.backend = P.backend) (primary : World) :
    Clear R (copied P st.world.toWorld row.snapshot) ⟨primary, {}, []⟩ := by
  have hRan := ran_of_disk run hApart
  obtain ⟨man, hStored, -⟩ := stored_of_row hRan hRow
  have hUsed : ∀ a, Placed R (copied P st.world.toWorld row.snapshot) ⟨primary, {}, []⟩ a → a ∈ addresses P history := by
    rintro a (⟨bytes, hFind⟩ | hMade | ⟨key, hKey, hLocate⟩)
    · cases hFind
    · cases hMade
    · obtain ⟨bytes, hHolds⟩ := hStored.there key hKey
      obtain ⟨b, hAt, hFind⟩ := holds_iff.mp hHolds
      obtain rfl : a = b := Except.ok.inj (hLocate.symm.trans (hBackend ▸ hAt))
      obtain ⟨e, hIn, req, hPut, hPutAt, -⟩ := objects_put hRan rfl a bytes hFind
      exact mem_addresses.mpr ⟨e, hIn, req.key, by rw [hPut]; rfl, hPutAt⟩
  exact fun hFilesystem a b ha hb => hApart (hBackend ▸ hFilesystem) a (hUsed a ha) b (hUsed b hb)

variable (service : Service) (destinationID : String)

/-- For every snapshot in the catalogue and every replica that agrees with the primary store and
has published the snapshot last, where nothing is in the way of its keys: after any number of calls,
stopped anywhere by errors, what the replica has published last it still has; and a call that returns
without an error leaves the whole snapshot there, which one without errors of the stores does if the
replica can file its keys. -/
theorem replicate_published_last {replica : World} {made : List Address}
    (hConsistent : Consistent P R st.world.toWorld replica)
    (hPublished : PublishedLast P R st.world.toWorld row.snapshot replica)
    (hClear : Clear R (copied P st.world.toWorld row.snapshot) ⟨st.world.toWorld, replica, made⟩)
    {stops : List (Nat → Choice)} (hStops : ∀ choices ∈ stops, ∀ n, (choices n).Faithful) :
    (∀ other ∈ st.world.rows, PublishedLast P R st.world.toWorld other.snapshot replica →
        PublishedLast P R st.world.toWorld other.snapshot
          (calls P R service row.snapshot.id destinationID ⟨st.world.toWorld, replica, made⟩ stops).replica) ∧
      ∀ again : Nat → Choice, (∀ n, (again n).Faithful) →
        let rerun := call P R service row.snapshot.id destinationID
          (calls P R service row.snapshot.id destinationID ⟨st.world.toWorld, replica, made⟩ stops) again
        (∀ res, rerun.1 = .ok res → Replica P R st.world.toWorld row.snapshot rerun.2.replica) ∧
          ((∀ n, (again n).Clean) → checkStores service destinationID = .ok () →
            (∀ key ∈ copied P st.world.toWorld row.snapshot, ∃ a, R.backend.locate key = .ok a) →
            ∃ res, rerun.1 = .ok res ∧ Replica P R st.world.toWorld row.snapshot rerun.2.replica) := by
  have hRan := ran_of_disk run hApart
  have hSafe : ∀ other ∈ st.world.rows, PublishedLast P R st.world.toWorld other.snapshot replica →
      Safe P R st.world.toWorld other.snapshot (copied P st.world.toWorld row.snapshot)
        (calls P R service row.snapshot.id destinationID ⟨st.world.toWorld, replica, made⟩ stops) :=
    fun other hOther hLast => calls_safe hRan hRow service destinationID hOther hStops
      ⟨rfl, hConsistent, hLast, hClear⟩
  refine ⟨fun other hOther hLast => (hSafe other hOther hLast).published, ?_⟩
  intro again hFaithful
  have hBefore := hSafe row hRow hPublished
  obtain ⟨man, hStored, -⟩ := stored_of_row hRan hRow
  obtain ⟨hAfter, hAll⟩ := call_ensures hRan hRow service destinationID hRow hBefore hFaithful
  have hReplica := fun res hOk => replica_of_hasAll hStored hAfter.consistent (hAll res hOk)
  refine ⟨hReplica, ?_⟩
  intro hClean hCheck hKeys
  obtain ⟨res, hOk, -⟩ :=
    (replicate_succeeds hStored hKeys hCheck hBefore.unchanged hBefore.clear).succeeds hClean
  exact ⟨res, hOk, hReplica res hOk⟩

/-- What `Replicate` has copied without an error to another store restores from there, with the
catalogue, to the artifact that was backed up. -/
theorem replica_restores {key : Bytes} {art : Artifact} (hP : P.Lawful) (hKey : ∀ t, (jobs t).dedupKey = key)
    (hInj : Set.InjOn (P.hashes.hmac key) (Restore.hashed P jobs history)) (hasSigner : Bool)
    (hArt : Restore.BackedUp history row art)
    (hHeader : row.snapshot.snapshotMode = .onlineBackup → Restore.sqliteHeader <+: art.content)
    (hR : ∃ backend, R = { P with backend := backend }) {replica : World} {made : List Address}
    (hConsistent : Consistent P R st.world.toWorld replica)
    (hPublished : PublishedLast P R st.world.toWorld row.snapshot replica)
    (hClear : Clear R (copied P st.world.toWorld row.snapshot) ⟨st.world.toWorld, replica, made⟩)
    {choices : Nat → Choice} (hFaithful : ∀ n, (choices n).Faithful) {res : Replicated}
    (hOk : (call P R service row.snapshot.id destinationID ⟨st.world.toWorld, replica, made⟩ choices).1 = .ok res) :
    Restore.Restores ⟨R, hasSigner, key⟩
      { (call P R service row.snapshot.id destinationID ⟨st.world.toWorld, replica, made⟩ choices).2.replica with
        rows := st.world.rows } row.snapshot.id art.content := by
  have hRan := ran_of_disk run hApart
  obtain ⟨backend, rfl⟩ := hR
  obtain ⟨man, hStored, -⟩ := stored_of_row hRan hRow
  obtain ⟨hSafe, hAll⟩ := call_ensures hRan hRow service destinationID hRow
    ⟨rfl, hConsistent, hPublished, hClear⟩ hFaithful
  have hReplica := replica_of_hasAll hStored hSafe.consistent (hAll res hOk)
  have hReadable := Restore.readable hP hKey hRan hInj hasSigner hArt hHeader
  exact (hReplica.readable hStored.signature _ hReadable).restores hStored.found

end

namespace Sample
open Backup.Sample
open Restore.Sample (twice twice_facts twice_run twice_apart twice_took digested_injOn chunkKey writer)

def service : Service := ⟨true, ["offsite"]⟩

def broken (n : Nat) : Choice := if n = 5 then { fault := .refuse (.other "connection reset") } else {}

def calm (_ : Nat) : Choice := {}

theorem broken_faithful (n : Nat) : (broken n).Faithful := by
  intro bytes hGarble
  unfold broken at hGarble
  split at hGarble <;> cases hGarble

theorem consistent_empty (P R : Ports) (primary : World) : Consistent P R primary {} := by
  intro key bytes copy _ hCopy
  obtain ⟨a, -, hFind⟩ := holds_iff.mp hCopy
  cases hFind

theorem publishedLast_empty (P R : Ports) (primary : World) (snap : Snapshot) :
    PublishedLast P R primary snap {} := by
  rintro ⟨bytes, hHolds⟩
  obtain ⟨a, -, hFind⟩ := holds_iff.mp hHolds
  cases hFind

theorem check_ok : checkStores service "offsite" = .ok () := eq_ok_of_toOption (by decide +kernel)

theorem calm_clean (n : Nat) : (calm n).Clean := rfl

theorem row_of_twice : ∃ row ∈ twice.2.world.rows, row.snapshot.snapshotMode = .logical := by
  obtain ⟨row, rest, hTwice, hRow, -⟩ := map_eq_cons_iff.mp twice_facts.2.2.2.1
  exact ⟨row, by rw [hTwice]; exact mem_cons_self, (Prod.mk.inj hRow).2⟩

theorem second_call_completes : ∃ row ∈ twice.2.world.rows, ∃ res,
    (call disk disk service row.snapshot.id "offsite"
      (calls disk disk service row.snapshot.id "offsite"
        ⟨twice.2.world.toWorld, {}, []⟩ [broken]) calm).1 = .ok res ∧
    Replica disk disk twice.2.world.toWorld row.snapshot
      (call disk disk service row.snapshot.id "offsite"
        (calls disk disk service row.snapshot.id "offsite"
          ⟨twice.2.world.toWorld, {}, []⟩ [broken]) calm).2.replica := by
  obtain ⟨row, hRow, -⟩ := row_of_twice
  obtain ⟨-, hRerun⟩ := replicate_published_last twice_run twice_apart hRow service "offsite"
    (consistent_empty disk disk _) (publishedLast_empty _ _ _ _)
    (clear_empty twice_run twice_apart hRow rfl _)
    (show ∀ choices ∈ [broken], ∀ n, (choices n).Faithful from
      forall_mem_singleton.mpr broken_faithful)
  exact ⟨row, hRow, (hRerun calm fun n => (calm_clean n).faithful).2 calm_clean check_ok
    (located_of_row twice_run twice_apart hRow)⟩

theorem replica_restored : ∃ row ∈ twice.2.world.rows, Restore.Restores ⟨disk, true, [7]⟩
    { (call disk disk service row.snapshot.id "offsite"
      ⟨twice.2.world.toWorld, {}, []⟩ calm).2.replica with rows := twice.2.world.rows }
      row.snapshot.id artifact.content := by
  obtain ⟨row, hRow, hMode⟩ := row_of_twice
  have hClear := clear_empty (R := disk) twice_run twice_apart hRow rfl twice.2.world.toWorld
  obtain ⟨res, hOk⟩ := call_succeeds twice_run twice_apart hRow check_ok
    (located_of_row twice_run twice_apart hRow) hClear calm_clean
  obtain ⟨art, hArt⟩ := backedUp_on_disk twice_run twice_apart hRow
  obtain rfl : art = artifact := by
    obtain ⟨t, -, -, -, hTook⟩ := hArt
    exact twice_took t art hTook
  have hInj := (digested_injOn twice_took).mono Restore.hashed_subset_digested
  have hHeader : row.snapshot.snapshotMode = .onlineBackup → Restore.sqliteHeader <+: artifact.content := by
    rw [hMode]
    simp
  have hSame : ∃ backend, disk = { disk with backend := backend } := ⟨.filesystem, rfl⟩
  have hConsistent := consistent_empty disk disk twice.2.world.toWorld
  have hPublished := publishedLast_empty disk disk twice.2.world.toWorld row.snapshot
  have hRestores := replica_restores twice_run twice_apart hRow service "offsite" (Restore.lawful_sample .filesystem)
    (fun _ => rfl) hInj true hArt hHeader hSame hConsistent hPublished hClear (fun n => (calm_clean n).faithful) hOk
  exact ⟨row, hRow, hRestores⟩

/-- The replica has a directory at the place of the chunk, left by a put of a key below it. -/
def hidden (primary : World) : Stores := ⟨primary, {}, [chunkKey.toList ++ "/x".toList]⟩

theorem hidden_primary (primary : World) : (hidden primary).primary = primary := rfl

def manifest : SnapshotManifest := writer.manifestOf job.command ⟨artifact, "snap_8_", 0⟩

theorem hidden_facts : manifest.chunks.map (·.objectKey) = [chunkKey] ∧ ∀ row ∈ twice.2.world.rows,
    ((afterRead disk disk row.snapshot manifest "offsite" (hidden twice.2.world.toWorld)
      calm).2.replica.findObject disk.backend row.snapshot.completionObjectKey).toOption.isSome = true ∧
    ((afterRead disk disk row.snapshot manifest "offsite" (hidden twice.2.world.toWorld)
      calm).2.replica.findObject disk.backend chunkKey).toOption = none := by
  decide +kernel

end Sample

open Sample Backup.Sample
open Restore.Sample (twice twice_run twice_apart)

/-- A call without any error publishes the snapshot on a replica that does not get its chunk. -/
theorem published_without_chunk : Execution (onDisk disk)
      (backupsOnDisk disk fun _ => job) twice.1 twice.2 ∧
    ∃ row ∈ twice.2.world.rows,
      Consistent disk disk twice.2.world.toWorld
        (Sample.hidden twice.2.world.toWorld).replica ∧
      PublishedLast disk disk twice.2.world.toWorld row.snapshot
        (Sample.hidden twice.2.world.toWorld).replica ∧
      ¬ PublishedLast disk disk twice.2.world.toWorld row.snapshot
        (call disk disk service row.snapshot.id "offsite"
          (Sample.hidden twice.2.world.toWorld) calm).2.replica := by
  obtain ⟨row, hRow, -⟩ := row_of_twice
  obtain ⟨hChunks, hFacts⟩ := hidden_facts
  obtain ⟨hComplete, hChunk⟩ := hFacts row hRow
  obtain ⟨man, hStored, t, art, hTook, hLike⟩ := stored_on_disk twice_run twice_apart hRow
  obtain rfl := Restore.Sample.twice_took t art hTook
  have hListed : Restore.Sample.chunkKey ∈ manifest.chunks.map (·.objectKey) := by
    rw [hChunks]
    exact mem_singleton_self _
  have hNot := not_publishedLast hStored check_ok (hidden_primary _) (fun _ => rfl) (calm_clean 0) hLike hListed
    hComplete hChunk
  exact ⟨twice_run, row, hRow, consistent_empty _ _ _, publishedLast_empty _ _ _ _, hNot⟩

end DBVault.Replication
