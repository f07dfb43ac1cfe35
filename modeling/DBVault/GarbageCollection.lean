import DBVault.Ports.Paging

/-! `garbagecollection.Service`: a plan lists the chunk objects and the manifests
and takes every chunk that no manifest refers to for garbage; a run deletes what
a plan has found. -/
namespace DBVault
open List Text Text.Path Interaction Program SnapshotManifest

namespace GarbageCollection

structure Plan where
  (id repositoryID : String)
  (createdAt expiresAt : Time)
  reclaimableBytes : Int := 0
  (deleteKeys blocked : List String := [])
  (scannedObjects referencedChunks : Int := 0)

/-- The plan in the making, with the chunk objects and references seen so far. -/
structure Sweep where
  plan : Plan
  /-- The map `chunkKeys`. -/
  chunkKeys : List (String × Int) := []
  /-- The set `referenced`. -/
  referenced : List String := []

namespace Sweep

def addChunk (st : Sweep) (obj : StoredObject) : Sweep :=
  { st with
    chunkKeys := (obj.key, obj.size) :: st.chunkKeys.filter (·.1 ≠ obj.key)
    plan := { st.plan with scannedObjects := st.plan.scannedObjects + 1 } }

def block (st : Sweep) (key : String) : Sweep :=
  { st with plan := { st.plan with blocked := st.plan.blocked ++ [key] } }

def addManifest (st : Sweep) (man : SnapshotManifest) : Sweep :=
  { st with
    referenced := man.chunks.map (·.objectKey) ++ st.referenced
    plan := { st.plan with
      referencedChunks := st.plan.referencedChunks + man.chunks.length } }

def readManifest (obj : StoredObject) (st : Sweep) : Prog Sweep :=
  if "/manifest.json".toList.isSuffixOf obj.key.toList then do
    match ← ask (.get obj.key) with
    | .error _ => pure (st.block obj.key)
    | .ok r =>
      match r.readAll with
      | .error _ => pure (st.block obj.key)
      | .ok payload =>
        match unmarshal payload with
        | .error _ => pure (st.block obj.key)
        | .ok man => pure (st.addManifest man)
  else pure st

def finish (st : Sweep) (order : List String) : Plan :=
  let orphans := order.filter (· ∉ st.referenced)
  { st.plan with
    deleteKeys := orphans
    reclaimableBytes := (orphans.map fun key => (st.chunkKeys.lookup key).getD 0).sum }

end Sweep

def newPlan (repo : String) (now : Time) : Plan where
  id := "gc_" ++ now.compact
  repositoryID := repo
  createdAt := now
  expiresAt := now + Time.hour

def plan (repo : String) (fuel : Nat) : Prog (Option (Plan × Option GoError)) := do
  let now ← ask .now
  match ← forPages "chunks/" (fun obj st => pure (Sweep.addChunk st obj)) fuel ""
      { plan := newPlan repo now } with
  | none => pure none
  | some (st, some err) => pure (some (st.plan, some err))
  | some (st, none) =>
    match ← forPages "snapshots/" Sweep.readManifest fuel "" st with
    | none => pure none
    | some (st, some err) => pure (some (st.plan, some err))
    | some (st, none) => do
        let order ← ask (.mapOrder (st.chunkKeys.map (·.1)))
        pure (some (st.finish order, none))

def deleteAll : List String → Prog (Result Unit)
  | [] => pure (.ok ())
  | key :: rest => do
      match ← ask (.delete key) with
      | .error err => pure (.error err)
      | .ok () => deleteAll rest

def planExpired : GoError := newError .gcPlanStale "garbage-collection plan expired"

def run (p : Plan) : Prog (Result Unit) :=
  if p.expiresAt = .zero then deleteAll p.deleteKeys
  else do
    let now ← ask .now
    if p.expiresAt < now then pure (.error planExpired) else deleteAll p.deleteKeys

/-- The operations of `Plan`. -/
inductive Looks : Op → Prop where
  | now : Looks .now
  | list (req : ListObjectsRequest) : Looks (.list req)
  | get (key : String) : Looks (.get key)
  | mapOrder (keys : List String) : Looks (.mapOrder keys)

def isManifest (obj : StoredObject) : Bool := "/manifest.json".toList.isSuffixOf obj.key.toList

/-- The manifest in an answer that can be read and parsed. -/
def manifestIn : Result Stream → Option SnapshotManifest
  | .error _ => none
  | .ok r =>
    match r.readAll with
    | .error _ => none
    | .ok payload => (unmarshal payload).toOption

def Sweep.take (st : Sweep) (key : String) (answer : Result Stream) : Sweep :=
  match manifestIn answer with
  | some man => st.addManifest man
  | none => st.block key

theorem readManifest_eq (obj : StoredObject) (st : Sweep) : Sweep.readManifest obj st =
    if isManifest obj then ask (.get obj.key) >>= fun answer => pure (st.take obj.key answer) else pure st := by
  unfold Sweep.readManifest isManifest
  split
  · congr 1
    funext answer
    cases answer with
    | error err => rfl
    | ok r =>
      simp only [Sweep.take, manifestIn]
      cases r.readAll with
      | error err => rfl
      | ok payload =>
        dsimp only
        cases unmarshal payload <;> rfl
  · rfl

theorem readManifest_asks (obj : StoredObject) (st : Sweep) : (Sweep.readManifest obj st).Asks Looks := by
  rw [readManifest_eq]
  split
  · exact asks_ask_bind (.get obj.key) fun _ => trivial
  · trivial

theorem plan_asks (repo : String) (fuel : Nat) : (plan repo fuel).Asks Looks := by
  refine asks_ask_bind .now ?_
  intro now
  have hChunks : ∀ obj (st : Sweep), (pure (st.addChunk obj) : Prog Sweep).Asks Looks := fun _ _ => trivial
  refine asks_bind (forPages_asks hChunks (fun _ => .list _) fuel "" _) ?_
  intro result
  match result with
  | none | some (st, some err) => trivial
  | some (st, none) =>
    refine asks_bind (forPages_asks readManifest_asks (fun _ => .list _) fuel "" st) ?_
    intro result
    match result with
    | none | some (st, some err) => trivial
    | some (st, none) => exact asks_ask_bind (.mapOrder _) fun _ => trivial

theorem deleteAll_asks (keys : List String) : (deleteAll keys).Asks fun op => ∃ key ∈ keys, op = .delete key := by
  induction keys with
  | nil => trivial
  | cons key rest ih =>
    refine asks_ask_bind ⟨key, .head _, rfl⟩ ?_
    intro answer
    match answer with
    | .error err => trivial
    | .ok () =>
      refine ih.mono ?_
      rintro op ⟨other, hMem, rfl⟩
      exact ⟨other, .tail _ hMem, rfl⟩

theorem run_asks (p : Plan) : (run p).Asks fun op => op = .now ∨ ∃ key ∈ p.deleteKeys, op = .delete key := by
  have hDelete : (deleteAll p.deleteKeys).Asks fun op => op = .now ∨ ∃ key ∈ p.deleteKeys, op = .delete key :=
    (deleteAll_asks p.deleteKeys).mono fun _ h => .inr h
  unfold run
  split
  · exact hDelete
  · refine asks_ask_bind (.inl rfl) ?_
    intro now
    split
    · trivial
    · exact hDelete

def ListingFailed (calls : List PastCall) : Prop := ∃ req err, ⟨.list req, .error err⟩ ∈ calls

def Yields (call : PastCall) (man : SnapshotManifest) : Prop :=
  ∃ key answer, call = ⟨.get key, answer⟩ ∧ manifestIn answer = some man

def Referenced (calls : List PastCall) (key : String) : Prop :=
  ∃ call ∈ calls, ∃ man, Yields call man ∧ ∃ ch ∈ man.chunks, ch.objectKey = key

/-- The sweep after the chunk objects `seen` and the files `files`. -/
structure Swept (seen files : List StoredObject) (st : Sweep) (past : List PastCall) : Prop where
  chunks : ∀ key, key ∈ st.chunkKeys.map (·.1) ↔ key ∈ seen.map (·.key)
  referenced : ∀ key, key ∈ st.referenced ↔ Referenced past key
  undecided : st.plan.deleteKeys = []
  listed : ¬ ListingFailed past
  got : ∀ key, (∃ answer, ⟨.get key, answer⟩ ∈ past) ↔ key ∈ (files.filter isManifest).map (·.key)

section
variable {seen files : List StoredObject} {st : Sweep} {past : List PastCall}

theorem referenced_cons {call : PastCall} {key : String} :
    Referenced (call :: past) key ↔
      (∃ man, Yields call man ∧ ∃ ch ∈ man.chunks, ch.objectKey = key) ∨ Referenced past key := by
  simp [Referenced]

theorem not_yields {call : PastCall} {man : SnapshotManifest} (h : ∀ key, call.op ≠ .get key) :
    ¬ Yields call man := by
  rintro ⟨key, answer, rfl, -⟩
  exact h key rfl

theorem Swept.call {call : PastCall} (h : Swept seen files st past) (hGet : ∀ key, call.op ≠ .get key)
    (hListed : ∀ req err, call ≠ ⟨.list req, .error err⟩) : Swept seen files st (call :: past) where
  chunks := h.chunks
  referenced := by
    intro key
    rw [referenced_cons, h.referenced key]
    simp [not_yields hGet]
  undecided := h.undecided
  listed := by
    rintro ⟨req, err, hMem⟩
    rcases mem_cons.mp hMem with hCall | hMem
    · exact hListed req err hCall.symm
    · exact h.listed ⟨req, err, hMem⟩
  got := by
    intro key
    rw [← h.got]
    refine exists_congr fun answer => ⟨fun hMem => ?_, mem_cons_of_mem _⟩
    rcases mem_cons.mp hMem with rfl | hMem
    · exact absurd rfl (hGet key)
    · exact hMem

theorem mem_addChunk (st : Sweep) (obj : StoredObject) :
    key ∈ (st.addChunk obj).chunkKeys.map (·.1) ↔ key ∈ st.chunkKeys.map (·.1) ∨ key = obj.key := by
  simp only [Sweep.addChunk, map_cons, mem_cons, mem_map, mem_filter,
    decide_not, Bool.not_eq_true', decide_eq_false_iff_not]
  by_cases hSame : key = obj.key
  · simp [hSame]
  · simp only [hSame, false_or, or_false]
    constructor
    · rintro ⟨entry, ⟨hMem, -⟩, hKey⟩
      exact ⟨entry, hMem, hKey⟩
    · rintro ⟨entry, hMem, rfl⟩
      exact ⟨entry, ⟨hMem, hSame⟩, rfl⟩

theorem Swept.addChunk (h : Swept seen files st past) (obj : StoredObject) :
    Swept (seen ++ [obj]) files (st.addChunk obj) past where
  chunks := by
    intro key
    rw [mem_addChunk, h.chunks]
    simp
  referenced := h.referenced
  undecided := h.undecided
  listed := h.listed
  got := h.got

theorem Swept.take {obj : StoredObject} (h : Swept seen files st past) (hManifest : isManifest obj = true)
    (answer : Result Stream) :
    Swept seen (files ++ [obj]) (st.take obj.key answer) (⟨.get obj.key, answer⟩ :: past) where
  chunks := by
    unfold Sweep.take
    split <;> exact h.chunks
  referenced := by
    intro key
    have hOnly : ∀ man, Yields ⟨.get obj.key, answer⟩ man ↔ manifestIn answer = some man := by
      intro man
      constructor
      · rintro ⟨_, _, ⟨⟩, hMan⟩
        exact hMan
      · exact fun hMan => ⟨_, _, rfl, hMan⟩
    rw [referenced_cons, ← h.referenced key]
    cases hMan : manifestIn answer <;> simp [Sweep.take, hOnly, hMan, Sweep.addManifest, Sweep.block]
  undecided := by
    unfold Sweep.take
    split <;> exact h.undecided
  listed := by
    rintro ⟨req, err, hMem⟩
    rcases mem_cons.mp hMem with hCall | hMem
    · cases hCall
    · exact h.listed ⟨req, err, hMem⟩
  got := by
    intro key
    rw [filter_append, map_append, mem_append, ← h.got]
    simp [hManifest, or_comm, exists_or, eq_comm]

variable {P : Ports} {w : World} {allowed : World → Op → Choice → Prop}

theorem Swept.page {req : ListObjectsRequest} {res : ListObjectsResult} (h : Swept seen files st past) :
    Swept seen files st (⟨.list req, .ok res⟩ :: past) :=
  h.call (by simp) (by rintro _ _ ⟨⟩)

theorem readManifest_leads (obj : StoredObject) (h : Swept seen files st past) :
    (Sweep.readManifest obj st).Leads ⟨perform P, allowed⟩ w past
      fun st' w' later => w' = w ∧ Swept seen (files ++ [obj]) st' later := by
  rw [readManifest_eq]
  split
  · rename_i hManifest
    exact leads_read (fun _ => rfl) fun c _ => ⟨rfl, h.take hManifest _⟩
  · rename_i hOther
    exact ⟨rfl, h.chunks, h.referenced, h.undecided, h.listed, by simpa [hOther] using h.got⟩

/-- How a plan comes out on a store that nobody changes meanwhile. -/
inductive Planned (P : Ports) (w : World) (fuel : Nat) :
    Option (Plan × Option GoError) → List PastCall → Prop where
  | complete {objs files : List StoredObject} {p : Plan} {calls : List PastCall}
      (hShown : P.backend.shown w.objects "chunks/" = .ok objs)
      (hFiles : P.backend.shown w.objects "snapshots/" = .ok files) (hListed : ¬ ListingFailed calls)
      (hGot : ∀ key, (∃ answer, ⟨.get key, answer⟩ ∈ calls) ↔ key ∈ (files.filter isManifest).map (·.key))
      (hDelete : ∀ key, key ∈ p.deleteKeys ↔ key ∈ objs.map (·.key) ∧ ¬ Referenced calls key) :
      Planned P w fuel (some (p, none)) calls
  | refused {p : Plan} {err : GoError} {calls : List PastCall} (hListed : ListingFailed calls)
      (hDelete : p.deleteKeys = []) : Planned P w fuel (some (p, some err)) calls
  | exhausted {calls : List PastCall} (hFuel : fuel ≤ w.objects.entries.length) :
      Planned P w fuel none calls

theorem plan_leads (P : Ports) (w : World) (allowed : World → Op → Choice → Prop) (repo : String)
    (fuel : Nat) :
    (plan repo fuel).Leads ⟨perform P, allowed⟩ w []
      fun result w' calls => w' = w ∧ Planned P w fuel result calls := by
  refine leads_read (fun _ => rfl) ?_
  intro c _
  have hStart : Swept [] [] { plan := newPlan repo (perform P w .now c).1 } [⟨.now, (perform P w .now c).1⟩] := by
    have hEmpty : Swept [] [] { plan := newPlan repo (perform P w .now c).1 } [] :=
      ⟨by simp, by simp [Referenced], rfl, by simp [ListingFailed], by simp⟩
    exact hEmpty.call (by simp) (by rintro _ _ ⟨⟩)
  have hChunks : ∀ seen obj (st : Sweep) past, Swept seen [] st past →
      (pure (st.addChunk obj) : Prog Sweep).Leads ⟨perform P, allowed⟩ w past
        fun st' w' later => w' = w ∧ Swept (seen ++ [obj]) [] st' later :=
    fun _ obj _ _ h => ⟨rfl, h.addChunk obj⟩
  refine leads_bind (forPages_leads hChunks (fun _ _ _ _ _ h => h.page) "chunks/" fuel [] hStart) ?_
  rintro result w' later ⟨hWorld, hPaged⟩
  rw [hWorld]
  cases hPaged with
  | exhausted hFuel => exact ⟨rfl, .exhausted (fuel_le_objects hFuel)⟩
  | refused hInv => exact ⟨rfl, .refused ⟨_, _, .head _⟩ hInv.undecided⟩
  | @all objs st _ hShown hInv =>
    rw [nil_append] at hInv
    have hManifests : ∀ files obj st past, Swept objs files st past →
        (Sweep.readManifest obj st).Leads ⟨perform P, allowed⟩ w past
          fun st' w' later => w' = w ∧ Swept objs (files ++ [obj]) st' later :=
      fun _ obj _ _ h => readManifest_leads obj h
    refine leads_bind (forPages_leads hManifests (fun _ _ _ _ _ h => h.page) "snapshots/" fuel [] hInv) ?_
    rintro result w' later ⟨hWorld, hPaged⟩
    rw [hWorld]
    cases hPaged with
    | exhausted hFuel => exact ⟨rfl, .exhausted (fuel_le_objects hFuel)⟩
    | refused hInv => exact ⟨rfl, .refused ⟨_, _, .head _⟩ hInv.undecided⟩
    | @all files st later hRest hInv =>
      rw [nil_append] at hInv
      refine leads_read (fun _ => rfl) ?_
      intro c _
      have hPerm := legal_perform P w (.mapOrder (st.chunkKeys.map (·.1))) c
      generalize (perform P w (.mapOrder (st.chunkKeys.map (·.1))) c).1 = order at hPerm ⊢
      have hLast : Swept objs files st (⟨.mapOrder (st.chunkKeys.map (·.1)), order⟩ :: later) :=
        hInv.call (by simp) (by rintro _ _ ⟨⟩)
      refine ⟨rfl, .complete hShown hRest hLast.listed hLast.got ?_⟩
      intro key
      rw [← hInv.chunks]
      simp [Sweep.finish, List.Perm.mem_iff hPerm, hLast.referenced]

end

def manifestAt (P : Ports) (w : World) (key : String) : Option SnapshotManifest :=
  match w.findObject P.backend key with
  | .ok payload => (unmarshal payload).toOption
  | .error _ => none

/-- What `readManifest` comes to. -/
def Sweep.visit (P : Ports) (w : World) (st : Sweep) (obj : StoredObject) : Sweep :=
  if isManifest obj then
    match manifestAt P w obj.key with
    | some man => st.addManifest man
    | none => st.block obj.key
  else st

section
variable {P : Ports} {w : World}

theorem readManifest_ensures (obj : StoredObject) (st : Sweep) :
    (Sweep.readManifest obj st).Ensures (environment P) Choice.Clean w
      fun st' w' => w' = w ∧ st' = st.visit P w obj := by
  rw [readManifest_eq]
  unfold Sweep.visit manifestAt
  split
  · cases hFind : w.findObject P.backend obj.key with
    | error err => exact ensures_ask_bind (fun c _ => perform_get_missing hFind c) ⟨rfl, rfl⟩
    | ok payload => exact ensures_ask_bind (fun c hc => perform_get_clean hc hFind) ⟨rfl, rfl⟩
  · exact ⟨rfl, rfl⟩

theorem foldl_addChunk (objs : List StoredObject) (st : Sweep) :
    (objs.foldl Sweep.addChunk st).referenced = st.referenced ∧
      (objs.foldl Sweep.addChunk st).plan.deleteKeys = st.plan.deleteKeys ∧
      (objs.foldl Sweep.addChunk st).plan.referencedChunks = st.plan.referencedChunks := by
  induction objs generalizing st with
  | nil => exact ⟨rfl, rfl, rfl⟩
  | cons obj rest ih => exact ih _

def references (P : Ports) (w : World) (obj : StoredObject) : List String :=
  match manifestAt P w obj.key with
  | some man => man.chunks.map (·.objectKey)
  | none => []

/-- A sweep that has gone on from `st` and met the references `keys`. -/
structure Grown (st : Sweep) (keys : List String) (st' : Sweep) : Prop where
  chunkKeys : st'.chunkKeys = st.chunkKeys
  deleteKeys : st'.plan.deleteKeys = st.plan.deleteKeys
  counted : st'.plan.referencedChunks = st.plan.referencedChunks + keys.length
  referenced : ∀ key, key ∈ st'.referenced ↔ key ∈ st.referenced ∨ key ∈ keys

theorem visit_grown (st : Sweep) (h : isManifest obj = true) :
    Grown st (references P w obj) (st.visit P w obj) := by
  unfold Sweep.visit references
  rw [if_pos h]
  cases manifestAt P w obj.key with
  | none => exact ⟨rfl, rfl, (Int.add_zero _).symm, by simp [Sweep.block]⟩
  | some man => exact ⟨rfl, rfl, by simp [Sweep.addManifest], by simp [Sweep.addManifest, or_comm]⟩

theorem foldl_visit_grown (objs : List StoredObject) (st : Sweep) :
    Grown st ((objs.filter isManifest).flatMap (references P w)) (objs.foldl (Sweep.visit P w) st) := by
  induction objs generalizing st with
  | nil => exact ⟨rfl, rfl, (Int.add_zero _).symm, by simp⟩
  | cons obj rest ih =>
    rw [foldl_cons]
    by_cases h : isManifest obj = true
    · have hFirst := visit_grown (P := P) (w := w) st h
      have hRest := ih (st.visit P w obj)
      rw [filter_cons_of_pos h, flatMap_cons]
      refine ⟨hRest.chunkKeys.trans hFirst.chunkKeys, hRest.deleteKeys.trans hFirst.deleteKeys, ?_, ?_⟩
      · rw [hRest.counted, hFirst.counted, length_append]
        omega
      · intro key
        rw [hRest.referenced, hFirst.referenced, mem_append, or_assoc]
    · rw [filter_cons_of_neg h, Sweep.visit, if_neg h]
      exact ih st

/-- What a plan says, if it sees `chunks` under the one prefix and `snapshots`
under the other. -/
structure Counted (P : Ports) (w : World) (chunks snapshots : List StoredObject) (p : Plan) : Prop where
  referencedChunks : p.referencedChunks = ((snapshots.filter isManifest).flatMap (references P w)).length
  deleteKeys : ∀ key, key ∈ p.deleteKeys ↔ key ∈ chunks.map (·.key) ∧
    key ∉ (snapshots.filter isManifest).flatMap (references P w)

theorem mem_foldl_addChunk (objs : List StoredObject) (st : Sweep) {key : String} :
    key ∈ (objs.foldl Sweep.addChunk st).chunkKeys.map (·.1) ↔
      key ∈ st.chunkKeys.map (·.1) ∨ key ∈ objs.map (·.key) := by
  induction objs generalizing st with
  | nil => simp
  | cons obj rest ih => rw [foldl_cons, ih, mem_addChunk, map_cons, mem_cons, or_assoc]

theorem counted_nothing {p : Plan} (hEmpty : w.objects.entries = []) (hDelete : p.deleteKeys = [])
    (hCount : p.referencedChunks = 0) :
    Counted P w ((P.backend.covered w.objects "chunks/").map P.backend.shownAs)
      ((P.backend.covered w.objects "snapshots/").map P.backend.shownAs) p := by
  have hNone : ∀ pathPrefix, P.backend.covered w.objects pathPrefix = [] := by
    intro pathPrefix
    simpa [Backend.covered, hEmpty] using (Backend.sorted_perm P.backend []).eq_nil
  rw [hNone, hNone]
  exact ⟨by simp [hCount], by simp [hDelete]⟩

theorem plan_ensures {fuel : Nat} (hFuel : w.objects.entries.length < fuel)
    (hRefused : ∀ pathPrefix ∈ ["chunks/", "snapshots/"], ∀ err,
      P.backend.shown w.objects pathPrefix = .error err → w.objects.entries = [])
    (repo : String) :
    (plan repo fuel).Ensures (environment P) Choice.Clean w fun result _ =>
      ∃ p err, result = some (p, err) ∧
        Counted P w ((P.backend.covered w.objects "chunks/").map P.backend.shownAs)
          ((P.backend.covered w.objects "snapshots/").map P.backend.shownAs) p := by
  refine ensures_read (fun _ => rfl) ?_
  intro c _
  rcases P.backend.shown_eq w.objects "chunks/" with hChunks | ⟨err, hError, -⟩
  · have hVisit : ∀ obj (st : Sweep), (pure (st.addChunk obj) : Prog Sweep).Ensures (environment P)
        Choice.Clean w fun st' w' => w' = w ∧ st' = st.addChunk obj := fun _ _ => ⟨rfl, rfl⟩
    refine ensures_bind (forPages_ensures hVisit hChunks ((Backend.rest_length hChunks).trans_lt hFuel) _) ?_
    rintro _ w' ⟨hWorld, rfl⟩
    rw [hWorld]
    obtain ⟨hReferenced, hDelete, hCount⟩ := foldl_addChunk
      ((P.backend.covered w.objects "chunks/").map P.backend.shownAs)
      { plan := newPlan repo (perform P w .now c).1 }
    have hKeys := @mem_foldl_addChunk ((P.backend.covered w.objects "chunks/").map P.backend.shownAs)
      { plan := newPlan repo (perform P w .now c).1 }
    generalize List.foldl Sweep.addChunk _ _ = st at hReferenced hDelete hCount hKeys ⊢
    rcases P.backend.shown_eq w.objects "snapshots/" with hSnapshots | ⟨err, hError, -⟩
    · refine ensures_bind (forPages_ensures readManifest_ensures hSnapshots
        ((Backend.rest_length hSnapshots).trans_lt hFuel) _) ?_
      rintro _ w' ⟨hWorld, rfl⟩
      rw [hWorld]
      have hGrown := foldl_visit_grown (P := P) (w := w)
        ((P.backend.covered w.objects "snapshots/").map P.backend.shownAs) st
      generalize List.foldl (Sweep.visit P w) _ _ = last at hGrown ⊢
      refine ensures_read (fun _ => rfl) ?_
      intro c' _
      have hPerm := legal_perform P w (.mapOrder (last.chunkKeys.map (·.1))) c'
      generalize (perform P w (.mapOrder (last.chunkKeys.map (·.1))) c').1 = order at hPerm ⊢
      refine ⟨_, none, rfl, ?_, ?_⟩
      · change last.plan.referencedChunks = _
        rw [hGrown.counted, hCount]
        exact Int.zero_add _
      · intro key
        have hMem : key ∈ order ↔ key ∈ st.chunkKeys.map (·.1) := by rw [List.Perm.mem_iff hPerm, hGrown.chunkKeys]
        simp [Sweep.finish, hMem, hKeys, hGrown.referenced, hReferenced]
    · refine ensures_bind (forPages_refused hError (Nat.zero_lt_of_lt hFuel) _) ?_
      rintro _ w' ⟨-, rfl⟩
      exact ⟨_, some err, rfl, counted_nothing (hRefused _ (by simp) _ hError) hDelete hCount⟩
  · refine ensures_bind (forPages_refused hError (Nat.zero_lt_of_lt hFuel) _) ?_
    rintro _ w' ⟨-, rfl⟩
    exact ⟨_, some err, rfl, counted_nothing (hRefused _ (by simp) _ hError) rfl rfl⟩

end

end GarbageCollection

end DBVault
