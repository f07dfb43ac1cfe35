import DBVault.GarbageCollection
import DBVault.Backup.Publication

/-! Whether a plan spares what is live. It does if the manifests under `snapshots/` list the
live objects by the names under which `chunks/` shows them, and no `Get` of them fails that matters. -/
namespace DBVault.GarbageCollection
open List Text Text.Path Interaction Backup

/-- A manifest in the store, where `Create` puts manifests. -/
def Stored (w : World) (man : SnapshotManifest) : Prop :=
  ∃ a snapshotID payload, EndsIn a (snapshotTail snapshotID FileKind.manifest.name) ∧
    w.objects.find a = some payload ∧ SnapshotManifest.unmarshal payload = .ok man

/-- The place of a chunk that a manifest in the store lists, or of a manifest,
signature or completion record. -/
def LiveAt (P : Ports) (w : World) (a : Address) : Prop :=
  (∃ man, Stored w man ∧ ∃ ch ∈ man.chunks, P.backend.locate ch.objectKey = .ok a) ∨
    ∃ snapshotID kind, EndsIn a (snapshotTail snapshotID (FileKind.name kind))

def Live (P : Ports) (w : World) (key : String) : Prop := ∃ a, P.backend.locate key = .ok a ∧ LiveAt P w a

/-- The calls of `Plan` run on its own. -/
def planCalls (P : Ports) (w : World) (repo : String) (fuel : Nat) (choices : Nat → Choice) : List PastCall :=
  ((plan repo fuel).events (environment P) 0 (w, choices)).map (·.call)

/-- The `Get` of the key gave a manifest that could be read and parsed. -/
def Understood (calls : List PastCall) (key : String) : Prop :=
  ∃ answer man, ⟨.get key, answer⟩ ∈ calls ∧ manifestIn answer = some man

/-- The file is a manifest in the store that lists the key. -/
def Lists (P : Ports) (w : World) (file : StoredObject) (key : String) : Prop :=
  isManifest file = true ∧ key ∈ references P w file

/-- What `Plan` is shown, and which of its `Get`s fail, is harmless. -/
structure Spared (P : Ports) (w : World) (calls : List PastCall) (chunks snapshots : List StoredObject) : Prop where
  /-- What is live under `chunks/` is listed, by the name shown, in a manifest under `snapshots/`. -/
  layout : ∀ obj ∈ chunks, Live P w obj.key → ∃ file ∈ snapshots, Lists P w file obj.key
  /-- A manifest that could not be got, read or parsed lists nothing that no other one lists. -/
  gets : ∀ file ∈ snapshots, ¬ Understood calls file.key → ∀ obj ∈ chunks, Live P w obj.key →
    Lists P w file obj.key → ∃ other ∈ snapshots, Understood calls other.key ∧ Lists P w other obj.key

section
variable {P : Ports} {w : World} {calls : List PastCall} {chunks snapshots : List StoredObject}

theorem spared_iff : Spared P w calls chunks snapshots ↔ ∀ obj ∈ chunks, Live P w obj.key →
    ∃ file ∈ snapshots, Understood calls file.key ∧ Lists P w file obj.key := by
  constructor
  · intro h obj hObj hLive
    obtain ⟨file, hFile, hLists⟩ := h.layout obj hObj hLive
    by_cases hUnderstood : Understood calls file.key
    · exact ⟨file, hFile, hUnderstood, hLists⟩
    · exact h.gets file hFile hUnderstood obj hObj hLive hLists
  · intro h
    refine ⟨fun obj hObj hLive => ?_, fun _ _ _ obj hObj hLive _ => h obj hObj hLive⟩
    obtain ⟨file, hFile, -, hLists⟩ := h obj hObj hLive
    exact ⟨file, hFile, hLists⟩

theorem manifestIn_perform {c : Choice} (hc : c.Faithful)
    (h : manifestIn (perform P w (.get key) c).1 = some man) : manifestAt P w key = some man := by
  cases hAnswer : (perform P w (.get key) c).1 with
  | error err =>
    rw [hAnswer] at h
    cases h
  | ok r =>
    rw [hAnswer] at h
    cases hEnding : r.ending with
    | some err => simp [manifestIn, Stream.readAll, hEnding] at h
    | none =>
      have hHolds := perform_get_faithful hc key hAnswer hEnding
      simp only [manifestIn, Stream.readAll, hEnding] at h
      rw [manifestAt, show w.findObject P.backend key = .ok r.bytes from hHolds]
      exact h

/-- The `Get`s of the plan were answered by this store. -/
def Answered (P : Ports) (w : World) (good : Choice → Prop) (calls : List PastCall) : Prop :=
  ∀ key answer, ⟨.get key, answer⟩ ∈ calls → ∃ c, good c ∧ answer = (perform P w (.get key) c).1

theorem referenced_iff (hAnswered : Answered P w Choice.Faithful calls)
    (hGot : ∀ key, (∃ answer, ⟨.get key, answer⟩ ∈ calls) ↔ key ∈ (snapshots.filter isManifest).map (·.key))
    {key : String} : Referenced calls key ↔ ∃ file ∈ snapshots, Understood calls file.key ∧ Lists P w file key := by
  have hStored : ∀ name answer man, ⟨.get name, answer⟩ ∈ calls → manifestIn answer = some man →
      manifestAt P w name = some man := by
    intro name answer man hCall hMan
    obtain ⟨c, hc, rfl⟩ := hAnswered name answer hCall
    exact manifestIn_perform hc hMan
  constructor
  · rintro ⟨_, hCall, man, ⟨name, answer, rfl, hMan⟩, ch, hIn, rfl⟩
    obtain ⟨file, hFile, rfl⟩ := mem_map.mp ((hGot name).mp ⟨answer, hCall⟩)
    obtain ⟨hFile, hName⟩ := mem_filter.mp hFile
    refine ⟨file, hFile, ⟨answer, man, hCall, hMan⟩, hName, ?_⟩
    rw [references, hStored _ _ _ hCall hMan]
    exact mem_map_of_mem hIn
  · rintro ⟨file, -, ⟨answer, man, hCall, hMan⟩, -, hKey⟩
    rw [references, hStored _ _ _ hCall hMan] at hKey
    obtain ⟨ch, hIn, rfl⟩ := mem_map.mp hKey
    exact ⟨_, hCall, man, ⟨_, _, rfl, hMan⟩, ch, hIn, rfl⟩

end

section
variable (P : Ports) (w : World) (repo : String) (fuel : Nat) {choices : Nat → Choice} {good : Choice → Prop}
  (hGood : ∀ n, good (choices n))
include hGood

theorem planned : Planned P w fuel ((plan repo fuel).run (environment P) (w, choices)).1
      (planCalls P w repo fuel choices) ∧ Answered P w good (planCalls P w repo fuel choices) := by
  have hAdmissible : (plan repo fuel).Admissible ⟨perform P, fun _ _ c => good c⟩ (w, choices) :=
    (plan_asks repo fuel).admissible fun _ _ n _ => hGood n
  have hRun := (plan_leads P w (fun _ _ c => good c) repo fuel).run 0 hAdmissible
  have hStays : (plan repo fuel).Leads ⟨perform P, fun _ _ c => good c⟩ w []
      fun _ w' past => w' = w ∧ Answered P w good past := by
    refine (plan_asks repo fuel).leads ?_ ⟨rfl, fun _ _ hCall => absurd hCall not_mem_nil⟩
    rintro _ past op c hLooks hc ⟨rfl, hPast⟩
    refine ⟨by cases hLooks <;> rfl, fun key answer hCall => ?_⟩
    rcases mem_cons.mp hCall with hNew | hOld
    · cases hNew
      exact ⟨c, hc, rfl⟩
    · exact hPast key answer hOld
  have hGets := hStays.run 0 hAdmissible
  obtain ⟨hSame, hEvents⟩ := Program.run_eq (f := perform P) (fun _ _ c => good c) admissible (plan repo fuel)
    (w, choices) 0
  rw [append_nil, hSame, hEvents] at hRun hGets
  exact ⟨hRun.2, hGets.2⟩

end

/-- With fuel for all the pages, `Plan` returns, `Run` deletes nothing but what it plans to delete, and
this is not live exactly if a listing was refused, or what is shown, and which `Get`s fail, is harmless. -/
theorem plan_spares_live_iff (P : Ports) (w : World) (repo : String) (fuel : Nat) (choices : Nat → Choice)
    (hFuel : w.objects.entries.length < fuel) (hFaithful : ∀ n, (choices n).Faithful) :
    ∃ p err, ((plan repo fuel).run (environment P) (w, choices)).1 = some (p, err) ∧
      ((run p).Asks fun op => op = .now ∨ ∃ key ∈ p.deleteKeys, op = .delete key) ∧
      ((∀ key ∈ p.deleteKeys, ¬ Live P w key) ↔
        ListingFailed (planCalls P w repo fuel choices) ∨
          ∀ chunks snapshots, P.backend.shown w.objects "chunks/" = .ok chunks →
            P.backend.shown w.objects "snapshots/" = .ok snapshots →
            Spared P w (planCalls P w repo fuel choices) chunks snapshots) := by
  obtain ⟨hPlanned, hAnswered⟩ := planned P w repo fuel hFaithful
  generalize ((plan repo fuel).run (environment P) (w, choices)).1 = result at hPlanned
  generalize planCalls P w repo fuel choices = calls at hPlanned hAnswered
  cases hPlanned with
  | exhausted hLow => exact absurd hFuel (Nat.not_lt.mpr hLow)
  | @refused p err _ hListed hDelete =>
    refine ⟨p, some err, rfl, run_asks p, ?_⟩
    simp [hDelete, hListed]
  | @complete objs files p _ hShown hFiles hListed hGot hDelete =>
    refine ⟨p, none, rfl, run_asks p, ?_⟩
    simp only [spared_iff, hListed, false_or, hDelete]
    constructor
    · intro hSpared objs' files' hShown' hFiles' obj hObj hLive
      obtain rfl : objs = objs' := Except.ok.inj (hShown.symm.trans hShown')
      obtain rfl : files = files' := Except.ok.inj (hFiles.symm.trans hFiles')
      rw [← referenced_iff hAnswered hGot]
      by_contra hNot
      exact hSpared obj.key ⟨mem_map_of_mem hObj, hNot⟩ hLive
    · rintro hRead key ⟨hMem, hNot⟩ hLive
      obtain ⟨obj, hObj, rfl⟩ := mem_map.mp hMem
      exact hNot ((referenced_iff hAnswered hGot).mpr (hRead objs files hShown hFiles obj hObj hLive))

theorem references_of_holds {P : Ports} {w : World} {file : StoredObject} {man : SnapshotManifest} {payload : Bytes}
    (hHolds : w.Holds P file.key payload) (hParse : SnapshotManifest.unmarshal payload = .ok man) :
    references P w file = man.chunks.map (·.objectKey) := by
  rw [World.Holds] at hHolds
  simp only [references, manifestAt, hHolds, hParse, Except.toOption]

/-- Without faults only the layout matters. -/
theorem spared_of_clean (P : Ports) (w : World) (repo : String) (fuel : Nat) {choices : Nat → Choice}
    (hFuel : w.objects.entries.length < fuel) (hClean : ∀ n, (choices n).Clean)
    (hLayout : ∀ chunks snapshots, P.backend.shown w.objects "chunks/" = .ok chunks →
      P.backend.shown w.objects "snapshots/" = .ok snapshots →
      ∀ obj ∈ chunks, Live P w obj.key → ∃ file ∈ snapshots, Lists P w file obj.key) :
    ListingFailed (planCalls P w repo fuel choices) ∨
      ∀ chunks snapshots, P.backend.shown w.objects "chunks/" = .ok chunks →
        P.backend.shown w.objects "snapshots/" = .ok snapshots →
        Spared P w (planCalls P w repo fuel choices) chunks snapshots := by
  obtain ⟨hPlanned, hAnswered⟩ := planned P w repo fuel hClean
  generalize ((plan repo fuel).run (environment P) (w, choices)).1 = result at hPlanned
  generalize planCalls P w repo fuel choices = calls at hPlanned hAnswered ⊢
  cases hPlanned with
  | exhausted hLow => exact absurd hFuel (Nat.not_lt.mpr hLow)
  | refused hListed => exact .inl hListed
  | @complete objs files p _ hShown hFiles hListed hGot hDelete =>
    refine .inr fun chunks snapshots hChunks hSnapshots => spared_iff.mpr fun obj hObj hLive => ?_
    obtain rfl : files = snapshots := Except.ok.inj (hFiles.symm.trans hSnapshots)
    obtain ⟨file, hFile, hName, hKey⟩ := hLayout chunks files hChunks hSnapshots obj hObj hLive
    refine ⟨file, hFile, ?_, hName, hKey⟩
    obtain ⟨answer, hCall⟩ := (hGot file.key).mpr (mem_map_of_mem (mem_filter.mpr ⟨hFile, hName⟩))
    obtain ⟨c, hc, rfl⟩ := hAnswered file.key answer hCall
    -- The stored manifest lists something, so it can be read and parsed.
    unfold references manifestAt at hKey
    cases hFind : w.findObject P.backend file.key with
    | error err => simp [hFind] at hKey
    | ok payload =>
      rw [perform_get_clean hc hFind] at hCall
      cases hMan : (SnapshotManifest.unmarshal payload).toOption with
      | none => simp [hFind, hMan] at hKey
      | some man => exact ⟨_, man, hCall, hMan⟩

theorem counted_of_clean {P : Ports} {w : World} {repo : String} {fuel : Nat} {choices : Nat → Choice} {p : Plan}
    {err : Option GoError} (hFuel : w.objects.entries.length < fuel)
    (hShown : ∀ pathPrefix, P.backend.shown w.objects pathPrefix =
      .ok ((P.backend.covered w.objects pathPrefix).map P.backend.shownAs)) (hClean : ∀ n, (choices n).Clean)
    (hRun : ((plan repo fuel).run (environment P) (w, choices)).1 = some (p, err)) :
    Counted P w ((P.backend.covered w.objects "chunks/").map P.backend.shownAs)
      ((P.backend.covered w.objects "snapshots/").map P.backend.shownAs) p := by
  obtain ⟨p', err', hSame, hCounted⟩ := (plan_ensures hFuel (P := P) (fun pathPrefix _ err hError => by
    rw [hShown] at hError
    cases hError) repo).run hClean
  obtain ⟨rfl, rfl⟩ := Prod.mk.inj (Option.some.inj (hRun.symm.trans hSame))
  exact hCounted

section
variable {P : Ports} {jobs : Nat → Job} {history : History}
  {st : System Answer World (CreateResult × Option GoError)} {t : Nat} {d : Draft}

theorem stored_manifest (run : Ran P jobs history st)
    (h : ((jobs t).service P).ManifestPut (jobs t).command (ownCalls t history) d) :
    Stored st.world (((jobs t).service P).manifestOf (jobs t).command d) := by
  obtain ⟨a, hLocate, hFind⟩ := World.holds_iff.mp (holds_manifest run h)
  exact ⟨a, d.snapID, _, snapshotKey_endsIn .manifest (h.plain (follows run t)) hLocate, hFind,
    SnapshotManifest.unmarshal_marshal (Service.manifest_fits _ _ d)⟩

theorem live_chunk (run : Ran P jobs history st)
    (h : ((jobs t).service P).ManifestPut (jobs t).command (ownCalls t history) d)
    {x : Service.Identified} (hx : x ∈ ((jobs t).service P).identified d.art) :
    Live P st.world (((jobs t).service P).chunkKey (jobs t).command x.2) := by
  obtain ⟨a, hLocate, -⟩ := (record run).used_seen rfl (h.used x hx)
  exact ⟨a, hLocate, .inl ⟨_, stored_manifest run h, _, mem_map_of_mem hx, hLocate⟩⟩

/-- A call that has made a snapshot leaves its manifest, and chunks that are live. -/
theorem manifest_of_done (run : Ran P jobs history st) {result : CreateResult}
    (hDone : st.threads t = .done (result, none)) (hNew : result.duplicate = false) :
    ∃ d, Service.Took (ownCalls t history) d.art ∧
      (∃ a, EndsIn a (snapshotTail d.snapID FileKind.manifest.name) ∧
        st.world.objects.find a = some (((jobs t).service P).manifestOf (jobs t).command d).marshal) ∧
      ∀ x ∈ ((jobs t).service P).identified d.art,
        Live P st.world (((jobs t).service P).chunkKey (jobs t).command x.2) := by
  have hOutcome := Backup.outcome run hDone
  cases hOutcome with
  | duplicate => cases hNew
  | @committed d up run' snap committed links records h =>
    obtain ⟨a, hLocate, hFind⟩ := World.holds_iff.mp (holds_manifest run h.toManifestPut)
    have hEnds := snapshotKey_endsIn .manifest (h.toManifestPut.plain (follows run t)) hLocate
    exact ⟨d, h.took, ⟨a, hEnds, hFind⟩, fun x hx => live_chunk run h.toManifestPut hx⟩

end

namespace Sample
open Backup.Sample (disk artifact choices)

def job (sourceID : String) : Job := ⟨[7], ⟨"repo", "key"⟩, 4, ⟨⟨sourceID, "postgres"⟩, .manual⟩⟩

def start (sourceID : String) : System Answer World (CreateResult × Option GoError) :=
  backups disk fun _ => job sourceID

def outcome (sourceID : String) : (CreateResult × Option GoError) × World × (Nat → Choice) :=
  ((start sourceID).threads 0).run (environment disk) ((start sourceID).world, choices)

def history (sourceID : String) : History :=
  ((start sourceID).threads 0).events (environment disk) 0 ((start sourceID).world, choices)

def final (sourceID : String) : System Answer World (CreateResult × Option GoError) :=
  ⟨(outcome sourceID).2.1, Function.update (start sourceID).threads 0 (.done (outcome sourceID).1)⟩

section
variable {sourceID : String}

theorem execution (hAdmissible : ((start sourceID).threads 0).Admissible
      (environment disk) ((start sourceID).world, choices)) :
    Execution (environment disk) (start sourceID) (history sourceID) (final sourceID) := by
  have hSolo := Execution.solo .start 0 choices hAdmissible
  rw [append_nil] at hSolo
  unfold history final outcome
  exact hSolo

theorem final_threads (hNoError : (outcome sourceID).1.2 = none) :
    (final sourceID).threads 0 = .done ((outcome sourceID).1.1, none) := by
  simp only [final, Function.update_self]
  rw [← hNoError]

end

def chunkKey : String := "chunks/key/03/03/" ++ hexEncode (List.replicate 32 3) ++ ".dvchunk"

def other : Artifact := { artifact with content := [1, 2, 5], content_int64 := artifact.content_int64 }

/-- The signer fails, when the chunk has been stored. -/
def unsigned (n : Nat) : Choice :=
  { time := n + 50, artifact := some other, fault := if n = 14 then .refuse (.other "signing failed") else .none }

/-- A backup that has failed and one that has not. -/
def littering : History × System Answer World (CreateResult × Option GoError) :=
  onward (environment disk) 0 choices
    (onward (environment disk) 1 unsigned ([], start ""))

def littered : World := littering.2.world

theorem littered_world : littering.2.world = littered := rfl

def orphanKey : String := chunkObjectKey "" "key" (Backup.Sample.digest [5]).hex

def calm (_ : Nat) : Choice := {}

theorem calm_clean (n : Nat) : (calm n).Clean := rfl

def refusing (n : Nat) : Choice := if n = 3 then { fault := .refuse (.other "connection reset") } else {}

-- one evaluation of the two calls serves all the facts about them
theorem littered_facts : (littered.objects.entries.length < 6 ∧
      (disk.backend.shown littered.objects "chunks/").toOption.map (·.map (·.key)) = some [chunkKey, orphanKey] ∧
      (disk.backend.shown littered.objects "snapshots/").toOption.map (·.map (·.key)) =
        some (["complete.json", "manifest.json", "manifest.sig"].map ("snapshots/snap_8_/" ++ ·)) ∧
      ∀ entry ∈ littered.objects.entries, "manifest.json".toList.isSuffixOf entry.1 = true →
        entry.1 = "snapshots/snap_8_/manifest.json".toList) ∧
    (((start "").threads 1).Admissible (environment disk) ({}, unsigned) ∧
      ((onward (environment disk) 1 unsigned ([], start "")).2.threads 0).Admissible (environment disk)
        ((onward (environment disk) 1 unsigned ([], start "")).2.world, choices) ∧
      (ended littering 0).map (fun out => (out.2.isNone, out.1.duplicate)) = some (true, false)) ∧
    ((((job "").service disk).identified artifact).map
        (fun x => ((job "").service disk).chunkKey (job "").command x.2) = [chunkKey] ∧
      (Backend.filesystem.locate chunkKey).toOption ≠ (Backend.filesystem.locate orphanKey).toOption) ∧
    (((plan "repo" 6).run (environment disk) (littered, refusing)).1.any fun r =>
      r.2.isNone && r.1.deleteKeys.contains chunkKey) = true := by
  decide +kernel

theorem littered_run : Execution (environment disk) (start "") littering.1 littering.2 := by
  obtain ⟨-, ⟨hFailed, hSaved, -⟩, -⟩ := littered_facts
  exact .onward (.onward (.start : Execution _ (start "") (([], start "") : History × _).1 _) hFailed) hSaved

theorem littered_took {art : Artifact} (h : Service.Took (ownCalls 0 littering.1) art) : art = artifact := by
  obtain ⟨req, hCall⟩ := h
  rw [littering, onward, ownCalls_append, mem_append] at hCall
  rcases hCall with hLater | hEarlier
  · obtain ⟨e, hMem, -, hEvent⟩ := mem_ownCalls.mp hLater
    obtain ⟨n, w, -, hAnswer⟩ := Program.mem_events hMem
    rw [hEvent] at hAnswer
    exact Except.ok.inj hAnswer
  · obtain ⟨e, hMem, hThread, -⟩ := mem_ownCalls.mp hEarlier
    rw [onward, append_nil] at hMem
    cases hThread.symm.trans (Program.events_thread hMem)

/-- A manifest is at the one place there is for it. -/
theorem manifest_place {a : Address} {id : String} {payload : Bytes}
    (hEnds : EndsIn a (snapshotTail id FileKind.manifest.name)) (hFind : littered.objects.find a = some payload) :
    a = "snapshots/snap_8_/manifest.json".toList := by
  obtain ⟨⟨-, -, -, hManifests⟩, -⟩ := littered_facts
  obtain ⟨parts, rfl, -⟩ := hEnds
  have hName : join (parts ++ snapshotTail id FileKind.manifest.name) =
      join (parts ++ ["snapshots".toList, id.toList]) ++ '/' :: "manifest.json".toList := by
    rw [← join_singleton "manifest.json".toList, ← join_append (by simp) (by simp)]
    simp [snapshotTail, FileKind.name]
  refine hManifests _ (Objects.find_eq_some_iff.mp hFind) ?_
  rw [isSuffixOf_iff_suffix, hName]
  exact ⟨_, (append_cons _ _ _).symm⟩

theorem littered_done : ∃ result, littering.2.threads 0 = .done (result, none) ∧ result.duplicate = false := by
  obtain ⟨-, ⟨-, -, hSaved⟩, -⟩ := littered_facts
  obtain ⟨⟨result, err⟩, hEnded, hOut⟩ := Option.map_eq_some_iff.mp hSaved
  obtain ⟨hNone, hNew⟩ := Prod.mk.inj hOut
  obtain rfl := Option.isNone_iff_eq_none.mp hNone
  exact ⟨result, ended_eq hEnded, hNew⟩

theorem littered_manifest : Live disk littered chunkKey ∧ ∃ man,
    littered.objects.find "snapshots/snap_8_/manifest.json".toList = some man.marshal ∧
    SnapshotManifest.unmarshal man.marshal = .ok man ∧ man.chunks.map (·.objectKey) = [chunkKey] := by
  obtain ⟨result, hDone, hNew⟩ := littered_done
  obtain ⟨d, hTook, ⟨a, hEnds, hFind⟩, hLive⟩ := manifest_of_done littered_run hDone hNew
  rw [littered_world] at hFind hLive
  obtain ⟨-, -, ⟨hLists, -⟩, -⟩ := littered_facts
  rw [← littered_took hTook] at hLists
  rw [manifest_place hEnds hFind] at hFind
  refine ⟨?_, _, hFind, SnapshotManifest.unmarshal_marshal (Service.manifest_fits _ _ d), map_map.trans hLists⟩
  obtain ⟨x, rest, hIdentified, hKey, -⟩ := map_eq_cons_iff.mp hLists
  rw [← hKey]
  exact hLive x (by rw [hIdentified]; exact mem_cons_self)

theorem orphan_not_live : ¬ Live disk littered orphanKey := by
  obtain ⟨-, stored, hStored, hParsed, hChunks⟩ := littered_manifest
  rintro ⟨a, hAt, ⟨man, ⟨b, id, payload, hEnds, hFind, hParse⟩, ch, hIn, hSame⟩ | ⟨id, kind, hEnds⟩⟩
  · rw [manifest_place hEnds hFind, hStored] at hFind
    obtain rfl := Option.some.inj hFind
    obtain rfl := Except.ok.inj (hParsed.symm.trans hParse)
    have hKey : ch.objectKey ∈ stored.chunks.map (·.objectKey) := mem_map_of_mem hIn
    rw [hChunks, mem_singleton] at hKey
    rw [hKey] at hSame
    exact littered_facts.2.2.1.2 (congrArg Except.toOption (hSame.trans hAt.symm))
  · exact chunkTail_snapshotTail (chunkKey_endsIn ⟨_, rfl⟩ hAt) hEnds

theorem references_littered {file : StoredObject} (hFile : file.key = "snapshots/snap_8_/manifest.json") :
    references disk littered file = [chunkKey] := by
  have hLocate : disk.backend.locate file.key = .ok "snapshots/snap_8_/manifest.json".toList := by
    rw [hFile]
    exact eq_ok_of_toOption (by decide +kernel)
  obtain ⟨-, man, hStored, hParsed, hChunks⟩ := littered_manifest
  rw [references_of_holds (World.holds_iff.mpr ⟨_, hLocate, hStored⟩) hParsed, hChunks]

theorem keys_of_shown {pathPrefix : String} {objs : List StoredObject} {keys : List String}
    (hKeys : (disk.backend.shown littered.objects pathPrefix).toOption.map (·.map (·.key)) = some keys)
    (hShown : disk.backend.shown littered.objects pathPrefix = .ok objs) : objs.map (·.key) = keys := by
  rw [hShown] at hKeys
  exact Option.some.inj hKeys

theorem littered_layout (chunks snapshots : List StoredObject)
    (hChunks : disk.backend.shown littered.objects "chunks/" = .ok chunks)
    (hSnapshots : disk.backend.shown littered.objects "snapshots/" = .ok snapshots) (obj : StoredObject)
    (hObj : obj ∈ chunks) (hLive : Live disk littered obj.key) :
    ∃ file ∈ snapshots, Lists disk littered file obj.key := by
  obtain ⟨⟨-, hShown, hFiles, -⟩, -⟩ := littered_facts
  have hKey := mem_map_of_mem (f := (·.key)) hObj
  rw [keys_of_shown hShown hChunks, mem_cons, mem_singleton] at hKey
  have hFile : "snapshots/snap_8_/manifest.json" ∈ snapshots.map (·.key) := by
    rw [keys_of_shown hFiles hSnapshots]
    decide
  obtain ⟨file, hIn, hName⟩ := mem_map.mp hFile
  rcases hKey with hKey | hKey
  · refine ⟨file, hIn, by rw [isManifest, hName]; decide, ?_⟩
    rw [references_littered hName, hKey]
    exact mem_singleton_self _
  · exact absurd (hKey ▸ hLive) orphan_not_live

theorem orphan_unlisted {snapshots : List StoredObject}
    (hSnapshots : disk.backend.shown littered.objects "snapshots/" = .ok snapshots) :
    orphanKey ∉ (snapshots.filter isManifest).flatMap (references disk littered) := by
  obtain ⟨⟨-, -, hFiles, -⟩, -⟩ := littered_facts
  intro hIn
  obtain ⟨file, hFile, hKey⟩ := mem_flatMap.mp hIn
  obtain ⟨hFile, hName⟩ := mem_filter.mp hFile
  have hShown := mem_map_of_mem (f := (·.key)) hFile
  rw [keys_of_shown hFiles hSnapshots] at hShown
  have hOnly : ∀ key ∈ ["complete.json", "manifest.json", "manifest.sig"].map ("snapshots/snap_8_/" ++ ·),
      "/manifest.json".toList.isSuffixOf key.toList = true → key = "snapshots/snap_8_/manifest.json" := by decide
  rw [references_littered (hOnly _ hShown hName), mem_singleton] at hKey
  exact littered_facts.2.2.1.2 (by rw [hKey])

theorem shown_filesystem (s : Objects) (pathPrefix : String) : disk.backend.shown s pathPrefix =
    .ok ((disk.backend.covered s pathPrefix).map disk.backend.shownAs) := rfl

end Sample

open Sample
open Backup.Sample (disk)

theorem plan_spares_live_sample : ∃ p err, ((plan "repo" 6).run (environment disk) (littered, calm)).1 = some (p, err) ∧
    orphanKey ∈ p.deleteKeys ∧ ∀ key ∈ p.deleteKeys, ¬ Live disk littered key := by
  obtain ⟨⟨hFuel, hChunks, -⟩, -⟩ := littered_facts
  obtain ⟨p, err, hRun, -, hSpares⟩ := plan_spares_live_iff disk littered "repo" 6 calm hFuel
    fun n => (calm_clean n).faithful
  have hShown := shown_filesystem littered.objects
  have hSpared := spared_of_clean disk littered "repo" 6 hFuel calm_clean littered_layout
  have hCounted := counted_of_clean hFuel hShown calm_clean hRun
  refine ⟨p, err, hRun, (hCounted.deleteKeys _).mpr ⟨?_, orphan_unlisted (hShown _)⟩, hSpares.mpr hSpared⟩
  rw [keys_of_shown hChunks (hShown _)]
  simp

/-- `Plan` goes on when it cannot get a manifest, and takes the chunk that the
manifest lists for garbage. -/
theorem plan_deletes_live :
    Execution (environment disk) (backups disk fun _ => job "") littering.1 littering.2 ∧
    ∃ p, ((plan "repo" 6).run (environment disk) (littered, refusing)).1 = some (p, none) ∧
      chunkKey ∈ p.deleteKeys ∧ Live disk littered chunkKey := by
  obtain ⟨-, -, -, hPlan⟩ := littered_facts
  obtain ⟨⟨p, err⟩, hRun, hKey⟩ := (Option.any_eq_true _ _).mp hPlan
  rw [Bool.and_eq_true, Option.isNone_iff_eq_none, contains_iff_mem] at hKey
  obtain ⟨rfl, hKey⟩ := hKey
  exact ⟨littered_run, p, hRun, hKey, littered_manifest.1⟩

end DBVault.GarbageCollection
