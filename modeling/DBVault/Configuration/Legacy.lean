import DBVault.Configuration.Schedules

/-! The settings of the first version beside the lists: normalising once is enough, and what it
loses of the schedule. -/
namespace DBVault.Configuration
open List Text Scheduling Config

@[simp] theorem firstNonEmpty_same (v fallback : String) :
    firstNonEmpty (firstNonEmpty v fallback) fallback = firstNonEmpty v fallback := by
  by_cases h : v = ""
  · simp [firstNonEmpty, h]
  · simp [firstNonEmpty, h]

theorem firstNonEmpty_ne (v : String) {fallback : String} (h : fallback ≠ "") : firstNonEmpty v fallback ≠ "" := by
  unfold firstNonEmpty
  split
  · assumption
  · exact h

@[simp] theorem orDefault_same (n fallback : Int) :
    orDefault (orDefault n fallback) fallback = orDefault n fallback := by
  by_cases h : n = 0
  · simp [orDefault, h]
  · simp [orDefault, h]

theorem defaultChunking_same (strategy : String) {targetSize : String} (hSize : targetSize ≠ "")
    (chunking : ChunkStrategyConfig) :
    defaultChunking strategy targetSize (defaultChunking strategy targetSize chunking) =
      defaultChunking strategy targetSize chunking := by
  by_cases h : chunking.targetSize = ""
  · simp [defaultChunking, h, hSize]
  · simp [defaultChunking, h]

theorem applyS3Defaults_same (profile : String) (s3 : S3DestinationConfig) :
    applyS3Defaults profile (applyS3Defaults profile s3) = applyS3Defaults profile s3 := by
  have hStyle : ∀ a b c : Bool, (a || b || c || b || c) = (a || b || c) := by decide
  simp only [applyS3Defaults, firstNonEmpty_same, orDefault_same, hStyle]

theorem applyDestinationDefaults_same (d : DestinationConfig) :
    applyDestinationDefaults (applyDestinationDefaults d) = applyDestinationDefaults d := by
  simp only [applyDestinationDefaults, firstNonEmpty_same, Option.map_map]
  congr 2
  funext s3
  exact applyS3Defaults_same d.profile s3

theorem applyRepositoryDefaults_same (r : RepositoryConfig) :
    applyRepositoryDefaults (applyRepositoryDefaults r) = applyRepositoryDefaults r := by
  have hSnapshots := orDefault_same r.minimumVerifiedSnapshots 2
  have hSQLite := defaultChunking_same "page-aligned" (show "4MiB" ≠ "" by decide) r.chunkingSQLite
  have hStreams := defaultChunking_same "fixed-stream-v1" (show "8MiB" ≠ "" by decide) r.chunkingStreams
  simp only [applyRepositoryDefaults, firstNonEmpty_same, orDefault_same, hSQLite, hStreams]
  exact congrArg (fun n => { applyRepositoryDefaults r with minimumVerifiedSnapshots := n }) hSnapshots

theorem applySourceDefaults_same (lib : Library) (s : SourceConfig) :
    applySourceDefaults lib (applySourceDefaults lib s) = applySourceDefaults lib s := by
  have hLower : ∀ text, lib.letters.toLower (lib.letters.toLower text) = lib.letters.toLower text := by
    intro text
    rw [CaseMapping.toLower, CaseMapping.toLower, String.toList_ofList, map_map]
    congr 2
    funext c
    exact lib.lower_lower c
  have hPort : ∀ port, defaultPort port ∘ defaultPort port = defaultPort port := by
    intro port
    funext db
    simp [defaultPort]
  simp only [applySourceDefaults, hLower, Option.map_map, hPort]

theorem seeded_eq_nil {α : Type} {items seed : List α} {present : Prop}
    [Decidable (items = [] ∧ present)] (hSeed : seed ≠ [])
    (hEmpty : (if items = [] ∧ present then seed else items) = []) : items = [] ∧ ¬ present := by
  split at hEmpty
  · exact absurd hEmpty hSeed
  · next hNone => exact ⟨hEmpty, fun hPresent => hNone ⟨hEmpty, hPresent⟩⟩

section
variable (lib : Library) (c : Config)

theorem effectiveProviders_normalize : (c.normalize lib).effectiveProviders = c.effectiveProviders := by
  refine if_neg ?_
  rintro ⟨hEmpty, hKeys⟩
  obtain ⟨-, hNone⟩ := seeded_eq_nil (by simp) hEmpty
  have hSynced : (c.normalize lib).keysDirectory =
      if c.keysDirectory = "" then
        (c.effectiveProviders.findSome? fun p => if p.driver = "file" then p.file.map (·.root) else none).getD ""
      else c.keysDirectory := rfl
  rw [hSynced, not_not.mp hNone, if_pos rfl, show c.effectiveProviders = [] from hEmpty] at hKeys
  exact hKeys rfl

theorem effectiveDestinations_normalize :
    (c.normalize lib).effectiveDestinations = c.effectiveDestinations.map applyDestinationDefaults := by
  refine if_neg ?_
  rintro ⟨hEmpty, hID⟩
  have hNone : c.effectiveDestinations = [] := map_eq_nil_iff.mp hEmpty
  have hSynced : (c.normalize lib).legacyDestination = c.legacyDestination := by
    simp [Config.normalize, syncLegacy, syncedDestination, hNone]
  rw [hSynced] at hID
  exact (seeded_eq_nil (by simp) hNone).2 hID

theorem effectiveRepositories_normalize :
    (c.normalize lib).effectiveRepositories = c.effectiveRepositories.map applyRepositoryDefaults := by
  refine if_neg ?_
  rintro ⟨hEmpty, hID⟩
  have hNone : c.effectiveRepositories = [] := map_eq_nil_iff.mp hEmpty
  have hSynced : (c.normalize lib).legacyRepository = c.legacyRepository := by
    simp [Config.normalize, syncLegacy, syncedRepository, hNone]
  rw [hSynced] at hID
  exact (seeded_eq_nil (by simp) hNone).2 hID

theorem effectiveSources_normalize :
    (c.normalize lib).effectiveSources = c.effectiveSources.map (applySourceDefaults lib) := by
  refine if_neg ?_
  rintro ⟨hEmpty, hID⟩
  have hNone : c.effectiveSources = [] := map_eq_nil_iff.mp hEmpty
  have hSynced : (c.normalize lib).legacySource = c.legacySource := by
    simp [Config.normalize, syncLegacy, syncedSource, hNone]
  rw [hSynced] at hID
  exact (seeded_eq_nil (by simp) hNone).2 hID

theorem effectiveSchedules_normalize : (c.normalize lib).effectiveSchedules = c.effectiveSchedules := by
  refine if_neg ?_
  rintro ⟨hEmpty, hEnabled⟩
  have hNone : c.effectiveSchedules = [] := hEmpty
  have hSynced : (c.normalize lib).legacySchedule = c.legacySchedule := by
    simp [Config.normalize, syncLegacy, syncedSchedule, hNone]
  rw [hSynced] at hEnabled
  exact (seeded_eq_nil (by simp) hNone).2 hEnabled

theorem listenAddresses_normalize : (c.normalize lib).listenAddresses = c.listenAddresses := by
  have hAPI : c.listenAddresses.2 ≠ "" := firstNonEmpty_ne _ (by decide)
  have hListen : c.listenAddresses.1 ≠ "" := firstNonEmpty_ne _ hAPI
  have hAddresses : (c.normalize lib).listenAddresses =
      (firstNonEmpty (firstNonEmpty c.listenAddresses.1 c.listenAddresses.2)
        (firstNonEmpty (firstNonEmpty c.listenAddresses.2
          (firstNonEmpty c.listenAddresses.1 c.listenAddresses.2)) "127.0.0.1:8080"),
        firstNonEmpty (firstNonEmpty c.listenAddresses.2
          (firstNonEmpty c.listenAddresses.1 c.listenAddresses.2)) "127.0.0.1:8080") := rfl
  rw [hAddresses]
  simp [firstNonEmpty, hAPI, hListen]

theorem effectiveLogSpool_normalize : (c.normalize lib).effectiveLogSpool = c.effectiveLogSpool := by
  refine if_neg ?_
  rintro ⟨hEmpty, hData⟩
  have hSpool : c.effectiveLogSpool = "" := hEmpty
  unfold effectiveLogSpool at hSpool
  split at hSpool
  · have hClean : ∀ out : List Char, (if out = [] then Path.dot else out) ≠ [] := by
      intro out
      split
      · decide
      · assumption
    have hText := congrArg String.toList hSpool
    rw [String.toList_ofList] at hText
    exact hClean _ hText
  · next hNone => exact hNone ⟨hSpool, hData⟩

theorem syncLegacy_same : (c.syncLegacy lib).syncLegacy lib = c.syncLegacy lib := by
  have hSource : (c.syncLegacy lib).syncedSource = c.syncedSource := by
    cases hSources : c.sources <;> simp [syncLegacy, syncedSource, hSources]
  have hRepository : (c.syncLegacy lib).syncedRepository lib = c.syncedRepository lib := by
    cases hRepositories : c.repositories <;>
      simp [syncLegacy, syncedRepository, hRepositories]
  have hDestination : (c.syncLegacy lib).syncedDestination = c.syncedDestination := by
    cases hDestinations : c.destinations <;>
      simp [syncLegacy, syncedDestination, hDestinations]
  have hKeys : (c.syncLegacy lib).syncedKeys = c.syncedKeys := by
    by_cases hNone : c.syncedKeys = ""
    · have hEmpty : c.keysDirectory = "" := by
        by_contra hSome
        simp [syncedKeys, hSome] at hNone
      simp only [syncLegacy, syncedKeys, hEmpty, if_true] at hNone ⊢
      simp [hNone]
    · rw [syncedKeys]
      exact if_neg hNone
  have hSchedule : (c.syncLegacy lib).syncedSchedule = c.syncedSchedule := by
    cases hSchedules : c.schedules <;> simp [syncLegacy, syncedSchedule, hSchedules]
  rw [syncLegacy, hSource, hRepository, hDestination, hKeys, hSchedule]
  rfl

/-- Normalising a configuration again changes nothing. -/
theorem normalize_idempotent : (c.normalize lib).normalize lib = c.normalize lib := by
  have hVersion : (if (c.normalize lib).version = 0 then currentVersion else (c.normalize lib).version) =
      (c.normalize lib).version := orDefault_same c.version currentVersion
  have hGrace : firstNonEmpty (c.normalize lib).shutdownGrace "30s" = (c.normalize lib).shutdownGrace :=
    firstNonEmpty_same _ _
  have hDriver : firstNonEmpty (c.normalize lib).catalogueDriver "sqlite" =
      (c.normalize lib).catalogueDriver := firstNonEmpty_same _ _
  have hDestinations : applyDestinationDefaults ∘ applyDestinationDefaults = applyDestinationDefaults :=
    funext applyDestinationDefaults_same
  have hRepositories : applyRepositoryDefaults ∘ applyRepositoryDefaults = applyRepositoryDefaults :=
    funext applyRepositoryDefaults_same
  have hSources : applySourceDefaults lib ∘ applySourceDefaults lib = applySourceDefaults lib :=
    funext (applySourceDefaults_same lib)
  calc (c.normalize lib).normalize lib
      = (c.normalize lib).syncLegacy lib := by
        conv_lhs => rw [Config.normalize]
        rw [hVersion, hGrace, hDriver, listenAddresses_normalize, effectiveLogSpool_normalize,
          effectiveProviders_normalize, effectiveDestinations_normalize, effectiveRepositories_normalize,
          effectiveSources_normalize, effectiveSchedules_normalize, map_map, map_map,
          map_map, hDestinations, hRepositories, hSources]
        rfl
    _ = c.normalize lib := syncLegacy_same lib _

end

/-- The number of workers `startJobRuntime` starts. -/
def Config.workerCount (c : Config) : Int := if c.legacySchedule.workers ≤ 0 then 1 else c.legacySchedule.workers

def Config.HasInterval (c : Config) : Prop :=
  c.legacySchedule.enabled = true ∧ c.legacySchedule.cron = "" ∧ 0 < c.legacySchedule.everySeconds

/-- A normalised configuration does what was written about its schedule. -/
structure KeepsSchedule (c normalized : Config) : Prop where
  interval : c.HasInterval → ∃ spec ∈ specsFromConfig normalized,
    spec.everySeconds = c.legacySchedule.everySeconds
  workers : 0 < c.legacySchedule.workers → normalized.workerCount = c.legacySchedule.workers

theorem legacySchedule_normalize (lib : Library) {c : Config} (hSome : c.effectiveSchedules ≠ []) :
    (c.normalize lib).legacySchedule.everySeconds = 0 ∧ (c.normalize lib).legacySchedule.workers = 0 := by
  obtain ⟨first, rest, hSchedules⟩ := exists_cons_of_ne_nil hSome
  simp [Config.normalize, syncLegacy, syncedSchedule, hSchedules]

theorem exists_spec_iff (lib : Library) {c : Config} {everySeconds : Int} (hPos : 0 < everySeconds) :
    (∃ spec ∈ specsFromConfig (c.normalize lib), spec.everySeconds = everySeconds) ↔
      ∃ sc ∈ c.effectiveSchedules, sc.isEnabled = true ∧ sc.everySeconds = everySeconds := by
  simp only [specsFromConfig, normalize_schedules, mem_filterMap]
  constructor
  · rintro ⟨spec, ⟨sc, hMem, hSpec⟩, rfl⟩
    have hGone := (legacySchedule_normalize lib (ne_nil_of_mem hMem)).1
    unfold specOf at hSpec
    split at hSpec
    · cases hSpec
    · next hEnabled =>
      refine ⟨sc, hMem, by simpa using hEnabled, ?_⟩
      dsimp only at hSpec
      generalize (if sc.id = "" then sc.source ++ "-" ++ sc.operation else sc.id) = id at hSpec
      split at hSpec
      · split at hSpec
        · cases hSpec
        · obtain rfl := Option.some.inj hSpec
          rw [hGone] at hPos
          exact absurd hPos (lt_irrefl 0)
      · split at hSpec
        · cases hSpec
        · obtain rfl := Option.some.inj hSpec
          rfl
  · rintro ⟨sc, hMem, hEnabled, rfl⟩
    have hOwn : ¬ (sc.everySeconds ≤ 0) := not_le.mpr hPos
    have hSpec : ∃ spec, specOf (c.normalize lib) sc = some spec ∧ spec.everySeconds = sc.everySeconds := by
      simp [specOf, hEnabled, hOwn]
    obtain ⟨spec, hSpec, hSame⟩ := hSpec
    exact ⟨spec, ⟨sc, hMem, hSpec⟩, hSame⟩

/-- The schedule settings survive exactly if an enabled schedule on the list has the interval of
the first version, where that is set, and more than one worker is asked for only where no schedule
is listed or enabled. -/
theorem keeps_schedule_iff (lib : Library) (c : Config) :
    KeepsSchedule c (c.normalize lib) ↔
      (c.HasInterval → ∃ sc ∈ c.schedules, sc.isEnabled = true ∧
        sc.everySeconds = c.legacySchedule.everySeconds) ∧
      (1 < c.legacySchedule.workers → c.schedules = [] ∧ c.legacySchedule.enabled = false) := by
  have hInterval : (c.HasInterval → ∃ spec ∈ specsFromConfig (c.normalize lib),
      spec.everySeconds = c.legacySchedule.everySeconds) ↔
        (c.HasInterval → ∃ sc ∈ c.schedules, sc.isEnabled = true ∧
          sc.everySeconds = c.legacySchedule.everySeconds) := by
    refine forall_congr' fun hHas => ?_
    rw [exists_spec_iff lib hHas.2.2]
    by_cases hListed : c.schedules = []
    · have hPos := hHas.2.2
      simp [effectiveSchedules, hListed, hHas.1, hPos.ne]
    · simp [effectiveSchedules, hListed]
  have hNone : c.effectiveSchedules = [] ↔ c.schedules = [] ∧ c.legacySchedule.enabled = false := by
    constructor
    · intro hEmpty
      obtain ⟨hListed, hEnabled⟩ := seeded_eq_nil (by simp) hEmpty
      exact ⟨hListed, by simpa using hEnabled⟩
    · rintro ⟨hListed, hEnabled⟩
      simp [effectiveSchedules, hListed, hEnabled]
  have hWorkers : (0 < c.legacySchedule.workers →
      (c.normalize lib).workerCount = c.legacySchedule.workers) ↔
        (1 < c.legacySchedule.workers → c.schedules = [] ∧ c.legacySchedule.enabled = false) := by
    rw [← hNone]
    by_cases hEmpty : c.effectiveSchedules = []
    · have hKept : (c.normalize lib).legacySchedule = c.legacySchedule := by
        simp [Config.normalize, syncLegacy, syncedSchedule, hEmpty]
      simp only [hEmpty, implies_true, iff_true, workerCount, hKept]
      exact fun hPos => if_neg (not_le.mpr hPos)
    · have hOne : (c.normalize lib).workerCount = 1 := by
        rw [workerCount, (legacySchedule_normalize lib hEmpty).2]
        rfl
      simp only [hEmpty, hOne, imp_false]
      omega
  constructor
  · rintro ⟨hSpecs, hCount⟩
    exact ⟨hInterval.mp hSpecs, hWorkers.mp hCount⟩
  · rintro ⟨hSpecs, hCount⟩
    exact ⟨hInterval.mpr hSpecs, hWorkers.mpr hCount⟩

namespace Sample

def hourly : Config := { server [] with legacySchedule := { enabled := true, everySeconds := 3600, workers := 4 } }

/-- No spec comes of it, and one worker is started. -/
theorem hourly_lost : hourly.HasInterval ∧ specsFromConfig (hourly.normalize library) = [] ∧
    (hourly.normalize library).workerCount = 1 ∧ ¬ KeepsSchedule hourly (hourly.normalize library) := by
  have hNoSpec : specsFromConfig (hourly.normalize library) = [] := by decide +kernel
  refine ⟨⟨rfl, rfl, by decide⟩, hNoSpec, by decide +kernel, fun hKeeps => ?_⟩
  obtain ⟨spec, hSpec, -⟩ := hKeeps.interval ⟨rfl, rfl, by decide⟩
  rw [hNoSpec] at hSpec
  cases hSpec

end Sample

end DBVault.Configuration
