import DBVault.Configuration.Schedules

/-! What a source of an accepted configuration is bound to. -/
namespace DBVault.Configuration
open List Text

def SourceConfig.isEnabled (s : SourceConfig) : Bool := s.enabled.getD true

structure RuntimeBinding where
  source : SourceConfig
  repository : RepositoryConfig
  primary : DestinationConfig
  (mirrors replicas : List DestinationConfig)

namespace Config
variable (lib : Library) (c : Config)

/-- The `lookup` of `Binding`: the first destination with the ID. -/
def lookup (id : String) : Except String DestinationConfig :=
  match c.destinations.find? (·.id = id) with
  | some d => .ok d
  | none => .error ("destination " ++ lib.quote id ++ " not found")

/-- `Binding` of a normalised configuration, once the source is found. -/
def bindSource (source : SourceConfig) : Except String RuntimeBinding :=
  match c.repositories.find? (·.id = source.repository) with
  | none => .error ("repository " ++ lib.quote source.repository ++ " not found")
  | some repo =>
    if repo.id = "" then .error ("repository " ++ lib.quote source.repository ++ " not found")
    else do
      let primary ← match repo.primary with
        | none => pure { id := "", driver := "" }
        | some id => c.lookup lib id
      let mirrors ← repo.mirrors.mapM (c.lookup lib)
      let replicas ← (repo.replicas.map (·.destination)).mapM (c.lookup lib)
      pure ⟨source, repo, if primary.id = "" then mirrors.headD primary else primary, mirrors, replicas⟩

/-- `Binding`. The empty ID stands for the first source that is enabled. -/
def binding (sourceID : String) : Except String RuntimeBinding :=
  let c := c.normalize lib
  match c.sources.find? fun s => (sourceID = "" ∧ s.isEnabled) ∨ s.id = sourceID with
  | none => .error ("source " ++ lib.quote sourceID ++ " not found")
  | some source => c.bindSource lib source

end Config

variable {lib : Library} {c : Config} {α : Type} {idOf : α → String} {items : List α}

theorem checkAll_accepted {kind : String} {check : α → List String} (hErrors : (checkAll lib kind idOf check items).2 = []) :
    (checkAll lib kind idOf check items).1 = items.map idOf ∧ (items.map idOf).Nodup ∧
      ∀ item ∈ items, idOf item ≠ "" ∧ check item = [] := by
  induction items using List.reverseRecOn with
  | nil => simp [checkAll]
  | append_singleton items item ih =>
    rw [checkAll, foldl_append, foldl_cons, foldl_nil, ← checkAll] at hErrors ⊢
    cases hUnique : uniqueID lib kind (idOf item) (checkAll lib kind idOf check items).1 with
    | some err => simp [hUnique] at hErrors
    | none =>
      simp only [hUnique, append_eq_nil_iff] at hErrors ⊢
      obtain ⟨hNoted, hNodup, hItems⟩ := ih hErrors.1
      rw [hNoted] at hUnique ⊢
      unfold uniqueID at hUnique
      split at hUnique
      · cases hUnique
      · next hID =>
        split at hUnique
        · cases hUnique
        · next hNew =>
          refine ⟨by simp, ?_, ?_⟩
          · rw [map_append, map_singleton, ← concat_eq_append]
            exact hNodup.concat hNew
          · intro other hOther
            rcases mem_append.mp hOther with hOld | hOwn
            · exact hItems other hOld
            · rw [mem_singleton.mp hOwn]
              exact ⟨hID, hErrors.2⟩

/-- What `Validate` has made sure of. -/
structure Accepted (lib : Library) (c : Config) : Prop where
  destinations : ∀ d ∈ c.destinations, d.id ≠ ""
  repositoryIDs : (c.repositories.map (·.id)).Nodup
  repositories : ∀ r ∈ c.repositories, r.id ≠ "" ∧
    ∃ providers, validateRepository lib (c.destinations.map (·.id)) providers r = []
  sourceIDs : (c.sources.map (·.id)).Nodup
  sources : ∀ s ∈ c.sources, s.id ≠ "" ∧ s.repository ∈ c.repositories.map (·.id)

theorem accepted_of_validate (hValid : validate lib c = []) : Accepted lib (c.normalize lib) := by
  simp only [validate, append_eq_nil_iff] at hValid
  obtain ⟨⟨⟨⟨⟨⟨⟨⟨-, hDestinations⟩, hRepositories⟩, hSources⟩, -⟩, -⟩, -⟩, -⟩, -⟩ := hValid
  obtain ⟨hNotedDestinations, -, hDestinations⟩ := checkAll_accepted hDestinations
  obtain ⟨hNotedRepositories, hRepositoryIDs, hRepositories⟩ := checkAll_accepted hRepositories
  obtain ⟨-, hSourceIDs, hSources⟩ := checkAll_accepted hSources
  refine ⟨fun d hd => (hDestinations d hd).1, hRepositoryIDs, ?_, hSourceIDs, ?_⟩
  · intro r hr
    obtain ⟨hID, hCheck⟩ := hRepositories r hr
    rw [hNotedDestinations] at hCheck
    exact ⟨hID, _, hCheck⟩
  · intro s hs
    obtain ⟨hID, hCheck⟩ := hSources s hs
    rw [hNotedRepositories, append_eq_nil_iff, reportIf_eq_nil, not_not] at hCheck
    exact ⟨hID, hCheck.1⟩

theorem find?_eq_some_of_mem (hNodup : (items.map idOf).Nodup)
    {item : α} (hItem : item ∈ items) : items.find? (fun other => idOf other = idOf item) = some item := by
  cases hFind : items.find? (fun other => idOf other = idOf item) with
  | none => exact absurd (by simp) (find?_eq_none.mp hFind item hItem)
  | some found =>
    have hSame := find?_some hFind
    rw [inj_on_of_nodup_map hNodup (mem_of_find?_eq_some hFind) hItem (by simpa using hSame)]

theorem lookup_ok (lib : Library) {id : String} (hKnown : id ∈ c.destinations.map (·.id)) :
    ∃ d ∈ c.destinations, c.lookup lib id = .ok d ∧ d.id = id := by
  unfold Config.lookup
  cases hFind : c.destinations.find? (·.id = id) with
  | none =>
    obtain ⟨d, hd, rfl⟩ := mem_map.mp hKnown
    exact absurd (by simp) (find?_eq_none.mp hFind d hd)
  | some d => exact ⟨d, mem_of_find?_eq_some hFind, rfl, by simpa using find?_some hFind⟩

theorem lookups_ok (lib : Library) {ids : List String} (hKnown : ∀ id ∈ ids, id ∈ c.destinations.map (·.id)) :
    ∃ ds, ids.mapM (c.lookup lib) = .ok ds ∧ ds.map (·.id) = ids ∧ ∀ d ∈ ds, d ∈ c.destinations := by
  induction ids with
  | nil => exact ⟨[], rfl, rfl, by simp⟩
  | cons id rest ih =>
    obtain ⟨d, hd, hLookup, rfl⟩ := lookup_ok lib (hKnown id mem_cons_self)
    obtain ⟨ds, hRest, hIDs, hMem⟩ := ih fun other hOther => hKnown other (mem_cons_of_mem _ hOther)
    refine ⟨d :: ds, ?_, by rw [map_cons, hIDs], forall_mem_cons.mpr ⟨hd, hMem⟩⟩
    rw [mapM_cons, hLookup, hRest]
    rfl

theorem references_known {known providers : List String} {r : RepositoryConfig}
    (hCheck : validateRepository lib known providers r = []) :
    (∀ id ∈ r.primary.toList ++ r.mirrors ++ r.replicas.map (·.destination), id ∈ known) ∧
      (r.primary = none → r.mirrors ≠ []) := by
  simp only [validateRepository, append_eq_nil_iff, reportIf_eq_nil, flatMap_eq_nil_iff, not_not] at hCheck
  obtain ⟨⟨⟨⟨⟨⟨⟨⟨⟨⟨-, hKnown⟩, hMode⟩, hPrimary⟩, hMirrors⟩, -⟩, -⟩, -⟩, -⟩, -⟩, -⟩ := hCheck
  refine ⟨hKnown, ?_⟩
  rintro hNone hEmpty
  simp only [mem_cons, not_mem_nil, or_false] at hMode
  rw [hNone] at hPrimary
  rw [hEmpty] at hMirrors
  rcases hMode with hMode | hMode | hMode
  · exact hPrimary ⟨.inl hMode, rfl⟩
  · exact hMirrors ⟨hMode, by decide⟩
  · exact hPrimary ⟨.inr hMode, rfl⟩

/-- A source of an accepted configuration is bound to the repository it names, to a primary
destination and to the mirrors and replicas of the repository, in order. -/
theorem accepted_binds (lib : Library) (c : Config) (hValid : validate lib c = []) :
    ∀ s ∈ (c.normalize lib).sources, ∃ b, c.binding lib s.id = .ok b ∧ b.source = s ∧
      b.repository ∈ (c.normalize lib).repositories ∧ b.repository.id = s.repository ∧
      b.primary ∈ (c.normalize lib).destinations ∧ b.primary.id ≠ "" ∧
      (∀ id ∈ b.repository.primary, b.primary.id = id) ∧
      b.mirrors.map (·.id) = b.repository.mirrors ∧
      b.replicas.map (·.id) = b.repository.replicas.map (·.destination) ∧
      ∀ d ∈ b.mirrors ++ b.replicas, d ∈ (c.normalize lib).destinations := by
  intro s hs
  have accepted := accepted_of_validate hValid
  generalize hNormal : c.normalize lib = n at hs accepted
  obtain ⟨hSourceID, hRepository⟩ := accepted.sources s hs
  obtain ⟨repo, hRepo, hRepoID⟩ := mem_map.mp hRepository
  obtain ⟨hRepoSome, providers, hCheck⟩ := accepted.repositories repo hRepo
  obtain ⟨hKnown, hMirrored⟩ := references_known hCheck
  obtain ⟨⟨hPrimaryKnown, hMirrorsKnown⟩, hReplicasKnown⟩ :=
    (forall_mem_append.trans (and_congr_left' forall_mem_append)).mp hKnown
  obtain ⟨mirrors, hMirrors, hMirrorIDs, hMirrorsMem⟩ := lookups_ok lib hMirrorsKnown
  obtain ⟨replicas, hReplicas, hReplicaIDs, hReplicasMem⟩ := lookups_ok lib hReplicasKnown
  have hSource : n.sources.find? (fun other => (s.id = "" ∧ other.isEnabled) ∨ other.id = s.id) = some s := by
    simpa [hSourceID] using find?_eq_some_of_mem accepted.sourceIDs hs
  have hFound : n.repositories.find? (·.id = s.repository) = some repo := by
    rw [← hRepoID]
    exact find?_eq_some_of_mem accepted.repositoryIDs hRepo
  have hDestinations := forall_mem_append.mpr ⟨hMirrorsMem, hReplicasMem⟩
  cases hPrimary : repo.primary with
  | none =>
    -- The first mirror stands in.
    have hSome : mirrors ≠ [] := by
      rintro rfl
      exact hMirrored hPrimary hMirrorIDs.symm
    obtain ⟨first, rest, rfl⟩ := exists_cons_of_ne_nil hSome
    have hFirst := hMirrorsMem first mem_cons_self
    refine ⟨⟨s, repo, first, first :: rest, replicas⟩, ?_, rfl, hRepo, hRepoID, hFirst,
      accepted.destinations first hFirst, by simp [hPrimary], hMirrorIDs, hReplicaIDs, hDestinations⟩
    simp only [Config.binding, hNormal, hSource, Config.bindSource, hFound, hRepoSome, if_false, hPrimary,
      hMirrors, hReplicas]
    rfl
  | some id =>
    rw [hPrimary] at hPrimaryKnown
    obtain ⟨d, hd, hLookup, rfl⟩ := lookup_ok lib (hPrimaryKnown id (by simp))
    have hID := accepted.destinations d hd
    refine ⟨⟨s, repo, d, mirrors, replicas⟩, ?_, rfl, hRepo, hRepoID, hd, hID, by simp [hPrimary],
      hMirrorIDs, hReplicaIDs, hDestinations⟩
    simp only [Config.binding, hNormal, hSource, Config.bindSource, hFound, hRepoSome, if_false, hPrimary,
      hLookup, hMirrors, hReplicas]
    simp [bind, Except.bind, pure, Except.pure, hID]

namespace Sample

theorem orders_bound : validate library (server []) = [] ∧
    ∃ b, (server []).binding library "orders" = .ok b ∧ b.primary.id = "filesystem" := by
  have hValid : validate library (server []) = [] := by decide +kernel
  obtain ⟨b, hBound, -, hMem, -, -, -, hPrimary, -⟩ := accepted_binds library (server []) hValid
    (((server []).normalize library).sources.headD ⟨"", "", "", none, none, none, none⟩) (by decide +kernel)
  have hRepository : b.repository.primary = some "filesystem" := by
    rw [mem_singleton.mp hMem]
    rfl
  exact ⟨hValid, b, hBound, hPrimary _ hRepository⟩

end Sample

end DBVault.Configuration
