import DBVault.Domain
import DBVault.Queue.Table

/-! The store of the control plane, which all organisations share, and what one of
them can notice of the others. -/
namespace DBVault.ControlPlane
open Option List Keyed

structure Organisation where
  (id name : String)
  deriving DecidableEq

structure Project where
  (id organisationID : String)
  deriving DecidableEq

structure Environment where
  (id organisationID projectID : String)
  deriving DecidableEq

inductive AgentStatus where
  | pending | online | offline | revoked | degraded
  deriving DecidableEq

structure Agent where
  (id organisationID : String)
  projectID : String := ""
  status : AgentStatus := .pending
  lastSeenAt : Option Time := none
  updatedAt : Time := .zero
  deriving DecidableEq

structure ManagedSource where
  (id organisationID : String)
  (projectID environmentID engine repositoryID : String := "")
  agentID : String
  createdAt : Time := .zero
  deriving DecidableEq

structure TenantScope where
  organisationID : String
  (projectID environmentID : String := "")
  deriving DecidableEq

def TenantScope.valid (scope : TenantScope) : Bool := scope.organisationID != ""

structure Store where
  organisations : Table Organisation.id
  projects : Table Project.id
  environments : Table Environment.id
  agents : Table Agent.id
  sources : Table ManagedSource.id

def errTenantIsolation : GoError := .other "resource is outside the caller tenant scope"

namespace Store

/-- `NewStore`. -/
def new : Store := ⟨.empty, .empty, .empty, .empty, .empty⟩

variable (s : Store) (scope : TenantScope)

def createOrganisation (org : Organisation) : Result Unit × Store :=
  if org.id = "" ∨ org.name = "" then (.error (.other "organisation id and name are required"), s)
  else if (s.organisations.find org.id).isSome then
    (.error (.other ("organisation " ++ org.id ++ " already exists")), s)
  else (.ok (), { s with organisations := s.organisations.store org })

def createProject (project : Project) : Result Unit × Store :=
  if !scope.valid ∨ project.organisationID ≠ scope.organisationID then (.error errTenantIsolation, s)
  else if (s.organisations.find scope.organisationID).isNone then
    (.error (.other "organisation not found"), s)
  else if (s.projects.find project.id).isSome then
    (.error (.other ("project " ++ project.id ++ " already exists")), s)
  else (.ok (), { s with projects := s.projects.store project })

def createEnvironment (environment : Environment) : Result Unit × Store :=
  if environment.organisationID ≠ scope.organisationID ∨ environment.projectID ≠ scope.projectID then
    (.error errTenantIsolation, s)
  else if (s.projects.find environment.projectID).all (·.organisationID ≠ scope.organisationID) then
    (.error errTenantIsolation, s)
  else (.ok (), { s with environments := s.environments.store environment })

/-- What `RegisterAgent` asks of an agent. -/
def admitsAgent (agent : Agent) : Bool :=
  agent.organisationID = scope.organisationID && (scope.projectID = "" || agent.projectID = scope.projectID)

def registerAgent (agent : Agent) : Result Unit × Store :=
  if admitsAgent scope agent then (.ok (), { s with agents := s.agents.store agent })
  else (.error errTenantIsolation, s)

def ownsAgent (agentID : String) : Bool := (s.agents.find agentID).any (·.organisationID = scope.organisationID)

/-- What `PutSource` asks of a source, apart from its agent. -/
def admitsSource (source : ManagedSource) : Bool :=
  source.organisationID = scope.organisationID && source.projectID = scope.projectID &&
    (scope.environmentID = "" || source.environmentID = scope.environmentID)

def putSource (source : ManagedSource) : Result Unit × Store :=
  if admitsSource scope source then
    if s.ownsAgent scope source.agentID then (.ok (), { s with sources := s.sources.store source })
    else (.error errTenantIsolation, s)
  else (.error errTenantIsolation, s)

def shows (source : ManagedSource) : Bool :=
  source.organisationID = scope.organisationID && (scope.projectID = "" || source.projectID = scope.projectID)

def getSource (id : String) : Result ManagedSource :=
  match s.sources.find id with
  | none => .error (.other "source not found")
  | some source => if shows scope source then .ok source else .error errTenantIsolation

def listSources : List ManagedSource := s.sources.rows.filter (shows scope)

def heartbeat (agentID : String) (now : Time) : Result Unit × Store :=
  match s.agents.find agentID with
  | none => (.error errTenantIsolation, s)
  | some agent =>
    if agent.organisationID = scope.organisationID then
      let seen := { agent with status := .online, lastSeenAt := some now, updatedAt := now }
      (.ok (), { s with agents := s.agents.store seen })
    else (.error errTenantIsolation, s)

end Store

inductive Call where
  | createOrganisation (org : Organisation)
  | createProject (scope : TenantScope) (project : Project)
  | createEnvironment (scope : TenantScope) (environment : Environment)
  | registerAgent (scope : TenantScope) (agent : Agent)
  | putSource (scope : TenantScope) (source : ManagedSource)
  | getSource (scope : TenantScope) (id : String)
  | listSources (scope : TenantScope)
  | heartbeat (scope : TenantScope) (agentID : String) (now : Time)

inductive Answer where
  | settled (result : Result Unit)
  | source (result : Result ManagedSource)
  | sources (list : List ManagedSource)

namespace Call

def organisationID : Call → Option String
  | .createOrganisation _ => none
  | .createProject scope _ | .createEnvironment scope _ | .registerAgent scope _ | .putSource scope _
  | .getSource scope _ | .listSources scope | .heartbeat scope .. => some scope.organisationID

def kept (organisationID : String) (call : Call) : Bool := call.organisationID.all (· = organisationID)

def observed (organisationID : String) (call : Call) : Bool := call.organisationID = some organisationID

end Call

namespace Store

def perform (s : Store) : Call → Answer × Store
  | .createOrganisation org => (s.createOrganisation org).map .settled id
  | .createProject scope project => (s.createProject scope project).map .settled id
  | .createEnvironment scope environment => (s.createEnvironment scope environment).map .settled id
  | .registerAgent scope agent => (s.registerAgent scope agent).map .settled id
  | .putSource scope source => (s.putSource scope source).map .settled id
  | .getSource scope id => (.source (s.getSource scope id), s)
  | .listSources scope => (.sources (s.listSources scope), s)
  | .heartbeat scope agentID now => (s.heartbeat scope agentID now).map .settled id

/-- What the calls of an organisation obtain. -/
def answers (organisationID : String) (s : Store) : List Call → List Answer
  | [] => []
  | call :: rest =>
    (if call.observed organisationID then [(s.perform call).1] else []) ++
      answers organisationID (s.perform call).2 rest

def run (calls : List Call) : Store := calls.foldl (fun s call => (s.perform call).2) new

end Store

def Answer.Same : Answer → Answer → Prop
  | .sources list, .sources list' => list.Perm list'
  | answer, answer' => answer = answer'

inductive Kind where
  | project | environment | agent | source
  deriving DecidableEq

namespace Call

/-- What a call looks up or writes. -/
def names : Call → List (Kind × String)
  | .createProject _ project => [(.project, project.id)]
  | .createEnvironment _ environment => [(.project, environment.projectID), (.environment, environment.id)]
  | .registerAgent _ agent => [(.agent, agent.id)]
  | .putSource _ source => [(.agent, source.agentID), (.source, source.id)]
  | .getSource _ id => [(.source, id)]
  | .heartbeat _ agentID _ => [(.agent, agentID)]
  | .createOrganisation _ | .listSources _ => []

/-- What a call may put into the store. -/
def creates : Call → List (Kind × String)
  | .createProject _ project => [(.project, project.id)]
  | .createEnvironment _ environment => [(.environment, environment.id)]
  | .registerAgent _ agent => [(.agent, agent.id)]
  | .putSource _ source => [(.source, source.id)]
  | _ => []

end Call

/-- Nothing that an organisation names is created by a call of another one. -/
def Disjoint (organisationID : String) (calls : List Call) : Prop :=
  ∀ call ∈ calls, ∀ other ∈ calls, call.organisationID = some organisationID → other.kept organisationID = false →
    ∀ entry ∈ call.names, entry ∉ other.creates

section
variable {κ ρ : Type} [DecidableEq κ] {key : ρ → κ}

/-- A table that all use and the one that an organisation would have by itself agree on what is its own. -/
structure Apart (owner : ρ → String) (organisationID : String) (mine : κ → Prop) (all own : Table key) : Prop where
  same : ∀ id, mine id → all.find id = own.find id
  owned : ∀ r ∈ own.rows, owner r = organisationID ∧ mine (key r)
  others : ∀ r ∈ all.rows, owner r = organisationID → mine (key r)

namespace Apart
variable {owner : ρ → String} {organisationID : String} {mine : κ → Prop} {all own : Table key} {r : ρ} {id : κ}

theorem empty (owner : ρ → String) (organisationID : String) (mine : κ → Prop) :
    Apart owner organisationID mine (.empty : Table key) .empty :=
  ⟨fun _ _ => rfl, fun _ h => (nomatch h), fun _ h => (nomatch h)⟩

variable (h : Apart owner organisationID mine all own)
include h

theorem store_both (hOwner : owner r = organisationID) (hMine : mine (key r)) :
    Apart owner organisationID mine (all.store r) (own.store r) where
  same id hID := by rw [Table.find_store, Table.find_store, h.same id hID]
  owned other hIn := by
    rcases Table.mem_store.mp hIn with rfl | ⟨hOld, -⟩
    · exact ⟨hOwner, hMine⟩
    · exact h.owned other hOld
  others other hIn hOther := by
    rcases Table.mem_store.mp hIn with rfl | ⟨hOld, -⟩
    · exact hMine
    · exact h.others other hOld hOther

theorem store_other (hOwner : owner r ≠ organisationID) (hMine : ¬ mine (key r)) :
    Apart owner organisationID mine (all.store r) own where
  same id hID := by
    have hNe : id ≠ key r := fun hSame => hMine (hSame ▸ hID)
    rw [Table.find_store, if_neg hNe, h.same id hID]
  owned := h.owned
  others other hIn hOther := by
    rcases Table.mem_store.mp hIn with rfl | ⟨hOld, -⟩
    · exact absurd hOther hOwner
    · exact h.others other hOld hOther

/-- A row of another organisation is not under an ID of this one. -/
theorem not_mine (hFind : all.find id = some r) (hOwner : owner r ≠ organisationID) : ¬ mine id := by
  intro hMine
  rw [h.same id hMine] at hFind
  exact hOwner (h.owned r (Table.find_eq_some.mp hFind).1).1

theorem mem_iff (hOwner : owner r = organisationID) : r ∈ all.rows ↔ r ∈ own.rows := by
  rw [Table.mem_rows, Table.mem_rows]
  constructor
  · intro hFind
    rwa [← h.same _ (h.others r (Table.mem_rows.mpr hFind) hOwner)]
  · intro hFind
    rwa [h.same _ (h.owned r (Table.mem_rows.mpr hFind)).2]

/-- The rows of the organisation are those it would have by itself. -/
theorem perm_filter {p : ρ → Bool} (hOwn : ∀ r, p r = true → owner r = organisationID) :
    (all.rows.filter p).Perm (own.rows.filter p) := by
  have hNodup : ∀ t : Table key, (t.rows.filter p).Nodup := fun t => (Nodup.of_map _ t.distinct).filter _
  rw [perm_ext_iff_of_nodup (hNodup all) (hNodup own)]
  intro r
  rw [mem_filter, mem_filter]
  exact and_congr_left fun hp => h.mem_iff (hOwn r hp)

end Apart

end

/-- The five maps, with `mine` for the IDs that the organisation names. -/
structure Related (organisationID : String) (mine : Kind → String → Prop) (all own : Store) : Prop where
  organisations : all.organisations = own.organisations
  projects : Apart (·.organisationID) organisationID (mine .project) all.projects own.projects
  environments : Apart (·.organisationID) organisationID (mine .environment) all.environments own.environments
  agents : Apart (·.organisationID) organisationID (mine .agent) all.agents own.agents
  sources : Apart (·.organisationID) organisationID (mine .source) all.sources own.sources

namespace Related
variable {organisationID : String} {mine : Kind → String → Prop} {all own : Store} {call : Call}

theorem new (organisationID : String) (mine : Kind → String → Prop) : Related organisationID mine .new .new :=
  ⟨rfl, .empty .., .empty .., .empty .., .empty ..⟩

variable (h : Related organisationID mine all own)
include h

theorem ownsAgent_eq {scope : TenantScope} {agentID : String} (hMine : mine .agent agentID) :
    all.ownsAgent scope agentID = own.ownsAgent scope agentID := by
  rw [Store.ownsAgent, Store.ownsAgent, h.agents.same agentID hMine]

/-- A call of the organisation has the same answer and leaves the maps related. -/
theorem kept (hKept : call.kept organisationID = true) (hMine : ∀ kind id, (kind, id) ∈ call.names → mine kind id) :
    (all.perform call).1.Same (own.perform call).1 ∧
      Related organisationID mine (all.perform call).2 (own.perform call).2 := by
  cases call with
  | createOrganisation org =>
    simp only [Store.perform, Store.createOrganisation, h.organisations]
    split_ifs
    · exact ⟨rfl, h⟩
    · exact ⟨rfl, h⟩
    · exact ⟨rfl, { h with organisations := rfl }⟩
  | createProject scope project =>
    have hScope : scope.organisationID = organisationID := by simpa [Call.kept, Call.organisationID] using hKept
    have hProject : mine .project project.id := hMine _ _ (by simp [Call.names])
    simp only [Store.perform, Store.createProject, h.organisations, h.projects.same project.id hProject]
    split_ifs with hRefused
    · exact ⟨rfl, h⟩
    · exact ⟨rfl, h⟩
    · exact ⟨rfl, h⟩
    · have hOwner : project.organisationID = organisationID := by
        rw [← hScope]
        by_contra hOther
        exact hRefused (.inr hOther)
      exact ⟨rfl, { h with organisations := rfl, projects := h.projects.store_both hOwner hProject }⟩
  | createEnvironment scope environment =>
    have hScope : scope.organisationID = organisationID := by simpa [Call.kept, Call.organisationID] using hKept
    simp only [Store.perform, Store.createEnvironment,
      h.projects.same environment.projectID (hMine _ _ (by simp [Call.names]))]
    split_ifs with hRefused
    · exact ⟨rfl, h⟩
    · exact ⟨rfl, h⟩
    · have hOwner : environment.organisationID = organisationID := by
        rw [← hScope]
        by_contra hOther
        exact hRefused (.inl hOther)
      exact ⟨rfl, { h with environments := h.environments.store_both hOwner (hMine _ _ (by simp [Call.names])) }⟩
  | registerAgent scope agent =>
    have hScope : scope.organisationID = organisationID := by simpa [Call.kept, Call.organisationID] using hKept
    simp only [Store.perform, Store.registerAgent]
    split_ifs with hAdmits
    · simp only [Store.admitsAgent, Bool.and_eq_true, decide_eq_true_eq] at hAdmits
      exact ⟨rfl, { h with
        agents := h.agents.store_both (hAdmits.1.trans hScope) (hMine _ _ (by simp [Call.names])) }⟩
    · exact ⟨rfl, h⟩
  | putSource scope source =>
    have hScope : scope.organisationID = organisationID := by simpa [Call.kept, Call.organisationID] using hKept
    have hAgent : mine .agent source.agentID := hMine _ _ (by simp [Call.names])
    simp only [Store.perform, Store.putSource, h.ownsAgent_eq hAgent]
    split_ifs with hAdmits
    · simp only [Store.admitsSource, Bool.and_eq_true, decide_eq_true_eq] at hAdmits
      exact ⟨rfl, { h with
        sources := h.sources.store_both (hAdmits.1.1.trans hScope) (hMine _ _ (by simp [Call.names])) }⟩
    · exact ⟨rfl, h⟩
    · exact ⟨rfl, h⟩
  | getSource scope id =>
    refine ⟨?_, h⟩
    simp only [Store.perform, Store.getSource, h.sources.same id (hMine _ _ (by simp [Call.names]))]
    rfl
  | listSources scope =>
    have hScope : scope.organisationID = organisationID := by simpa [Call.kept, Call.organisationID] using hKept
    refine ⟨h.sources.perm_filter fun source hShown => ?_, h⟩
    simp only [Store.shows, Bool.and_eq_true, decide_eq_true_eq] at hShown
    exact hShown.1.trans hScope
  | heartbeat scope agentID now =>
    have hScope : scope.organisationID = organisationID := by simpa [Call.kept, Call.organisationID] using hKept
    have hAgent : mine .agent agentID := hMine _ _ (by simp [Call.names])
    simp only [Store.perform, Store.heartbeat, h.agents.same agentID hAgent]
    cases hFind : own.agents.find agentID with
    | none => exact ⟨rfl, h⟩
    | some agent =>
      obtain ⟨-, rfl⟩ := Table.find_eq_some.mp hFind
      dsimp only
      split_ifs with hOwner
      · exact ⟨rfl, { h with agents := h.agents.store_both (hOwner.trans hScope) hAgent }⟩
      · exact ⟨rfl, h⟩

/-- A call of another organisation leaves the maps related. -/
theorem other (hOther : call.kept organisationID = false) (hMine : ∀ kind id, (kind, id) ∈ call.creates → ¬ mine kind id) :
    Related organisationID mine (all.perform call).2 own := by
  cases call with
  | createOrganisation org => simp [Call.kept, Call.organisationID] at hOther
  | createProject scope project =>
    have hScope : scope.organisationID ≠ organisationID := by simpa [Call.kept, Call.organisationID] using hOther
    simp only [Store.perform, Store.createProject]
    split_ifs with hRefused
    · exact h
    · exact h
    · exact h
    · have hOwner : project.organisationID ≠ organisationID := by
        rintro rfl
        exact hRefused (.inr (Ne.symm hScope))
      exact { h with projects := h.projects.store_other hOwner (hMine _ _ (by simp [Call.creates])) }
  | createEnvironment scope environment =>
    have hScope : scope.organisationID ≠ organisationID := by simpa [Call.kept, Call.organisationID] using hOther
    simp only [Store.perform, Store.createEnvironment]
    split_ifs with hRefused
    · exact h
    · exact h
    · have hOwner : environment.organisationID ≠ organisationID := by
        rintro rfl
        exact hRefused (.inl (Ne.symm hScope))
      exact { h with environments := h.environments.store_other hOwner (hMine _ _ (by simp [Call.creates])) }
  | registerAgent scope agent =>
    have hScope : scope.organisationID ≠ organisationID := by simpa [Call.kept, Call.organisationID] using hOther
    simp only [Store.perform, Store.registerAgent]
    split_ifs with hAdmits
    · simp only [Store.admitsAgent, Bool.and_eq_true, decide_eq_true_eq] at hAdmits
      exact { h with
        agents := h.agents.store_other (hAdmits.1 ▸ hScope) (hMine _ _ (by simp [Call.creates])) }
    · exact h
  | putSource scope source =>
    have hScope : scope.organisationID ≠ organisationID := by simpa [Call.kept, Call.organisationID] using hOther
    simp only [Store.perform, Store.putSource]
    split_ifs with hAdmits
    · simp only [Store.admitsSource, Bool.and_eq_true, decide_eq_true_eq] at hAdmits
      exact { h with
        sources := h.sources.store_other (hAdmits.1.1 ▸ hScope) (hMine _ _ (by simp [Call.creates])) }
    · exact h
    · exact h
  | getSource scope id => exact h
  | listSources scope => exact h
  | heartbeat scope agentID now =>
    have hScope : scope.organisationID ≠ organisationID := by simpa [Call.kept, Call.organisationID] using hOther
    simp only [Store.perform, Store.heartbeat]
    cases hFind : all.agents.find agentID with
    | none => exact h
    | some agent =>
      obtain ⟨-, rfl⟩ := Table.find_eq_some.mp hFind
      dsimp only
      split_ifs with hOwner
      · have hNot : agent.organisationID ≠ organisationID := hOwner ▸ hScope
        exact { h with agents := h.agents.store_other hNot (h.agents.not_mine hFind hNot) }
      · exact h

end Related

theorem related_run {organisationID : String} {mine : Kind → String → Prop} {all own : Store}
    (h : Related organisationID mine all own) (calls : List Call)
    (hOwn : ∀ call ∈ calls, call.kept organisationID = true → ∀ kind id, (kind, id) ∈ call.names → mine kind id)
    (hOthers : ∀ call ∈ calls, call.kept organisationID = false → ∀ kind id, (kind, id) ∈ call.creates → ¬ mine kind id) :
    List.Forall₂ Answer.Same (all.answers organisationID calls)
        (own.answers organisationID (calls.filter (·.kept organisationID))) ∧
      Related organisationID mine (calls.foldl (fun s call => (s.perform call).2) all)
        ((calls.filter (·.kept organisationID)).foldl (fun s call => (s.perform call).2) own) := by
  induction calls generalizing all own with
  | nil => exact ⟨.nil, h⟩
  | cons call rest ih =>
    obtain ⟨hCall, hRest⟩ := forall_mem_cons.mp hOwn
    obtain ⟨hOther, hOtherRest⟩ := forall_mem_cons.mp hOthers
    cases hKept : call.kept organisationID with
    | false =>
      have hNot : call.observed organisationID = false := by
        rw [Bool.eq_false_iff]
        intro hObserved
        simp [Call.kept, of_decide_eq_true hObserved] at hKept
      have hLater := ih (h.other hKept (hOther hKept)) hRest hOtherRest
      simpa [filter_cons, hKept, Store.answers, hNot] using hLater
    | true =>
      obtain ⟨hSame, hNext⟩ := h.kept hKept (hCall hKept)
      obtain ⟨hAnswers, hRelated⟩ := ih hNext hRest hOtherRest
      rw [filter_cons_of_pos hKept]
      refine ⟨?_, hRelated⟩
      rw [Store.answers, Store.answers]
      split
      · exact .cons hSame hAnswers
      · exact hAnswers

/-- All calls of the organisation obtain what they would without the calls of others, and the
organisation has the projects, environments, agents and sources it would have then. -/
structure Isolated (organisationID : String) (calls : List Call) : Prop where
  answers : List.Forall₂ Answer.Same (Store.new.answers organisationID calls)
    (Store.new.answers organisationID (calls.filter (·.kept organisationID)))
  projects : ∀ project : Project, project.organisationID = organisationID →
    (project ∈ (Store.run calls).projects.rows ↔
      project ∈ (Store.run (calls.filter (·.kept organisationID))).projects.rows)
  environments : ∀ environment : Environment, environment.organisationID = organisationID →
    (environment ∈ (Store.run calls).environments.rows ↔
      environment ∈ (Store.run (calls.filter (·.kept organisationID))).environments.rows)
  agents : ∀ agent : Agent, agent.organisationID = organisationID →
    (agent ∈ (Store.run calls).agents.rows ↔
      agent ∈ (Store.run (calls.filter (·.kept organisationID))).agents.rows)
  sources : ∀ source : ManagedSource, source.organisationID = organisationID →
    (source ∈ (Store.run calls).sources.rows ↔
      source ∈ (Store.run (calls.filter (·.kept organisationID))).sources.rows)

/-- Organisations are isolated in every run in which no other one creates what this one names. -/
theorem tenant_isolated (organisationID : String) (calls : List Call) (hDisjoint : Disjoint organisationID calls) :
    Isolated organisationID calls := by
  obtain ⟨hAnswers, hRelated⟩ := related_run (.new organisationID fun kind id =>
    ∃ call ∈ calls, call.organisationID = some organisationID ∧ (kind, id) ∈ call.names) calls
      (fun call hIn hKept kind id hEntry => by
        cases hOrganisation : call.organisationID with
        | none => cases call <;> simp [Call.organisationID, Call.names] at hOrganisation hEntry
        | some scopeID =>
          have hSame : scopeID = organisationID := by simpa [Call.kept, hOrganisation] using hKept
          exact ⟨call, hIn, hSame ▸ hOrganisation, hEntry⟩)
      (fun other hIn hOther kind id hEntry ⟨call, hCall, hOwn, hNamed⟩ =>
        hDisjoint call hCall other hIn hOwn hOther (kind, id) hNamed hEntry)
  exact ⟨hAnswers, fun _ => hRelated.projects.mem_iff, fun _ => hRelated.environments.mem_iff,
    fun _ => hRelated.agents.mem_iff, fun _ => hRelated.sources.mem_iff⟩

namespace Sample

def shared : List Call :=
  [.createOrganisation ⟨"acme", "Acme"⟩, .createOrganisation ⟨"globex", "Globex"⟩,
    .registerAgent { organisationID := "acme" } { id := "agent-1", organisationID := "acme" },
    .putSource { organisationID := "acme" }
      { id := "orders", organisationID := "acme", agentID := "agent-1" },
    .registerAgent { organisationID := "globex" } { id := "agent-1", organisationID := "globex" },
    .putSource { organisationID := "globex" }
      { id := "orders", organisationID := "globex", agentID := "agent-1" },
    .heartbeat { organisationID := "acme" } "agent-1" 0,
    .getSource { organisationID := "acme" } "orders",
    .listSources { organisationID := "acme" }]

def separate : List Call :=
  shared.take 4 ++
    [.registerAgent { organisationID := "globex" } { id := "agent-2", organisationID := "globex" },
      .putSource { organisationID := "globex" }
        { id := "invoices", organisationID := "globex", agentID := "agent-2" }] ++ shared.drop 6

theorem separate_isolated : Disjoint "acme" separate ∧ Isolated "acme" separate := by
  have hDisjoint : Disjoint "acme" separate := by
    unfold Disjoint
    decide
  exact ⟨hDisjoint, tenant_isolated "acme" separate hDisjoint⟩

def succeeds : Answer → Bool
  | .settled result => result.isOk
  | .source result => result.isOk
  | .sources list => !list.isEmpty

end Sample

open Sample in
/-- The second organisation takes the agent and the source of the first: its put
had succeeded, and now its heartbeat and its look at the source fail and its list
is empty. -/
theorem tenant_taken_over :
    (Store.new.answers "acme" shared).map succeeds = [true, true, false, false, false] ∧
      (Store.new.answers "acme" (shared.filter (·.kept "acme"))).map succeeds = [true, true, true, true, true] := by
  decide

end DBVault.ControlPlane
