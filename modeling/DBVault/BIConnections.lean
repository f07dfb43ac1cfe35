import DBVault.Digest
import DBVault.Interaction.Calls
import DBVault.Text.Words

/-! The connections of business intelligence tools: their bearer tokens, of which only a
hash is kept, and what a token lets its holder read. -/
namespace DBVault.BI
open List Text

structure BIDatasetScope where
  (database table : String)
  deriving DecidableEq

structure BIConnection where
  (id name provider : String)
  datasets : List BIDatasetScope
  tokenHash : String
  createdAt : Time
  (lastUsedAt expiresAt revokedAt : Option Time := none)
  deriving DecidableEq

structure BIConnectionInput where
  (name provider : String)
  datasets : List BIDatasetScope
  expiresIn : Int := 0

/-- What the service is given: a hash function, the letter case of runes and `%q`. -/
structure Setting where
  hashes : Hashes
  letters : CaseMapping
  quote : String → String

def identifierStart (c : Char) : Bool := c.isAlpha || c == '_'

/-- `biIdentifier`. -/
def isIdentifier (text : String) : Bool :=
  match text.toList with
  | [] => false
  | first :: rest => identifierStart first && rest.all fun c => identifierStart c || c.isDigit

/-- `biDatabaseIdentifier`. -/
def isDatabaseIdentifier (text : String) : Bool :=
  text ≠ "" && text.toList.all fun c => c.isAlphanum || ['_', '.', '-'].contains c

def validBIDataset (scope : BIDatasetScope) : Bool :=
  (scope.database = "" || scope.database = "duckdb" || scope.database = "auto" ||
      isDatabaseIdentifier scope.database) &&
    isIdentifier scope.table

def Setting.normalizeBIProvider (env : Setting) (provider : String) : String :=
  env.letters.toLower (trimSpace provider)

def Setting.validBIProvider (env : Setting) (provider : String) : Bool :=
  ["powerbi", "excel", "tableau", "metabase", "superset", "python"].contains
    (env.normalizeBIProvider provider)

/-- The checks of the datasets, one after the other, with the names seen so far. -/
def Setting.checkDatasets (env : Setting) (seen : List String) : List BIDatasetScope → Result Unit
  | [] => .ok ()
  | dataset :: rest =>
    if !validBIDataset dataset then .error (.other "invalid dataset scope")
    else
      let key := dataset.database ++ "." ++ dataset.table
      if key ∈ seen then .error (.other ("duplicate dataset scope " ++ env.quote key))
      else env.checkDatasets (key :: seen) rest

def day : Int := 24 * Time.hour

def BIDatasetScope.allows (scope : BIDatasetScope) (database table : String) : Bool :=
  scope.table = table &&
    (scope.database = "" || scope.database = database ||
      (scope.database = "duckdb" && (database = "" || database = "duckdb")))

abbrev Service := String → Option BIConnection

def Setting.tokenHash (env : Setting) (token : String) : String := (env.hashes.sha256 (utf8 token)).hex

def Setting.notFound (env : Setting) (id : String) : GoError :=
  .other ("BI connection " ++ env.quote id ++ " not found")

/-- The connection `CreateBIConnection` makes, once the name and the provider are trimmed.
The token and the ID are random. -/
def Setting.newConnection (env : Setting) (input : BIConnectionInput) (token id : String)
    (now : Time) : BIConnection where
  id := id
  name := trimSpace input.name
  provider := env.normalizeBIProvider input.provider
  datasets := input.datasets
  tokenHash := env.tokenHash token
  createdAt := now
  expiresAt := if 0 < input.expiresIn then some (now + input.expiresIn * day) else none

/-- What `CreateBIConnection` asks of its input before it draws a token. -/
def Setting.checkInput (env : Setting) (input : BIConnectionInput) : Result Unit := do
  let name := trimSpace input.name
  if name = "" ∨ 120 < (utf8 name).length then
    throw (.other "connection name is required and must be at most 120 characters")
  if !env.validBIProvider (env.normalizeBIProvider input.provider) then
    throw (.other ("unsupported BI provider " ++ env.quote (env.normalizeBIProvider input.provider)))
  if input.datasets.length = 0 ∨ 100 < input.datasets.length then
    throw (.other "select at least one dataset")
  env.checkDatasets [] input.datasets

namespace Service
variable (env : Setting) (s : Service)

/-- `CreateBIConnection`, with the random token and ID, or none where there is no
randomness. -/
def createBIConnection (input : BIConnectionInput) (token id : Option String) (now : Time) :
    Result (String × String) × Service :=
  match env.checkInput input with
  | .error err => (.error err, s)
  | .ok () =>
    match token, id with
    | some token, some id =>
      if 3650 < input.expiresIn then (.error (.other "expiration cannot exceed 3650 days"), s)
      else
        (.ok (id, token), Function.update s id (some (env.newConnection input token id now)))
    | none, _ => (.error (.other "generate BI token: no randomness"), s)
    | _, none => (.error (.other "no randomness"), s)

def rotateBIConnection (id : String) (token : Option String) : Result (String × String) × Service :=
  match token with
  | none => (.error (.other "no randomness"), s)
  | some token =>
    match s id with
    | none => (.error (env.notFound id), s)
    | some c =>
      if c.revokedAt.isSome then (.error (.other "BI connection is revoked"), s)
      else
        (.ok (id, token),
          Function.update s id (some { c with tokenHash := env.tokenHash token, lastUsedAt := none }))

def revokeBIConnection (id : String) (now : Time) : Result Unit × Service :=
  match s id with
  | none => (.error (env.notFound id), s)
  | some c =>
    (.ok (),
      if c.revokedAt.isNone then
        Function.update s id (some { c with revokedAt := some now, tokenHash := "" })
      else s)

def authorizeBIFeed (connectionID token database table : String) (now : Time) : Result Unit × Service :=
  if connectionID = "" ∨ token = "" then
    (.error (.other "BI connection credentials are required"), s)
  else
    match s connectionID with
    | none => (.error (.other "invalid BI connection credentials"), s)
    | some c =>
      if c.tokenHash = "" ∨ !env.letters.equalFold c.tokenHash (env.tokenHash token) then
        (.error (.other "invalid BI connection credentials"), s)
      else if c.revokedAt.isSome then (.error (.other "BI connection has been revoked"), s)
      else if c.expiresAt.any (· ≤ now) then (.error (.other "BI connection has expired"), s)
      else if !c.datasets.any (·.allows database table) then
        (.error (.other "dataset is not included in this BI connection"), s)
      else (.ok (), Function.update s connectionID (some { c with lastUsedAt := some now }))

end Service

inductive Call where
  | create (input : BIConnectionInput) (token id : Option String) (now : Time)
  | rotate (id : String) (token : Option String)
  | revoke (id : String) (now : Time)
  | authorize (connectionID token database table : String) (now : Time)

inductive Answer where
  | issued (id token : String)
  | done
  | refused (err : GoError)

namespace Answer

def ofIssue : Result (String × String) → Answer
  | .ok (id, token) => .issued id token
  | .error err => .refused err

def ofUnit : Result Unit → Answer
  | .ok () => .done
  | .error err => .refused err

end Answer

def Call.token : Call → Option String
  | .create _ token _ _ | .rotate _ token => token
  | _ => none

def Call.newID : Call → Option String
  | .create _ _ id _ => id
  | _ => none

namespace Service
variable (env : Setting)

def perform (s : Service) : Call → Answer × Service
  | .create input token newID now => (s.createBIConnection env input token newID now).map .ofIssue id
  | .rotate connectionID token => (s.rotateBIConnection env connectionID token).map .ofIssue id
  | .revoke connectionID now => (s.revokeBIConnection env connectionID now).map .ofUnit id
  | .authorize connectionID token database table now =>
    (s.authorizeBIFeed env connectionID token database table now).map .ofUnit id

def empty : Service := fun _ => none

def component : Interaction.Component Service Call Answer := ⟨empty, perform env⟩

def run (calls : List Call) : Service := (component env).run calls

def transcript (calls : List Call) : List (Call × Answer) := (component env).transcript calls

variable {env} {calls : List Call} {call : Call}

theorem run_snoc : run env (calls ++ [call]) = ((run env calls).perform env call).2 :=
  (component env).run_snoc calls call

theorem transcript_snoc :
    transcript env (calls ++ [call]) = transcript env calls ++ [(call, ((run env calls).perform env call).1)] :=
  (component env).transcript_snoc calls call

inductive Change (env : Setting) (id : String) (s : Service) : Call → Answer → Service → Prop where
  | same {call answer next} (isSame : next id = s id)
      (issues : ∀ token, answer ≠ .issued id token) (revokes : ∀ now, (call, answer) ≠ (.revoke id now, .done)) :
      Change env id s call answer next
  | created {next} (input : BIConnectionInput) (token : String) (now : Time)
      (isNew : next id = some (env.newConnection input token id now)) :
      Change env id s (.create input (some token) (some id) now) (.issued id token) next
  | rotated {next} (c : BIConnection) (token : String) (was : s id = some c)
      (active : c.revokedAt = none)
      (isNow : next id = some { c with tokenHash := env.tokenHash token, lastUsedAt := none }) :
      Change env id s (.rotate id (some token)) (.issued id token) next
  | revoked {next} (c : BIConnection) (now : Time) (was : s id = some c)
      (isNow : next id = some c ∧ c.revokedAt.isSome ∨
        next id = some { c with revokedAt := some now, tokenHash := "" }) :
      Change env id s (.revoke id now) .done next
  | used {next} (c : BIConnection) (now : Time) (call : Call) (was : s id = some c)
      (isNow : next id = some { c with lastUsedAt := some now })
      (revokes : ∀ now, (call, Answer.done) ≠ (.revoke id now, .done)) :
      Change env id s call .done next

theorem Change.refused (env : Setting) (id : String) (s : Service) (call : Call) (err : GoError) :
    Change env id s call (.refused err) s :=
  .same rfl (fun _ h => Answer.noConfusion h) fun _ h => Answer.noConfusion (Prod.mk.inj h).2

variable {token database : String} {s : Service} {table : String}

theorem authorize_ok {connectionID : String} {now : Time}
    (hOk : (s.authorizeBIFeed env connectionID token database table now).1 = .ok ()) :
    ∃ c, s connectionID = some c ∧ c.tokenHash ≠ "" ∧
      env.letters.equalFold c.tokenHash (env.tokenHash token) ∧ c.revokedAt = none ∧
      (∀ expiry, c.expiresAt = some expiry → now < expiry) ∧
      ∃ scope ∈ c.datasets, scope.allows database table := by
  unfold authorizeBIFeed at hOk
  split_ifs at hOk with hBlank
  split at hOk
  · cases hOk
  · rename_i c hFind
    split_ifs at hOk with hToken hRevoked hExpired hScope
    obtain ⟨hHash, hFold⟩ := not_or.mp hToken
    refine ⟨c, hFind, hHash, by simpa using hFold, by simpa using hRevoked, ?_, by simpa using hScope⟩
    intro expiry hExpiry
    simpa [hExpiry] using hExpired

theorem authorize_next (env : Setting) (s : Service) (connectionID token database table : String)
    (now : Time) :
    (∃ err, s.authorizeBIFeed env connectionID token database table now = (.error err, s)) ∨
      ∃ c, s connectionID = some c ∧ s.authorizeBIFeed env connectionID token database table now =
        (.ok (), Function.update s connectionID (some { c with lastUsedAt := some now })) := by
  unfold authorizeBIFeed
  split_ifs
  · exact Or.inl ⟨_, rfl⟩
  · split
    · exact Or.inl ⟨_, rfl⟩
    · rename_i c hFind
      split_ifs
      · exact Or.inl ⟨_, rfl⟩
      · exact Or.inl ⟨_, rfl⟩
      · exact Or.inl ⟨_, rfl⟩
      · exact Or.inl ⟨_, rfl⟩
      · exact Or.inr ⟨c, hFind, rfl⟩

theorem perform_change (env : Setting) (id : String) (s : Service) (call : Call) :
    Change env id s call (s.perform env call).1 (s.perform env call).2 := by
  cases call with
  | create input token newID now =>
    simp only [perform, createBIConnection]
    split
    · exact .refused ..
    · split
      · split
        · exact .refused ..
        · rename_i token newID _
          by_cases hID : id = newID
          · subst hID
            exact .created input token now (by simp)
          · exact .same (by simp [hID]) (fun _ h => hID (Answer.issued.inj h).1.symm)
              (fun _ h => Call.noConfusion (Prod.mk.inj h).1)
      · exact .refused ..
      · exact .refused ..
  | rotate connectionID token =>
    simp only [perform, rotateBIConnection]
    split
    · exact .refused ..
    · split
      · exact .refused ..
      · rename_i token _ c hFind
        split_ifs with hRevoked
        · exact .refused ..
        · by_cases hID : id = connectionID
          · subst hID
            exact .rotated c token hFind (by simpa using hRevoked) (by simp)
          · exact .same (by simp [hID]) (fun _ h => hID (Answer.issued.inj h).1.symm)
              (fun _ h => Call.noConfusion (Prod.mk.inj h).1)
  | revoke connectionID now =>
    simp only [perform, revokeBIConnection]
    split
    · exact .refused ..
    · rename_i c hFind
      by_cases hID : id = connectionID
      · subst hID
        refine .revoked c now hFind ?_
        by_cases hRevoked : c.revokedAt.isNone
        · exact Or.inr (by simp [hRevoked])
        · exact Or.inl ⟨by simp [hRevoked, hFind], by simpa [Option.isSome_iff_ne_none] using hRevoked⟩
      · refine .same ?_ (fun _ h => Answer.noConfusion h) ?_
        · by_cases hRevoked : c.revokedAt.isNone <;> simp [hRevoked, hID]
        · intro at' hSame
          exact hID (Call.revoke.inj (Prod.mk.inj hSame).1).1.symm
  | authorize connectionID token database table now =>
    simp only [perform]
    rcases authorize_next env s connectionID token database table now with
      ⟨err, hNext⟩ | ⟨c, hFind, hNext⟩
    · rw [hNext]
      exact .refused ..
    · rw [hNext]
      by_cases hID : id = connectionID
      · subst hID
        exact .used c now _ hFind (by simp) fun _ h => Call.noConfusion (Prod.mk.inj h).1
      · exact .same (by simp [hID]) (fun _ h => Answer.noConfusion h) fun _ h => Call.noConfusion (Prod.mk.inj h).1

theorem exists_change (env : Setting) (id : String) (s : Service) (call : Call) :
    ∃ answer, (s.perform env call).1 = answer ∧ Change env id s call answer (s.perform env call).2 :=
  ⟨_, rfl, perform_change env id s call⟩

variable {id : String}

/-- The call is the one that has created a connection, with this token. -/
structure Creation (env : Setting) (calls : List Call) (id : String) (input : BIConnectionInput)
    (created : Time) : Prop where
  issued : ∃ first, (.create input (some first) (some id) created, .issued id first) ∈ transcript env calls

/-- The token is the last one that was issued for the connection. -/
structure Latest (env : Setting) (calls : List Call) (id token : String)
    (earlier later : List (Call × Answer)) (call : Call) : Prop where
  split : transcript env calls = earlier ++ (call, .issued id token) :: later
  drawn : call.token = some token
  last : ∀ entry ∈ later, ∀ other, entry.2 ≠ .issued id other

def Revoked (env : Setting) (calls : List Call) (id : String) : Prop :=
  ∃ now, (.revoke id now, .done) ∈ transcript env calls

/-- A connection is as it was created, with the token of the last issue, and has not been
revoked unless it says so. -/
structure Known (env : Setting) (calls : List Call) (id : String) (c : BIConnection) : Prop where
  creation : ∃ input created, Creation env calls id input created ∧ c.datasets = input.datasets ∧
    c.expiresAt = if 0 < input.expiresIn then some (created + input.expiresIn * day) else none
  latest : c.revokedAt = none → ∃ token earlier later call,
    Latest env calls id token earlier later call ∧ c.tokenHash = env.tokenHash token
  active : c.revokedAt = none → ¬ Revoked env calls id

theorem Creation.snoc {input : BIConnectionInput} {created : Time}
    (creation : Creation env calls id input created) : Creation env (calls ++ [call]) id input created := by
  obtain ⟨first, hIssued⟩ := creation.issued
  exact ⟨first, by rw [transcript_snoc]; exact mem_append_left _ hIssued⟩

theorem Latest.snoc (latest : Latest env calls id token earlier later issuing)
    (hIssues : ∀ other, ((run env calls).perform env call).1 ≠ .issued id other) :
    Latest env (calls ++ [call]) id token earlier
      (later ++ [(call, ((run env calls).perform env call).1)]) issuing where
  split := by rw [transcript_snoc, latest.split, append_assoc, cons_append]
  drawn := latest.drawn
  last entry hIn := by
    rcases mem_append.mp hIn with hIn | hNew
    · exact latest.last entry hIn
    · rw [mem_singleton.mp hNew]
      exact hIssues

theorem latest_of_issue (hDrawn : call.token = some token)
    (hIssued : ((run env calls).perform env call).1 = .issued id token) :
    Latest env (calls ++ [call]) id token (transcript env calls) [] call where
  split := by rw [transcript_snoc, hIssued]
  drawn := hDrawn
  last _ hIn := absurd hIn not_mem_nil

theorem revoked_snoc : Revoked env (calls ++ [call]) id ↔ Revoked env calls id ∨
    ∃ now, (call, ((run env calls).perform env call).1) = (.revoke id now, .done) := by
  simp only [Revoked, transcript_snoc, mem_append, mem_singleton, exists_or,
    @eq_comm _ (Call.revoke id _, Answer.done)]

theorem id_drawn (hKnown : run env calls id ≠ none) : id ∈ calls.filterMap Call.newID := by
  induction calls using List.reverseRecOn with
  | nil => exact absurd rfl hKnown
  | append_singleton calls call ih =>
    rw [filterMap_append, mem_append]
    rw [run_snoc] at hKnown
    obtain ⟨answer, hAnswer, hChange⟩ := exists_change env id (run env calls) call
    cases hChange with
    | same isSame => exact Or.inl (ih (isSame ▸ hKnown))
    | created => exact Or.inr (by simp [Call.newID])
    | rotated c token was => exact Or.inl (ih (by simp [was]))
    | revoked c now was => exact Or.inl (ih (by simp [was]))
    | used c now call was => exact Or.inl (ih (by simp [was]))

theorem not_revoked (hNone : run env calls id = none) : ¬ Revoked env calls id := by
  induction calls using List.reverseRecOn with
  | nil => exact fun ⟨now, hIn⟩ => absurd hIn not_mem_nil
  | append_singleton calls call ih =>
    rw [run_snoc] at hNone
    obtain ⟨answer, hAnswer, hChange⟩ := exists_change env id (run env calls) call
    rw [revoked_snoc, hAnswer]
    cases hChange with
    | same isSame issues revokes => exact not_or.mpr ⟨ih (isSame ▸ hNone), fun ⟨now, hSame⟩ => revokes now hSame⟩
    | created input token now isNew => simp [hNone] at isNew
    | rotated c token was active isNow => simp [hNone] at isNow
    | revoked c now was isNow => simp [hNone] at isNow
    | used c now call was isNow => simp [hNone] at isNow

theorem Known.snoc (known : Known env calls id c)
    (hIssues : ∀ other, ((run env calls).perform env call).1 ≠ .issued id other)
    (hRevokes : ∀ now, (call, ((run env calls).perform env call).1) ≠ (.revoke id now, .done)) :
    Known env (calls ++ [call]) id c where
  creation :=
    let ⟨input, created, creation, hFields⟩ := known.creation
    ⟨input, created, creation.snoc, hFields⟩
  latest hActive :=
    let ⟨token, earlier, later, issuing, latest, hHash⟩ := known.latest hActive
    ⟨token, earlier, _, issuing, latest.snoc hIssues, hHash⟩
  active hActive := by
    rw [revoked_snoc]
    exact not_or.mpr ⟨known.active hActive, fun ⟨now, hSame⟩ => hRevokes now hSame⟩

theorem known_run (hIDs : (calls.filterMap Call.newID).Nodup) {c : BIConnection}
    (hFind : run env calls id = some c) : Known env calls id c := by
  induction calls using List.reverseRecOn generalizing c with
  | nil => cases hFind
  | append_singleton calls call ih =>
    rw [filterMap_append, nodup_append] at hIDs
    rw [run_snoc] at hFind
    obtain ⟨answer, hAnswer, hChange⟩ := exists_change env id (run env calls) call
    cases hChange with
    | same isSame issues revokes =>
      rw [isSame] at hFind
      exact (ih hIDs.1 hFind).snoc (hAnswer ▸ issues) (hAnswer ▸ revokes)
    | created input token now isNew =>
      obtain rfl : env.newConnection input token id now = c := Option.some.inj (isNew ▸ hFind)
      -- the ID is fresh, so that nothing can have revoked the connection before
      have hFresh : run env calls id = none := by
        by_contra hKnown
        exact hIDs.2.2 id (id_drawn hKnown) id (by simp [Call.newID]) rfl
      refine ⟨⟨input, now, ⟨token, ?_⟩, rfl, rfl⟩, ?_, ?_⟩
      · rw [transcript_snoc, hAnswer]
        exact mem_append_right _ mem_cons_self
      · exact fun _ => ⟨token, _, _, _, latest_of_issue rfl hAnswer, rfl⟩
      · intro _
        rw [revoked_snoc]
        exact not_or.mpr ⟨not_revoked hFresh, fun ⟨_, h⟩ => Call.noConfusion (Prod.mk.inj h).1⟩
    | rotated old token was active isNow =>
      obtain rfl := Option.some.inj (isNow ▸ hFind)
      have hOld := ih hIDs.1 was
      obtain ⟨input, created, creation, hFields⟩ := hOld.creation
      refine ⟨⟨input, created, creation.snoc, hFields⟩, ?_, ?_⟩
      · exact fun _ => ⟨token, _, _, _, latest_of_issue rfl hAnswer, rfl⟩
      · intro _
        rw [revoked_snoc]
        exact not_or.mpr ⟨hOld.active active, fun ⟨_, h⟩ => Call.noConfusion (Prod.mk.inj h).1⟩
    | revoked old now was isNow =>
      obtain ⟨input, created, creation, hFields⟩ := (ih hIDs.1 was).creation
      have hRevoked : c.revokedAt ≠ none ∧ c.datasets = old.datasets ∧ c.expiresAt = old.expiresAt := by
        rcases isNow with ⟨isNow, hSome⟩ | isNow
        · obtain rfl := Option.some.inj (isNow ▸ hFind)
          exact ⟨Option.isSome_iff_ne_none.mp hSome, rfl, rfl⟩
        · obtain rfl := Option.some.inj (isNow ▸ hFind)
          exact ⟨Option.some_ne_none _, rfl, rfl⟩
      refine ⟨⟨input, created, creation.snoc, ?_⟩, fun h => absurd h hRevoked.1, fun h => absurd h hRevoked.1⟩
      rw [hRevoked.2.1, hRevoked.2.2]
      exact hFields
    | used old now call was isNow revokes =>
      obtain rfl := Option.some.inj (isNow ▸ hFind)
      have hOld : Known env (calls ++ [call]) id old :=
        (ih hIDs.1 was).snoc (hAnswer ▸ fun _ h => Answer.noConfusion h) (hAnswer ▸ revokes)
      exact ⟨hOld.creation, hOld.latest, hOld.active⟩

theorem perform_issued
    (hIssued : (s.perform env call).1 = .issued id token) : call.token = some token := by
  obtain ⟨answer, hAnswer, hChange⟩ := exists_change env id s call
  rw [hIssued] at hAnswer
  subst hAnswer
  cases hChange with
  | same isSame issues => exact absurd rfl (issues token)
  | created => rfl
  | rotated => rfl

theorem issued_drawn (hIn : (call, .issued id token) ∈ transcript env calls) :
    call.token = some token := by
  induction calls using List.reverseRecOn with
  | nil => exact absurd hIn not_mem_nil
  | append_singleton calls last ih =>
    rw [transcript_snoc, mem_append, mem_singleton] at hIn
    rcases hIn with hIn | hLast
    · exact ih hIn
    · obtain ⟨rfl, hAnswer⟩ := Prod.mk.inj hLast
      exact perform_issued hAnswer.symm

theorem Latest.first {earlier later : List (Call × Answer)} {issuing : Call}
    (latest : Latest env calls id token earlier later issuing)
    (hTokens : (calls.filterMap Call.token).Nodup) : ∀ entry ∈ earlier, entry.2 ≠ .issued id token := by
  rintro ⟨call, answer⟩ hIn rfl
  have hIssued : (call, .issued id token) ∈ transcript env calls := by
    rw [latest.split]
    exact mem_append_left _ hIn
  rw [← (component env).transcript_calls calls, ← transcript, latest.split, map_append,
    filterMap_append, nodup_append] at hTokens
  refine hTokens.2.2 token ?_ token ?_ rfl
  · exact mem_filterMap.mpr ⟨call, mem_map_of_mem hIn, issued_drawn hIssued⟩
  · exact mem_filterMap.mpr ⟨issuing, by simp, latest.drawn⟩

theorem tokenHash_of_equalFold {first second : String}
    (hFold : env.letters.equalFold (env.tokenHash first) (env.tokenHash second) = true) :
    env.tokenHash first = env.tokenHash second :=
  congrArg hexEncode (env.letters.equalFold_hexEncode.mp hFold)

theorem allows_cases {scope : BIDatasetScope} (hAllows : scope.allows database table = true) :
    scope.table = table ∧ (scope.database = "" ∨ scope.database = database ∨
      scope.database = "duckdb" ∧ database = "") := by
  simp only [BIDatasetScope.allows, Bool.and_eq_true, Bool.or_eq_true, decide_eq_true_eq] at hAllows
  grind

/-- A token that is accepted is the one the connection was last given, the connection has
never been revoked, and the scopes and the expiry of its creation cover the request. -/
theorem authorized_only {connectionID token database table : String} {now : Time}
    (hTokens : (calls.filterMap Call.token).Nodup) (hIDs : (calls.filterMap Call.newID).Nodup)
    (hCollision : ∀ other ∈ calls.filterMap Call.token,
      env.tokenHash other = env.tokenHash token → other = token)
    (hOk : ((run env calls).authorizeBIFeed env connectionID token database table now).1 = .ok ()) :
    (∃ earlier call later,
      transcript env calls = earlier ++ (call, .issued connectionID token) :: later ∧
      (∀ entry ∈ later, ∀ other, entry.2 ≠ .issued connectionID other) ∧
      ∀ entry ∈ earlier, entry.2 ≠ .issued connectionID token) ∧
    (∀ at', (.revoke connectionID at', .done) ∉ transcript env calls) ∧
    ∃ input first created,
      (.create input (some first) (some connectionID) created, .issued connectionID first) ∈
        transcript env calls ∧
      (0 < input.expiresIn → now < created + input.expiresIn * day) ∧
      ∃ scope ∈ input.datasets, scope.table = table ∧ (scope.database = "" ∨
        scope.database = database ∨ scope.database = "duckdb" ∧ database = "") := by
  obtain ⟨c, hFind, hHash, hFold, hActive, hExpiry, scope, hScope, hAllows⟩ := authorize_ok hOk
  have hKnown := known_run hIDs hFind
  obtain ⟨issued, earlier, later, call, latest, hIssued⟩ := hKnown.latest hActive
  have hSame : issued = token := by
    apply hCollision
    · rw [← (component env).transcript_calls calls, ← transcript, latest.split]
      exact mem_filterMap.mpr ⟨call, by simp, latest.drawn⟩
    · rw [hIssued] at hFold
      exact tokenHash_of_equalFold hFold
  subst hSame
  obtain ⟨input, created, ⟨first, hCreation⟩, hDatasets, hExpires⟩ := hKnown.creation
  refine ⟨⟨earlier, call, later, latest.split, latest.last, latest.first hTokens⟩,
    fun at' hIn => hKnown.active hActive ⟨at', hIn⟩, input, first, created, hCreation, ?_,
    scope, hDatasets ▸ hScope, allows_cases hAllows⟩
  intro hPositive
  rw [if_pos hPositive] at hExpires
  exact hExpiry _ hExpires

end Service

namespace Sample

def env : Setting := ⟨.leading, .ascii, id⟩

def calls : List Call :=
  [.create ⟨"reports", "Excel", [⟨"duckdb", "orders"⟩], 30⟩ (some "dbv_a") (some "bic_1") 0,
    .rotate "bic_1" (some "dbv_b")]

theorem accepted : ((Service.run env calls).authorizeBIFeed env "bic_1" "dbv_b" "" "orders" day).1 = .ok () := by
  rfl

theorem rotated_token_accepted :
    ((Service.run env calls).authorizeBIFeed env "bic_1" "dbv_b" "" "orders" day).1 = .ok () ∧
    (∃ earlier call later,
      Service.transcript env calls = earlier ++ (call, .issued "bic_1" "dbv_b") :: later ∧
      (∀ entry ∈ later, ∀ other, entry.2 ≠ .issued "bic_1" other) ∧
      ∀ entry ∈ earlier, entry.2 ≠ .issued "bic_1" "dbv_b") :=
  ⟨accepted, (Service.authorized_only (by decide) (by decide) (by decide) accepted).1⟩

end Sample

end DBVault.BI
