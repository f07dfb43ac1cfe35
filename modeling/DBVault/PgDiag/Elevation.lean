import DBVault.PgDiag.Names

/-! A dump that was denied is retried with privileges granted to the backup role for its
duration. The server is a catalogue of relations and schemas and the privileges that roles
hold on them; `psql` may fail before a script takes effect, or after it has. -/
namespace DBVault.PgDiag
open Option List Text Sql

/-- The kinds of `pg_class.relkind` that have privileges. -/
inductive RelKind where
  | table | partitioned | materializedView | view | foreign | sequence
  deriving DecidableEq

structure Relation where
  (schema name : Name)
  kind : RelKind
  deriving DecidableEq

inductive Object where
  | schema (name : Name)
  | relation (r : Relation)
  deriving DecidableEq

/-- `SELECT` is a privilege on relations, `USAGE` one on schemas and sequences. -/
def Object.takes : Object → Access → Bool
  | .schema _, access => access = .usage
  | .relation r, access => access = .select || r.kind = .sequence

structure Database where
  /-- Ordered by schema and name. -/
  relations : List Relation
  schemas : List Name
  reserved : List Char → Bool
  /-- The role that `psql` connects as when it is given none. -/
  osUser : Name
  /-- What the statements of the elevation role find under a name. A name without a schema
  depends on that role's search path. -/
  locate : Target → Option Object
  locate_relation : ∀ r ∈ relations, locate (.relation [r.schema] r.name) = some (.relation r)
  locate_schema : ∀ n ∈ schemas, locate (.schema n) = some (.schema n)

namespace Database
variable (db : Database)

def names : Names Object := ⟨db.locate, Object.takes⟩

/-- `current_user` of a connection. -/
def connectedAs (user : List Char) : Name := if h : user ≠ [] then ⟨user, h⟩ else db.osUser

def catalogSchemas : List (List Char) := ["pg_catalog".toList, "information_schema".toList]

/-- `auditTablesQuery`, `auditSequencesQuery` and `auditSchemasQuery`, for a role. -/
def audit (held : Held Object) (role : Name) : Findings where
  tables := (db.relations.filter fun r =>
    [.table, .partitioned, .materializedView].contains r.kind &&
      !catalogSchemas.contains r.schema.1 && !held role .select (.relation r)).map
    fun r => (r.schema, r.name)
  sequences := (db.relations.filter fun r =>
    r.kind = .sequence && !catalogSchemas.contains r.schema.1 &&
      !(held role .usage (.relation r) || held role .select (.relation r))).map
    fun r => (r.schema, r.name)
  schemas := db.schemas.filter fun n =>
    !(catalogSchemas ++ ["pg_toast".toList]).contains n.1 && !held role .usage (.schema n)

end Database

inductive Ending where
  | completes
  /-- `psql` fails and the script had no effect. -/
  | refused
  /-- The script took effect and `psql` fails all the same. -/
  | lost
  deriving DecidableEq

/-- How one run of `psql` ends, and the text of its error if it fails. -/
structure Attempt where
  ending : Ending
  detail : String
  deriving DecidableEq

def psql (db : Database) (attempt : Attempt) (text : List Char) (held : Held Object) :
    Result Unit × Held Object :=
  match execute db.names text held, attempt.ending with
  | some after, .completes => (.ok (), after)
  | some after, .lost => (.error (.other attempt.detail), after)
  | _, _ => (.error (.other attempt.detail), held)

def query (fault : Option String) (rows : List (List Char)) : Result (List Char) :=
  match fault with
  | some detail => .error (.other detail)
  | none => .ok (answer rows)

structure AuditFaults where
  (tables sequences schemas : Option String)
  deriving DecidableEq

/-- `AuditObjects`, over a connection as `user`. -/
def audited (db : Database) (faults : AuditFaults) (user : List Char) (held : Held Object) :
    Result DeniedObjects :=
  let found := db.audit held (db.connectedAs user)
  auditObjects (query faults.tables (found.tables.map (relationRow db.reserved)))
    (query faults.sequences (found.sequences.map (relationRow db.reserved)))
    (query faults.schemas (found.schemas.map (schemaRow db.reserved)))

structure DatabaseElevation where
  enabled : Bool
  username : List Char
  deriving DecidableEq

/-- What `pg_dump` writes, and its error. -/
structure DumpOutcome where
  out : Bytes
  failure : Option String
  deriving DecidableEq

def retryLiveDump (outcome : DumpOutcome) : Result Bytes :=
  match outcome.failure with
  | some detail => .error (.other ("pg_dump retry after elevation failed: " ++ detail))
  | none =>
    if outcome.out = [] then .error (.other "pg_dump retry after elevation returned 0 bytes")
    else .ok outcome.out

structure Log where
  (level message : String)
  deriving DecidableEq

/-- The arguments of `dumpWithPrivilegeElevation` that it reads. -/
structure DumpRequest where
  (resourceID backupUser dbName stderrDetail : List Char)
  /-- The ID and the name of the database resource. -/
  targetDb : Option (List Char × List Char)
  deriving DecidableEq

structure Surroundings where
  db : Database
  faults : AuditFaults
  grant : Attempt
  dump : DumpOutcome
  /-- By the number of the attempt. -/
  revoke : Nat → Attempt
  /-- Go's `%q`. -/
  quoted : List Char → String

/-- The outcome of a call: the dump, the deferred revoke if it ran, the privileges held
afterwards and the lines of the log. -/
structure Report where
  result : Result Bytes
  revoked : Option (Result Unit)
  held : Held Object
  logs : List Log

/-- `strings.ReplaceAll(text, "\n", " ")`. -/
def oneLine (text : String) : String := String.ofList (text.toList.map fun c => if c = '\n' then ' ' else c)

/-- The lookup by resource, then by the resource's ID or name, then by the database's name. -/
def elevationConfig (configs : List Char → Option DatabaseElevation) (request : DumpRequest) :
    Option DatabaseElevation :=
  let byTarget := request.targetDb.bind fun (id, name) => (configs id).or (configs name)
  let byName := if request.dbName ≠ [] then configs request.dbName else none
  ((configs request.resourceID).or byTarget).or byName

def objectsToElevate (stderr : List Char) : Result DeniedObjects → DeniedObjects
  | .ok found => if found.isEmpty then deniedObjectsFrom stderr else found
  | .error _ => deniedObjectsFrom stderr

/-- The loop of `revokeElevatedPrivileges`. -/
def revokeAttempts (db : Database) (user backupUser : List Char) (objects : DeniedObjects) :
    List Attempt → Result Unit → Held Object → Result Unit × Held Object
  | [], lastErr, held => (lastErr, held)
  | attempt :: rest, _, held =>
    match revoke (psql db attempt) user backupUser objects held with
    | (.ok _, held) => (.ok (), held)
    | (.error e, held) => revokeAttempts db user backupUser objects rest (.error e) held

def revokeElevatedPrivileges (env : Surroundings) (user backupUser : List Char)
    (objects : DeniedObjects) (held : Held Object) : Result Unit × Held Object :=
  revokeAttempts env.db user backupUser objects ([1, 2, 3].map env.revoke) (.ok ()) held

/-- The privileges granted for a dump are revoked when it is over, whatever its outcome. -/
def dumpElevated (env : Surroundings) (user backupUser : List Char) (objects : DeniedObjects)
    (held : Held Object) : Report :=
  let attempted : Log := ⟨"warn", "pg_dump permission denied on " ++ toString objects.count ++
    " object(s) — attempting automatic privilege elevation with role " ++ env.quoted user⟩
  match elevate (psql env.db env.grant) user backupUser objects held with
  | (.error e, held) =>
    ⟨.error e, none, held, [attempted, ⟨"warn", "Automatic privilege elevation failed: " ++ oneLine e.text⟩]⟩
  | (.ok granted, held) =>
    let begun : Log := ⟨"info", "Granted read privileges on " ++ toString granted.length ++
      " object(s) to " ++ env.quoted backupUser ++ " — retrying pg_dump"⟩
    match revokeElevatedPrivileges env user backupUser objects held with
    | (.error e, held) =>
      ⟨retryLiveDump env.dump, some (.error e), held,
        [attempted, begun, ⟨"error", "SECURITY: elevated privileges could not be revoked " ++
          "automatically — revoke them manually: " ++ oneLine e.text⟩]⟩
    | (.ok _, held) =>
      ⟨retryLiveDump env.dump, some (.ok ()), held,
        [attempted, begun, ⟨"info", "Revoked elevated privileges — database state restored"⟩]⟩

def DumpRequest.objects (request : DumpRequest) (env : Surroundings) (held : Held Object) :
    DeniedObjects :=
  objectsToElevate request.stderrDetail (audited env.db env.faults request.backupUser held)

def dumpWithPrivilegeElevation (env : Surroundings) (configs : List Char → Option DatabaseElevation)
    (request : DumpRequest) (held : Held Object) : Report :=
  let refuse (message : String) : Report := ⟨.error (.other message), none, held, []⟩
  match elevationConfig configs request with
  | none => refuse "privilege elevation is not enabled for this database"
  | some cfg =>
    if cfg.enabled = false ∨ trim cfg.username = [] then
      refuse "privilege elevation is not enabled for this database"
    else if cfg.username = request.backupUser then
      refuse ("elevation role must differ from the backup role " ++ env.quoted request.backupUser)
    else
      let objects := request.objects env held
      if objects.isEmpty then refuse "no denied objects could be identified"
      else dumpElevated env cfg.username request.backupUser objects held

def Affects (db : Database) (objects : DeniedObjects) (access : Access) (object : Object) : Prop :=
  (access = .usage ∧ ∃ name ∈ objects.schemas, (schemaTarget name).bind db.locate = some object) ∨
  (access = .select ∧ ∃ name ∈ objects.tables, (relationTarget name).bind db.locate = some object) ∨
  ∃ name ∈ objects.sequences, (relationTarget name).bind db.locate = some object

variable {a : Access} {object : Object} {role : Name} {db : Database} {grantee : Name}

theorem covered_statementsOn {target : List Char → Option Target} {verb : Verb}
    {access : Access} {more : List Access} {names : List (List Char)} :
    Sql.Covered db.names (statementsOn target (⟨verb, access, more, ·, grantee⟩) names) role a object ↔
      grantee = role ∧ a ∈ access :: more ∧ ∃ name ∈ names, (target name).bind db.locate = some object := by
  simp only [Sql.Covered, mem_statementsOn, Statement.Covers, Statement.accesses, Database.names, bind_eq_some_iff]
  constructor
  · rintro ⟨_, ⟨name, hIn, t, hTarget, rfl⟩, hRole, hAccess, hObject⟩
    exact ⟨hRole, hAccess, name, hIn, t, hTarget, hObject⟩
  · rintro ⟨hRole, hAccess, name, hIn, t, hTarget, hObject⟩
    exact ⟨_, ⟨name, hIn, t, hTarget, rfl⟩, hRole, hAccess, hObject⟩

variable {objects : DeniedObjects}

theorem covered_grants : Sql.Covered db.names (grants objects grantee) role a object ↔
      grantee = role ∧ Affects db objects a object := by
  simp only [grants, covered_append, covered_statementsOn, Affects, mem_cons, not_mem_nil, or_false]
  cases a with
  | select => simp [and_or_left]
  | usage => simp [and_or_left]

theorem covered_revokes : Sql.Covered db.names (revokes objects grantee) role a object ↔
      grantee = role ∧ Affects db objects a object := by
  simp only [revokes, covered_append, covered_statementsOn, Affects, mem_cons, not_mem_nil, or_false]
  cases a with
  | select => simp [and_or_left]
  | usage => simp [and_or_left, or_comm]

section Run
variable {db : Database} {attempt : Attempt} {user backupUser : List Char} {objects : DeniedObjects}
  {held after : Held Object} {grantee : Name}

theorem psql_script {ss : List Statement} {result : Result Unit}
    (hRun : psql db attempt (script (ss.map Statement.text)) held = (result, after)) :
    (after = held ∧ result ≠ .ok ()) ∨ after = ss.foldl (Statement.apply db.names) held := by
  unfold psql at hRun
  split at hRun
  · rename_i state hState hEnding
    obtain ⟨-, rfl⟩ := Prod.mk.inj hRun
    exact .inr (execute_script db.names hState)
  · rename_i state hState hEnding
    obtain ⟨-, rfl⟩ := Prod.mk.inj hRun
    exact .inr (execute_script db.names hState)
  · obtain ⟨rfl, rfl⟩ := Prod.mk.inj hRun
    exact .inl ⟨rfl, by simp⟩

theorem elevate_ok (hRun : elevate (psql db attempt) user backupUser objects held = (.ok granted, after)) :
    ∃ grantee : Name, grantee.1 = trim backupUser ∧ ∀ role access object,
      after role access object = true ↔ held role access object = true ∨
        (grantee = role ∧ Affects db objects access object) := by
  unfold elevate at hRun
  simp only at hRun
  split at hRun
  · cases hRun
  · rename_i hSome
    refine ⟨⟨trim backupUser, hSome⟩, rfl, ?_⟩
    split at hRun
    · cases hRun
    · split at hRun
      · cases hRun
      · split at hRun
        · cases hRun
        · rename_i state hScript
          obtain ⟨-, rfl⟩ := Prod.mk.inj hRun
          rw [elevationScript_grant objects ⟨trim backupUser, hSome⟩] at hScript
          rcases psql_script hScript with ⟨-, hFailed⟩ | rfl
          · exact absurd rfl hFailed
          · intro role access object
            rw [foldl_apply db.names grants_verb, Verb.Leaves, covered_grants]

theorem revoke_cases (hGrantee : grantee.1 = trim backupUser)
    (hRun : revoke (psql db attempt) user backupUser objects held = (result, after)) :
    (after = held ∧ result ≠ .ok ()) ∨ ∀ role access object,
      after role access object = true ↔ held role access object = true ∧
        ¬ (grantee = role ∧ Affects db objects access object) := by
  unfold revoke at hRun
  simp only [← hGrantee] at hRun
  split at hRun
  · obtain ⟨rfl, rfl⟩ := Prod.mk.inj hRun
    exact .inl ⟨rfl, by simp⟩
  · split at hRun
    · -- there is nothing to revoke, so nothing is named
      rename_i hNone
      obtain ⟨-, rfl⟩ := Prod.mk.inj hRun
      have hTexts := elevationStatements_revoke objects grantee
      rw [hNone] at hTexts
      have hRevokes : revokes objects grantee = [] := map_eq_nil_iff.mp hTexts.symm
      right
      intro role access object
      rw [← covered_revokes, hRevokes]
      simp [Sql.Covered]
    · rw [elevationScript_revoke] at hRun
      rcases psql_script hRun with hFailed | rfl
      · exact .inl hFailed
      · right
        intro role access object
        rw [foldl_apply db.names revokes_verb, Verb.Leaves, covered_revokes]

/-- However many attempts fail before it, and whether or not they took effect, a successful
revoke leaves the role without what was named. -/
theorem revokeAttempts_ok (hGrantee : grantee.1 = trim backupUser)
    (hRun : revokeAttempts db user backupUser objects attempts (.error e) held = (.ok (), after))
    (role : Name) (access : Access) (object : Object) :
    after role access object = true ↔ held role access object = true ∧
      ¬ (grantee = role ∧ Affects db objects access object) := by
  induction attempts generalizing held e with
  | nil => cases hRun
  | cons attempt rest ih =>
    unfold revokeAttempts at hRun
    split at hRun
    · rename_i state hRevoke
      obtain ⟨-, rfl⟩ := Prod.mk.inj hRun
      rcases revoke_cases hGrantee hRevoke with ⟨-, hFailed⟩ | hEffect
      · exact absurd rfl hFailed
      · exact hEffect role access object
    · rename_i err state hRevoke
      have hRest := ih hRun
      rcases revoke_cases hGrantee hRevoke with ⟨rfl, -⟩ | hEffect
      · exact hRest
      · rw [hRest, hEffect]
        tauto

theorem dumpElevated_held
    (hRevoked : (dumpElevated env user backupUser objects held).revoked = some (.ok ())) :
    ∃ grantee : Name, grantee.1 = trim backupUser ∧ ∀ role access object,
      (dumpElevated env user backupUser objects held).held role access object = true ↔
        held role access object = true ∧ ¬ (grantee = role ∧ Affects env.db objects access object) := by
  unfold dumpElevated at hRevoked ⊢
  simp only at hRevoked ⊢
  split at hRevoked
  · cases hRevoked
  · rename_i granted state hElevate
    obtain ⟨grantee, hGrantee, hGranted⟩ := elevate_ok hElevate
    split at hRevoked
    · cases Option.some.inj hRevoked
    · rename_i last hRevoke
      refine ⟨grantee, hGrantee, ?_⟩
      intro role access object
      -- the first attempt does not look at the error before it
      have hRun : revokeAttempts env.db user backupUser objects ([1, 2, 3].map env.revoke)
          (.error .notExist) state = (.ok (), last) := hRevoke
      show last role access object = true ↔ _
      rw [revokeAttempts_ok hGrantee hRun, hGranted]
      tauto

theorem dumpWithPrivilegeElevation_held {env : Surroundings}
    {configs : List Char → Option DatabaseElevation} {request : DumpRequest}
    (hRevoked : (dumpWithPrivilegeElevation env configs request held).revoked = some (.ok ())) :
    ∃ grantee : Name, grantee.1 = trim request.backupUser ∧ ∀ role access object,
      (dumpWithPrivilegeElevation env configs request held).held role access object = true ↔
        held role access object = true ∧
          ¬ (grantee = role ∧ Affects env.db (request.objects env held) access object) := by
  unfold dumpWithPrivilegeElevation at hRevoked ⊢
  simp only at hRevoked ⊢
  split at hRevoked
  · cases hRevoked
  · rename_i cfg hConfig
    split at hRevoked
    · cases hRevoked
    · rename_i hEnabled
      split at hRevoked
      · cases hRevoked
      · rename_i hOther
        split at hRevoked
        · cases hRevoked
        · rename_i hFound
          simp only [hEnabled, hOther, hFound, if_false]
          exact dumpElevated_held hRevoked

end Run

theorem revoked_of_toOption {revoked : Option (Result Unit)}
    (hSome : revoked.map Except.toOption = some (some ())) : revoked = some (.ok ()) := by
  obtain ⟨result, rfl, hOk⟩ := map_eq_some_iff.mp hSome
  rw [eq_ok_of_toOption hOk]

theorem held_eq_of_spared {env : Surroundings} {configs : List Char → Option DatabaseElevation}
    {request : DumpRequest} {held : Held Object}
    (hRevoked : (dumpWithPrivilegeElevation env configs request held).revoked = some (.ok ()))
    (hSpared : ∀ access object, Affects env.db (request.objects env held) access object →
      held role access object = false) (access : Access) (object : Object) :
    (dumpWithPrivilegeElevation env configs request held).held role access object = held role access object := by
  obtain ⟨grantee, -, hHeld⟩ := dumpWithPrivilegeElevation_held hRevoked
  rw [Bool.eq_iff_iff, hHeld]
  refine and_iff_left_of_imp fun hBefore hNamed => ?_
  rw [hSpared access object hNamed.2] at hBefore
  cases hBefore

/-- A call that ends with a successful revoke leaves the backup role with the privileges it
held before exactly if it held none of those that the call named for the objects it found (or
if the name of the role has white space around it, when another role is elevated). -/
theorem elevation_restores_iff (env : Surroundings) (configs : List Char → Option DatabaseElevation)
    (request : DumpRequest) (held : Held Object)
    (hRevoked : (dumpWithPrivilegeElevation env configs request held).revoked = some (.ok ())) :
    (∀ access object, (dumpWithPrivilegeElevation env configs request held).held
        (env.db.connectedAs request.backupUser) access object =
          held (env.db.connectedAs request.backupUser) access object) ↔
      trim request.backupUser ≠ request.backupUser ∨
        ∀ access object, Affects env.db (request.objects env held) access object →
          held (env.db.connectedAs request.backupUser) access object = false := by
  obtain ⟨grantee, hGrantee, hHeld⟩ := dumpWithPrivilegeElevation_held hRevoked
  have hUser : request.backupUser ≠ [] := by
    intro hEmpty
    rw [hEmpty] at hGrantee
    exact grantee.2 hGrantee
  have hRole : grantee = env.db.connectedAs request.backupUser ↔
      trim request.backupUser = request.backupUser := by
    rw [Database.connectedAs, dif_pos hUser, Subtype.ext_iff, hGrantee]
  constructor
  · intro hSame
    by_cases hTrim : trim request.backupUser = request.backupUser
    · right
      intro access object hAffects
      rw [← hSame access object, Bool.eq_false_iff]
      intro hAfter
      exact ((hHeld _ access object).mp hAfter).2 ⟨hRole.mpr hTrim, hAffects⟩
    · exact .inl hTrim
  · rintro (hTrim | hSpared) access object
    · rw [Bool.eq_iff_iff, hHeld]
      exact and_iff_left_of_imp fun _ hNamed => hTrim (hRole.mp hNamed.1)
    · exact held_eq_of_spared hRevoked hSpared access object

section Audited
variable {db : Database} {faults : AuditFaults} {user : List Char} {held : Held Object}

theorem mem_of_mem_query (hRows : ∀ row ∈ rows, Row row)
    (hIn : name ∈ ((query fault rows).toOption.map splitAuditList).getD []) : name ∈ rows := by
  cases fault with
  | some detail => simp [query, Except.toOption] at hIn
  | none => simpa [query, Except.toOption, splitAuditList_answer hRows] using hIn

theorem auditObjects_ok {tables sequences schemas : Result (List Char)} {out : DeniedObjects}
    (hOk : auditObjects tables sequences schemas = .ok out) :
    out = ⟨(tables.toOption.map splitAuditList).getD [], (sequences.toOption.map splitAuditList).getD [],
      (schemas.toOption.map splitAuditList).getD []⟩ := by
  unfold auditObjects at hOk
  simp only at hOk
  split at hOk
  · split at hOk
    · cases hOk
    · exact (Except.ok.inj hOk).symm
  · exact (Except.ok.inj hOk).symm

theorem locate_row (hPrintable : ∀ n ∈ (db.audit held role).names, Printable n.1)
    (hIn : relation ∈ (db.audit held role).tables ++ (db.audit held role).sequences)
    (hLocate : (relationTarget (relationRow db.reserved relation)).bind db.locate = some object)
    (hRelation : r ∈ db.relations) (hSame : (r.schema, r.name) = relation) : object = .relation r := by
  rw [Findings.target_of_relation db.reserved hPrintable hIn, bind_some, ← hSame,
    db.locate_relation r hRelation] at hLocate
  exact (Option.some.inj hLocate).symm

/-- None of the privileges named for audited objects is held, as long as their names pass
through the audit's text. -/
theorem audited_spares (hNames : ∀ n ∈ (db.audit held (db.connectedAs user)).names, Printable n.1 ∧ ',' ∉ n.1)
    (hAudited : audited db faults user held = .ok found) (hAffects : Affects db found access object) :
     held (db.connectedAs user) access object = false := by
  have hPrintable : ∀ n ∈ (db.audit held (db.connectedAs user)).names, Printable n.1 :=
    fun n hIn => (hNames n hIn).1
  have hComma : ∀ n ∈ (db.audit held (db.connectedAs user)).names, ',' ∉ n.1 := fun n hIn => (hNames n hIn).2
  obtain rfl := auditObjects_ok hAudited
  rcases hAffects with ⟨rfl, name, hIn, hLocate⟩ | ⟨rfl, name, hIn, hLocate⟩ | ⟨name, hIn, hLocate⟩
  · have hRow := mem_of_mem_query
      (List.forall_mem_map.mpr fun n hn => Findings.row_of_schema db.reserved hComma hn) hIn
    obtain ⟨n, hSchema, rfl⟩ := List.mem_map.mp hRow
    rw [Findings.target_of_schema db.reserved hPrintable hSchema] at hLocate
    obtain ⟨hKnown, hLacking⟩ := mem_filter.mp hSchema
    rw [bind_some, db.locate_schema n hKnown] at hLocate
    obtain rfl := Option.some.inj hLocate
    simp only [Bool.and_eq_true, Bool.not_eq_true'] at hLacking
    exact hLacking.2
  · have hRow := mem_of_mem_query (List.forall_mem_map.mpr fun r hr =>
      Findings.row_of_relation db.reserved hComma (mem_append_left _ hr)) hIn
    obtain ⟨relation, hTable, rfl⟩ := List.mem_map.mp hRow
    obtain ⟨r, hFilter, hSame⟩ := List.mem_map.mp hTable
    obtain ⟨hKnown, hLacking⟩ := mem_filter.mp hFilter
    obtain rfl := locate_row hPrintable (mem_append_left _ hTable) hLocate hKnown hSame
    simp only [Bool.and_eq_true, Bool.not_eq_true'] at hLacking
    exact hLacking.2
  · have hRow := mem_of_mem_query (List.forall_mem_map.mpr fun r hr =>
      Findings.row_of_relation db.reserved hComma (mem_append_right _ hr)) hIn
    obtain ⟨relation, hSequence, rfl⟩ := List.mem_map.mp hRow
    obtain ⟨r, hFilter, hSame⟩ := List.mem_map.mp hSequence
    obtain ⟨hKnown, hLacking⟩ := mem_filter.mp hFilter
    obtain rfl := locate_row hPrintable (mem_append_right _ hSequence) hLocate hKnown hSame
    simp only [Bool.and_eq_true, Bool.not_eq_true', Bool.or_eq_false_iff] at hLacking
    cases access with
    | select => exact hLacking.2.2
    | usage => exact hLacking.2.1

end Audited

namespace Sample

def ordersSequence : Relation := ⟨publicSchema, ⟨"orders_id_seq".toList, by decide +kernel⟩, .sequence⟩

def shop : Database where
  relations := [ordersSequence]
  schemas := [publicSchema]
  reserved := fun _ => false
  osUser := ⟨"postgres".toList, by decide +kernel⟩
  locate := fun target =>
    if target = .schema publicSchema then some (.schema publicSchema)
    else if target = .relation [publicSchema] ordersSequence.name ∨
        target = .relation [] ordersSequence.name then some (.relation ordersSequence)
    else none
  locate_relation := by decide +kernel
  locate_schema := by decide +kernel

def quiet : Surroundings where
  db := shop
  faults := ⟨none, none, none⟩
  grant := ⟨.completes, ""⟩
  dump := ⟨[1], none⟩
  revoke := fun _ => ⟨.completes, ""⟩
  quoted := String.ofList

def configs : List Char → Option DatabaseElevation := fun _ => some ⟨true, "admin".toList⟩

def request : DumpRequest where
  resourceID := "shop".toList
  backupUser := backup.1
  dbName := "shop".toList
  stderrDetail := "pg_dump: error: query failed: ERROR:  permission denied for sequence orders_id_seq".toList
  targetDb := none

def usageOnly : Held Object := fun role access object =>
  role = backup && access = .usage && (object = .relation ordersSequence || object = .schema publicSchema)

/-- The audit does not report the sequence, the error text does. It is granted both
privileges and loses both, also the one it held before. -/
theorem usage_lost :
    shop.audit usageOnly backup = ⟨[], [], []⟩ ∧
      (dumpWithPrivilegeElevation quiet configs request usageOnly).revoked = some (.ok ()) ∧
      usageOnly backup .usage (.relation ordersSequence) = true ∧
      (dumpWithPrivilegeElevation quiet configs request usageOnly).held backup .usage
        (.relation ordersSequence) = false := by
  refine ⟨by decide +kernel, revoked_of_toOption ?_, by decide +kernel, by decide +kernel⟩
  decide +kernel

def schemaOnly : Held Object := fun role access object =>
  role = backup && access = .usage && object = .schema publicSchema

theorem sequence_restored :
    (dumpWithPrivilegeElevation quiet configs request schemaOnly).revoked = some (.ok ()) ∧
      ∀ access object, (dumpWithPrivilegeElevation quiet configs request schemaOnly).held
        (quiet.db.connectedAs request.backupUser) access object =
          schemaOnly (quiet.db.connectedAs request.backupUser) access object := by
  have hRevoked : (dumpWithPrivilegeElevation quiet configs request schemaOnly).revoked =
      some (.ok ()) := revoked_of_toOption (by decide +kernel)
  have hAudited : audited quiet.db quiet.faults request.backupUser schemaOnly =
      .ok ⟨[], ["public.orders_id_seq".toList], []⟩ := eq_ok_of_toOption (by decide +kernel)
  have hObjects : request.objects quiet schemaOnly = ⟨[], ["public.orders_id_seq".toList], []⟩ := by
    decide +kernel
  refine ⟨hRevoked, (elevation_restores_iff quiet configs request schemaOnly hRevoked).mpr (.inr ?_)⟩
  intro access object hAffects
  rw [hObjects] at hAffects
  exact audited_spares (by decide +kernel) hAudited hAffects

end Sample

end DBVault.PgDiag
