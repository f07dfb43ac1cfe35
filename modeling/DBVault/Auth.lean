import DBVault.Digest
import DBVault.Interaction.Calls

/-! The trust boundary of the appliance: the administrator's credential, console sessions
that live in memory, and bearer tokens whose hashes are kept in a file. -/
namespace DBVault.Auth
open Text

structure Principal where
  (subject role via : String)
  deriving DecidableEq

structure Credential where
  username : String
  (salt hash : Bytes)
  deriving DecidableEq

structure Session where
  (subject role : String)
  expiresAt : Time

structure ApiToken where
  hash : Bytes
  (subject role : String)
  expiresAt : Time

structure PersistedToken where
  (subject role : String)
  expiresAt : Time

/-- What the file holds. The tokens are given by the text of their hash. -/
structure PersistedState where
  admin : Option Credential
  tokens : String → Option PersistedToken

/-- What a process holds. Sessions are given by their ID, tokens by the text of their hash. -/
structure Store where
  admin : Option Credential
  sessions : String → Option Session
  tokens : String → Option ApiToken

structure System where
  store : Store
  file : Option PersistedState

/-- The hash functions and the place of the file; none where it is empty. -/
structure Setting where
  hashes : Hashes
  pbkdf2 : Bytes → Bytes → Bytes
  path : String

def sessionTTL : Int := 24 * Time.hour

def tokenTTL : Int := 30 * 24 * Time.hour

def normalizeUsername (username : String) : String :=
  String.ofList (username.toList.filter fun c => !([' ', '\t', '\n', '\r'].contains c))

def Setting.tokenKey (env : Setting) (raw : String) : String := (env.hashes.sha256 (utf8 raw)).hex

def Store.empty : Store := ⟨none, fun _ => none, fun _ => none⟩

/-- A token as `NewStore` takes it from the file, unless its hash is no SHA-256 value. -/
def PersistedToken.load (text : String) (t : PersistedToken) : Option ApiToken :=
  match hexDecode text with
  | some raw => if raw.length ≠ 32 then none else some ⟨raw, t.subject, t.role, t.expiresAt⟩
  | none => none

/-- `NewStore`, for a file that can be read. -/
def Setting.newStore (env : Setting) (file : Option PersistedState) : Store :=
  if env.path = "" then .empty
  else
    match file with
    | none => .empty
    | some state =>
      { admin := state.admin
        sessions := fun _ => none
        tokens := fun text => (state.tokens text).bind (·.load text) }

/-- `saveLocked`. The clock is read anew for every token. -/
def Setting.saveLocked (env : Setting) (saved : String → Time) (store : Store)
    (file : Option PersistedState) : Option PersistedState :=
  if env.path = "" then file
  else
    some
      { admin := store.admin
        tokens := fun text => (store.tokens text).bind fun t =>
          if saved text < t.expiresAt then some ⟨t.subject, t.role, t.expiresAt⟩ else none }

namespace System
variable (env : Setting) (s : System)

def setSession (id : String) (entry : Option Session) : System :=
  { s with store := { s.store with sessions := Function.update s.store.sessions id entry } }

def setToken (text : String) (entry : Option ApiToken) : System :=
  { s with store := { s.store with tokens := Function.update s.store.tokens text entry } }

def save (saved : String → Time) : System := { s with file := env.saveLocked saved s.store s.file }

/-- `BootstrapAdmin`, with the random salt. -/
def bootstrapAdmin (username password : String) (salt : Bytes) (saved : String → Time) :
    Result Unit × System :=
  if (utf8 password).length < 12 then
    (.error (.other "password must be at least 12 characters"), s)
  else if normalizeUsername username = "" then (.error (.other "username is required"), s)
  else if s.store.admin.isSome then (.error (.other "administrator already provisioned"), s)
  else
    let cred := ⟨normalizeUsername username, salt, env.pbkdf2 (utf8 password) salt⟩
    (.ok (), { s with store := { s.store with admin := some cred } }.save env saved)

def newSession (subject role id : String) (now : Time) : (String × Time) × System :=
  ((id, now + sessionTTL), s.setSession id (some ⟨subject, role, now + sessionTTL⟩))

/-- `Login`, with the random ID of the session. -/
def login (username password id : String) (now : Time) : Result (String × Time) × System :=
  match s.store.admin with
  | none => (.error (.other "invalid credentials"), s)
  | some cred =>
    -- the salt is copied into 16 bytes
    let salt := (cred.salt ++ List.replicate 16 0).take 16
    if normalizeUsername username ≠ cred.username ∨ env.pbkdf2 (utf8 password) salt ≠ cred.hash then
      (.error (.other "invalid credentials"), s)
    else
      let (issued, s) := s.newSession cred.username "admin" id now
      (.ok issued, s)

def mintToken (subject role token : String) (now : Time) (saved : String → Time) : (String × Time) × System :=
  let hash := (env.hashes.sha256 (utf8 token)).bytes
  ((token, now + tokenTTL),
    (s.setToken (env.tokenKey token) (some ⟨hash, subject, role, now + tokenTTL⟩)).save env saved)

/-- `IssueToken`, which logs in on the way. -/
def issueToken (username password id token : String) (now minted : Time) (saved : String → Time) :
    Result (String × Time) × System :=
  match s.login env username password id now with
  | (.error err, s) => (.error err, s)
  | (.ok _, s) =>
    let (minted, s) := s.mintToken env (normalizeUsername username) "admin" token minted saved
    (.ok minted, s)

def issueTokenForSession (sessionID token : String) (now slid minted : Time)
    (saved : String → Time) : Result (String × Time) × System :=
  match s.store.sessions sessionID with
  | none => (.error (.other "session not found"), s)
  | some sess =>
    if sess.expiresAt < now then
      (.error (.other "session expired"), s.setSession sessionID none)
    else
      let s := s.setSession sessionID (some { sess with expiresAt := slid + sessionTTL })
      let (minted, s) := s.mintToken env sess.subject sess.role token minted saved
      (.ok minted, s)

def logout (sessionID : String) : System := s.setSession sessionID none

def authenticateSession (id : String) (now : Time) : Option Principal × System :=
  match s.store.sessions id with
  | none => (none, s)
  | some sess =>
    if sess.expiresAt < now then (none, s.setSession id none)
    else
      (some ⟨sess.subject, sess.role, "session"⟩,
        s.setSession id (some { sess with expiresAt := now + sessionTTL }))

def authenticateToken (raw : String) (now : Time) : Option Principal × System :=
  match s.store.tokens (env.tokenKey raw) with
  | none => (none, s)
  | some tok =>
    if (hexDecode (env.tokenKey raw)).getD [] ≠ tok.hash then (none, s)
    else if tok.expiresAt < now then (none, s.setToken (env.tokenKey raw) none)
    else (some ⟨tok.subject, tok.role, "bearer"⟩, s)

def restart : System := { s with store := env.newStore s.file }

end System

inductive Call where
  | bootstrapAdmin (username password : String) (salt : Bytes) (saved : String → Time)
  | login (username password id : String) (now : Time)
  | issueToken (username password id token : String) (now minted : Time) (saved : String → Time)
  | issueTokenForSession (sessionID token : String) (now slid minted : Time)
      (saved : String → Time)
  | logout (sessionID : String)
  | authenticateSession (id : String) (now : Time)
  | authenticateToken (raw : String) (now : Time)
  | restart

inductive Answer where
  | done
  | session (id : String) (expiresAt : Time)
  | token (raw : String) (expiresAt : Time)
  | principal (p : Principal)
  | denied
  | refused (err : GoError)

namespace Answer

def ofUnit : Result Unit → Answer
  | .ok () => .done
  | .error err => .refused err

def ofSession : Result (String × Time) → Answer
  | .ok (id, expiresAt) => .session id expiresAt
  | .error err => .refused err

def ofToken : Result (String × Time) → Answer
  | .ok (raw, expiresAt) => .token raw expiresAt
  | .error err => .refused err

def ofPrincipal : Option Principal → Answer
  | some p => .principal p
  | none => .denied

end Answer

namespace System
variable (env : Setting)

def perform (s : System) : Call → Answer × System
  | .bootstrapAdmin username password salt saved =>
    (s.bootstrapAdmin env username password salt saved).map .ofUnit id
  | .login username password sessionID now => (s.login env username password sessionID now).map .ofSession id
  | .issueToken username password sessionID token now minted saved =>
    (s.issueToken env username password sessionID token now minted saved).map .ofToken id
  | .issueTokenForSession sessionID token now slid minted saved =>
    (s.issueTokenForSession env sessionID token now slid minted saved).map .ofToken id
  | .logout sessionID => (.done, s.logout sessionID)
  | .authenticateSession sessionID now => (s.authenticateSession sessionID now).map .ofPrincipal id
  | .authenticateToken raw now => (s.authenticateToken env raw now).map .ofPrincipal id
  | .restart => (.done, s.restart env)

def component : Interaction.Component System Call Answer := ⟨⟨env.newStore none, none⟩, perform env⟩

def run (calls : List Call) : System := (component env).run calls

def transcript (calls : List Call) : List (Call × Answer) := (component env).transcript calls

end System

def Call.newToken : Call → Option String
  | .issueToken _ _ _ token _ _ _ | .issueTokenForSession _ token _ _ _ _ => some token
  | _ => none

def Call.newSession : Call → Option String
  | .login _ _ id _ | .issueToken _ _ id _ _ _ _ => some id
  | _ => none

/-- The readings a call makes of the clock are in order and lie between two times. -/
def Call.Within (start finish : Time) : Call → Prop
  | .bootstrapAdmin _ _ _ saved => start ≤ finish ∧ ∀ text, start ≤ saved text ∧ saved text ≤ finish
  | .login _ _ _ now | .authenticateSession _ now | .authenticateToken _ now => start ≤ now ∧ now ≤ finish
  | .issueToken _ _ _ _ now minted saved =>
    start ≤ now ∧ now ≤ minted ∧ minted ≤ finish ∧ ∀ text, minted ≤ saved text ∧ saved text ≤ finish
  | .issueTokenForSession _ _ now slid minted saved =>
    start ≤ now ∧ now ≤ slid ∧ slid ≤ minted ∧ minted ≤ finish ∧
      ∀ text, minted ≤ saved text ∧ saved text ≤ finish
  | .logout _ | .restart => start ≤ finish

/-- The clock never goes back, and reads at most this time at the end. -/
inductive Timed : List Call → Time → Prop where
  | start (now : Time) : Timed [] now
  | call {calls : List Call} {call : Call} {now next : Time} (earlier : Timed calls now)
      (within : call.Within now next) : Timed (calls ++ [call]) next

end DBVault.Auth
