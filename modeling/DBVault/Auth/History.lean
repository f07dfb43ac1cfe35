import DBVault.Auth

/-! What has been called decides what authenticates: the administrator is the first one,
sessions and tokens are the ones issued. -/
namespace DBVault.Auth
open Option Function List Text Interaction.Component

def issuedAt (id : String) : Call × Answer → Option Time
  | (.login _ _ drawn now, .session _ _) | (.issueToken _ _ drawn _ now _ _, .token _ _) =>
    if drawn = id then some now else none
  | _ => none

def usedAt (id : String) : Call × Answer → Option Time
  | (.authenticateSession used now, .principal _)
  | (.issueTokenForSession used _ _ now _ _, .token _ _) => if used = id then some now else none
  | _ => none

/-- The entry is a logout of the session, a use of it that fails, or a restart. -/
def ends (id : String) : Call × Answer → Bool
  | (.restart, _) => true
  | (.logout gone, _) | (.authenticateSession gone _, .denied)
  | (.issueTokenForSession gone _ _ _ _ _, .refused _) => gone = id
  | _ => false

def Minted (entries : List (Call × Answer)) (raw : String) (expiry : Time) : Prop :=
  ∃ call, (call, .token raw expiry) ∈ entries

namespace System
variable {env : Setting} {s : System}

/-- Neither sessions nor tokens are issued, used or ended. -/
structure Silent (entry : Call × Answer) : Prop where
  issues : ∀ id, issuedAt id entry = none
  uses : ∀ id, usedAt id entry = none
  ends : ∀ id, Auth.ends id entry = false
  mints : ∀ raw expiry, entry.2 ≠ .token raw expiry

inductive Effect (env : Setting) (s : System) : Call → Answer → System → Prop where
  | kept {call answer} (silent : Silent (call, answer)) : Effect env s call answer s
  | provisioned (username password : String) (salt : Bytes) (saved : String → Time)
      (cred : Credential) (isFirst : s.store.admin = none) :
      Effect env s (.bootstrapAdmin username password salt saved) .done
        ({ s with store := { s.store with admin := some cred } }.save env saved)
  | opened (username password id : String) (now : Time) (sess : Session)
      (expiry : sess.expiresAt = now + sessionTTL) :
      Effect env s (.login username password id now) (.session id (now + sessionTTL))
        (s.setSession id (some sess))
  | minted (username password id token : String) (now minted : Time) (saved : String → Time)
      (sess : Session) (subject role : String) (expiry : sess.expiresAt = now + sessionTTL) :
      Effect env s (.issueToken username password id token now minted saved)
        (.token token (minted + tokenTTL))
        ((s.setSession id (some sess)).mintToken env subject role token minted saved).2
  | mintedFor (id token : String) (now slid minted : Time) (saved : String → Time)
      (sess : Session) (subject role : String) (isOpen : s.store.sessions id ≠ none)
      (expiry : sess.expiresAt = slid + sessionTTL) :
      Effect env s (.issueTokenForSession id token now slid minted saved)
        (.token token (minted + tokenTTL))
        ((s.setSession id (some sess)).mintToken env subject role token minted saved).2
  | used (id : String) (now : Time) (sess : Session) (p : Principal)
      (isOpen : s.store.sessions id ≠ none) (expiry : sess.expiresAt = now + sessionTTL) :
      Effect env s (.authenticateSession id now) (.principal p) (s.setSession id (some sess))
  | closed {call answer} (id : String) (issues : ∀ other, issuedAt other (call, answer) = none)
      (uses : ∀ other, usedAt other (call, answer) = none)
      (ends : ∀ other, Auth.ends other (call, answer) = decide (id = other))
      (mints : ∀ raw expiry, answer ≠ .token raw expiry) :
      Effect env s call answer (s.setSession id none)
  | expired (raw : String) (now : Time) (tok : ApiToken)
      (was : s.store.tokens (env.tokenKey raw) = some tok) (late : tok.expiresAt < now) :
      Effect env s (.authenticateToken raw now) .denied (s.setToken (env.tokenKey raw) none)
  | restarted : Effect env s .restart .done (s.restart env)

theorem setSession_none {id : String} (hNone : s.store.sessions id = none) : s.setSession id none = s := by
  rw [setSession, ← hNone, update_eq_self]

theorem silent_of_refused
    (hCall : ∀ id token now slid minted saved, call ≠ .issueTokenForSession id token now slid minted saved)
    (hRestart : call ≠ .restart) (hLogout : ∀ id, call ≠ .logout id) : Silent (call, .refused err) where
  issues id := by cases call <;> rfl
  uses id := by cases call <;> rfl
  ends id := by
    cases call with
    | issueTokenForSession => exact absurd rfl (hCall _ _ _ _ _ _)
    | restart => exact absurd rfl hRestart
    | logout => exact absurd rfl (hLogout _)
    | _ => rfl
  mints _ _ h := Answer.noConfusion h

theorem login_cases (env : Setting) (s : System) (username password id : String) (now : Time) :
    (∃ err, s.login env username password id now = (.error err, s)) ∨
      ∃ sess : Session, sess.expiresAt = now + sessionTTL ∧
        s.login env username password id now = (.ok (id, now + sessionTTL), s.setSession id (some sess)) := by
  unfold login
  split
  · exact Or.inl ⟨_, rfl⟩
  · simp only
    split_ifs
    · exact Or.inl ⟨_, rfl⟩
    · exact Or.inr ⟨_, rfl, rfl⟩

theorem perform_effect (env : Setting) (s : System) (call : Call) :
    Effect env s call (s.perform env call).1 (s.perform env call).2 := by
  cases call with
  | bootstrapAdmin username password salt saved =>
    have hRefused : ∀ err, Effect env s (.bootstrapAdmin username password salt saved)
        (.refused err) s := fun err => .kept (silent_of_refused (by simp) (by simp) (by simp))
    simp only [perform, bootstrapAdmin]
    split_ifs with hShort hBlank hFirst
    · exact hRefused _
    · exact hRefused _
    · exact hRefused _
    · exact .provisioned _ _ _ _ _ (by simpa using hFirst)
  | login username password id now =>
    rcases login_cases env s username password id now with ⟨err, hLogin⟩ | ⟨sess, hExpiry, hLogin⟩
    · rw [perform, hLogin]
      exact .kept (silent_of_refused (by simp) (by simp) (by simp))
    · rw [perform, hLogin]
      exact .opened username password id now sess hExpiry
  | issueToken username password id token now minted saved =>
    rcases login_cases env s username password id now with ⟨err, hLogin⟩ | ⟨sess, hExpiry, hLogin⟩
    · rw [perform, issueToken, hLogin]
      exact .kept (silent_of_refused (by simp) (by simp) (by simp))
    · rw [perform, issueToken, hLogin]
      exact .minted username password id token now minted saved sess _ _ hExpiry
  | issueTokenForSession id token now slid minted saved =>
    have hRefused : ∀ err, Effect env s (.issueTokenForSession id token now slid minted saved)
        (.refused err) (s.setSession id none) :=
      fun err => .closed id (fun _ => rfl) (fun _ => rfl) (fun _ => rfl) (by simp)
    simp only [perform, issueTokenForSession]
    split
    · next hNone =>
      have hSame := hRefused (.other "session not found")
      rwa [setSession_none hNone] at hSame
    · next sess hFind =>
      split_ifs
      · exact hRefused _
      · exact .mintedFor id token now slid minted saved _ _ _ (by simp [hFind]) rfl
  | logout id => exact .closed id (fun _ => rfl) (fun _ => rfl) (fun _ => rfl) (by simp [perform])
  | authenticateSession id now =>
    have hDenied : Effect env s (.authenticateSession id now) .denied (s.setSession id none) :=
      .closed id (fun _ => rfl) (fun _ => rfl) (fun _ => rfl) (by simp)
    simp only [perform, authenticateSession]
    split
    · next hNone => rwa [setSession_none hNone] at hDenied
    · next sess hFind =>
      split_ifs
      · exact hDenied
      · exact .used id now _ _ (by simp [hFind]) rfl
  | authenticateToken raw now =>
    have hDenied : Effect env s (.authenticateToken raw now) .denied s :=
      .kept ⟨fun _ => rfl, fun _ => rfl, fun _ => rfl, by simp⟩
    simp only [perform, authenticateToken]
    split
    · exact hDenied
    · next tok hFind =>
      split_ifs with hHash hLate
      · exact hDenied
      · exact .expired raw now tok hFind hLate
      · exact .kept ⟨fun _ => rfl, fun _ => rfl, fun _ => rfl, by simp [Answer.ofPrincipal]⟩
  | restart => exact .restarted

theorem exists_effect (env : Setting) (s : System) (call : Call) :
    ∃ answer next, s.perform env call = (answer, next) ∧ Effect env s call answer next :=
  ⟨_, _, rfl, perform_effect env s call⟩

def Synced (s : System) : Prop := (s.file.bind (·.admin)) = s.store.admin

theorem save_synced (hPath : env.path ≠ "") (saved : String → Time) : (s.save env saved).Synced := by
  simp [Synced, save, Setting.saveLocked, hPath]

theorem newStore_admin (hPath : env.path ≠ "") (file : Option PersistedState) :
    (env.newStore file).admin = file.bind (·.admin) := by
  cases file <;> simp [Setting.newStore, hPath, Store.empty]

theorem perform_synced (hPath : env.path ≠ "") (call : Call) (hSynced : s.Synced) :
    (s.perform env call).2.Synced ∧
      ∀ cred, s.store.admin = some cred → (s.perform env call).2.store.admin = some cred := by
  obtain ⟨answer, next, hPerform, hEffect⟩ := exists_effect env s call
  rw [hPerform]
  cases hEffect with
  | kept => exact ⟨hSynced, fun _ h => h⟩
  | provisioned _ _ _ _ _ isFirst => exact ⟨save_synced hPath _, fun _ h => absurd (isFirst ▸ h) (by simp)⟩
  | opened | used | closed | expired => exact ⟨hSynced, fun _ h => h⟩
  | minted | mintedFor => exact ⟨save_synced hPath _, fun _ h => h⟩
  | restarted =>
    have hStore : (s.restart env).store.admin = s.store.admin := (newStore_admin hPath s.file).trans hSynced
    exact ⟨hSynced.trans hStore.symm, fun _ h => hStore.trans h⟩

theorem run_synced (hPath : env.path ≠ "") (calls : List Call) : (run env calls).Synced :=
  (component env).invariant (P := fun _ s => s.Synced)
    (newStore_admin hPath none).symm (fun _ _ call h => (perform_synced hPath call h).1) calls

theorem admin_kept (hPath : env.path ≠ "") (hAdmin : (run env before).store.admin = some cred)
    (after : List Call) : (run env (before ++ after)).store.admin = some cred := by
  induction after using List.reverseRecOn with
  | nil => rwa [append_nil]
  | append_singleton after call ih =>
    rw [← append_assoc, run, run_snoc]
    exact (perform_synced hPath call (run_synced hPath _)).2 cred ih

variable {id : String} {entries : List (Call × Answer)} {entry : Call × Answer} {expiry : Time}

/-- The session was issued, has not ended since and expires some time after its last use. -/
structure Live (id : String) (entries : List (Call × Answer)) (expiry : Time) : Prop where
  since : ∃ earlier entry later issued, entries = earlier ++ entry :: later ∧
    issuedAt id entry = some issued ∧ (∀ e ∈ later, ends id e = false) ∧
    expiry = (later.filterMap (usedAt id)).getLastD issued + sessionTTL

theorem Live.kept (live : Live id entries expiry) (hUses : usedAt id entry = none)
    (hEnds : ends id entry = false) : Live id (entries ++ [entry]) expiry := by
  obtain ⟨earlier, first, later, issued, rfl, hIssued, hLater, hExpiry⟩ := live.since
  refine ⟨earlier, first, later ++ [entry], issued, by simp, hIssued, ?_, by simp [hUses, hExpiry]⟩
  simpa [or_imp, forall_and, hEnds] using hLater

theorem Live.used {used : Time} (live : Live id entries expiry) (hUses : usedAt id entry = some used)
    (hEnds : ends id entry = false) : Live id (entries ++ [entry]) (used + sessionTTL) := by
  obtain ⟨earlier, first, later, issued, rfl, hIssued, hLater, -⟩ := live.since
  refine ⟨earlier, first, later ++ [entry], issued, by simp, hIssued, ?_, by simp [hUses]⟩
  simpa [or_imp, forall_and, hEnds] using hLater

theorem Live.issued {issued : Time} (hIssued : issuedAt id entry = some issued) :
    Live id (entries ++ [entry]) (issued + sessionTTL) :=
  ⟨entries, entry, [], issued, rfl, hIssued, by simp, by simp⟩

theorem newStore_sessions (env : Setting) (file : Option PersistedState) (id : String) :
    (env.newStore file).sessions id = none := by
  unfold Setting.newStore
  split_ifs
  · rfl
  · cases file <;> rfl

def Sessions (id : String) (entries : List (Call × Answer)) (s : System) : Prop :=
  ∀ sess, s.store.sessions id = some sess → Live id entries sess.expiresAt

theorem perform_sessions (call : Call) (hSessions : Sessions id entries s) :
    Sessions id (entries ++ [(call, (s.perform env call).1)]) (s.perform env call).2 := by
  obtain ⟨answer, next, hPerform, hEffect⟩ := exists_effect env s call
  rw [hPerform]
  -- a session is set to what the call makes of it, and the others are left alone
  have hSet : ∀ {other : String} {entry : Option Session} {next : System},
      next.store.sessions = Function.update s.store.sessions other entry →
      (∀ sess, other = id → entry = some sess → Live id (entries ++ [(call, answer)]) sess.expiresAt) →
      (other ≠ id → usedAt id (call, answer) = none ∧ ends id (call, answer) = false) →
      Sessions id (entries ++ [(call, answer)]) next := by
    intro other entry next hNext hSame hOther sess hFind
    rw [hNext] at hFind
    by_cases hID : other = id
    · subst hID
      exact hSame sess rfl (by simpa using hFind)
    · rw [update_of_ne (Ne.symm hID)] at hFind
      exact (hSessions sess hFind).kept (hOther hID).1 (hOther hID).2
  cases hEffect with
  | kept silent => exact fun sess hFind => (hSessions sess hFind).kept (silent.uses id) (silent.ends id)
  | provisioned | expired => exact fun sess hFind => (hSessions sess hFind).kept rfl rfl
  | opened _ _ _ _ _ expiry | minted _ _ _ _ _ _ _ _ _ _ expiry =>
    refine hSet rfl ?_ fun _ => ⟨rfl, rfl⟩
    rintro _ rfl ⟨⟩
    rw [expiry]
    exact .issued (by simp [issuedAt])
  | mintedFor _ _ _ _ _ _ _ _ _ isOpen expiry | used _ _ _ _ isOpen expiry =>
    refine hSet rfl ?_ fun hID => ⟨by simp [usedAt, hID], rfl⟩
    rintro _ rfl ⟨⟩
    obtain ⟨old, hOld⟩ := ne_none_iff_exists'.mp isOpen
    rw [expiry]
    exact (hSessions old hOld).used (by simp [usedAt]) rfl
  | closed other issues uses ends => exact hSet rfl (by simp) fun hID => ⟨uses id, by simp [ends, hID]⟩
  | restarted => exact fun sess hFind => absurd ((newStore_sessions env s.file id).symm.trans hFind) (by simp)

theorem run_sessions (env : Setting) (id : String) (calls : List Call) :
    Sessions id (transcript env calls) (run env calls) :=
  (component env).invariant (P := Sessions id)
    (fun _ hFind => absurd ((newStore_sessions env none id).symm.trans hFind) (by simp))
    (fun _ _ call => perform_sessions call) calls

theorem live_of_authenticated {calls : List Call} {now : Time} {p : Principal}
    (hAccepted : ((run env calls).authenticateSession id now).1 = some p) :
    ∃ expiry, Live id (transcript env calls) expiry ∧ now ≤ expiry := by
  unfold authenticateSession at hAccepted
  split at hAccepted
  · cases hAccepted
  · rename_i sess hFind
    split_ifs at hAccepted with hLate
    exact ⟨sess.expiresAt, run_sessions env id calls sess hFind, not_lt.mp hLate⟩

def held (s : System) (text : String) : Option Time := (s.store.tokens text).map (·.expiresAt)

def written (s : System) (text : String) : Option Time := (s.file.bind (·.tokens text)).map (·.expiresAt)

/-- The tokens found are minted ones, and those not found have expired. -/
structure Explains (env : Setting) (entries : List (Call × Answer)) (now : Time)
    (found : String → Option Time) : Prop where
  kept : ∀ raw expiry, Minted entries raw expiry → found (env.tokenKey raw) = some expiry ∨ expiry ≤ now
  minted : ∀ text expiry, found text = some expiry →
    ∃ raw, env.tokenKey raw = text ∧ Minted entries raw expiry

variable {raw : String}

theorem minted_snoc : Minted (entries ++ [entry]) raw expiry ↔
    Minted entries raw expiry ∨ entry.2 = .token raw expiry := by
  simp only [Minted, mem_append, mem_singleton, exists_or]
  refine or_congr Iff.rfl ⟨?_, fun h => ⟨entry.1, h ▸ rfl⟩⟩
  rintro ⟨call, rfl⟩
  rfl

variable {now next : Time} {found : String → Option Time}

namespace Explains

theorem prune (explains : Explains env entries now found) (hNow : now ≤ next)
    {left : String → Option Time} (hLeft : ∀ text expiry, left text = some expiry → found text = some expiry)
    (hGone : ∀ text expiry, found text = some expiry → left text = some expiry ∨ expiry ≤ next) :
    Explains env entries next left where
  kept raw expiry hMinted := by
    rcases explains.kept raw expiry hMinted with hFound | hLate
    · exact hGone _ _ hFound
    · exact Or.inr (hLate.trans hNow)
  minted text expiry hFind := explains.minted text expiry (hLeft text expiry hFind)

theorem snoc (explains : Explains env entries now found)
    (hMints : ∀ raw expiry, entry.2 ≠ .token raw expiry) :
    Explains env (entries ++ [entry]) now found where
  kept raw expiry hMinted := explains.kept raw expiry ((minted_snoc.mp hMinted).resolve_right (hMints raw expiry))
  minted text expiry hFind :=
    let ⟨raw, hText, hMinted⟩ := explains.minted text expiry hFind
    ⟨raw, hText, minted_snoc.mpr (Or.inl hMinted)⟩

theorem mint (explains : Explains env entries now found) {raw : String} {expiry : Time}
    (hMints : entry.2 = .token raw expiry)
    (hFresh : ∀ other expiry, Minted entries other expiry → env.tokenKey other ≠ env.tokenKey raw) :
    Explains env (entries ++ [entry]) now (Function.update found (env.tokenKey raw) (some expiry)) where
  kept other otherExpiry hMinted := by
    rcases minted_snoc.mp hMinted with hOld | hNew
    · rw [update_of_ne (hFresh other otherExpiry hOld)]
      exact explains.kept other otherExpiry hOld
    · obtain ⟨rfl, rfl⟩ := Answer.token.inj (hMints.symm.trans hNew)
      exact Or.inl (update_self ..)
  minted text otherExpiry hFind := by
    by_cases hText : text = env.tokenKey raw
    · subst hText
      rw [update_self, Option.some.injEq] at hFind
      exact ⟨raw, rfl, minted_snoc.mpr (Or.inr (hFind ▸ hMints))⟩
    · rw [update_of_ne hText] at hFind
      obtain ⟨other, hOther, hMinted⟩ := explains.minted text otherExpiry hFind
      exact ⟨other, hOther, minted_snoc.mpr (Or.inl hMinted)⟩

end Explains

/-- What the process and the file know of the tokens. -/
structure Tokens (env : Setting) (entries : List (Call × Answer)) (now : Time) (s : System) : Prop where
  inProcess : Explains env entries now s.held
  inFile : Explains env entries now s.written
  hashed : ∀ text tok, s.store.tokens text = some tok → hexEncode tok.hash = text

theorem held_setToken (s : System) (text : String) (entry : Option ApiToken) :
    (s.setToken text entry).held = Function.update s.held text (entry.map (·.expiresAt)) := by
  funext other
  by_cases hOther : other = text
  · subst hOther
    simp [held, setToken]
  · simp [held, setToken, hOther]

theorem written_save (hPath : env.path ≠ "") (s : System) (saved : String → Time) (text : String) :
    (s.save env saved).written text = (s.held text).filter (saved text < ·) := by
  simp only [written, held, save, Setting.saveLocked, if_neg hPath, bind_some]
  cases s.store.tokens text with
  | none => rfl
  | some tok => by_cases hKeep : saved text < tok.expiresAt <;> simp [hKeep, Option.filter]

theorem load_expiry (digest : Digest) (t : PersistedToken) :
    ∃ tok, t.load digest.hex = some tok ∧ tok.expiresAt = t.expiresAt ∧ tok.hash = digest.bytes := by
  simp [PersistedToken.load, Digest.hex, digest.size]

variable {text : String}

theorem load_hashed {t : PersistedToken} {tok : ApiToken} (digest : Digest)
    (hText : digest.hex = text) (hLoad : t.load text = some tok) : hexEncode tok.hash = text := by
  obtain ⟨loaded, hLoaded, -, hHash⟩ := load_expiry digest t
  rw [hText, hLoad, Option.some.injEq] at hLoaded
  rw [hLoaded, hHash]
  exact hText

theorem newStore_tokens (hPath : env.path ≠ "") (file : Option PersistedState) (text : String) :
    (env.newStore file).tokens text = (file.bind (·.tokens text)).bind (·.load text) := by
  cases file <;> simp [Setting.newStore, hPath, Store.empty]

theorem held_restart (hPath : env.path ≠ "")
    (hDigest : s.written text ≠ none → ∃ digest : Digest, digest.hex = text) :
    (s.restart env).held text = s.written text := by
  simp only [held, restart, newStore_tokens hPath, written] at hDigest ⊢
  cases hFile : s.file.bind (·.tokens text) with
  | none => rfl
  | some t =>
    obtain ⟨digest, rfl⟩ := hDigest (by simp [hFile])
    obtain ⟨tok, hLoad, hExpiry, -⟩ := load_expiry digest t
    simp [hLoad, hExpiry]

variable {saved : String → Time}

theorem Explains.save (hPath : env.path ≠ "") (explains : Explains env entries now s.held)
    (hNow : now ≤ next) (hSaved : ∀ text, saved text ≤ next) :
    Explains env entries next (s.save env saved).written := by
  refine explains.prune hNow ?_ ?_
  · intro text expiry hFind
    rw [written_save hPath, filter_eq_some_iff] at hFind
    exact hFind.1
  · intro text expiry hFind
    by_cases hKeep : saved text < expiry
    · exact Or.inl (by simp [written_save hPath, hFind, hKeep])
    · exact Or.inr ((not_lt.mp hKeep).trans (hSaved text))

theorem Explains.later (explains : Explains env entries now found) (hNow : now ≤ next) :
    Explains env entries next found :=
  explains.prune hNow (fun _ _ h => h) fun _ _ h => Or.inl h

theorem Tokens.snoc (tokens : Tokens env entries now s) (hNow : now ≤ next)
    (hMints : ∀ raw expiry, entry.2 ≠ .token raw expiry) {s' : System}
    (hStore : s'.store.tokens = s.store.tokens) (hFile : s'.file = s.file) :
    Tokens env (entries ++ [entry]) next s' where
  inProcess := by
    rw [show s'.held = s.held from funext fun text => by rw [held, hStore, held]]
    exact (tokens.inProcess.later hNow).snoc hMints
  inFile := by
    rw [show s'.written = s.written from funext fun text => by rw [written, hFile, written]]
    exact (tokens.inFile.later hNow).snoc hMints
  hashed := hStore ▸ tokens.hashed

variable {call : Call}

theorem Tokens.mint (hPath : env.path ≠ "") {minted : Time}
    {subject role : String} (tokens : Tokens env entries now s) (hNow : now ≤ next)
    (hSaved : ∀ text, saved text ≤ next)
    (hFresh : ∀ other expiry, Minted entries other expiry → env.tokenKey other ≠ env.tokenKey raw) :
    Tokens env (entries ++ [(call, .token raw (minted + tokenTTL))]) next
      (s.mintToken env subject role raw minted saved).2 := by
  have hHeld : Explains env (entries ++ [(call, .token raw (minted + tokenTTL))]) now _ :=
    tokens.inProcess.mint rfl hFresh
  refine ⟨?_, ?_, ?_⟩
  · rw [mintToken]
    change Explains env _ next (s.setToken _ _).held
    rw [held_setToken]
    exact hHeld.later hNow
  · refine Explains.save hPath ?_ hNow hSaved
    rw [held_setToken]
    exact hHeld
  · intro text tok hFind
    simp only [mintToken, save, setToken] at hFind
    by_cases hText : text = env.tokenKey raw
    · subst hText
      rw [update_self, Option.some.injEq] at hFind
      subst hFind
      rfl
    · rw [update_of_ne hText] at hFind
      exact tokens.hashed text tok hFind

theorem le_of_within {start finish : Time} (within : call.Within start finish) : start ≤ finish := by
  cases call with
  | bootstrapAdmin => exact within.1
  | login | authenticateSession | authenticateToken => exact within.1.trans within.2
  | issueToken => exact within.1.trans (within.2.1.trans within.2.2.1)
  | issueTokenForSession => exact within.1.trans (within.2.1.trans (within.2.2.1.trans within.2.2.2.1))
  | logout | restart => exact within

theorem perform_tokens (hPath : env.path ≠ "") (within : call.Within now next)
    (tokens : Tokens env entries now s)
    (hFresh : ∀ raw, call.newToken = some raw → ∀ other expiry, Minted entries other expiry →
      env.tokenKey other ≠ env.tokenKey raw) :
    Tokens env (entries ++ [(call, (s.perform env call).1)]) next (s.perform env call).2 := by
  obtain ⟨answer, s', hPerform, hEffect⟩ := exists_effect env s call
  rw [hPerform]
  have hNow := le_of_within within
  cases hEffect with
  | kept silent => exact tokens.snoc hNow silent.mints rfl rfl
  | provisioned _ _ _ saved =>
    refine ⟨(tokens.inProcess.later hNow).snoc (by simp), Explains.snoc ?_ (by simp), tokens.hashed⟩
    refine Explains.save hPath ?_ hNow fun text => (within.2 text).2
    exact tokens.inProcess
  | opened | used => exact tokens.snoc hNow (by simp) rfl rfl
  | closed _ _ _ _ mints => exact tokens.snoc hNow mints rfl rfl
  | minted =>
    exact Tokens.mint hPath ⟨tokens.inProcess, tokens.inFile, tokens.hashed⟩ hNow
      (fun text => (within.2.2.2 text).2) (hFresh _ rfl)
  | mintedFor =>
    exact Tokens.mint hPath ⟨tokens.inProcess, tokens.inFile, tokens.hashed⟩ hNow
      (fun text => (within.2.2.2.2 text).2) (hFresh _ rfl)
  | expired raw now tok was late =>
    refine ⟨Explains.snoc ?_ (by simp), (tokens.inFile.later hNow).snoc (by simp), ?_⟩
    · rw [held_setToken]
      refine tokens.inProcess.prune hNow ?_ ?_
      · intro text expiry hFind
        by_cases hText : text = env.tokenKey raw <;> simp_all
      · intro text expiry hFind
        by_cases hText : text = env.tokenKey raw
        · subst hText
          refine Or.inr ?_
          simp only [held, was, map_some, Option.some.injEq] at hFind
          exact hFind ▸ late.le.trans within.2
        · exact Or.inl (by simpa [hText] using hFind)
    · intro text found hFind
      by_cases hText : text = env.tokenKey raw
      · simp [setToken, hText] at hFind
      · exact tokens.hashed text found (by simpa [setToken, hText] using hFind)
  | restarted =>
    have hDigest : ∀ text, s.written text ≠ none → ∃ digest : Digest, digest.hex = text := by
      intro text hFind
      obtain ⟨expiry, hFind⟩ := ne_none_iff_exists'.mp hFind
      obtain ⟨raw, hRaw, -⟩ := tokens.inFile.minted text expiry hFind
      exact ⟨_, hRaw⟩
    have hHeld : (s.restart env).held = s.written := funext fun text => held_restart hPath (hDigest text)
    have hFile : Explains env (entries ++ [(.restart, .done)]) next s.written :=
      (tokens.inFile.later hNow).snoc (by simp)
    refine ⟨hHeld ▸ hFile, hFile, ?_⟩
    · intro text tok hFind
      rw [restart, newStore_tokens hPath, bind_eq_some_iff] at hFind
      obtain ⟨t, hFile, hLoad⟩ := hFind
      obtain ⟨digest, hText⟩ := hDigest text (by simp [written, hFile])
      exact load_hashed digest hText hLoad

theorem newToken_of_minted (hMints : (s.perform env call).1 = .token raw expiry) : call.newToken = some raw := by
  obtain ⟨answer, s', hPerform, hEffect⟩ := exists_effect env s call
  rw [hPerform] at hMints
  cases hMints
  cases hEffect with
  | kept silent => exact absurd rfl (silent.mints _ _)
  | closed _ _ _ _ mints => exact absurd rfl (mints _ _)
  | minted | mintedFor => rfl

variable {calls : List Call}

theorem minted_drawn (hMinted : Minted (transcript env calls) raw expiry) :
    raw ∈ calls.filterMap Call.newToken := by
  induction calls using List.reverseRecOn with
  | nil => exact absurd hMinted.choose_spec not_mem_nil
  | append_singleton calls call ih =>
    rw [transcript, transcript_snoc, minted_snoc] at hMinted
    rw [filterMap_append, mem_append]
    rcases hMinted with hOld | hNew
    · exact Or.inl (ih hOld)
    · exact Or.inr (mem_filterMap.mpr ⟨call, mem_cons_self, newToken_of_minted hNew⟩)

/-- The tokens drawn differ, and so do their hashes. -/
structure Fresh (env : Setting) (tokens : List String) : Prop where
  distinct : tokens.Nodup
  collisionFree : ∀ first ∈ tokens, ∀ second ∈ tokens,
    env.tokenKey first = env.tokenKey second → first = second

theorem run_tokens (hPath : env.path ≠ "") {now : Time} (hTimed : Timed calls now)
    (fresh : Fresh env (calls.filterMap Call.newToken)) :
    Tokens env (transcript env calls) now (run env calls) := by
  induction hTimed with
  | start now =>
    have hNone : ∀ raw expiry, ¬ Minted (transcript env []) raw expiry :=
      fun _ _ h => absurd h.choose_spec not_mem_nil
    have hStart : (run env []).held = fun _ => none := by
      funext text
      simp [held, run, component, newStore_tokens hPath]
    refine ⟨⟨fun raw expiry h => absurd h (hNone _ _), ?_⟩, ⟨fun raw expiry h => absurd h (hNone _ _), nofun⟩, ?_⟩
    · simp [hStart]
    · intro text tok hFind
      have hHeld := congrFun hStart text
      simp [held, hFind] at hHeld
  | @call calls call now next earlier within ih =>
    rw [filterMap_append] at fresh
    have hDistinct := nodup_append.mp fresh.distinct
    have hOld := ih ⟨hDistinct.1, fun first hFirst second hSecond => fresh.collisionFree first
      (mem_append_left _ hFirst) second (mem_append_left _ hSecond)⟩
    rw [transcript, transcript_snoc, run, run_snoc]
    refine perform_tokens hPath within hOld ?_
    intro raw hRaw other expiry hMinted hSame
    have hOther := minted_drawn hMinted
    have hIn : raw ∈ [call].filterMap Call.newToken := by simp [hRaw]
    exact hDistinct.2.2 other hOther raw hIn (fresh.collisionFree other
      (mem_append_left _ hOther) raw (mem_append_right _ hIn) hSame)

theorem minted_unique (hTokens : (calls.filterMap Call.newToken).Nodup)
    {first second : Time} (hFirst : Minted (transcript env calls) raw first)
    (hSecond : Minted (transcript env calls) raw second) : first = second := by
  induction calls using List.reverseRecOn with
  | nil => exact absurd hFirst.choose_spec not_mem_nil
  | append_singleton calls call ih =>
    rw [filterMap_append, nodup_append] at hTokens
    have hDrawn : ∀ {expiry}, Minted (transcript env calls) raw expiry →
        ∀ {answer}, ((run env calls).perform env call).1 ≠ .token raw answer := by
      intro expiry hOld answer hNew
      have hIn : raw ∈ [call].filterMap Call.newToken := by simp [newToken_of_minted hNew]
      exact hTokens.2.2 raw (minted_drawn hOld) raw hIn rfl
    rw [transcript, transcript_snoc, minted_snoc] at hFirst hSecond
    rcases hFirst with hFirst | hFirst <;> rcases hSecond with hSecond | hSecond
    · exact ih hTokens.1 hFirst hSecond
    · exact absurd hSecond (hDrawn hFirst)
    · exact absurd hFirst (hDrawn hSecond)
    · exact (Answer.token.inj (hFirst.symm.trans hSecond)).2

theorem authenticateToken_isSome (tokens : Tokens env entries clock s) :
    (s.authenticateToken env raw now).1.isSome ↔
      ∃ expiry, s.held (env.tokenKey raw) = some expiry ∧ now ≤ expiry := by
  unfold authenticateToken held
  cases hFind : s.store.tokens (env.tokenKey raw) with
  | none => simp
  | some tok =>
    have hHash : (hexDecode (env.tokenKey raw)).getD [] = tok.hash := by
      rw [← tokens.hashed _ _ hFind, hexDecode_hexEncode, getD_some]
    by_cases hLate : tok.expiresAt < now
    · simp [hHash, hLate]
    · simp [hHash, hLate, not_lt.mp hLate]

variable {issued : Time}

theorem newSession_of_issued (hIssued : issuedAt id entry = some issued) :
    entry.1.newSession = some id := by
  unfold issuedAt at hIssued
  split at hIssued
  · split_ifs at hIssued with hID
    exact hID ▸ rfl
  · split_ifs at hIssued with hID
    exact hID ▸ rfl
  · cases hIssued

theorem not_live_of_ended (hSessions : (calls.filterMap Call.newSession).Nodup)
    {earlier later : List (Call × Answer)} {first : Call × Answer}
    (hSplit : transcript env calls = earlier ++ entry :: later) (hFirst : first ∈ earlier)
    (hIssued : issuedAt id first = some issued) (hEnds : ends id entry = true) :
    ¬ Live id (transcript env calls) expiry := by
  intro live
  obtain ⟨before, again, after, issuedAgain, hLive, hAgain, hAfter, -⟩ := live.since
  -- the ID was drawn once, so what issues the session is not preceded by what issued it
  have hOnce : first ∉ before := by
    intro hIn
    rw [← (component env).transcript_calls calls, ← transcript, hLive, map_append,
      filterMap_append, nodup_append] at hSessions
    refine hSessions.2.2 id ?_ id ?_ rfl
    · exact mem_filterMap.mpr ⟨first.1, List.mem_map_of_mem hIn, newSession_of_issued hIssued⟩
    · exact mem_filterMap.mpr ⟨again.1, by simp, newSession_of_issued hAgain⟩
  rw [hSplit] at hLive
  rcases append_eq_append_iff.mp hLive with ⟨gap, rfl, -⟩ | ⟨gap, rfl, hGap⟩
  · exact hOnce (mem_append_left _ hFirst)
  · cases gap with
    | nil => exact hOnce (by simpa using hFirst)
    | cons head rest =>
      obtain ⟨-, rfl⟩ := List.cons.inj hGap
      rw [hAfter entry (by simp)] at hEnds
      cases hEnds

/-- Over any history: the administrator stays, a session is accepted only between its issue
and its end and within its time of its last use, and a token is accepted until it expires. -/
theorem authentication_history (hPath : env.path ≠ "") {calls : List Call} {clock : Time}
    (hTimed : Timed calls clock) (hSessions : (calls.filterMap Call.newSession).Nodup)
    (fresh : Fresh env (calls.filterMap Call.newToken)) :
    (∀ before after cred, calls = before ++ after → (run env before).store.admin = some cred →
      (run env calls).store.admin = some cred) ∧
    (∀ id now p, ((run env calls).authenticateSession id now).1 = some p →
      ∃ earlier entry later issued, transcript env calls = earlier ++ entry :: later ∧
        issuedAt id entry = some issued ∧ (∀ e ∈ later, ends id e = false) ∧
        now ≤ (later.filterMap (usedAt id)).getLastD issued + sessionTTL) ∧
    (∀ id now earlier entry later, transcript env calls = earlier ++ entry :: later →
      (∃ first ∈ earlier, (issuedAt id first).isSome) → ends id entry = true →
      ((run env calls).authenticateSession id now).1 = none) ∧
    ∀ raw now, clock ≤ now →
      (∀ other ∈ calls.filterMap Call.newToken, env.tokenKey other = env.tokenKey raw → other = raw) →
      (∀ expiry, Minted (transcript env calls) raw expiry →
        (now < expiry → ((run env calls).authenticateToken env raw now).1.isSome) ∧
        (expiry < now → ((run env calls).authenticateToken env raw now).1 = none)) ∧
      ((∀ expiry, ¬ Minted (transcript env calls) raw expiry) →
        ((run env calls).authenticateToken env raw now).1 = none) := by
  refine ⟨?_, ?_, ?_, ?_⟩
  · rintro before after cred rfl hAdmin
    exact admin_kept hPath hAdmin after
  · intro id now p hAccepted
    obtain ⟨expiry, live, hNow⟩ := live_of_authenticated hAccepted
    obtain ⟨earlier, entry, later, issued, hSplit, hIssued, hLater, rfl⟩ := live.since
    exact ⟨earlier, entry, later, issued, hSplit, hIssued, hLater, hNow⟩
  · rintro id now earlier entry later hSplit ⟨first, hFirst, hIssued⟩ hEnds
    obtain ⟨issued, hIssued⟩ := isSome_iff_exists.mp hIssued
    by_contra hAccepted
    obtain ⟨p, hAccepted⟩ := ne_none_iff_exists'.mp hAccepted
    obtain ⟨expiry, live, -⟩ := live_of_authenticated hAccepted
    exact not_live_of_ended hSessions hSplit hFirst hIssued hEnds live
  · intro raw now hNow hRaw
    have tokens := run_tokens hPath hTimed fresh
    have hMinted : ∀ {expiry}, (run env calls).held (env.tokenKey raw) = some expiry →
        Minted (transcript env calls) raw expiry := by
      intro expiry hHeld
      obtain ⟨other, hKey, hMinted⟩ := tokens.inProcess.minted _ _ hHeld
      rwa [← hRaw other (minted_drawn hMinted) hKey]
    refine ⟨?_, ?_⟩
    · intro expiry hExpiry
      refine ⟨?_, ?_⟩
      · intro hBefore
        have hHeld := (tokens.inProcess.kept raw expiry hExpiry).resolve_right
          (not_le.mpr (hNow.trans_lt hBefore))
        exact (authenticateToken_isSome tokens).mpr ⟨expiry, hHeld, hBefore.le⟩
      · intro hAfter
        by_contra hAccepted
        obtain ⟨found, hHeld, hFound⟩ :=
          (authenticateToken_isSome tokens).mp (isSome_iff_ne_none.mpr hAccepted)
        have hSame := minted_unique fresh.distinct hExpiry (hMinted hHeld)
        exact absurd hFound (not_le.mpr (hSame ▸ hAfter))
    · intro hNever
      by_contra hAccepted
      obtain ⟨found, hHeld, -⟩ :=
        (authenticateToken_isSome tokens).mp (isSome_iff_ne_none.mpr hAccepted)
      exact hNever found (hMinted hHeld)

end System

namespace Sample

def env : Setting := ⟨.leading, fun password salt => password ++ salt, "auth-state.json"⟩

def calls : List Call :=
  [.bootstrapAdmin "admin" "correct horse" (List.replicate 16 7) fun _ => 0,
    .issueToken "admin" "correct horse" "session" "token" 1 2 fun _ => 2, .restart]

theorem timed : Timed calls 2 := by
  have hBootstrapped : Timed ([] ++ [_]) 0 :=
    .call (.start 0) (show Call.Within 0 0 (.bootstrapAdmin "admin" "correct horse"
      (List.replicate 16 7) fun _ => 0) from ⟨le_refl _, fun _ => ⟨le_refl _, le_refl _⟩⟩)
  have hMinted : Timed (([] ++ [_]) ++ [_]) 2 :=
    .call hBootstrapped (show Call.Within 0 2 (.issueToken "admin" "correct horse" "session" "token" 1 2
      fun _ => 2) from ⟨by decide, by decide, le_refl _, fun _ => ⟨le_refl _, le_refl _⟩⟩)
  exact .call hMinted (show Call.Within 2 2 .restart from Int.le_refl 2)

theorem token_outlives_process : ((System.run env calls).authenticateToken env "token" Time.hour).1.isSome :=
  (((System.authentication_history (by decide) timed (by decide) ⟨by decide, by decide⟩).2.2.2
    "token" Time.hour (by decide) (by decide)).1 (2 + tokenTTL)
      ⟨_, mem_cons_of_mem _ mem_cons_self⟩).1 (by decide)

end Sample

end DBVault.Auth
