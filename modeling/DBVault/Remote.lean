import DBVault.Ports.History

/-! Reading a snapshot's signed files back from the store. `restore` and
`verification` make the same checks in the same order with their own error
codes and texts, except that only `restore` compares snapshot identifiers. -/
namespace DBVault
open Text Text.Path Interaction Attempt

abbrev Attempted (α : Type) := Attempt Answer GoError α

def orReturn {α : Type} (p : Prog (Result α)) : Attempted α := ExceptT.mk p

/-- The fields `restore.Service` and `verification.Service` share. The signer
may be nil. -/
structure RemoteService where
  ports : Ports
  hasSigner : Bool
  dedupKey : Bytes

/-- The codes and texts in which the two services differ. -/
structure Wording where
  code : ErrorCode
  manifestMissing : GoError → GoError
  (badSignature digestMismatch : String)

/-- `Store.Get` and `io.ReadAll`. -/
def readObject (key : String) (missing unreadable : GoError → GoError) : Attempted Bytes :=
  orReturn do
    match ← ask (.get key) with
    | .error err => pure (.error (missing err))
    | .ok r => pure (r.readAll.mapError unreadable)

def signatureKey (snap : Snapshot) : String :=
  let key := String.ofList (trimSuffix ".json".toList snap.manifestObjectKey.toList) ++ ".sig"
  if key = "" ∨ key = ".sig" then snap.sourceID ++ "/snapshots/" ++ snap.id ++ "/manifest.sig"
  else key

namespace RemoteService
variable (s : RemoteService)

def checkSignature (words : Wording) (payload sig : Bytes) : Result Unit :=
  if s.hasSigner then
    (s.ports.verify payload sig).mapError fun err => newError words.code words.badSignature (some err)
  else .ok ()

/-- What the completion record has to say about the manifest. -/
def checkCompletion (words : Wording) (payload record : Bytes) : Result Unit :=
  match Completion.unmarshal record with
  | .error err => .error (newError words.code "malformed completion record" (some (.json err)))
  | .ok comp =>
    if comp.manifestDigest = "" then
      .error (newError words.code "completion record has empty manifest digest")
    else if comp.manifestDigest ≠ (s.ports.hashes.sha256 payload).hex then
      .error (newError words.code words.digestMismatch)
    else .ok ()

/-- The completion record is only asked for if the catalogue names one. -/
def readCompletion (words : Wording) (snap : Snapshot) (payload : Bytes) : Attempted Unit :=
  if snap.completionObjectKey = "" then pure ()
  else do
    let record ← readObject snap.completionObjectKey
      (fun err => newError words.code
        "catalogue-tracked completion record is missing from storage" (some err))
      (fun err => newError words.code "cannot read completion record" (some err))
    orReturn (pure (s.checkCompletion words payload record))

/-- Signature and completion record; what is returned is the manifest as stored. -/
def readSigned (words : Wording) (snap : Snapshot) : Attempted Bytes := do
  let payload ← readObject snap.manifestObjectKey words.manifestMissing id
  let sig ← readObject (signatureKey snap)
    (fun err => newError words.code "missing manifest signature" (some err)) id
  orReturn (pure (s.checkSignature words payload sig))
  s.readCompletion words snap payload
  pure payload

def parseManifest (payload : Bytes) : Result SnapshotManifest :=
  (SnapshotManifest.unmarshal payload).mapError fun err =>
    newError .manifestInvalid "malformed manifest JSON" (some (.json err))

def expectedRoot (man : SnapshotManifest) : String :=
  if man.snapshot.rootDigest = "" then man.rootDigest else man.snapshot.rootDigest

def treeRoot (man : SnapshotManifest) : String := s.ports.hashes.treeRoot s.dedupKey (man.chunks.map (·.chunkID))

def computedDigest (man : SnapshotManifest) : String :=
  s.ports.hashes.rootDigest s.dedupKey (man.chunks.map fun ch => (ch.chunkID, ch.plaintextSize))
    man.database.logicalSize man.database.pageSize

/-- The root digest against the chunks the manifest lists. -/
def checkRoot (words : Wording) (man : SnapshotManifest) : Result Unit :=
  let expected := expectedRoot man
  if expected = "" then .error (newError words.code "missing root digest in manifest")
  else if s.dedupKey.length > 0 ∧ man.chunks.length > 0 then
    if s.treeRoot man = "" then .error (newError words.code "computed merkle tree root is empty")
    else if s.treeRoot man ≠ expected ∧ s.computedDigest man ≠ expected then
      .error (newError words.code ("merkle root mismatch: manifest root is " ++ expected ++
        ", computed tree root is " ++ s.treeRoot man ++ ", digest is " ++ s.computedDigest man))
    else .ok ()
  else .ok ()

/-- The store has a manifest with a valid signature and, if the catalogue names
one, a completion record that goes with it. -/
structure Signed (w : World) (snap : Snapshot) (payload : Bytes) : Prop where
  manifest : w.Holds s.ports snap.manifestObjectKey payload
  sig : ∃ sig, w.Holds s.ports (signatureKey snap) sig ∧
    (s.hasSigner = true → s.ports.verify payload sig = .ok ())
  completion : snap.completionObjectKey ≠ "" → ∃ record comp,
    w.Holds s.ports snap.completionObjectKey record ∧ Completion.unmarshal record = .ok comp ∧
      comp.manifestDigest = (s.ports.hashes.sha256 payload).hex

/-- The root digest is there and, where it can be computed, is one of the two
the chunks give. -/
structure RootFits (man : SnapshotManifest) : Prop where
  present : expectedRoot man ≠ ""
  computed : s.dedupKey.length > 0 → man.chunks.length > 0 → s.treeRoot man ≠ "" ∧
    (s.treeRoot man = expectedRoot man ∨ s.computedDigest man = expectedRoot man)

variable {words : Wording}

theorem checkSignature_ok {payload sig : Bytes} :
    s.checkSignature words payload sig = .ok () ↔ (s.hasSigner = true → s.ports.verify payload sig = .ok ()) := by
  unfold checkSignature
  cases s.hasSigner with
  | false => simp
  | true => cases s.ports.verify payload sig <;> simp [Except.mapError]

theorem checkCompletion_ok :
    s.checkCompletion words payload record = .ok () ↔
      ∃ comp, Completion.unmarshal record = .ok comp ∧
        comp.manifestDigest = (s.ports.hashes.sha256 payload).hex := by
  unfold checkCompletion
  cases Completion.unmarshal record with
  | error err => simp
  | ok comp =>
    have hHex := (s.ports.hashes.sha256 payload).hex_ne_empty
    by_cases hDigest : comp.manifestDigest = (s.ports.hashes.sha256 payload).hex
    · simp [hDigest, hHex]
    · by_cases hEmpty : comp.manifestDigest = "" <;> simp [hDigest, hEmpty, hHex.symm]

theorem checkRoot_ok : s.checkRoot words man = .ok () ↔ s.RootFits man := by
  unfold checkRoot
  by_cases hEmpty : expectedRoot man = ""
  · simp only [hEmpty, ↓reduceIte, reduceCtorEq, false_iff]
    exact fun h => h.present hEmpty
  · simp only [hEmpty, ↓reduceIte]
    split
    · rename_i hKey
      constructor
      · intro h
        split at h
        · cases h
        · rename_i hTree
          split at h
          · cases h
          · rename_i hRoot
            exact ⟨hEmpty, fun _ _ => ⟨hTree, by tauto⟩⟩
      · intro h
        obtain ⟨hTree, hRoot⟩ := h.computed hKey.1 hKey.2
        rw [if_neg hTree, if_neg (by tauto)]
    · rename_i hKey
      simp only [true_iff]
      exact ⟨hEmpty, fun hLength hChunks => absurd ⟨hLength, hChunks⟩ hKey⟩

section
variable {env : Environment Answer World Choice} {good : Choice → Prop} {w : World} {α : Type}
  {post : α → World → Prop} {failed : GoError → World → Prop}

theorem ensures_check (hOk : ∀ value, result = .ok value → post value w)
    (hError : ∀ err, result = .error err → failed err w) :
    Attempt.Ensures env good (orReturn (pure result)) w post failed := by
  cases result with
  | ok value => exact hOk value rfl
  | error err => exact hError err rfl

variable {β : Type}

theorem ensures_check_bind {result : Result β} {f : β → Attempted α}
    (hOk : ∀ value, result = .ok value → Attempt.Ensures env good (f value) w post failed)
    (hError : ∀ err, result = .error err → failed err w) :
    Attempt.Ensures env good (orReturn (pure result) >>= f) w post failed := by
  cases result with
  | ok value => exact hOk value rfl
  | error err => exact hError err rfl

theorem ensures_success
    (h : p.Ensures env good w fun result w' => ∀ value, result = .ok value → post value w') :
    Attempt.Ensures env good (orReturn p) w post fun _ _ => True := by
  refine Program.Ensures.mono h ?_
  intro result w' hPost
  cases result with
  | ok value => exact hPost value rfl
  | error err => trivial

theorem ensures_done (h : p.Ensures env good w fun result w'' => result = .ok value ∧ w'' = w')
    (hPost : post value w') : Attempt.Ensures env good (orReturn p) w post failed := by
  refine Program.Ensures.mono h ?_
  rintro _ _ ⟨rfl, rfl⟩
  exact hPost

theorem ensures_success_bind
    (h : p.Ensures env good w fun result w' =>
      ∀ value, result = .ok value → Attempt.Ensures env good (f value) w' post fun _ _ => True) :
    Attempt.Ensures env good (orReturn p >>= f) w post fun _ _ => True :=
  ensures_bind (ensures_success h) fun _ _ hNext => hNext

theorem ensures_done_bind (h : p.Ensures env good w fun result w'' => result = .ok value ∧ w'' = w')
    (hNext : Attempt.Ensures env good (f value) w' post failed) :
    Attempt.Ensures env good (orReturn p >>= f) w post failed := by
  have hDone : Attempt.Ensures env good (orReturn p) w
      (fun value w' => Attempt.Ensures env good (f value) w' post failed) failed :=
    ensures_done h hNext
  exact ensures_bind hDone fun _ _ hNext => hNext

theorem ensures_lift_bind
    (h : (ask op).Ensures env good w fun answer w' => Attempt.Ensures env good (f answer) w' post failed) :
    Attempt.Ensures env good (ExceptT.lift (ask op) >>= f) w post failed :=
  h

theorem ensures_passed_bind
    (h : result = .ok value) (hNext : Attempt.Ensures env good (f value) w post failed) :
    Attempt.Ensures env good (orReturn (pure result) >>= f) w post failed := by
  subst h
  exact hNext

end

section
variable {P : Ports} {w : World} {key : String} {missing unreadable : GoError → GoError}

theorem readObject_sound :
    Attempt.Ensures (environment P) Choice.Faithful (readObject key missing unreadable) w
      (fun bytes w' => w.Holds P key bytes ∧ w' = w) (fun _ w' => w' = w) := by
  intro c hc
  show Program.Ensures (environment P) _ (match (perform P w (.get key) c).1 with
    | .error err => pure (.error (missing err))
    | .ok r => pure (r.readAll.mapError unreadable)) w _
  match hAnswer : (perform P w (.get key) c).1 with
  | .error err => rfl
  | .ok ⟨bytes, none⟩ => exact ⟨perform_get_faithful hc key hAnswer rfl, rfl⟩
  | .ok ⟨bytes, some err⟩ => rfl

theorem readObject_complete (h : w.Holds P key bytes) :
    Attempt.Ensures (environment P) Choice.Clean (readObject key missing unreadable) w
      (fun bytes' w' => bytes' = bytes ∧ w' = w) failed := by
  intro c hc
  show Program.Ensures (environment P) _ (match (perform P w (.get key) c).1 with
    | .error err => pure (.error (missing err))
    | .ok r => pure (r.readAll.mapError unreadable)) w _
  rw [perform_get_clean hc h]
  exact ⟨rfl, rfl⟩

end

variable {w : World} {snap : Snapshot} {payload : Bytes}

theorem readCompletion_sound (words : Wording) :
    Attempt.Ensures (environment s.ports) Choice.Faithful (s.readCompletion words snap payload) w
      (fun _ w' => (snap.completionObjectKey ≠ "" → ∃ record comp,
        w.Holds s.ports snap.completionObjectKey record ∧ Completion.unmarshal record = .ok comp ∧
          comp.manifestDigest = (s.ports.hashes.sha256 payload).hex) ∧ w' = w)
      (fun _ w' => w' = w) := by
  unfold readCompletion
  split
  · rename_i hKey
    exact ensures_pure ⟨fun h => absurd hKey h, rfl⟩
  · refine ensures_bind readObject_sound ?_
    rintro record _ ⟨hRecord, rfl⟩
    apply ensures_check
    · intro _ hCheck
      obtain ⟨comp, hComp, hDigest⟩ := s.checkCompletion_ok.mp hCheck
      exact ⟨fun _ => ⟨record, comp, hRecord, hComp, hDigest⟩, rfl⟩
    · exact fun _ _ => rfl

theorem readSigned_sound (words : Wording) :
    Attempt.Ensures (environment s.ports) Choice.Faithful (s.readSigned words snap) w
      (fun payload w' => s.Signed w snap payload ∧ w' = w) (fun _ w' => w' = w) := by
  refine ensures_bind readObject_sound ?_
  rintro payload _ ⟨hManifest, rfl⟩
  refine ensures_bind readObject_sound ?_
  rintro sig _ ⟨hSig, rfl⟩
  refine ensures_check_bind ?_ fun _ _ => rfl
  intro _ hCheck
  refine ensures_bind (s.readCompletion_sound words) ?_
  rintro _ _ ⟨hCompletion, rfl⟩
  exact ensures_pure ⟨⟨hManifest, ⟨sig, hSig, s.checkSignature_ok.mp hCheck⟩, hCompletion⟩, rfl⟩

theorem readCompletion_complete (words : Wording) (h : s.Signed w snap payload) :
    Attempt.Ensures (environment s.ports) Choice.Clean (s.readCompletion words snap payload) w
      (fun _ w' => w' = w) failed := by
  unfold readCompletion
  split
  · exact ensures_pure rfl
  · rename_i hKey
    obtain ⟨record, comp, hRecord, hComp, hDigest⟩ := h.completion hKey
    refine ensures_bind (readObject_complete hRecord) ?_
    rintro _ _ ⟨rfl, rfl⟩
    rw [s.checkCompletion_ok.mpr ⟨comp, hComp, hDigest⟩]
    exact rfl

theorem readSigned_complete (words : Wording) (h : s.Signed w snap payload) :
    Attempt.Ensures (environment s.ports) Choice.Clean (s.readSigned words snap) w
      (fun payload' w' => payload' = payload ∧ w' = w) failed := by
  obtain ⟨sig, hSig, hVerify⟩ := h.sig
  refine ensures_bind (readObject_complete h.manifest) ?_
  rintro _ _ ⟨rfl, rfl⟩
  refine ensures_bind (readObject_complete hSig) ?_
  rintro _ _ ⟨rfl, rfl⟩
  refine ensures_passed_bind (s.checkSignature_ok.mpr hVerify) ?_
  refine ensures_bind (s.readCompletion_complete words h) ?_
  rintro _ _ rfl
  exact ensures_pure ⟨rfl, rfl⟩

end RemoteService

end DBVault
