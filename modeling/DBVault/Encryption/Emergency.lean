import DBVault.Encryption.Envelopes

/-! The decrypter of the emergency restore: it tries the keys a chunk may be sealed under and begins with
the one that opened the chunk before. What it returns does not depend on that. -/
namespace DBVault
open List Text Encryptor

/-- `chunkDecrypter`; the master key is in its candidates. -/
structure ChunkDecrypter where
  candidates : List Encryptor
  winner : Option Nat

variable (h : Hashes) (gcm : Gcm)

/-- `newChunkDecrypter`, with the versions in the order the map is gone through. -/
def newChunkDecrypter (master : Bytes) (keyVersions : List String) : ChunkDecrypter :=
  let raw := (Encryptor.new master).toOption.toList
  let versions := keyVersions ++ if "1" ∉ keyVersions ∧ "" ∉ keyVersions then ["1"] else []
  let sorted := versions.mergeSort fun a b => a ≤ b
  ⟨raw ++ sorted.filterMap fun v => (newWithDerivation h master v).toOption, none⟩

namespace ChunkDecrypter

def order (d : ChunkDecrypter) : List (Encryptor × Nat) :=
  d.candidates.zipIdx.filter (some ·.2 = d.winner) ++ d.candidates.zipIdx.filter (¬ some ·.2 = d.winner)

/-- The loop over the candidates: the result, and which of them opened the chunk. -/
def tryEach (chunkID : String) (ciphertext : Bytes) :
    List (Encryptor × Nat) → Option GoError → Result Bytes × Option Nat
  | [], some err => (.error err, none)
  | [], none => (.ok [], none)
  | (e, i) :: rest, firstErr =>
    match e.decryptChunk h gcm chunkID ciphertext with
    | .ok plain => (.ok plain, some i)
    | .error err => tryEach chunkID ciphertext rest (firstErr.or (some err))

def decrypt (d : ChunkDecrypter) (chunkID : String) (ciphertext : Bytes) : Result Bytes × ChunkDecrypter :=
  let (result, found) := tryEach h gcm chunkID ciphertext d.order none
  (result, { d with winner := found.or d.winner })

/-- The decrypter after these chunks. -/
def after (d : ChunkDecrypter) (chunks : List (String × Bytes)) : ChunkDecrypter :=
  chunks.foldl (fun d c => (d.decrypt h gcm c.1 c.2).2) d

/-- The ciphertext authenticates under at most one of the keys that are tried. -/
def OneKey (d : ChunkDecrypter) (chunkID : String) (ciphertext : Bytes) : Prop :=
  ∀ e ∈ d.candidates, ∀ e' ∈ d.candidates, ∀ key key' plain plain', OpensUnder h e key → OpensUnder h e' key' →
    openWith gcm key chunkID ciphertext = .ok plain → openWith gcm key' chunkID ciphertext = .ok plain' →
    key = key'

variable {h gcm} {d : ChunkDecrypter} {chunkID : String} {ciphertext plain : Bytes} {e : Encryptor}

theorem candidates_after (chunks : List (String × Bytes)) : (d.after h gcm chunks).candidates = d.candidates := by
  induction chunks generalizing d with
  | nil => rfl
  | cons c chunks ih => exact ih

theorem order_perm : d.order.Perm d.candidates.zipIdx := by
  simpa [order] using filter_append_perm (some ·.2 = d.winner) d.candidates.zipIdx

theorem mem_order : (∃ i, (e, i) ∈ d.order) ↔ e ∈ d.candidates := by
  simp only [order_perm.mem_iff, mk_mem_zipIdx_iff_getElem?]
  exact mem_iff_getElem?.symm

theorem exists_key_of_decryptChunk (hPlain : e.decryptChunk h gcm chunkID ciphertext = .ok plain) :
    ∃ key, OpensUnder h e key ∧ openWith gcm key chunkID ciphertext = .ok plain := by
  unfold decryptChunk at hPlain
  split at hPlain
  · next hOpen => exact ⟨e.key, .inl rfl, hOpen.trans hPlain⟩
  · split at hPlain
    · next hLong =>
      split at hPlain
      · next hOpen => exact ⟨_, .inr ⟨hLong, rfl⟩, hOpen.trans hPlain⟩
      · cases hPlain
    · cases hPlain

variable {key : Bytes}

/-- A candidate opens what any of its keys opens, if no other does. -/
theorem decryptChunk_of_key (hOne : d.OneKey h gcm chunkID ciphertext) (he : e ∈ d.candidates)
    (hKey : OpensUnder h e key) (hOpen : openWith gcm key chunkID ciphertext = .ok plain) :
    e.decryptChunk h gcm chunkID ciphertext = .ok plain := by
  unfold decryptChunk
  split
  · next other hOther =>
    obtain rfl := hOne e he e he _ _ _ _ (.inl rfl) hKey hOther hOpen
    exact hOther.symm.trans hOpen
  · next err hFailed =>
    rcases hKey with rfl | ⟨hLong, rfl⟩
    · rw [hFailed] at hOpen
      cases hOpen
    · rw [if_pos hLong, hOpen]

theorem tryEach_iff {order : List (Encryptor × Nat)} {firstErr : Option GoError}
    (hSome : order ≠ [] ∨ firstErr ≠ none)
    (hSame : ∀ x ∈ order, ∀ y ∈ order, ∀ p q, x.1.decryptChunk h gcm chunkID ciphertext = .ok p →
      y.1.decryptChunk h gcm chunkID ciphertext = .ok q → p = q) :
    (tryEach h gcm chunkID ciphertext order firstErr).1 = .ok plain ↔
      ∃ x ∈ order, x.1.decryptChunk h gcm chunkID ciphertext = .ok plain := by
  induction order generalizing firstErr with
  | nil =>
    obtain ⟨err, rfl⟩ := Option.ne_none_iff_exists'.mp (hSome.resolve_left fun h => h rfl)
    simp [tryEach]
  | cons x rest ih =>
    simp only [tryEach, mem_cons, exists_eq_or_imp]
    cases hFirst : x.1.decryptChunk h gcm chunkID ciphertext with
    | ok p =>
      simp only [Except.ok.injEq]
      refine ⟨.inl, ?_⟩
      rintro (hEq | ⟨y, hy, hPlain⟩)
      · exact hEq
      · exact hSame x mem_cons_self y (mem_cons_of_mem x hy) p plain hFirst hPlain
    | error err =>
      simp only [reduceCtorEq, false_or]
      refine ih (.inr ?_) fun y hy z hz => hSame y (mem_cons_of_mem x hy) z (mem_cons_of_mem x hz)
      cases firstErr <;> simp

/-- Whatever was opened before, a chunk is decrypted exactly if one of the keys opens it. -/
theorem decrypt_iff (hSome : d.candidates ≠ []) (hOne : d.OneKey h gcm chunkID ciphertext) :
    (d.decrypt h gcm chunkID ciphertext).1 = .ok plain ↔
      ∃ e ∈ d.candidates, ∃ key, OpensUnder h e key ∧ openWith gcm key chunkID ciphertext = .ok plain := by
  have hOrder : d.order ≠ [] := by
    obtain ⟨e, he⟩ := exists_mem_of_ne_nil _ hSome
    exact ne_nil_of_mem (mem_order.mpr he).choose_spec
  rw [decrypt, tryEach_iff (.inl hOrder)]
  · constructor
    · rintro ⟨x, hx, hPlain⟩
      exact ⟨x.1, mem_order.mp ⟨x.2, hx⟩, exists_key_of_decryptChunk hPlain⟩
    · rintro ⟨e, he, key, hKey, hOpen⟩
      obtain ⟨i, hi⟩ := mem_order.mpr he
      exact ⟨(e, i), hi, decryptChunk_of_key hOne he hKey hOpen⟩
  · intro x hx y hy p q hp hq
    obtain ⟨key, hKey, hOpen⟩ := exists_key_of_decryptChunk hp
    obtain ⟨key', hKey', hOpen'⟩ := exists_key_of_decryptChunk hq
    obtain rfl := hOne _ (mem_order.mp ⟨x.2, hx⟩) _ (mem_order.mp ⟨y.2, hy⟩) _ _ _ _ hKey hKey' hOpen hOpen'
    exact Except.ok.inj (hOpen.symm.trans hOpen')

variable {master : Bytes} {keyVersions : List String}

theorem raw_mem (hMaster : master.length = 32) :
    { key := master } ∈ (newChunkDecrypter h master keyVersions).candidates := by
  simp [newChunkDecrypter, Encryptor.new, hMaster, Except.toOption]

theorem derived_mem (hMaster : master.length = 32) {version : String}
    (hVersion : version ∈ keyVersions ∨ version = "1" ∧ "" ∉ keyVersions) :
    ⟨deriveKey h master version, master, version⟩ ∈ (newChunkDecrypter h master keyVersions).candidates := by
  have hSome : master ≠ [] := ne_nil_of_length_pos (by omega)
  refine mem_append_right _ (mem_filterMap.mpr ⟨version, mem_mergeSort.mpr ?_, ?_⟩)
  · by_cases hListed : version ∈ keyVersions
    · exact mem_append_left _ hListed
    · obtain ⟨rfl, hEmpty⟩ := hVersion.resolve_left hListed
      simp [hListed, hEmpty]
  · rw [newWithDerivation_eq hSome]
    rfl

/-- The keys a chunk of the repository may be sealed under. -/
def SealingKey (h : Hashes) (master : Bytes) (keyVersions : List String) (key : Bytes) : Prop :=
  key = master ∨ ∃ version, (version ∈ keyVersions ∨ version = "1") ∧
    (key = deriveKey h master version ∨ key = legacyDeriveKey h master version)

theorem SealingKey.length (hMaster : master.length = 32)
    (hKey : SealingKey h master keyVersions key) : key.length = 32 := by
  rcases hKey with rfl | ⟨version, -, rfl | rfl⟩
  · exact hMaster
  · exact length_deriveKey h master version
  · exact length_legacyDeriveKey master version

theorem SealingKey.opens (hMaster : master.length = 32) (hKey : SealingKey h master keyVersions key) :
    ∃ e ∈ (newChunkDecrypter h master keyVersions).candidates, OpensUnder h e key := by
  rcases hKey with rfl | ⟨version, hVersion, hKey⟩
  · exact ⟨_, raw_mem hMaster, .inl rfl⟩
  · by_cases hListed : version ∈ keyVersions ∨ version = "1" ∧ "" ∉ keyVersions
    · exact ⟨_, derived_mem hMaster hListed, hKey.imp_right fun hKey => ⟨hMaster.ge, hKey⟩⟩
    · -- An empty version that is listed derives the keys of the first.
      have hFirst : version = "1" ∧ "" ∈ keyVersions := by tauto
      obtain ⟨rfl, hEmpty⟩ := hFirst
      exact ⟨_, derived_mem hMaster (.inl hEmpty), hKey.imp_right fun hKey => ⟨hMaster.ge, hKey⟩⟩

end ChunkDecrypter

open ChunkDecrypter in
/-- Whatever chunks a decrypter was given before, it returns what a new one returns, tries every candidate
once before it fails, and opens what is sealed under one of the keys. -/
theorem chunkDecrypter_independent {h : Hashes} {gcm : Gcm} (hGcm : gcm.Lawful) {master : Bytes}
    (hMaster : master.length = 32) (keyVersions : List String) (before : List (String × Bytes))
    (chunkID : String) (ciphertext : Bytes)
    (hOne : (newChunkDecrypter h master keyVersions).OneKey h gcm chunkID ciphertext) :
    let fresh := newChunkDecrypter h master keyVersions
    let d := fresh.after h gcm before
    (d.decrypt h gcm chunkID ciphertext).1.toOption = (fresh.decrypt h gcm chunkID ciphertext).1.toOption ∧
    d.order.Perm fresh.candidates.zipIdx ∧
    (∀ err, (d.decrypt h gcm chunkID ciphertext).1 = .error err →
      ∀ e ∈ fresh.candidates, ∃ err, e.decryptChunk h gcm chunkID ciphertext = .error err) ∧
    ∀ key nonce plain, SealingKey h master keyVersions key →
      ({ key := key } : Encryptor).encryptChunk gcm nonce chunkID plain = .ok ciphertext →
      (d.decrypt h gcm chunkID ciphertext).1 = .ok plain := by
  intro fresh d
  have hSame : d.candidates = fresh.candidates := candidates_after before
  have hSome : fresh.candidates ≠ [] := ne_nil_of_mem (raw_mem hMaster)
  have hIff : ∀ plain, (d.decrypt h gcm chunkID ciphertext).1 = .ok plain ↔
      ∃ e ∈ fresh.candidates, ∃ key, OpensUnder h e key ∧ openWith gcm key chunkID ciphertext = .ok plain := by
    intro plain
    rw [← hSame]
    refine decrypt_iff (by rwa [hSame]) ?_
    unfold OneKey
    rwa [hSame]
  refine ⟨?_, by simpa [hSame] using d.order_perm, ?_, ?_⟩
  · have hOption : ∀ (r : Result Bytes) plain, r.toOption = some plain ↔ r = .ok plain := by
      rintro (err | plain) other <;> simp [Except.toOption]
    ext plain
    rw [hOption, hOption, hIff, decrypt_iff hSome hOne]
  · intro err hFailed e he
    cases hOpen : e.decryptChunk h gcm chunkID ciphertext with
    | error err => exact ⟨err, rfl⟩
    | ok plain =>
      have hPlain := (hIff plain).mpr ⟨e, he, exists_key_of_decryptChunk hOpen⟩
      rw [hFailed] at hPlain
      cases hPlain
  · intro key nonce plain hKey hSealed
    obtain ⟨e, he, hOpens⟩ := hKey.opens hMaster
    obtain ⟨other, hOther, hOpen⟩ := exists_key_of_decryptChunk
      (decrypt_encrypt h gcm hGcm (hKey.length hMaster) hSealed)
    obtain rfl : other = key := hOther.resolve_right fun hLong => absurd hLong.1 (by simp)
    exact (hIff plain).mpr ⟨e, he, other, hOpens, hOpen⟩

namespace Tagged

/-- Sixty-four bytes that name the key and the additional data. -/
def tag (key aad : Bytes) : Bytes := (Digest.leading key).bytes ++ (Digest.leading aad).bytes

theorem length_tag (key aad : Bytes) : (tag key aad).length = 64 := by simp [tag, Digest.size]

def cipher : Gcm where
  nonceSize := 12
  overhead := 64
  gcmSeal key _ plaintext aad := tag key aad ++ plaintext
  gcmOpen key _ body aad :=
    if (tag key aad).isPrefixOf body then .ok (body.drop 64) else .error (.other "cipher: message authentication failed")

theorem lawful : cipher.Lawful where
  nonceSize_pos := by decide
  nonceSize_lt := by decide
  seal_length key _ plaintext aad := by simp [cipher, length_tag, Nat.add_comm]
  open_seal key _ plaintext aad _ _ := by
    simp [cipher, drop_left' (length_tag key aad)]

theorem eq_of_leading {key other : Bytes} (hKey : key.length = 32) (hOther : other.length = 32)
    (h : (Digest.leading key).bytes = (Digest.leading other).bytes) : key = other := by
  simpa [Digest.leading, take_append_of_le_length, hKey, hOther] using h

theorem tag_of_open {key : Bytes} {chunkID : String} {ciphertext plain : Bytes}
    (h : openWith cipher key chunkID ciphertext = .ok plain) :
    tag key (aad chunkID) <+: (ciphertext.drop 4).drop (uint32 ciphertext) := by
  unfold openWith at h
  split at h
  · cases h
  · dsimp only at h
    split at h
    · cases h
    · simp only [cipher] at h
      split at h
      · next hTag => exact isPrefixOf_iff_prefix.mp hTag
      · cases h

theorem key_unique {key other : Bytes} {chunkID : String} {ciphertext plain plain' : Bytes} (hKey : key.length = 32)
    (hOther : other.length = 32) (h : openWith cipher key chunkID ciphertext = .ok plain)
    (h' : openWith cipher other chunkID ciphertext = .ok plain') : key = other := by
  obtain ⟨rest, hRest⟩ := tag_of_open h
  obtain ⟨rest', hRest'⟩ := tag_of_open h'
  have hTags := (append_inj (hRest.trans hRest'.symm) (by rw [length_tag, length_tag])).1
  exact eq_of_leading hKey hOther (append_inj hTags (by rw [Digest.size, Digest.size])).1

theorem oneKey {h : Hashes} {master : Bytes} (keyVersions : List String) (chunkID : String) (ciphertext : Bytes) :
    (newChunkDecrypter h master keyVersions).OneKey h cipher chunkID ciphertext := by
  have hLength : ∀ e ∈ (newChunkDecrypter h master keyVersions).candidates, ∀ key, OpensUnder h e key →
      key.length = 32 := by
    intro e he key hKey
    rcases hKey with rfl | ⟨-, rfl⟩
    · have hMade : Made h e := by
        simp only [newChunkDecrypter, mem_append, Option.mem_toList, mem_filterMap] at he
        exact he.imp (fun hNew => ⟨_, eq_ok_of_toOption hNew⟩) fun ⟨_, _, hNew⟩ => ⟨_, _, eq_ok_of_toOption hNew⟩
      exact hMade.length_key
    · exact length_legacyDeriveKey _ _
  intro e he e' he' key key' plain plain' hKey hKey'
  exact key_unique (hLength e he key hKey) (hLength e' he' key' hKey')

/-- A hash whose value shows the end of the message. -/
def hashes : Hashes := ⟨fun key payload => .leading (payload.reverse ++ key), .leading⟩

def master : Bytes := replicate 32 7

def sealed (version chunkID : String) (plain : Bytes) : Bytes :=
  (({ key := deriveKey hashes master version } : Encryptor).encryptChunk cipher (replicate 12 1) chunkID plain
    ).toOption.getD []

end Tagged

open Tagged in
/-- The second chunk is sealed under another version than the first, whose key is tried before the others. -/
theorem chunkDecrypter_independent_sealed :
    let fresh := newChunkDecrypter hashes master ["2", "3"]
    let first := fresh.decrypt hashes cipher "b" (sealed "3" "b" [4])
    first.1 = .ok [4] ∧ (first.2.decrypt hashes cipher "a" (sealed "2" "a" [5])).1 = .ok [5] := by
  have hOpens := fun before version chunkID plain (hVersion : version ∈ ["2", "3"]) =>
    (chunkDecrypter_independent lawful (by decide) ["2", "3"] before chunkID (sealed version chunkID plain)
      (oneKey _ _ _)).2.2.2 (deriveKey hashes master version) (replicate 12 1) plain
      (.inr ⟨version, .inl hVersion, .inl rfl⟩) rfl
  exact ⟨hOpens [] "3" "b" [4] (by decide), hOpens [("b", sealed "3" "b" [4])] "2" "a" [5] (by decide)⟩

end DBVault
