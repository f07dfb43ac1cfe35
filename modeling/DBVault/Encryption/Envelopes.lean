import DBVault.Encryption

/-! The format of sealed chunks: which byte strings an encryptor opens, and that no other byte
string makes it read out of range. -/
namespace DBVault
open List Text

/-- A cipher that opens what was sealed with the same key, nonce and associated data, and
nothing else. -/
structure Gcm.Ideal (gcm : Gcm) : Prop where
  nonceSize_pos : 0 < gcm.nonceSize
  nonceSize_lt : gcm.nonceSize < 256
  overhead_le : ∀ key nonce plaintext aad, gcm.overhead ≤ (gcm.gcmSeal key nonce plaintext aad).length
  open_iff : ∀ {key nonce body aad plaintext : Bytes}, key.length = 32 →
    nonce.length = gcm.nonceSize →
      (gcm.gcmOpen key nonce body aad = .ok plaintext ↔ body = gcm.gcmSeal key nonce plaintext aad)
  binds : ∀ {key other nonce plaintext plaintext' aad aad' : Bytes}, key.length = 32 →
    other.length = 32 → gcm.gcmSeal key nonce plaintext aad = gcm.gcmSeal other nonce plaintext' aad' →
      key = other ∧ aad = aad'

namespace Encryptor
variable (h : Hashes) (gcm : Gcm)

/-- `EncryptEnvelope`, with the nonce it draws. -/
def encryptEnvelope (rootKey nonce plaintext : Bytes) : Result Bytes := do
  let enc ← new (deriveKey h rootKey "keyring-envelope")
  enc.encryptChunk gcm nonce "envelope" plaintext

def decryptEnvelope (rootKey ciphertext : Bytes) : Result Bytes := do
  let enc ← newWithDerivation h rootKey "keyring-envelope"
  enc.decryptChunk h gcm "envelope" ciphertext

/-- `bytes[low:high]`; out of range it panics. -/
def slice (bytes : Bytes) (low high : Nat) : Option Bytes :=
  if low ≤ high ∧ high ≤ bytes.length then some ((bytes.take high).drop low) else none

/-- `openWith` with its slices. The cipher panics for a nonce that is not as long as its own. -/
def openSlices (key : Bytes) (chunkID : String) (ciphertext : Bytes) : Option (Result Bytes) :=
  if ciphertext.length < 4 then some (.error (.other "ciphertext too short"))
  else do
    let header ← slice ciphertext 0 4
    let n := uint32 header
    if n ≤ 0 ∨ n ≠ gcm.nonceSize ∨ ciphertext.length < 4 + n + gcm.overhead then
      some (.error (.other "ciphertext nonce or payload truncated"))
    else
      let nonce ← slice ciphertext 4 (4 + n)
      let body ← slice ciphertext (4 + n) ciphertext.length
      if nonce.length ≠ gcm.nonceSize then none
      else some (gcm.gcmOpen key nonce body (aad chunkID))

/-- An encryptor as `New` or `NewWithDerivation` makes it. -/
def Made (e : Encryptor) : Prop :=
  (∃ key, new key = .ok e) ∨ ∃ rootKey version, newWithDerivation h rootKey version = .ok e

def Seals (key : Bytes) (chunkID : String) (plaintext out : Bytes) : Prop :=
  ∃ nonce, ({ key := key } : Encryptor).encryptChunk gcm nonce chunkID plaintext = .ok out

def OpensUnder (e : Encryptor) (key : Bytes) : Prop :=
  key = e.key ∨ 32 ≤ e.rootKey.length ∧ key = legacyDeriveKey h e.rootKey e.version

variable {h gcm}

theorem length_legacyDeriveKey (rootKey : Bytes) (version : String) :
    (legacyDeriveKey h rootKey version).length = 32 := Digest.size _

variable {e : Encryptor}

theorem Made.length_key (made : Made h e) : e.key.length = 32 := by
  have hNew : ∀ {key : Bytes} {e : Encryptor}, new key = .ok e → e.key = key ∧ key.length = 32 := by
    intro key e hMade
    unfold new at hMade
    split at hMade
    · cases hMade
    · next hLength =>
      obtain rfl := Except.ok.inj hMade
      exact ⟨rfl, not_not.mp hLength⟩
  rcases made with ⟨key, hMade⟩ | ⟨rootKey, version, hMade⟩
  · obtain ⟨hSame, hLength⟩ := hNew hMade
    rw [hSame, hLength]
  · unfold newWithDerivation at hMade
    split at hMade
    · cases hMade
    · obtain ⟨e', hDerived, hMade⟩ := bind_eq_ok hMade
      obtain rfl := Except.ok.inj hMade
      obtain ⟨hSame, hLength⟩ := hNew hDerived
      exact hSame ▸ hLength

variable {rootKey : Bytes}

theorem newWithDerivation_eq (hSome : rootKey ≠ []) (version : String) :
    newWithDerivation h rootKey version = .ok ⟨deriveKey h rootKey version, rootKey, version⟩ := by
  simp [newWithDerivation, new, length_deriveKey, hSome, bind, Except.bind, pure, Except.pure]

variable {key : Bytes}

theorem OpensUnder.length_key (made : Made h e) (opens : OpensUnder h e key) : key.length = 32 := by
  rcases opens with rfl | ⟨-, rfl⟩
  · exact made.length_key
  · exact length_legacyDeriveKey _ _

variable {plaintext ciphertext : Bytes} {chunkID : String}

theorem seals_iff {out : Bytes} :
    Seals gcm key chunkID plaintext out ↔ ∃ nonce, nonce.length = gcm.nonceSize ∧
      out = putUint32 nonce.length ++ (nonce ++ gcm.gcmSeal key nonce plaintext (aad chunkID)) := by
  unfold Seals encryptChunk
  constructor
  · rintro ⟨nonce, hOut⟩
    split at hOut
    · cases hOut
    · next hNonce => exact ⟨nonce, not_not.mp hNonce, (Except.ok.inj hOut).symm⟩
  · rintro ⟨nonce, hNonce, rfl⟩
    exact ⟨nonce, if_neg (not_not.mpr hNonce)⟩

theorem putUint32_uint32 {bytes : Bytes} (hLength : 4 ≤ bytes.length) :
    putUint32 (uint32 bytes) = bytes.take 4 := by
  obtain ⟨a, b, c, d, rest, rfl⟩ : ∃ a b c d rest, bytes = a :: b :: c :: d :: rest := by
    match bytes, hLength with
    | a :: b :: c :: d :: rest, _ => exact ⟨a, b, c, d, rest, rfl⟩
  have ha := a.toNat_lt
  have hb := b.toNat_lt
  have hc := c.toNat_lt
  have hd := d.toNat_lt
  simp only [uint32, putUint32, take_succ_cons, take_zero, foldl_cons, foldl_nil, List.cons.injEq, and_true]
  refine ⟨?_, ?_, ?_, ?_⟩ <;> apply UInt8.toNat.inj <;> rw [UInt8.toNat_ofNat'] <;> omega

theorem openWith_iff (hGcm : gcm.Ideal) (hKey : key.length = 32) :
    openWith gcm key chunkID ciphertext = .ok plaintext ↔ Seals gcm key chunkID plaintext ciphertext := by
  rw [seals_iff]
  simp only [openWith]
  constructor
  · intro hOpen
    split at hOpen
    · cases hOpen
    · next hHeader =>
      split at hOpen
      · cases hOpen
      · next hFits =>
        simp only [not_or, not_lt, not_not] at hHeader hFits
        obtain ⟨-, hSize, hLong⟩ := hFits
        have hNonce : ((ciphertext.drop 4).take (uint32 ciphertext)).length = gcm.nonceSize := by
          rw [length_take, length_drop]
          omega
        refine ⟨_, hNonce, ?_⟩
        rw [← (hGcm.open_iff hKey hNonce).mp hOpen, take_append_drop, hNonce, ← hSize,
          putUint32_uint32 hHeader, take_append_drop]
  · rintro ⟨nonce, hNonce, rfl⟩
    have hUint : ∀ rest, uint32 (putUint32 nonce.length ++ rest) = gcm.nonceSize := by
      intro rest
      rw [uint32_putUint32 (hNonce ▸ hGcm.nonceSize_lt), hNonce]
    have hDrop : ∀ rest, (putUint32 nonce.length ++ rest).drop 4 = rest := fun _ => rfl
    have hPos := hGcm.nonceSize_pos
    have hOverhead := hGcm.overhead_le key nonce plaintext (aad chunkID)
    have hLong : ∀ rest : Bytes, (putUint32 nonce.length ++ rest).length = 4 + rest.length := by
      intro rest
      rw [length_append]
      rfl
    simp only [hUint, hDrop, hLong, length_append]
    rw [if_neg (by omega), if_neg (by omega), ← hNonce, take_left, drop_left, hGcm.open_iff hKey hNonce]

variable {other : String}

theorem aad_injective (hSame : aad chunkID = aad other) : chunkID = other := by
  have hText := utf8_injective hSame
  exact String.toList_inj.mp (by simpa using congrArg String.toList hText)

theorem Seals.unique (hGcm : gcm.Ideal) {key' plaintext' : Bytes}
    (hKey : key.length = 32) (hKey' : key'.length = 32) (sealed : Seals gcm key chunkID plaintext ciphertext)
    (sealed' : Seals gcm key' other plaintext' ciphertext) :
    key = key' ∧ chunkID = other ∧ plaintext = plaintext' := by
  obtain ⟨nonce, hNonce, hOut⟩ := seals_iff.mp sealed
  obtain ⟨nonce', hNonce', hOut'⟩ := seals_iff.mp sealed'
  rw [hOut, hNonce, hNonce'] at hOut'
  obtain ⟨rfl, hBody⟩ := append_inj (append_cancel_left hOut') (hNonce.trans hNonce'.symm)
  obtain ⟨rfl, hAad⟩ := hGcm.binds hKey hKey' hBody
  obtain rfl := aad_injective hAad
  have hFirst := (openWith_iff hGcm hKey).mpr sealed
  rw [(openWith_iff hGcm hKey).mpr sealed'] at hFirst
  exact ⟨rfl, rfl, (Except.ok.inj hFirst).symm⟩

theorem decryptChunk_iff (hGcm : gcm.Ideal) (made : Made h e) :
    e.decryptChunk h gcm chunkID ciphertext = .ok plaintext ↔
      ∃ key, OpensUnder h e key ∧ Seals gcm key chunkID plaintext ciphertext := by
  have hLegacy := length_legacyDeriveKey (h := h) e.rootKey e.version
  unfold decryptChunk
  constructor
  · intro hOpen
    split at hOpen
    · next hOwn =>
      cases hOpen
      exact ⟨e.key, .inl rfl, (openWith_iff hGcm made.length_key).mp hOwn⟩
    · split at hOpen
      · next hLong =>
        split at hOpen
        · next hOld =>
          cases hOpen
          exact ⟨_, .inr ⟨hLong, rfl⟩, (openWith_iff hGcm hLegacy).mp hOld⟩
        · cases hOpen
      · cases hOpen
  · rintro ⟨key, opens, sealed⟩
    have hOpen := (openWith_iff hGcm (opens.length_key made)).mpr sealed
    split
    · next hOwn =>
      -- Both keys open these bytes, so they are one key.
      have hSealed := (openWith_iff hGcm made.length_key).mp hOwn
      obtain ⟨-, -, rfl⟩ := hSealed.unique hGcm made.length_key (opens.length_key made) sealed
      rfl
    · next hFailed =>
      rcases opens with rfl | ⟨hLong, rfl⟩
      · rw [hOpen] at hFailed
        cases hFailed
      · rw [if_pos hLong, hOpen]

theorem openSlices_eq (key : Bytes) (chunkID : String) (ciphertext : Bytes) :
    openSlices gcm key chunkID ciphertext = some (openWith gcm key chunkID ciphertext) := by
  simp only [openSlices, openWith]
  split
  · rfl
  · next hHeader =>
    have hSlice : slice ciphertext 0 4 = some (ciphertext.take 4) := by rw [slice, if_pos (by omega), drop_zero]
    have hUint : uint32 (ciphertext.take 4) = uint32 ciphertext := by
      rw [uint32, take_take]
      rfl
    rw [hSlice, Option.bind_eq_bind, Option.bind_some, hUint]
    split
    · rfl
    · next hFits =>
      have hNonce : slice ciphertext 4 (4 + uint32 ciphertext) =
          some ((ciphertext.drop 4).take (uint32 ciphertext)) := by
        rw [slice, if_pos (by omega), take_drop]
      have hBody : slice ciphertext (4 + uint32 ciphertext) ciphertext.length =
          some ((ciphertext.drop 4).drop (uint32 ciphertext)) := by
        rw [slice, if_pos (by omega), take_length, drop_drop]
      have hLength : ((ciphertext.drop 4).take (uint32 ciphertext)).length = gcm.nonceSize := by
        rw [length_take, length_drop]
        omega
      simp only [hNonce, hBody, Option.bind_some, hLength, ne_eq, not_true_eq_false, if_false]

variable {nonce : Bytes}

theorem encryptChunk_eq (e : Encryptor) (hNonce : nonce.length = gcm.nonceSize)
    (chunkID : String) (plaintext : Bytes) :
    ∃ out, e.encryptChunk gcm nonce chunkID plaintext = .ok out ∧ Seals gcm e.key chunkID plaintext out := by
  have hOut : e.encryptChunk gcm nonce chunkID plaintext = .ok _ := if_neg (not_not.mpr hNonce)
  exact ⟨_, hOut, nonce, hOut⟩

theorem envelope_inverts (hGcm : gcm.Ideal) (hSome : rootKey ≠ [])
    (hNonce : nonce.length = gcm.nonceSize) (plaintext : Bytes) :
    ∃ out, encryptEnvelope h gcm rootKey nonce plaintext = .ok out ∧
      decryptEnvelope h gcm rootKey out = .ok plaintext := by
  have hMade := newWithDerivation_eq (h := h) hSome "keyring-envelope"
  obtain ⟨out, hOut, sealed⟩ :=
    encryptChunk_eq { key := deriveKey h rootKey "keyring-envelope" } hNonce "envelope" plaintext
  refine ⟨out, ?_, ?_⟩
  · simp only [encryptEnvelope, new, length_deriveKey, ne_eq, not_true_eq_false, if_false]
    exact hOut
  · rw [decryptEnvelope, hMade]
    exact (decryptChunk_iff hGcm (.inr ⟨_, _, hMade⟩)).mpr ⟨_, .inl rfl, sealed⟩

/-- The format of sealed chunks. An encryptor opens what it sealed and, when derived from a root
key of at least 32 bytes, what was sealed under the legacy derivation of its version; it rejects
all other bytes, whatever chunk and key they were sealed for, and no slice of theirs is out of
range. Envelopes open again, and the empty version is version 1. -/
theorem chunk_envelope_format (hGcm : gcm.Ideal) {e : Encryptor} (made : Made h e) (chunkID : String) :
    (∀ nonce plaintext, nonce.length = gcm.nonceSize →
      ∃ out, e.encryptChunk gcm nonce chunkID plaintext = .ok out ∧
        e.decryptChunk h gcm chunkID out = .ok plaintext) ∧
    (∀ ciphertext plaintext, e.decryptChunk h gcm chunkID ciphertext = .ok plaintext ↔
      Seals gcm e.key chunkID plaintext ciphertext ∨ 32 ≤ e.rootKey.length ∧
        Seals gcm (legacyDeriveKey h e.rootKey e.version) chunkID plaintext ciphertext) ∧
    (∀ key other plaintext ciphertext, key.length = 32 →
      Seals gcm key other plaintext ciphertext → (other ≠ chunkID ∨ ¬ OpensUnder h e key) →
        ∃ err, e.decryptChunk h gcm chunkID ciphertext = .error err) ∧
    (∀ key ciphertext, openSlices gcm key chunkID ciphertext = some (openWith gcm key chunkID ciphertext)) ∧
    (∀ rootKey nonce plaintext, rootKey ≠ [] → nonce.length = gcm.nonceSize →
      ∃ out, encryptEnvelope h gcm rootKey nonce plaintext = .ok out ∧
        decryptEnvelope h gcm rootKey out = .ok plaintext) ∧
    ∀ rootKey version, rootKey ≠ [] →
      newWithDerivation h rootKey version = .ok ⟨deriveKey h rootKey version, rootKey, version⟩ ∧
        deriveKey h rootKey "" = deriveKey h rootKey "1" ∧
        legacyDeriveKey h rootKey "" = legacyDeriveKey h rootKey "1" := by
  refine ⟨?_, ?_, ?_, fun key ciphertext => openSlices_eq key chunkID ciphertext,
    fun rootKey nonce plaintext hSome hNonce => envelope_inverts hGcm hSome hNonce plaintext,
    fun rootKey version hSome => ⟨newWithDerivation_eq hSome version, rfl, rfl⟩⟩
  · intro nonce plaintext hNonce
    obtain ⟨out, hOut, sealed⟩ := encryptChunk_eq e hNonce chunkID plaintext
    exact ⟨out, hOut, (decryptChunk_iff hGcm made).mpr ⟨_, .inl rfl, sealed⟩⟩
  · intro ciphertext plaintext
    rw [decryptChunk_iff hGcm made]
    constructor
    · rintro ⟨key, rfl | ⟨hLong, rfl⟩, sealed⟩
      · exact .inl sealed
      · exact .inr ⟨hLong, sealed⟩
    · rintro (sealed | ⟨hLong, sealed⟩)
      · exact ⟨_, .inl rfl, sealed⟩
      · exact ⟨_, .inr ⟨hLong, rfl⟩, sealed⟩
  · intro key other plaintext ciphertext hKey sealed hOther
    cases hOpen : e.decryptChunk h gcm chunkID ciphertext with
    | error err => exact ⟨err, rfl⟩
    | ok opened =>
      obtain ⟨own, opens, sealed'⟩ := (decryptChunk_iff hGcm made).mp hOpen
      obtain ⟨rfl, rfl, -⟩ := sealed.unique hGcm hKey (opens.length_key made) sealed'
      rcases hOther with hOther | hOther
      · exact absurd rfl hOther
      · exact absurd opens hOther

namespace Marked

def header (key aad : Bytes) : Bytes := key ++ (aad.flatMap (fun b => [1, b]) ++ [0])

def cipher : Gcm where
  nonceSize := 12
  overhead := 1
  gcmSeal key _ plaintext aad := header key aad ++ plaintext
  gcmOpen key _ body aad :=
    if (header key aad).isPrefixOf body then .ok (body.drop (header key aad).length)
    else .error (.other "cipher: message authentication failed")

theorem marked_injective {aad aad' plaintext plaintext' : Bytes}
    (hSame : aad.flatMap (fun b => [1, b]) ++ 0 :: plaintext =
      aad'.flatMap (fun b => [1, b]) ++ 0 :: plaintext') : aad = aad' := by
  induction aad generalizing aad' with
  | nil =>
    cases aad' with
    | nil => rfl
    | cons b aad' => simp at hSame
  | cons b aad ih =>
    cases aad' with
    | nil => simp at hSame
    | cons b' aad' =>
      simp only [flatMap_cons, cons_append, nil_append, List.cons.injEq, true_and] at hSame
      rw [hSame.1, ih hSame.2]

theorem ideal : cipher.Ideal where
  nonceSize_pos := by decide
  nonceSize_lt := by decide
  overhead_le key nonce plaintext aad := by
    simp only [cipher, header, length_append, length_cons, length_nil]
    omega
  open_iff := by
    intro key nonce body aad plaintext _ _
    simp only [cipher]
    split
    · next hHead =>
      obtain ⟨rest, rfl⟩ := List.isPrefixOf_iff_prefix.mp hHead
      simp
    · next hHead =>
      simp only [reduceCtorEq, false_iff]
      rintro rfl
      exact hHead (List.isPrefixOf_iff_prefix.mpr (prefix_append _ _))
  binds := by
    intro key other nonce plaintext plaintext' aad aad' hKey hOther hSame
    simp only [cipher, header, append_assoc] at hSame
    obtain ⟨rfl, hRest⟩ := append_inj hSame (hKey.trans hOther.symm)
    exact ⟨rfl, marked_injective hRest⟩

end Marked

theorem chunk_envelope_format_marked :
    ∃ e out, newWithDerivation .leading (List.replicate 32 7) "2" = .ok e ∧
      e.encryptChunk Marked.cipher (List.replicate 12 1) "a" [5] = .ok out ∧
      e.decryptChunk .leading Marked.cipher "a" out = .ok [5] ∧
      ∃ err, e.decryptChunk .leading Marked.cipher "b" out = .error err := by
  have hSome : List.replicate 32 7 ≠ ([] : Bytes) := by decide
  have hMade := newWithDerivation_eq (h := .leading) hSome "2"
  have hFormat := chunk_envelope_format Marked.ideal (.inr ⟨_, _, hMade⟩)
  obtain ⟨out, hOut, hOpen⟩ := (hFormat "a").1 (List.replicate 12 1) [5] rfl
  exact ⟨_, out, hMade, hOut, hOpen, (hFormat "b").2.2.1 _ "a" [5] out
    (length_deriveKey _ _ _) ⟨_, hOut⟩ (.inl (by decide))⟩

end Encryptor

end DBVault
