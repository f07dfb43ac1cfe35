import DBVault.Digest

/-! `keyderive` and the `aead` encryptor: chunks sealed with AES-256-GCM under
a raw or a derived key, with the nonce and its length in front. -/
namespace DBVault
open List Text

namespace KeyDerive
variable (h : Hashes)

/-- The rounds of `expand`, each one hashing what the one before gave. -/
def rounds (prk info : Bytes) : Nat → UInt8 → Bytes → Bytes
  | 0, _, _ => []
  | n + 1, counter, previous =>
    let block := (h.hmac prk (previous ++ info ++ [counter])).bytes
    block ++ rounds prk info n (counter + 1) block

def expand (prk info : Bytes) (length : Nat) : Bytes := (rounds h prk info ((length + 31) / 32) 1 []).take length

def keyLen : Nat := 32

/-- `keyderive.Derive`. The salt is the fingerprint of the master key. -/
def derive (master : Bytes) (domain : String) : Result Bytes :=
  if master.length < keyLen then
    .error (.other ("master key is " ++ decimal master.length ++ " bytes; at least " ++
      decimal keyLen ++ " bytes of entropy required (zero-padding retired)"))
  else if domain = "" then .error (.other "derivation domain label must not be empty")
  else
    let salt := (h.sha256 master).bytes
    let prk := (h.hmac salt master).bytes
    .ok (expand h prk (utf8 domain) keyLen)

end KeyDerive

/-- The cipher: sealing and opening under a key, with nonce and associated data. -/
structure Gcm where
  (nonceSize overhead : Nat)
  gcmSeal : (key nonce plaintext aad : Bytes) → Bytes
  gcmOpen : (key nonce body aad : Bytes) → Result Bytes

structure Gcm.Lawful (gcm : Gcm) : Prop where
  nonceSize_pos : 0 < gcm.nonceSize
  nonceSize_lt : gcm.nonceSize < 256
  seal_length : ∀ key nonce plaintext aad,
    (gcm.gcmSeal key nonce plaintext aad).length = plaintext.length + gcm.overhead
  open_seal : ∀ key nonce plaintext aad, key.length = 32 → nonce.length = gcm.nonceSize →
    gcm.gcmOpen key nonce (gcm.gcmSeal key nonce plaintext aad) aad = .ok plaintext

/-- `binary.BigEndian.PutUint32`. -/
def putUint32 (n : Nat) : Bytes :=
  [UInt8.ofNat (n / 2 ^ 24), UInt8.ofNat (n / 2 ^ 16), UInt8.ofNat (n / 2 ^ 8), UInt8.ofNat n]

/-- `binary.BigEndian.Uint32` of the first four bytes. -/
def uint32 (bytes : Bytes) : Nat := (bytes.take 4).foldl (fun n b => 256 * n + b.toNat) 0

/-- `aead.Encryptor`; only a derived one knows its root key. -/
structure Encryptor where
  key : Bytes
  rootKey : Bytes := []
  version : String := ""

namespace Encryptor
variable (h : Hashes) (gcm : Gcm)

def legacyDeriveKey (rootKey : Bytes) (version : String) : Bytes :=
  let version := if version = "" then "1" else version
  (h.hmac rootKey (utf8 ("dbvault-chunk-key-derivation-v:" ++ version))).bytes

def deriveKey (rootKey : Bytes) (version : String) : Bytes :=
  let version := if version = "" then "1" else version
  if rootKey.length ≥ 32 then
    match KeyDerive.derive h rootKey ("dbvault/aead-v1:" ++ version) with
    | .ok derived => derived
    | .error _ => legacyDeriveKey h rootKey version
  else legacyDeriveKey h rootKey version

def new (key : Bytes) : Result Encryptor :=
  if key.length ≠ 32 then .error (.other "AES-256-GCM key must be 32 bytes") else .ok { key := key }

def newWithDerivation (rootKey : Bytes) (version : String) : Result Encryptor :=
  if rootKey.length = 0 then .error (.other "root master key cannot be empty")
  else do
    let e ← new (deriveKey h rootKey version)
    pure { e with rootKey := rootKey, version := version }

def aad (chunkID : String) : Bytes := utf8 ("dbvault-chunk-v1:" ++ chunkID)

/-- `EncryptChunk`, with the nonce it draws. -/
def encryptChunk (e : Encryptor) (nonce : Bytes) (chunkID : String) (plaintext : Bytes) : Result Bytes :=
  if nonce.length ≠ gcm.nonceSize then .error (.other "unexpected EOF")
  else .ok (putUint32 nonce.length ++ (nonce ++ gcm.gcmSeal e.key nonce plaintext (aad chunkID)))

def openWith (key : Bytes) (chunkID : String) (ciphertext : Bytes) : Result Bytes :=
  if ciphertext.length < 4 then .error (.other "ciphertext too short")
  else
    let n := uint32 ciphertext
    if n ≤ 0 ∨ n ≠ gcm.nonceSize ∨ ciphertext.length < 4 + n + gcm.overhead then
      .error (.other "ciphertext nonce or payload truncated")
    else
      let body := ciphertext.drop 4
      gcm.gcmOpen key (body.take n) (body.drop n) (aad chunkID)

/-- `DecryptChunk`: a derived encryptor also tries the key it would have derived
before HKDF. -/
def decryptChunk (e : Encryptor) (chunkID : String) (ciphertext : Bytes) : Result Bytes :=
  match openWith gcm e.key chunkID ciphertext with
  | .ok plaintext => .ok plaintext
  | .error err =>
    if e.rootKey.length ≥ 32 then
      match openWith gcm (legacyDeriveKey h e.rootKey e.version) chunkID ciphertext with
      | .ok plaintext => .ok plaintext
      | .error _ => .error err
    else .error err

theorem length_deriveKey (rootKey : Bytes) (version : String) : (deriveKey h rootKey version).length = 32 := by
  have hDomain : ∀ text : String, "dbvault/aead-v1:" ++ text ≠ "" := by
    intro text hEmpty
    have hList := congrArg String.toList hEmpty
    simp at hList
  by_cases hLong : rootKey.length ≥ 32
  · have hShort : ¬ rootKey.length < 32 := Nat.not_lt.mpr hLong
    simp [deriveKey, hLong, hShort, KeyDerive.derive, hDomain, KeyDerive.expand, KeyDerive.keyLen,
      KeyDerive.rounds, Digest.size]
  · simp [deriveKey, hLong, legacyDeriveKey, Digest.size]

theorem uint32_putUint32 {n : Nat} (hn : n < 256) (rest : Bytes) : uint32 (putUint32 n ++ rest) = n := by
  simp only [uint32, putUint32, cons_append, nil_append, take_succ_cons,
    take_zero, foldl_cons, foldl_nil, UInt8.toNat_ofNat']
  omega

theorem decrypt_encrypt (hGcm : gcm.Lawful) {e : Encryptor} (hKey : e.key.length = 32)
    {nonce plaintext out : Bytes} {chunkID : String}
    (hOut : e.encryptChunk gcm nonce chunkID plaintext = .ok out) :
    e.decryptChunk h gcm chunkID out = .ok plaintext := by
  unfold encryptChunk at hOut
  split at hOut
  · cases hOut
  · rename_i hNonce
    rw [ne_eq, not_not] at hNonce
    obtain rfl := Except.ok.inj hOut
    have hUint : uint32 (putUint32 nonce.length ++
        (nonce ++ gcm.gcmSeal e.key nonce plaintext (aad chunkID))) = gcm.nonceSize := by
      rw [uint32_putUint32 (by rw [hNonce]; exact hGcm.nonceSize_lt), hNonce]
    have hOpen : openWith gcm e.key chunkID (putUint32 nonce.length ++
        (nonce ++ gcm.gcmSeal e.key nonce plaintext (aad chunkID))) = .ok plaintext := by
      have hPos := hGcm.nonceSize_pos
      have hLength := hGcm.seal_length e.key nonce plaintext (aad chunkID)
      have hDrop : (putUint32 nonce.length ++
          (nonce ++ gcm.gcmSeal e.key nonce plaintext (aad chunkID))).drop 4 =
          nonce ++ gcm.gcmSeal e.key nonce plaintext (aad chunkID) := rfl
      simp only [openWith, hUint, hDrop]
      rw [if_neg (by simp [putUint32]), if_neg (by simp [putUint32, hLength]; omega),
        ← hNonce, take_left, drop_left, hGcm.open_seal _ _ _ _ hKey hNonce]
    simp only [decryptChunk, hOpen]

end Encryptor

end DBVault
