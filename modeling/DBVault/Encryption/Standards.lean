import DBVault.Encryption

/-! The hand-written key derivations are the ones of the standards: `pbkdf2` is PBKDF2 of RFC 8018, and
`expand` is HKDF-Expand of RFC 5869. -/
namespace DBVault.KeyDerive
open List Text

def xorBytes (t u : Bytes) : Bytes := zipWith (· ^^^ ·) t u

section Standards
variable (prf : Bytes → Bytes → Bytes)

/-- `U_1`, `U_2` and so on of a block of PBKDF2, counted from zero. -/
def chainOf (password salt : Bytes) (block : Nat) : Nat → Bytes
  | 0 => prf password (salt ++ (range 4).map fun k => UInt8.ofNat (block / 256 ^ (3 - k)))
  | j + 1 => prf password (chainOf password salt block j)

/-- `F`: the exclusive or of the first `c` values of the chain. -/
def blockOf (password salt : Bytes) (c block : Nat) : Bytes :=
  ((range c).map (chainOf prf password salt block)).foldl xorBytes (replicate 32 0)

/-- PBKDF2: the blocks from the first on, cut to the length. -/
def PBKDF2 (password salt : Bytes) (c dkLen : Nat) : Bytes :=
  ((range ((dkLen + 31) / 32)).flatMap fun i => blockOf prf password salt c (i + 1)).take dkLen

/-- `T(0)`, `T(1)` and so on of HKDF. -/
def hkdfT (prk info : Bytes) : Nat → Bytes
  | 0 => []
  | n + 1 => prf prk (hkdfT prk info n ++ info ++ [UInt8.ofNat (n + 1)])

/-- HKDF-Expand, for at most 255 blocks. -/
def hkdfExpand (prk info : Bytes) (length : Nat) : Option Bytes :=
  if length ≤ 255 * 32 then
    some (((range ((length + 31) / 32)).flatMap fun n => hkdfT prf prk info (n + 1)).take length)
  else none

end Standards

variable (h : Hashes)

/-- HMAC-SHA256 as bytes. -/
def mac (key message : Bytes) : Bytes := (h.hmac key message).bytes

/-- The passes of `pbkdf2` over `u` and `t` that are left for a block. -/
def iterate (password : Bytes) : Nat → Bytes → Bytes → Bytes
  | 0, _, t => t
  | n + 1, u, t =>
    let u := mac h password u
    iterate password n u (xorBytes t u)

def blockLoop (password salt : Bytes) (iterations : Nat) : Nat → Nat → Bytes → Bytes
  | 0, _, out => out
  | n + 1, block, out =>
    let u := mac h password (salt ++ putUint32 block)
    blockLoop password salt iterations n (block + 1) (out ++ iterate h password (iterations - 1) u u)

def pbkdf2 (password salt : Bytes) (iterations length : Nat) : Bytes :=
  let blocks := (length + 32 - 1) / 32
  (blockLoop h password salt iterations blocks 1 []).take length

/-- The loop of `expand`; each pass adds 32 bytes. -/
def expandLoop (prk info : Bytes) (length : Nat) : Nat → Bytes → Bytes → UInt8 → Bytes
  | 0, okm, _, _ => okm
  | fuel + 1, okm, previous, counter =>
    if okm.length < length then
      let previous := mac h prk (previous ++ info ++ [counter])
      expandLoop prk info length fuel (okm ++ previous) previous (counter + 1)
    else okm

variable {password salt : Bytes} (prk info : Bytes)

theorem zeros_xorBytes (u : Bytes) : xorBytes (replicate u.length 0) u = u := by
  induction u with
  | nil => rfl
  | cons b u ih => simpa [xorBytes, replicate_succ] using ih

theorem iterate_eq (n block k : Nat) (t : Bytes) :
    iterate h password n (chainOf (mac h) password salt block k) t =
      ((range n).map fun j => chainOf (mac h) password salt block (k + 1 + j)).foldl xorBytes t := by
  induction n generalizing k t with
  | zero => rfl
  | succ n ih =>
    rw [iterate, range_succ_eq_map, map_cons, foldl_cons, map_map]
    simpa [Function.comp_def, Nat.add_assoc, Nat.add_comm, Nat.add_left_comm, chainOf] using ih (k + 1) _

theorem blockLoop_eq {iterations : Nat} (hPos : 1 ≤ iterations) (n block : Nat) (out : Bytes) :
    blockLoop h password salt iterations n block out =
      out ++ (range n).flatMap fun i => blockOf (mac h) password salt iterations (block + i) := by
  induction n generalizing block out with
  | zero => simp [blockLoop]
  | succ n ih =>
    obtain ⟨c, rfl⟩ := Nat.exists_eq_add_of_le' hPos
    have hFirst : mac h password (salt ++ putUint32 block) = chainOf (mac h) password salt block 0 := by
      simp [chainOf, putUint32, range_succ]
    have hSize : (chainOf (mac h) password salt block 0).length = 32 := (h.hmac _ _).size
    have hBlock : iterate h password c (chainOf (mac h) password salt block 0)
        (chainOf (mac h) password salt block 0) = blockOf (mac h) password salt (c + 1) block := by
      rw [iterate_eq, blockOf, range_succ_eq_map, map_cons, foldl_cons, ← hSize, zeros_xorBytes, map_map]
      simp [Function.comp_def, Nat.add_comm]
    rw [blockLoop, hFirst, Nat.add_sub_cancel, hBlock, ih, range_succ_eq_map, flatMap_cons, flatMap_map]
    simp [Nat.add_assoc, Nat.add_comm 1]

theorem expandLoop_eq {length : Nat} (passes fuel : Nat) (okm previous : Bytes) (counter : UInt8)
    (hPasses : passes = (length - okm.length + 31) / 32) (hFuel : passes < fuel) :
    expandLoop h prk info length fuel okm previous counter = okm ++ rounds h prk info passes counter previous := by
  obtain ⟨fuel, rfl⟩ := Nat.exists_eq_add_of_le' (Nat.one_le_of_lt hFuel)
  induction passes generalizing fuel okm previous counter with
  | zero => rw [expandLoop, if_neg (by omega), rounds, append_nil]
  | succ passes ih =>
    obtain ⟨fuel, rfl⟩ := Nat.exists_eq_add_of_le' (show 1 ≤ fuel by omega)
    have hSize : (mac h prk (previous ++ info ++ [counter])).length = 32 := (h.hmac _ _).size
    rw [expandLoop, if_pos (by omega), ih _ _ _ (by rw [length_append]; omega) fuel (by omega), append_assoc]
    rfl

theorem rounds_eq (passes done : Nat) :
    rounds h prk info passes (UInt8.ofNat (done + 1)) (hkdfT (mac h) prk info done) =
      (range passes).flatMap fun n => hkdfT (mac h) prk info (done + n + 1) := by
  induction passes generalizing done with
  | zero => rfl
  | succ passes ih =>
    have hNext : (h.hmac prk (hkdfT (mac h) prk info done ++ info ++ [UInt8.ofNat (done + 1)])).bytes =
      hkdfT (mac h) prk info (done + 1) := rfl
    rw [rounds, hNext, ← UInt8.ofNat_one, ← UInt8.ofNat_add, ih, range_succ_eq_map, flatMap_cons, flatMap_map]
    simp [Nat.add_assoc, Nat.add_comm 1]

/-- Both derivations give what the standards say, for every input the standards admit. -/
theorem derivations_standard (h : Hashes) :
    (∀ password salt iterations length, 1 ≤ iterations →
      pbkdf2 h password salt iterations length = PBKDF2 (mac h) password salt iterations length) ∧
    ∀ prk info length, length ≤ 255 * 32 →
      hkdfExpand (mac h) prk info length = some ((expandLoop h prk info length (length + 1) [] [] 1).take length) ∧
      hkdfExpand (mac h) prk info length = some (expand h prk info length) := by
  refine ⟨fun password salt iterations length hPos => ?_, fun prk info length hLength => ?_⟩
  · rw [pbkdf2, blockLoop_eq h hPos, PBKDF2]
    simp [Nat.add_comm 1]
  · have hRounds := rounds_eq h prk info ((length + 31) / 32) 0
    simp only [Nat.zero_add] at hRounds
    rw [hkdfExpand, if_pos hLength, expandLoop_eq h prk info ((length + 31) / 32) _ _ _ _ rfl (by omega), expand,
      nil_append, ← hRounds]
    exact ⟨rfl, rfl⟩

end DBVault.KeyDerive
