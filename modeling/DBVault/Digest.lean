import DBVault.Chunking

/-! Keyed chunk identifiers, root digests and the Merkle root over chunk
identifiers. The hash functions are parameters; what is proved here is that
the texts they are applied to determine what was hashed. -/
namespace DBVault
open List Text

/-- The 32 bytes of a SHA-256 or HMAC-SHA-256 value. -/
structure Digest where
  bytes : Bytes
  size : bytes.length = 32

def Digest.hex (d : Digest) : String := hexEncode d.bytes

theorem Digest.hex_injective : Function.Injective Digest.hex := by
  intro first second h
  obtain ⟨bytes, hSize⟩ := first
  obtain ⟨others, hOthers⟩ := second
  have hBytes : bytes = others := hexEncode_injective h
  subst hBytes
  rfl

theorem Digest.hex_ne_empty (d : Digest) : d.hex ≠ "" := by
  intro h
  have hLength := congrArg (fun text => text.toList.length) h
  simp [Digest.hex, d.size] at hLength

structure Hashes where
  hmac : Bytes → Bytes → Digest
  sha256 : Bytes → Digest

namespace Hashes
variable (h : Hashes)

/-- What `ChunkID` hashes. -/
def chunkMessage (pageSize : Int) (data : Bytes) : Bytes :=
  utf8 "dbvault-chunk-v1:" ++ (utf8 (decimal pageSize) ++ (utf8 ":" ++ data))

def chunkID (key : Bytes) (pageSize : Int) (data : Bytes) : String := (h.hmac key (chunkMessage pageSize data)).hex

/-- One `%d:%s:%d;` entry of the root digest. -/
def rootEntry (i : Nat) (id : String) (plaintextSize : Int) : Bytes :=
  utf8 (decimal i) ++ (utf8 ":" ++ (utf8 id ++ (utf8 ":" ++ (utf8 (decimal plaintextSize) ++ utf8 ";"))))

def rootEntries : Nat → List (String × Int) → Bytes
  | _, [] => []
  | i, (id, plaintextSize) :: rest => rootEntry i id plaintextSize ++ rootEntries (i + 1) rest

/-- What `RootDigest` hashes, for the identifiers and sizes of the chunks. -/
def rootMessage (pageSize logicalSize : Int) (entries : List (String × Int)) : Bytes :=
  utf8 "dbvault-root-v1:" ++ (utf8 (decimal pageSize) ++ (utf8 ":" ++ (utf8 (decimal logicalSize) ++
    (utf8 ":" ++ rootEntries 0 entries))))

def rootDigest (key : Bytes) (entries : List (String × Int)) (logicalSize pageSize : Int) : String :=
  (h.hmac key (rootMessage pageSize logicalSize entries)).hex

def keyed (key payload : Bytes) : String :=
  if key.length > 0 then (h.hmac key payload).hex else (h.sha256 payload).hex

theorem keyed_ne_empty (key payload : Bytes) : h.keyed key payload ≠ "" := by
  unfold keyed
  split <;> exact Digest.hex_ne_empty _

def hashLeaf (key data : Bytes) : String := h.keyed key (0x00 :: data)

def hashInternalNode (key : Bytes) (left right : String) : String :=
  h.keyed key (0x01 :: (utf8 left ++ utf8 right))

def nextLevel (key : Bytes) : List String → List String
  | left :: right :: rest => h.hashInternalNode key left right :: nextLevel key rest
  | level => level

/-- The loop of `buildTreeFromNodes`; each pass at least halves a longer level. -/
def climb (key : Bytes) : Nat → List String → List String
  | 0, level => level
  | fuel + 1, level => if level.length > 1 then climb key fuel (h.nextLevel key level) else level

/-- The root hash of `BuildTreeFromHashes`. -/
def treeRoot (key : Bytes) (leafHashes : List String) : String :=
  match leafHashes with
  | [] => h.hashLeaf key []
  | _ => (h.climb key leafHashes.length leafHashes).headD ""

theorem nextLevel_ne_nil (key : Bytes) (hLevel : level ≠ []) : h.nextLevel key level ≠ [] := by
  fun_cases nextLevel h key level with
  | case1 left right rest => simp
  | case2 => exact hLevel

variable {key : Bytes}

theorem nextLevel_hashes {level : List String} {good : String → Prop}
    (hNode : ∀ left right, good (h.hashInternalNode key left right)) (hLevel : ∀ s ∈ level, good s) :
    ∀ s ∈ h.nextLevel key level, good s := by
  fun_induction nextLevel h key level with
  | case1 left right rest ih =>
    intro s hs
    rcases mem_cons.mp hs with rfl | hs
    · exact hNode left right
    · exact ih (fun t ht => hLevel t (by simp [ht])) s hs
  | case2 level hShort => exact hLevel

theorem treeRoot_of_leaves {leaves : List String} (good : String → Prop)
    (hNode : ∀ left right, good (h.hashInternalNode key left right))
    (hLeaves : ∀ s ∈ leaves, good s) (hNe : leaves ≠ []) : good (h.treeRoot key leaves) := by
  have hClimb : ∀ (fuel : Nat) (level : List String), level ≠ [] → (∀ s ∈ level, good s) →
      good ((h.climb key fuel level).headD "") := by
    intro fuel
    induction fuel with
    | zero =>
      intro level hLevel hGood
      obtain ⟨first, rest, rfl⟩ := exists_cons_of_ne_nil hLevel
      exact hGood first mem_cons_self
    | succ fuel ih =>
      intro level hLevel hGood
      rw [climb]
      split
      · exact ih _ (h.nextLevel_ne_nil key hLevel) (h.nextLevel_hashes hNode hGood)
      · obtain ⟨first, rest, rfl⟩ := exists_cons_of_ne_nil hLevel
        exact hGood first mem_cons_self
  obtain ⟨first, rest, rfl⟩ := exists_cons_of_ne_nil hNe
  exact hClimb _ _ hNe hLeaves

theorem decimal_ascii (n : Int) : ∀ c ∈ (decimal n).toList, c.toNat < 128 := by
  intro c hc
  rw [toList_decimal] at hc
  exact (isDecimal_of_mem hc).ascii

theorem separator_not_mem_decimal (separator : Char) (hAscii : separator.toNat < 128)
    (hDigit : separator.isDigit = false) (hMinus : separator ≠ '-') (n : Int) :
    separator.toUInt8 ∉ utf8 (decimal n) :=
  not_mem_encodeRunes hAscii (decimal_ascii n) (by rw [toList_decimal]; exact not_mem_decimalChars n hDigit hMinus)

theorem colon_not_mem_decimal (n : Int) : (58 : UInt8) ∉ utf8 (decimal n) :=
  separator_not_mem_decimal ':' (by decide) (by decide) (by decide) n

theorem semicolon_not_mem_decimal (n : Int) : (59 : UInt8) ∉ utf8 (decimal n) :=
  separator_not_mem_decimal ';' (by decide) (by decide) (by decide) n

theorem utf8_decimal_injective : Function.Injective fun n => utf8 (decimal n) := by
  intro m n hEq
  have hText := congrArg String.toList (utf8_injective hEq)
  rw [toList_decimal, toList_decimal] at hText
  exact decimalChars_injective hText

theorem decimal_field {m n : Int}
    (hEq : utf8 (decimal m) ++ (utf8 ":" ++ first) = utf8 (decimal n) ++ (utf8 ":" ++ second)) :
    m = n ∧ first = second := by
  obtain ⟨hNumber, hRest⟩ := field_inj (colon_not_mem_decimal m) (colon_not_mem_decimal n) hEq
  exact ⟨utf8_decimal_injective hNumber, hRest⟩

variable {p q : Int}

theorem chunkMessage_inj (hEq : chunkMessage p data = chunkMessage q other) : p = q ∧ data = other :=
  decimal_field (append_cancel_left hEq)

def IsHexID (id : String) : Prop := ∃ d : Digest, id = d.hex

variable {id : String}

theorem colon_not_mem_hex (hHex : IsHexID id) : (58 : UInt8) ∉ utf8 id := by
  obtain ⟨d, rfl⟩ := hHex
  have hChars : ∀ c ∈ d.hex.toList, IsHex c := by
    intro c hc
    rw [Digest.hex, toList_hexEncode] at hc
    exact isHex_of_mem hc
  have hColon : ':' ∉ d.hex.toList := fun hMem => (hChars ':' hMem).ne (by decide) rfl
  exact not_mem_encodeRunes (by decide) (fun c hc => (hChars c hc).ascii) hColon

variable {i j : Nat} {size size' : Int}

theorem rootEntry_inj {other : String} (hID : IsHexID id)
    (hOther : IsHexID other) (hEq : rootEntry i id size ++ rest = rootEntry j other size' ++ rest') :
    id = other ∧ size = size' ∧ rest = rest' := by
  simp only [rootEntry, append_assoc] at hEq
  obtain ⟨-, hFields⟩ := decimal_field hEq
  obtain ⟨hIDs, hSizes⟩ := field_inj (colon_not_mem_hex hID) (colon_not_mem_hex hOther) hFields
  obtain ⟨hSize, hRest⟩ := field_inj (semicolon_not_mem_decimal size) (semicolon_not_mem_decimal size') hSizes
  exact ⟨utf8_injective hIDs, utf8_decimal_injective hSize, hRest⟩

theorem rootEntry_ne_nil (i : Nat) (id : String) (size : Int) (rest : Bytes) :
    rootEntry i id size ++ rest ≠ [] := by
  have hSemicolon : utf8 ";" ≠ [] := by decide
  simp [rootEntry, hSemicolon]

theorem rootEntries_inj (hFirst : ∀ e ∈ first, IsHexID e.1) (hSecond : ∀ e ∈ second, IsHexID e.1)
    (hEq : rootEntries i first = rootEntries j second) : first = second := by
  induction first generalizing i j second with
  | nil =>
    cases second with
    | nil => rfl
    | cons e rest => exact absurd hEq.symm (rootEntry_ne_nil _ _ _ _)
  | cons e rest ih =>
    cases second with
    | nil => exact absurd hEq (rootEntry_ne_nil _ _ _ _)
    | cons e' rest' =>
      obtain ⟨hID, hSize, hRest⟩ := rootEntry_inj (hFirst e mem_cons_self) (hSecond e' mem_cons_self) hEq
      have hTail := ih (fun x hx => hFirst x (mem_cons_of_mem _ hx))
        (fun x hx => hSecond x (mem_cons_of_mem _ hx)) hRest
      rw [Prod.ext hID hSize, hTail]

theorem rootMessage_inj (hFirst : ∀ e ∈ first, IsHexID e.1)
    (hSecond : ∀ e ∈ second, IsHexID e.1) (hEq : rootMessage p size first = rootMessage q size' second) :
    p = q ∧ size = size' ∧ first = second := by
  obtain ⟨hPage, hRest⟩ := decimal_field (append_cancel_left hEq)
  obtain ⟨hSize, hEntries⟩ := decimal_field hRest
  exact ⟨hPage, hSize, rootEntries_inj hFirst hSecond hEntries⟩

theorem chunkID_isHexID (key : Bytes) (pageSize : Int) (data : Bytes) :
    IsHexID (h.chunkID key pageSize data) := ⟨_, rfl⟩

end Hashes

theorem length_take_padded (payload : Bytes) : ((payload ++ List.replicate 32 0).take 32).length = 32 := by simp

def Digest.leading (payload : Bytes) : Digest :=
  ⟨(payload ++ List.replicate 32 0).take 32, length_take_padded payload⟩

def Hashes.leading : Hashes := ⟨fun key payload => .leading (key ++ payload), .leading⟩

end DBVault
