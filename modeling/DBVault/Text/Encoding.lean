import Mathlib.Data.List.Basic
import Mathlib.Tactic.IntervalCases

/-! Byte and text encodings: UTF-8 with Go's replacement rule, lower-case
hexadecimal and the decimal rendering of `%d`. Each writer comes with the fact
that makes it uniquely readable. -/
namespace Text
open List

abbrev Bytes := List UInt8

instance lawfulBEq_chars : LawfulBEq (List Char) := inferInstance

theorem field_inj {α : Type*} {separator : α} {first second firstRest secondRest : List α}
    (hFirst : separator ∉ first) (hSecond : separator ∉ second)
    (h : first ++ separator :: firstRest = second ++ separator :: secondRest) :
    first = second ∧ firstRest = secondRest := by
  induction first generalizing second with
  | nil =>
    cases second with
    | nil => simpa using h
    | cons x rest =>
      simp only [nil_append, cons_append, List.cons.injEq] at h
      exact absurd (h.1 ▸ mem_cons_self) hSecond
  | cons x rest ih =>
    cases second with
    | nil =>
      simp only [nil_append, cons_append, List.cons.injEq] at h
      exact absurd (h.1 ▸ mem_cons_self) hFirst
    | cons y others =>
      simp only [cons_append, List.cons.injEq] at h
      obtain ⟨hHead, hTail⟩ := ih (fun hm => hFirst (mem_cons_of_mem _ hm))
        (fun hm => hSecond (mem_cons_of_mem _ hm)) h.2
      exact ⟨by rw [h.1, hHead], hTail⟩

def encodeRunes (chars : List Char) : Bytes := chars.flatMap String.utf8EncodeChar

def utf8 (text : String) : Bytes := encodeRunes text.toList

theorem encodeRunes_cons (c : Char) (rest : List Char) :
    encodeRunes (c :: rest) = String.utf8EncodeChar c ++ encodeRunes rest := rfl

@[simp] theorem encodeRunes_append (first second : List Char) :
    encodeRunes (first ++ second) = encodeRunes first ++ encodeRunes second :=
  flatMap_append

@[simp] theorem utf8_append (first second : String) : utf8 (first ++ second) = utf8 first ++ utf8 second := by
  simp [utf8]

/-- Reading runs forward one rune at a time. A byte that starts no rune is
read as U+FFFD and skipped, as `utf8.DecodeRune` does. -/
def decodeRunesFrom : Nat → Bytes → List Char
  | 0, _ => []
  | _ + 1, [] => []
  | fuel + 1, byte :: rest =>
    match (byte :: rest).toByteArray.utf8DecodeChar? 0 with
    | some c => c :: decodeRunesFrom fuel ((byte :: rest).drop c.utf8Size)
    | none => '�' :: decodeRunesFrom fuel rest

def decodeRunes (bytes : Bytes) : List Char := decodeRunesFrom bytes.length bytes

theorem decodeRunesFrom_encodeRunes (chars : List Char) (fuel : Nat)
    (hFuel : (encodeRunes chars).length ≤ fuel) : decodeRunesFrom fuel (encodeRunes chars) = chars := by
  induction chars generalizing fuel with
  | nil => cases fuel <;> rfl
  | cons c rest ih =>
    have hSize : (String.utf8EncodeChar c).length = c.utf8Size := String.length_utf8EncodeChar c
    have hPos : 0 < c.utf8Size := c.utf8Size_pos
    rw [encodeRunes_cons, length_append, hSize] at hFuel
    obtain ⟨fuel, rfl⟩ : ∃ n, fuel = n + 1 := ⟨fuel - 1, by omega⟩
    have hRead : (encodeRunes (c :: rest)).toByteArray.utf8DecodeChar? 0 = some c := by
      rw [encodeRunes_cons, toByteArray_append]
      exact ByteArray.utf8DecodeChar?_utf8EncodeChar_append
    have hDrop : (encodeRunes (c :: rest)).drop c.utf8Size = encodeRunes rest := by
      rw [encodeRunes_cons, ← hSize, drop_left]
    obtain ⟨byte, others, hBytes⟩ : ∃ byte others, encodeRunes (c :: rest) = byte :: others := by
      cases hb : encodeRunes (c :: rest) with
      | nil => simp [encodeRunes_cons, String.utf8EncodeChar_ne_nil] at hb
      | cons byte others => exact ⟨byte, others, rfl⟩
    rw [hBytes] at hRead hDrop ⊢
    simp only [decodeRunesFrom, hRead, hDrop]
    rw [ih fuel (by omega)]

@[simp] theorem decodeRunes_encodeRunes (chars : List Char) : decodeRunes (encodeRunes chars) = chars :=
  decodeRunesFrom_encodeRunes chars _ (Nat.le_refl _)

theorem encodeRunes_injective : Function.Injective encodeRunes :=
  Function.LeftInverse.injective decodeRunes_encodeRunes

theorem utf8_injective : Function.Injective utf8 := by
  intro first second h
  exact String.toList_inj.mp (encodeRunes_injective h)

theorem encodeRunes_ascii (chars : List Char) (h : ∀ c ∈ chars, c.toNat < 128) :
    encodeRunes chars = chars.map Char.toUInt8 := by
  induction chars with
  | nil => rfl
  | cons c rest ih =>
    have hSize : c.utf8Size = 1 := by
      rw [Char.utf8Size_eq_one_iff, UInt32.le_iff_toNat_le]
      exact Nat.le_of_lt_succ (h c mem_cons_self)
    rw [encodeRunes_cons, String.utf8EncodeChar_eq_singleton hSize, ih fun d hd => h d (mem_cons_of_mem _ hd)]
    rfl

theorem not_mem_encodeRunes (hSeparator : separator.toNat < 128)
    (h : ∀ c ∈ chars, c.toNat < 128) (hNot : separator ∉ chars) : separator.toUInt8 ∉ encodeRunes chars := by
  rw [encodeRunes_ascii chars h, mem_map]
  rintro ⟨c, hc, he⟩
  have hNat : c.toNat % 256 = separator.toNat % 256 := by
    have hBytes := congrArg UInt8.toNat he
    rwa [Char.toUInt8, Char.toUInt8, UInt32.toNat_toUInt8, UInt32.toNat_toUInt8] at hBytes
  have hSmall := h c hc
  exact hNot (Char.toNat_inj.mp (show separator.toNat = c.toNat by omega) ▸ hc)

/-- `hex.EncodeToString` writes every byte as two lower-case digits. -/
def hexDigit (n : Nat) : Char := if n < 10 then Char.ofNat (48 + n) else Char.ofNat (87 + n)

def hexChars (bytes : Bytes) : List Char :=
  bytes.flatMap fun b => [hexDigit (b.toNat / 16), hexDigit (b.toNat % 16)]

def hexEncode (bytes : Bytes) : String := String.ofList (hexChars bytes)

/-- The characters `hexEncode` writes. -/
def IsHex (c : Char) : Prop := ∃ n < 16, c = hexDigit n

theorem hexDigit_inj {m n : Nat} (hm : m < 16) (hn : n < 16) (h : hexDigit m = hexDigit n) : m = n := by
  revert h
  interval_cases m <;> interval_cases n <;> decide

theorem IsHex.ascii (h : IsHex c) : c.toNat < 128 := by
  obtain ⟨n, hn, rfl⟩ := h
  interval_cases n <;> decide

theorem IsHex.ne (h : IsHex c) (hd : ∀ n < 16, hexDigit n ≠ d) : c ≠ d := by
  obtain ⟨n, hn, rfl⟩ := h
  exact hd n hn

theorem isHex_of_mem (h : c ∈ hexChars bytes) : IsHex c := by
  simp only [hexChars, mem_flatMap, mem_cons, not_mem_nil, or_false] at h
  obtain ⟨b, -, rfl | rfl⟩ := h
  · exact ⟨b.toNat / 16, by have := b.toNat_lt; omega, rfl⟩
  · exact ⟨b.toNat % 16, Nat.mod_lt _ (by omega), rfl⟩

@[simp] theorem hexChars_length (bytes : Bytes) : (hexChars bytes).length = 2 * bytes.length := by
  induction bytes with
  | nil => rfl
  | cons b rest ih =>
    simp only [hexChars, flatMap_cons, length_append, length_cons] at ih ⊢
    simp only [length_nil, ih]
    omega

theorem hexChars_injective : Function.Injective hexChars := by
  intro first second h
  induction first generalizing second with
  | nil =>
    cases second with
    | nil => rfl
    | cons b rest => simp [hexChars] at h
  | cons a rest ih =>
    cases second with
    | nil => simp [hexChars] at h
    | cons b others =>
      simp only [hexChars, flatMap_cons, cons_append, nil_append, List.cons.injEq] at h
      have ha := a.toNat_lt
      have hb := b.toNat_lt
      have hHigh := hexDigit_inj (by omega) (by omega) h.1
      have hLow := hexDigit_inj (by omega) (by omega) h.2.1
      have hByte : a = b := UInt8.toNat_inj.mp (by omega)
      rw [hByte, ih h.2.2]

@[simp] theorem toList_hexEncode (bytes : Bytes) : (hexEncode bytes).toList = hexChars bytes :=
  String.toList_ofList

theorem hexEncode_injective : Function.Injective hexEncode := by
  intro first second h
  exact hexChars_injective (by simpa using congrArg String.toList h)

def unhex (c : Char) : Option Nat :=
  if 48 ≤ c.toNat ∧ c.toNat ≤ 57 then some (c.toNat - 48)
  else if 97 ≤ c.toNat ∧ c.toNat ≤ 102 then some (c.toNat - 87)
  else if 65 ≤ c.toNat ∧ c.toNat ≤ 70 then some (c.toNat - 55)
  else none

def unhexChars : List Char → Option Bytes
  | [] => some []
  | [_] => none
  | high :: low :: rest =>
    match unhex high, unhex low, unhexChars rest with
    | some h, some l, some bytes => some (UInt8.ofNat (16 * h + l) :: bytes)
    | _, _, _ => none

/-- `hex.DecodeString`. -/
def hexDecode (text : String) : Option Bytes := unhexChars text.toList

theorem unhex_hexDigit {n : Nat} (hn : n < 16) : unhex (hexDigit n) = some n := by interval_cases n <;> decide

@[simp] theorem unhexChars_hexChars (bytes : Bytes) : unhexChars (hexChars bytes) = some bytes := by
  induction bytes with
  | nil => rfl
  | cons b rest ih =>
    have hByte := b.toNat_lt
    have hSum : 16 * (b.toNat / 16) + b.toNat % 16 = b.toNat := Nat.div_add_mod _ _
    simp only [hexChars, flatMap_cons, cons_append, nil_append] at ih ⊢
    simp [unhexChars, unhex_hexDigit (show b.toNat / 16 < 16 by omega),
      unhex_hexDigit (show b.toNat % 16 < 16 by omega), ih, hSum]

@[simp] theorem hexDecode_hexEncode (bytes : Bytes) : hexDecode (hexEncode bytes) = some bytes := by
  simp [hexDecode]

/-- `%d` of a signed integer. -/
def decimalChars : Int → List Char
  | .ofNat n => Nat.toDigits 10 n
  | .negSucc n => '-' :: Nat.toDigits 10 (n + 1)

def decimal (n : Int) : String := String.ofList (decimalChars n)

@[simp] theorem toList_decimal (n : Int) : (decimal n).toList = decimalChars n := String.toList_ofList

theorem toList_toString (n : Int) : (toString n).toList = decimalChars n := by
  cases n with
  | ofNat n => exact Nat.toList_repr
  | negSucc n =>
    change ("-" ++ (n + 1).repr).toList = _
    rw [String.toList_append, Nat.toList_repr]
    rfl

/-- The characters `decimal` writes. -/
def IsDecimal (c : Char) : Prop := c.isDigit = true ∨ c = '-'

theorem isDigit_of_mem {n : Nat} (h : c ∈ Nat.toDigits 10 n) : c.isDigit = true :=
  Nat.isDigit_of_mem_toDigits (by omega) (by omega) h

theorem isDecimal_of_mem {n : Int} (h : c ∈ decimalChars n) : IsDecimal c := by
  cases n with
  | ofNat n => exact .inl (isDigit_of_mem h)
  | negSucc n =>
    rcases mem_cons.mp h with rfl | h
    · exact .inr rfl
    · exact .inl (isDigit_of_mem h)

theorem IsDecimal.ascii (h : IsDecimal c) : c.toNat < 128 := by
  rcases h with h | rfl
  · simp only [Char.isDigit, Bool.and_eq_true, decide_eq_true_eq, UInt32.le_iff_toNat_le] at h
    have hUpper : c.toNat ≤ 57 := h.2
    omega
  · decide

theorem toDigits_injective : Function.Injective (Nat.toDigits 10) := by
  intro m n h
  rw [← Nat.ofDigitChars_ten_toDigits (n := m), h, Nat.ofDigitChars_ten_toDigits]

theorem toDigits_head_ne_minus (n : Nat) (rest : List Char) : Nat.toDigits 10 n ≠ '-' :: rest := by
  intro h
  have hDigit : ('-').isDigit = true := isDigit_of_mem (n := n) (by rw [h]; exact mem_cons_self)
  exact absurd hDigit (by decide)

theorem decimalChars_injective : Function.Injective decimalChars := by
  intro m n h
  cases m with
  | ofNat m =>
    cases n with
    | ofNat n => exact congrArg Int.ofNat (toDigits_injective h)
    | negSucc n => exact absurd h (toDigits_head_ne_minus m _)
  | negSucc m =>
    cases n with
    | ofNat n => exact absurd h.symm (toDigits_head_ne_minus n _)
    | negSucc n =>
      have hSucc := toDigits_injective (List.cons.inj h).2
      exact congrArg Int.negSucc (Nat.succ.inj hSucc)

theorem not_mem_decimalChars (n : Int) (hDigit : separator.isDigit = false)
    (hMinus : separator ≠ '-') : separator ∉ decimalChars n := by
  intro h
  rcases isDecimal_of_mem h with h | h
  · rw [hDigit] at h
    cases h
  · exact hMinus h

end Text
