import DBVault.Json.RoundTrip

/-! Storing JSON values into Go data, after `json.Unmarshal`. A struct is a list
of fields, each with its JSON name and the function that stores a value into
it; a struct is written as the list of members those fields read back. -/
namespace Json
open List Text

inductive DecodeError where
  | notWellFormed
  | mismatch
  deriving DecidableEq

def int64Min : Int := -(2 ^ 63)

def int64Max : Int := 2 ^ 63 - 1

/-- A value of Go's `int` or `int64`. -/
def IsInt64 (n : Int) : Prop := int64Min ≤ n ∧ n ≤ int64Max

instance (n : Int) : Decidable (IsInt64 n) := inferInstanceAs (Decidable (_ ∧ _))

def natOfDigits (chars : List Char) : Option Nat :=
  if chars ≠ [] ∧ chars.all Char.isDigit then some (Nat.ofDigitChars 10 chars 0) else none

/-- `strconv.ParseInt(s, 10, 64)` on a JSON literal. -/
def parseInt (chars : List Char) : Option Int :=
  let n : Option Int :=
    match chars with
    | '-' :: digits => (natOfDigits digits).map fun (n : Nat) => -(n : Int)
    | digits => (natOfDigits digits).map fun (n : Nat) => (n : Int)
  n.filter fun n => decide (IsInt64 n)

theorem natOfDigits_toDigits (n : Nat) : natOfDigits (Nat.toDigits 10 n) = some n := by
  have hDigits : (Nat.toDigits 10 n).all Char.isDigit = true := by
    rw [all_eq_true]
    intro c hc
    exact isDigit_of_mem hc
  simp [natOfDigits, hDigits, Nat.ofDigitChars_ten_toDigits]

theorem parseInt_decimalChars (h : IsInt64 n) : parseInt (decimalChars n) = some n := by
  cases n with
  | ofNat n =>
    have hSplit : parseInt (Nat.toDigits 10 n) =
        (((natOfDigits (Nat.toDigits 10 n)).map fun (m : Nat) => (m : Int)).filter
          fun n => decide (IsInt64 n)) := by
      unfold parseInt
      split
      · rename_i digits hEq
        exact absurd hEq (toDigits_head_ne_minus n digits)
      · rfl
    rw [decimalChars, hSplit, natOfDigits_toDigits]
    simpa [Option.filter] using h
  | negSucc n =>
    rw [decimalChars, parseInt]
    simp only [natOfDigits_toDigits, Option.map_some, Option.filter]
    have hValue : -((n + 1 : Nat) : Int) = Int.negSucc n := rfl
    rw [hValue]
    simp [h]

def intoString : Value → String → Except DecodeError String
  | .str s, _ => .ok s
  | .null, old => .ok old
  | _, _ => .error .mismatch

def intoInt : Value → Int → Except DecodeError Int
  | .num n, _ =>
    match parseInt n.chars with
    | some i => .ok i
    | none => .error .mismatch
  | .null, old => .ok old
  | _, _ => .error .mismatch

/-- A `map[string]any`; a repeated name replaces the entry. -/
def intoMap : Value → List (String × Value) → Except DecodeError (List (String × Value))
  | .obj members, old => .ok (members.foldl (fun entries m => entries.filter (·.1 ≠ m.1) ++ [m]) old)
  | .null, _ => .ok []
  | _, _ => .error .mismatch

/-- Elements are stored over those the slice already has, the rest over zero values. -/
def intoElements {α : Type} (zero : α) (into : Value → α → Except DecodeError α) :
    List Value → List α → Except DecodeError (List α)
  | [], _ => .ok []
  | v :: rest, old => do
      let first ← into v (old.headD zero)
      let others ← intoElements zero into rest old.tail
      pure (first :: others)

def intoSlice {α : Type} (zero : α) (into : Value → α → Except DecodeError α) :
    Value → List α → Except DecodeError (List α)
  | .arr elements, old => intoElements zero into elements old
  | .null, _ => .ok []
  | _, _ => .error .mismatch

structure StructField (σ : Type) where
  name : String
  store : Value → σ → Except DecodeError σ

/-- The rune all runes of the same simple case folding orbit share, as far as
ASCII names can tell: `ſ` folds with `s` and the Kelvin sign with `k`. -/
def foldRune (c : Char) : Char := if c = 'ſ' then 'S' else if c.toNat = 0x212A then 'K' else c.toUpper

def foldName (name : String) : List Char := name.toList.map foldRune

def findField {σ : Type} (fields : List (StructField σ)) (name : String) : Option (StructField σ) :=
  (fields.find? (·.name == name)).or (fields.find? fun f => foldName f.name == foldName name)

def storeMember {σ : Type} (fields : List (StructField σ)) (s : σ) (member : String × Value) :
    Except DecodeError σ :=
  match findField fields member.1 with
  | some field => field.store member.2 s
  | none => .ok s

def intoStruct {σ : Type} (fields : List (StructField σ)) : Value → σ → Except DecodeError σ
  | .obj members, s => members.foldlM (storeMember fields) s
  | .null, s => .ok s
  | _, _ => .error .mismatch

/-- `json.Unmarshal` into a fresh variable. -/
def unmarshal {α : Type} (into : Value → α → Except DecodeError α) (zero : α) (payload : Bytes) :
    Except DecodeError α :=
  match parse (decodeRunes payload) with
  | some v => into v zero
  | none => .error .notWellFormed

/-- `json.MarshalIndent(v, "", "  ")`. -/
def marshalIndent (v : Value) : Bytes := encodeRunes (render 0 v)

variable {α : Type}

theorem unmarshal_marshalIndent (into : Value → α → Except DecodeError α) (zero : α)
    (h : height v ≤ maxNestingDepth) : unmarshal into zero (marshalIndent v) = into v zero := by
  simp [unmarshal, marshalIndent, parse_render v h]

/-- A member with `omitempty`. -/
def omitEmpty (isEmpty : Bool) (member : String × Value) : List (String × Value) :=
  if isEmpty then [] else [member]

variable {member : String × Value} {σ : Type} {fields : List (StructField σ)} {s s' : σ}

theorem storeMembers_cons
    (hStore : storeMember fields s member = .ok s') (rest : List (String × Value)) :
    (member :: rest).foldlM (storeMember fields) s = rest.foldlM (storeMember fields) s' := by
  rw [foldlM_cons, hStore]
  rfl

variable {isEmpty : Bool}

theorem storeMembers_omitEmpty (hStore : storeMember fields s member = .ok s')
    (hEmpty : isEmpty = true → s' = s) (rest : List (String × Value)) :
    (omitEmpty isEmpty member ++ rest).foldlM (storeMember fields) s = rest.foldlM (storeMember fields) s' := by
  cases isEmpty with
  | true => rw [hEmpty rfl, omitEmpty, if_pos rfl, nil_append]
  | false => exact storeMembers_cons hStore rest

theorem intoInt_ofInt (h : IsInt64 n) (old : Int) : intoInt (.num (.ofInt n)) old = .ok n := by
  simp [intoInt, Number.ofInt, parseInt_decimalChars h]

theorem intoElements_map {zero : α} {into : Value → α → Except DecodeError α}
    {write : α → Value} {xs : List α} (h : ∀ x ∈ xs, into (write x) zero = .ok x) :
    intoElements zero into (xs.map write) [] = .ok xs := by
  induction xs with
  | nil => rfl
  | cons x rest ih =>
    have hFirst := h x mem_cons_self
    have hRest := ih fun y hy => h y (mem_cons_of_mem _ hy)
    simp only [map_cons, intoElements, headD_nil, tail_nil, hFirst, hRest]
    rfl

@[simp] theorem height_str (s : String) : height (.str s) = 0 := by simp [height]

@[simp] theorem height_num (n : Number) : height (.num n) = 0 := by simp [height]

theorem height_arr (elements : List Value) :
    height (.arr elements) = 1 + heightElements elements := by simp [height]

theorem height_obj (members : List (String × Value)) :
    height (.obj members) = 1 + heightMembers members := by simp [height]

theorem heightElements_le (h : ∀ v ∈ elements, height v ≤ n) : heightElements elements ≤ n := by
  induction elements with
  | nil => simp [heightElements]
  | cons v rest ih =>
    simp only [heightElements, Nat.max_le]
    exact ⟨h v mem_cons_self, ih fun w hw => h w (mem_cons_of_mem _ hw)⟩

theorem heightMembers_le (h : ∀ m ∈ members, height m.2 ≤ n) : heightMembers members ≤ n := by
  induction members with
  | nil => simp [heightMembers]
  | cons m rest ih =>
    obtain ⟨name, v⟩ := m
    simp only [heightMembers, Nat.max_le]
    exact ⟨h (name, v) mem_cons_self, ih fun w hw => h w (mem_cons_of_mem _ hw)⟩

theorem heightMembers_append (first second : List (String × Value)) :
    heightMembers (first ++ second) = max (heightMembers first) (heightMembers second) := by
  induction first with
  | nil => simp [heightMembers]
  | cons m rest ih =>
    obtain ⟨name, v⟩ := m
    simp only [cons_append, heightMembers, ih, Nat.max_assoc]

theorem heightMembers_omitEmpty_le (isEmpty : Bool) (member : String × Value) :
    heightMembers (omitEmpty isEmpty member) ≤ height member.2 := by
  cases isEmpty <;> simp [omitEmpty, heightMembers]

theorem heightMembers_omitEmpty (h : height member.2 = 0) :
    heightMembers (omitEmpty isEmpty member) = 0 :=
  Nat.le_zero.mp (h ▸ heightMembers_omitEmpty_le isEmpty member)

end Json
