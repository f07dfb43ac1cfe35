import DBVault.Text.Encoding

/-! JSON text as Go's `encoding/json` reads and writes it. Reading is a
pushdown machine that takes one rune at a time, so that reading a rendered
value composes over concatenation; writing is the indented form of
`json.MarshalIndent(v, "", "  ")`. -/
namespace Json
open List Text

inductive NumberState where
  | start | minus | zero | digits | point | fraction | exponent | exponentSign | exponentDigits
  deriving DecidableEq

/-- One step of the JSON number grammar. -/
def NumberState.next : NumberState → Char → Option NumberState
  | .start, '-' => some .minus
  | .start, c | .minus, c => if c = '0' then some .zero else if c.isDigit then some .digits else none
  | .zero, c => if c = '.' then some .point else if c = 'e' ∨ c = 'E' then some .exponent else none
  | .digits, c =>
    if c.isDigit then some .digits else if c = '.' then some .point
    else if c = 'e' ∨ c = 'E' then some .exponent else none
  | .point, c => if c.isDigit then some .fraction else none
  | .fraction, c => if c.isDigit then some .fraction else if c = 'e' ∨ c = 'E' then some .exponent else none
  | .exponent, c =>
    if c = '+' ∨ c = '-' then some .exponentSign
    else if c.isDigit then some .exponentDigits else none
  | .exponentSign, c | .exponentDigits, c => if c.isDigit then some .exponentDigits else none

def NumberState.final : NumberState → Bool
  | .zero | .digits | .fraction | .exponentDigits => true
  | _ => false

def isNumber (chars : List Char) : Bool :=
  match chars.foldlM NumberState.next .start with
  | some state => state.final
  | none => false

/-- A number literal. It stays text until a Go field asks for a type. -/
structure Number where
  chars : List Char
  valid : isNumber chars = true
  deriving DecidableEq

def isNumberChar (c : Char) : Bool := c.isDigit || c == '-' || c == '+' || c == '.' || c == 'e' || c == 'E'

variable {state after : NumberState} {c : Char}

theorem isNumberChar_of_next (h : state.next c = some after) : isNumberChar c = true := by
  by_cases hDigit : c.isDigit = true
  · simp [isNumberChar, hDigit]
  · have hZero : c ≠ '0' := fun he => hDigit (he ▸ by decide)
    by_cases hMinus : c = '-'
    · simp [isNumberChar, hMinus]
    · cases state <;> simp [NumberState.next, hDigit, hZero, hMinus] at h <;>
        grind [isNumberChar]

variable {chars : List Char}

theorem isNumberChar_of_foldlM
    (h : chars.foldlM NumberState.next state = some after) : ∀ c ∈ chars, isNumberChar c = true := by
  induction chars generalizing state with
  | nil => simp
  | cons c rest ih =>
    simp only [foldlM_cons, Option.bind_eq_bind, Option.bind_eq_some_iff] at h
    obtain ⟨middle, hStep, hRest⟩ := h
    intro d hd
    rcases mem_cons.mp hd with rfl | hd
    · exact isNumberChar_of_next hStep
    · exact ih hRest d hd

theorem Number.isNumberChar_of_mem (n : Number) : ∀ c ∈ n.chars, isNumberChar c = true := by
  have hValid := n.valid
  unfold isNumber at hValid
  split at hValid
  · rename_i hRun
    exact isNumberChar_of_foldlM hRun
  · cases hValid

theorem Number.ne_nil (n : Number) : n.chars ≠ [] := by
  intro h
  have hValid := n.valid
  rw [h] at hValid
  exact absurd hValid (by decide)

theorem Number.head_starts {n : Number} {rest : List Char} (h : n.chars = c :: rest) :
    c = '-' ∨ c.isDigit = true := by
  have hValid := n.valid
  rw [h] at hValid
  by_contra hNot
  push Not at hNot
  have hZero : c ≠ '0' := fun he => hNot.2 (he ▸ by decide)
  have hDigit : c.isDigit = false := by simpa using hNot.2
  have hStep : NumberState.next .start c = none := by
    unfold NumberState.next
    split <;> simp_all
  simp [isNumber, hStep] at hValid

theorem foldlM_digits (h : ∀ c ∈ chars, c.isDigit = true) :
    chars.foldlM NumberState.next .digits = some .digits := by
  induction chars with
  | nil => rfl
  | cons c rest ih =>
    have hc := h c mem_cons_self
    simp [NumberState.next, hc, ih fun d hd => h d (mem_cons_of_mem _ hd)]

theorem toDigits_shape (n : Nat) :
    Nat.toDigits 10 n = ['0'] ∨ ∃ c rest, Nat.toDigits 10 n = c :: rest ∧ c ≠ '0' := by
  induction n using Nat.strong_induction_on with
  | _ n ih =>
    by_cases hSmall : n < 10
    · interval_cases n
      · left; decide
      all_goals right; exact ⟨_, _, rfl, by decide⟩
    · right
      have hStep : Nat.toDigits 10 n = Nat.toDigits 10 (n / 10) ++ [Nat.digitChar (n % 10)] :=
        Nat.toDigits_of_base_le (by omega) (by omega)
      rcases ih (n / 10) (by omega) with hZero | ⟨c, rest, hDigits, hc⟩
      · have hNonzero : n / 10 = 0 := by
          rw [← Nat.ofDigitChars_ten_toDigits (n := n / 10), hZero]
          rfl
        omega
      · exact ⟨c, rest ++ [Nat.digitChar (n % 10)], by rw [hStep, hDigits]; rfl, hc⟩

theorem foldlM_toDigits (hState : state = .start ∨ state = .minus) (n : Nat) :
    ∃ after, (Nat.toDigits 10 n).foldlM NumberState.next state = some after ∧ after.final = true := by
  have hDigits : ∀ c ∈ Nat.toDigits 10 n, c.isDigit = true := fun c hc => isDigit_of_mem hc
  rcases toDigits_shape n with hZero | ⟨c, rest, hShape, hc⟩
  · refine ⟨.zero, ?_, rfl⟩
    rcases hState with rfl | rfl <;> rw [hZero] <;> rfl
  · rw [hShape] at hDigits ⊢
    have hDigit := hDigits c mem_cons_self
    have hMinus : c ≠ '-' := fun he => absurd hDigit (by rw [he]; decide)
    refine ⟨.digits, ?_, rfl⟩
    rw [foldlM_cons]
    have hFirst : state.next c = some .digits := by
      rcases hState with rfl | rfl <;> simp [NumberState.next, hc, hDigit]
    rw [hFirst]
    exact foldlM_digits fun d hd => hDigits d (mem_cons_of_mem _ hd)

theorem isNumber_decimalChars (n : Int) : isNumber (decimalChars n) = true := by
  cases n with
  | ofNat n =>
    obtain ⟨after, hRun, hFinal⟩ := foldlM_toDigits (.inl rfl) n
    simp [isNumber, decimalChars, hRun, hFinal]
  | negSucc n =>
    obtain ⟨after, hRun, hFinal⟩ := foldlM_toDigits (.inr rfl) (n + 1)
    simp [isNumber, decimalChars, NumberState.next, hRun, hFinal]

def Number.ofInt (n : Int) : Number := ⟨decimalChars n, isNumber_decimalChars n⟩

inductive Value where
  | null
  | bool (b : Bool)
  | num (n : Number)
  | str (s : String)
  | arr (elements : List Value)
  | obj (members : List (String × Value))

/-- A piece of a string: a rune of the text or the code unit of a `\u` escape. -/
inductive Piece where
  | char (c : Char)
  | unit (code : Nat)

def isHighSurrogate (code : Nat) : Bool := 0xD800 ≤ code && code < 0xDC00

def isLowSurrogate (code : Nat) : Bool := 0xDC00 ≤ code && code < 0xE000

def unitChar (code : Nat) : Char := if isHighSurrogate code || isLowSurrogate code then '�' else Char.ofNat code

/-- Surrogate pairs become one rune; a surrogate without its partner is
replaced by U+FFFD. -/
def joinPieces : List Piece → List Char
  | [] => []
  | .char c :: rest => c :: joinPieces rest
  | .unit high :: .unit low :: rest =>
    if isHighSurrogate high && isLowSurrogate low then
      Char.ofNat (0x10000 + (high - 0xD800) * 0x400 + (low - 0xDC00)) :: joinPieces rest
    else unitChar high :: joinPieces (.unit low :: rest)
  | .unit code :: rest => unitChar code :: joinPieces rest

/-- A container part way through, latest entry first. An object also holds the
name of the member being read. -/
inductive Frame where
  | arr (done : List Value)
  | obj (done : List (String × Value)) (name : String)

/-- What the next rune may be. -/
inductive Mode where
  | value
  | valueOrClose
  | nameOrClose
  | name
  | colon
  | after
  | text (isName : Bool) (pieces : List Piece)
  | escape (isName : Bool) (pieces : List Piece)
  | unicode (isName : Bool) (pieces : List Piece) (left : Nat) (code : Nat)
  | number (chars : List Char)
  | word (left : List Char) (value : Value)
  | finished (value : Value)

structure State where
  stack : List Frame
  mode : Mode

def State.start : State := ⟨[], .value⟩

def isSpace (c : Char) : Bool := c == ' ' || c == '\t' || c == '\r' || c == '\n'

def maxNestingDepth : Nat := 10000

def deliver (v : Value) : List Frame → State
  | [] => ⟨[], .finished v⟩
  | .arr done :: below => ⟨.arr (v :: done) :: below, .after⟩
  | .obj done name :: below => ⟨.obj ((name, v) :: done) "" :: below, .after⟩

def deliverText (isName : Bool) (pieces : List Piece) (stack : List Frame) : Option State :=
  let text := String.ofList (joinPieces pieces.reverse)
  match isName, stack with
  | true, .obj done _ :: below => some ⟨.obj done text :: below, .colon⟩
  | true, _ => none
  | false, _ => some (deliver (.str text) stack)

def openFrame (frame : Frame) (stack : List Frame) (mode : Mode) : Option State :=
  if stack.length < maxNestingDepth then some ⟨frame :: stack, mode⟩ else none

/-- The first rune of a value. -/
def stepValue (stack : List Frame) (c : Char) : Option State :=
  if c = '\x7b' then openFrame (.obj [] "") stack .nameOrClose
  else if c = '[' then openFrame (.arr []) stack .valueOrClose
  else if c = '"' then some ⟨stack, .text false []⟩
  else if c = '-' || c.isDigit then some ⟨stack, .number [c]⟩
  else if c = 't' then some ⟨stack, .word ['r', 'u', 'e'] (.bool true)⟩
  else if c = 'f' then some ⟨stack, .word ['a', 'l', 's', 'e'] (.bool false)⟩
  else if c = 'n' then some ⟨stack, .word ['u', 'l', 'l'] .null⟩
  else none

def closeFrame : List Frame → Char → Option State
  | .arr done :: below, c => if c = ']' then some (deliver (.arr done.reverse) below) else none
  | .obj done _ :: below, c => if c = '\x7d' then some (deliver (.obj done.reverse) below) else none
  | [], _ => none

/-- The first rune after a value. -/
def stepAfter (state : State) (c : Char) : Option State :=
  if isSpace c then some state
  else
    match state.mode, state.stack with
    | .after, .arr done :: below => if c = ',' then some ⟨.arr done :: below, .value⟩ else closeFrame state.stack c
    | .after, .obj done name :: below =>
      if c = ',' then some ⟨.obj done name :: below, .name⟩ else closeFrame state.stack c
    | _, _ => none

def escapeOf (c : Char) : Option Char :=
  if c = '"' ∨ c = '\\' ∨ c = '/' then some c
  else if c = 'b' then some '\x08'
  else if c = 'f' then some '\x0c'
  else if c = 'n' then some '\n'
  else if c = 'r' then some '\r'
  else if c = 't' then some '\t'
  else none

def hexValue (c : Char) : Option Nat :=
  if c.isDigit then some (c.toNat - 48)
  else if 'a' ≤ c ∧ c ≤ 'f' then some (c.toNat - 87)
  else if 'A' ≤ c ∧ c ≤ 'F' then some (c.toNat - 55)
  else none

def step (state : State) (c : Char) : Option State :=
  let stack := state.stack
  match state.mode with
  | .value => if isSpace c then some state else stepValue stack c
  | .valueOrClose =>
    if isSpace c then some state
    else if c = ']' then closeFrame stack c
    else stepValue stack c
  | .nameOrClose =>
    if isSpace c then some state
    else if c = '"' then some ⟨stack, .text true []⟩
    else closeFrame stack c
  | .name =>
    if isSpace c then some state
    else if c = '"' then some ⟨stack, .text true []⟩
    else none
  | .colon =>
    if isSpace c then some state
    else if c = ':' then some ⟨stack, .value⟩
    else none
  | .after | .finished _ => stepAfter state c
  | .text isName pieces =>
    if c = '"' then deliverText isName pieces stack
    else if c = '\\' then some ⟨stack, .escape isName pieces⟩
    else if c.toNat < 32 then none
    else some ⟨stack, .text isName (.char c :: pieces)⟩
  | .escape isName pieces =>
    if c = 'u' then some ⟨stack, .unicode isName pieces 4 0⟩
    else (escapeOf c).map fun d => ⟨stack, .text isName (.char d :: pieces)⟩
  | .unicode isName pieces left code =>
    (hexValue c).map fun digit =>
      if left ≤ 1 then ⟨stack, .text isName (.unit (16 * code + digit) :: pieces)⟩
      else ⟨stack, .unicode isName pieces (left - 1) (16 * code + digit)⟩
  | .number chars =>
    if isNumberChar c then some ⟨stack, .number (c :: chars)⟩
    else if h : isNumber chars.reverse = true then
      stepAfter (deliver (.num ⟨chars.reverse, h⟩) stack) c
    else none
  | .word left v =>
    match left with
    | d :: rest =>
      if c = d then
        some (if rest = [] then deliver v stack else ⟨stack, .word rest v⟩)
      else none
    | [] => none

def parse (chars : List Char) : Option Value :=
  match (chars ++ [' ']).foldlM step .start with
  | some ⟨[], .finished v⟩ => some v
  | _ => none

/-- Runes Go writes as `\u` escapes: control characters without a short form,
the HTML characters and the two line separators. -/
def needsUnicode (c : Char) : Bool :=
  (c.toNat < 32 && !(c == '\x08' || c == '\x0c' || c == '\n' || c == '\r' || c == '\t')) ||
    c == '<' || c == '>' || c == '&' || c.toNat == 0x2028 || c.toNat == 0x2029

def escapeChar (c : Char) : List Char :=
  if needsUnicode c then
    ['\\', 'u', hexDigit (c.toNat / 4096), hexDigit (c.toNat / 256 % 16),
      hexDigit (c.toNat / 16 % 16), hexDigit (c.toNat % 16)]
  else if c = '"' ∨ c = '\\' then ['\\', c]
  else if c = '\x08' then ['\\', 'b']
  else if c = '\x0c' then ['\\', 'f']
  else if c = '\n' then ['\\', 'n']
  else if c = '\r' then ['\\', 'r']
  else if c = '\t' then ['\\', 't']
  else [c]

def quote (s : String) : List Char := '"' :: (s.toList.flatMap escapeChar ++ ['"'])

def newline (depth : Nat) : List Char := '\n' :: List.replicate (2 * depth) ' '

mutual

/-- The indented form of a value that starts at nesting depth `depth`. -/
def render (depth : Nat) : Value → List Char
  | .null => ['n', 'u', 'l', 'l']
  | .bool true => ['t', 'r', 'u', 'e']
  | .bool false => ['f', 'a', 'l', 's', 'e']
  | .num n => n.chars
  | .str s => quote s
  | .arr [] => ['[', ']']
  | .arr (v :: rest) =>
    '[' :: (newline (depth + 1) ++ render (depth + 1) v ++ renderElements (depth + 1) rest ++
      newline depth ++ [']'])
  | .obj [] => ['\x7b', '\x7d']
  | .obj ((name, v) :: rest) =>
    '\x7b' :: (newline (depth + 1) ++ quote name ++ [':', ' '] ++ render (depth + 1) v ++
      renderMembers (depth + 1) rest ++ newline depth ++ ['\x7d'])

def renderElements (depth : Nat) : List Value → List Char
  | [] => []
  | v :: rest => ',' :: (newline depth ++ render depth v ++ renderElements depth rest)

def renderMembers (depth : Nat) : List (String × Value) → List Char
  | [] => []
  | (name, v) :: rest =>
    ',' :: (newline depth ++ quote name ++ [':', ' '] ++ render depth v ++ renderMembers depth rest)

end

mutual

def height : Value → Nat
  | .arr elements => 1 + heightElements elements
  | .obj members => 1 + heightMembers members
  | _ => 0

def heightElements : List Value → Nat
  | [] => 0
  | v :: rest => max (height v) (heightElements rest)

def heightMembers : List (String × Value) → Nat
  | [] => 0
  | (_, v) :: rest => max (height v) (heightMembers rest)

end

end Json
