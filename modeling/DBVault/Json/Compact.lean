import DBVault.Json.RoundTrip

/-! The form of a value without blanks, as `json.Marshal` writes it. -/
namespace Json
open Text

mutual

def compact : Value → List Char
  | .null => ['n', 'u', 'l', 'l']
  | .bool true => ['t', 'r', 'u', 'e']
  | .bool false => ['f', 'a', 'l', 's', 'e']
  | .num n => n.chars
  | .str s => quote s
  | .arr [] => ['[', ']']
  | .arr (v :: rest) => '[' :: (compact v ++ (compactElements rest ++ [']']))
  | .obj [] => ['\x7b', '\x7d']
  | .obj ((name, v) :: rest) => '\x7b' :: (quote name ++ ':' :: (compact v ++ (compactMembers rest ++ ['\x7d'])))

def compactElements : List Value → List Char
  | [] => []
  | v :: rest => ',' :: (compact v ++ compactElements rest)

def compactMembers : List (String × Value) → List Char
  | [] => []
  | (name, v) :: rest => ',' :: (quote name ++ ':' :: (compact v ++ compactMembers rest))

end

def marshal (v : Value) : Bytes := encodeRunes (compact v)

/-- Reading the form of a value hands the value over, whatever follows. -/
def Delimited (depth : Nat) (v : Value) : Prop :=
  ∀ stack rest, stack.length + depth ≤ maxNestingDepth →
    run ⟨stack, .value⟩ (compact v ++ rest) = run (deliver v stack) rest

theorem delimited_str (depth : Nat) (s : String) : Delimited depth (.str s) := by
  intro stack rest _
  rw [compact]
  exact run_append_of (run_quote_value stack s) rest

theorem run_colon (done : List (String × Value)) (name : String) (below : List Frame) (rest : List Char) :
    run ⟨.obj done name :: below, .colon⟩ (':' :: rest) = run ⟨.obj done name :: below, .value⟩ rest := by
  simp [step, isSpace]

theorem run_compactMembers {depth : Nat} (below : List Frame) (hDepth : below.length + 1 + depth ≤ maxNestingDepth)
    (rest : List Char) (members done : List (String × Value)) (old : String)
    (h : ∀ member ∈ members, Delimited depth member.2) :
    run ⟨.obj done old :: below, .after⟩ (compactMembers members ++ '\x7d' :: rest) =
      run (deliver (.obj (done.reverse ++ members)) below) rest := by
  induction members generalizing done old with
  | nil => simp [compactMembers, step, stepAfter, isSpace, closeFrame]
  | cons member others ih =>
    obtain ⟨name, v⟩ := member
    have hComma : step ⟨.obj done old :: below, .after⟩ ',' = some ⟨.obj done old :: below, .name⟩ := by
      simp [step, stepAfter, isSpace]
    have hValue := h (name, v) List.mem_cons_self (.obj done name :: below)
    rw [compactMembers, List.cons_append, run_cons, hComma, Option.bind_some]
    simp only [List.append_assoc, List.cons_append]
    rw [run_append_of (run_quote_name (.inl rfl) done old below name), run_colon, hValue _ (by simpa using hDepth),
      deliver_obj, ih _ _ fun m hm => h m (List.mem_cons_of_mem _ hm)]
    simp

theorem delimited_obj {depth : Nat} {members : List (String × Value)}
    (h : ∀ member ∈ members, Delimited depth member.2) : Delimited (depth + 1) (.obj members) := by
  intro stack rest hDepth
  cases members with
  | nil =>
    rw [compact, List.cons_append, run_open (by omega) (.inr ⟨rfl, rfl, rfl⟩)]
    simp [step, isSpace, closeFrame]
  | cons member others =>
    obtain ⟨name, v⟩ := member
    have hValue := h (name, v) List.mem_cons_self (.obj [] name :: stack)
    have hOthers := run_compactMembers stack (by omega) rest others [(name, v)] ""
      fun m hm => h m (List.mem_cons_of_mem _ hm)
    rw [compact, List.cons_append, run_open (by omega) (.inr ⟨rfl, rfl, rfl⟩)]
    simp only [List.append_assoc, List.cons_append, List.nil_append]
    rw [run_append_of (run_quote_name (.inr rfl) [] "" stack name), run_colon,
      hValue _ (by simp only [List.length_cons]; omega), deliver_obj, hOthers]
    rfl

theorem parse_compact {v : Value} (h : Delimited 2 v) : parse (compact v) = some v := by
  have hRun := h [] [' '] (by decide)
  simp only [run] at hRun
  rw [parse, State.start, hRun]
  simp [deliver, step, stepAfter, isSpace]

theorem marshal_inj {v w : Value} (hv : Delimited 2 v) (hw : Delimited 2 w) (h : marshal v = marshal w) :
    v = w := by
  have hChars : compact v = compact w := encodeRunes_injective h
  apply Option.some.inj
  rw [← parse_compact hv, hChars, parse_compact hw]

theorem marshal_obj_ne_nil (members : List (String × Value)) : marshal (.obj members) ≠ [] := by
  intro h
  have hChars : compact (.obj members) = [] := encodeRunes_injective (h.trans rfl)
  cases members <;> simp [compact] at hChars

end Json
