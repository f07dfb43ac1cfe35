import DBVault.Json.Syntax

/-! Reading inverts writing: the machine that reads a rendered value arrives
where that value has been handed to its container. -/
namespace Json
open Option List Text

def run (state : State) (chars : List Char) : Option State := chars.foldlM step state

@[simp] theorem run_nil (state : State) : run state [] = some state := rfl

@[simp] theorem run_cons (state : State) (c : Char) (rest : List Char) :
    run state (c :: rest) = (step state c).bind fun next => run next rest := by
  simp [run]

theorem run_append (state : State) (first second : List Char) :
    run state (first ++ second) = (run state first).bind fun next => run next second := by
  simp [run, foldlM_append]

/-- A text that is read from `state` to `next` can be taken off the front. -/
theorem run_append_of {state next : State} {first : List Char} (h : run state first = some next)
    (second : List Char) : run state (first ++ second) = run next second := by
  rw [run_append, h]
  rfl

def Mode.skips : Mode → Bool
  | .value | .valueOrClose | .nameOrClose | .name | .colon | .after | .finished _ => true
  | _ => false

theorem step_space (hMode : state.mode.skips = true) (hc : isSpace c = true) : step state c = some state := by
  obtain ⟨stack, mode⟩ := state
  cases mode <;> simp [Mode.skips] at hMode <;> simp [step, stepAfter, hc]

theorem run_spaces (hMode : state.mode.skips = true) (n : Nat) :
    run state (List.replicate n ' ') = some state := by
  induction n with
  | zero => rfl
  | succ n ih =>
    rw [replicate_succ, run_cons, step_space hMode (by decide)]
    exact ih

theorem run_newline (hMode : state.mode.skips = true) (depth : Nat) : run state (newline depth) = some state := by
  rw [newline, run_cons, step_space hMode (by decide)]
  exact run_spaces hMode _

def pieceOf (c : Char) : Piece := if needsUnicode c then .unit c.toNat else .char c

theorem hexValue_hexDigit {n : Nat} (h : n < 16) : hexValue (hexDigit n) = some n := by interval_cases n <;> decide

theorem toNat_lt_of_needsUnicode (h : needsUnicode c = true) : c.toNat < 0xD800 := by
  simp only [needsUnicode, Bool.or_eq_true, Bool.and_eq_true, decide_eq_true_eq, beq_iff_eq] at h
  rcases h with ((((h | rfl) | rfl) | rfl) | h) | h
  · omega
  all_goals first | omega | decide

theorem run_escapeChar (stack : List Frame) (isName : Bool) (pieces : List Piece) (c : Char) :
    run ⟨stack, .text isName pieces⟩ (escapeChar c) = some ⟨stack, .text isName (pieceOf c :: pieces)⟩ := by
  by_cases hUnicode : needsUnicode c = true
  · have hSmall := toNat_lt_of_needsUnicode hUnicode
    have hCode : 16 * (16 * (16 * (c.toNat / 4096) + c.toNat / 256 % 16) + c.toNat / 16 % 16) +
        c.toNat % 16 = c.toNat := by omega
    simp [escapeChar, pieceOf, hUnicode, step, hexValue_hexDigit (n := c.toNat / 4096) (by omega),
      hexValue_hexDigit (n := c.toNat / 256 % 16) (by omega),
      hexValue_hexDigit (n := c.toNat / 16 % 16) (by omega),
      hexValue_hexDigit (n := c.toNat % 16) (by omega), hCode]
  · simp only [escapeChar, pieceOf, hUnicode, Bool.false_eq_true, if_false]
    split
    · rename_i h
      rcases h with rfl | rfl <;> simp [step, escapeOf]
    · rename_i hPlain
      push Not at hPlain
      split
      · simp_all [step, escapeOf]
      split
      · simp_all [step, escapeOf]
      split
      · simp_all [step, escapeOf]
      split
      · simp_all [step, escapeOf]
      split
      · simp_all [step, escapeOf]
      · have hPrintable : ¬ c.toNat < 32 := by
          intro hControl
          simp_all [needsUnicode]
        simp [step, hPlain.1, hPlain.2, hPrintable]

theorem run_escaped (stack : List Frame) (isName : Bool) (pieces : List Piece) (chars : List Char) :
    run ⟨stack, .text isName pieces⟩ (chars.flatMap escapeChar) =
      some ⟨stack, .text isName ((chars.map pieceOf).reverse ++ pieces)⟩ := by
  induction chars generalizing pieces with
  | nil => rfl
  | cons c rest ih =>
    rw [flatMap_cons, run_append_of (run_escapeChar stack isName pieces c), ih]
    simp

theorem joinPieces_pieceOf (chars : List Char) : joinPieces (chars.map pieceOf) = chars := by
  induction chars with
  | nil => rfl
  | cons c rest ih =>
    rw [map_cons]
    by_cases hUnicode : needsUnicode c = true
    · have hSmall := toNat_lt_of_needsUnicode hUnicode
      have hHigh : isHighSurrogate c.toNat = false := by
        simp only [isHighSurrogate, Bool.and_eq_false_iff, decide_eq_false_iff_not]
        omega
      have hLow : isLowSurrogate c.toNat = false := by
        simp only [isLowSurrogate, Bool.and_eq_false_iff, decide_eq_false_iff_not]
        omega
      have hChar : unitChar c.toNat = c := by simp [unitChar, hHigh, hLow]
      have hPiece : pieceOf c = .unit c.toNat := by simp [pieceOf, hUnicode]
      -- the escape is no surrogate, so the piece after it does not matter
      rw [hPiece]
      cases hRest : rest.map pieceOf with
      | nil =>
        rw [hRest] at ih
        simp [joinPieces, hChar, ← ih]
      | cons piece others =>
        rw [hRest] at ih
        cases piece with
        | char d => simp [joinPieces, hChar, ← ih]
        | unit code => rw [joinPieces]; simp [hHigh, hChar, ih]
    · simp [pieceOf, hUnicode, joinPieces, ih]

theorem run_quote_text (stack : List Frame) (isName : Bool) (s : String) :
    run ⟨stack, .text isName []⟩ (s.toList.flatMap escapeChar ++ ['"']) =
      match isName, stack with
      | true, .obj done _ :: below => some ⟨.obj done s :: below, .colon⟩
      | true, _ => none
      | false, _ => some (deliver (.str s) stack) := by
  rw [run_append_of (run_escaped stack isName [] s.toList)]
  simp only [run_cons, step, run_nil, deliverText, append_nil, reverse_reverse,
    joinPieces_pieceOf, String.ofList_toList, if_true]
  cases isName with
  | false => rfl
  | true =>
    cases stack with
    | nil => rfl
    | cons frame below => cases frame <;> rfl

theorem run_quote_value (stack : List Frame) (s : String) :
    run ⟨stack, .value⟩ (quote s) = some (deliver (.str s) stack) := by
  have hOpen : step ⟨stack, .value⟩ '"' = some ⟨stack, .text false []⟩ := by simp [step, isSpace, stepValue]
  rw [quote, run_cons, hOpen]
  exact run_quote_text stack false s

theorem run_quote_name (hMode : mode = .name ∨ mode = .nameOrClose)
    (done : List (String × Value)) (old : String) (below : List Frame) (s : String) :
    run ⟨.obj done old :: below, mode⟩ (quote s) = some ⟨.obj done s :: below, .colon⟩ := by
  have hOpen : step ⟨.obj done old :: below, mode⟩ '"' = some ⟨.obj done old :: below, .text true []⟩ := by
    rcases hMode with rfl | rfl <;> simp [step, isSpace]
  rw [quote, run_cons, hOpen]
  exact run_quote_text (.obj done old :: below) true s

theorem deliver_arr (v : Value) (done : List Value) (below : List Frame) :
    deliver v (.arr done :: below) = ⟨.arr (v :: done) :: below, .after⟩ := rfl

theorem deliver_obj (v : Value) (done : List (String × Value)) (name : String) (below : List Frame) :
    deliver v (.obj done name :: below) = ⟨.obj ((name, v) :: done) "" :: below, .after⟩ := rfl

theorem step_deliver (v : Value) (stack : List Frame) (c : Char) :
    step (deliver v stack) c = stepAfter (deliver v stack) c := by
  cases stack with
  | nil => rfl
  | cons frame below => cases frame <;> rfl

theorem run_numberChars (stack : List Frame) (read : List Char) (h : ∀ c ∈ chars, isNumberChar c = true) :
    run ⟨stack, .number read⟩ chars = some ⟨stack, .number (chars.reverse ++ read)⟩ := by
  induction chars generalizing read with
  | nil => rfl
  | cons c rest ih =>
    have hStep : step ⟨stack, .number read⟩ c = some ⟨stack, .number (c :: read)⟩ := by
      simp [step, h c mem_cons_self]
    rw [run_cons, hStep, bind_some, ih _ fun d hd => h d (mem_cons_of_mem _ hd)]
    simp

theorem run_number (stack : List Frame) (n : Number) (hc : isNumberChar c = false) (rest : List Char) :
    run ⟨stack, .value⟩ (n.chars ++ c :: rest) = run (deliver (.num n) stack) (c :: rest) := by
  obtain ⟨first, others, hChars⟩ := exists_cons_of_ne_nil n.ne_nil
  have hNumber := n.isNumberChar_of_mem
  rw [hChars] at hNumber
  have hFirst : step ⟨stack, .value⟩ first = some ⟨stack, .number [first]⟩ := by
    rcases n.head_starts hChars with rfl | hDigit
    · simp [step, isSpace, stepValue]
    · have hNe : ∀ d : Char, d.isDigit = false → first ≠ d := by
        intro d hd he
        rw [he, hd] at hDigit
        cases hDigit
      simp [step, isSpace, stepValue, hDigit, hNe ' ' (by decide), hNe '\t' (by decide),
        hNe '\r' (by decide), hNe '\n' (by decide), hNe '\x7b' (by decide), hNe '[' (by decide),
        hNe '"' (by decide)]
  have hEnd : step ⟨stack, .number (others.reverse ++ [first])⟩ c = step (deliver (.num n) stack) c := by
    have hRead : (others.reverse ++ [first]).reverse = n.chars := by simp [hChars]
    rw [step_deliver]
    simp only [step, hc, hRead, n.valid, Bool.false_eq_true, if_false, dite_true]
  rw [hChars, cons_append, run_cons, hFirst, bind_some,
    run_append_of (run_numberChars stack [first] fun d hd => hNumber d (mem_cons_of_mem _ hd)),
    run_cons, hEnd, ← run_cons]

theorem render_head (depth : Nat) (v : Value) :
    ∃ c rest, render depth v = c :: rest ∧ isSpace c = false ∧ c ≠ ']' := by
  cases v with
  | null => exact ⟨'n', _, by rw [render], by decide, by decide⟩
  | bool b => cases b <;> exact ⟨_, _, by rw [render], by decide, by decide⟩
  | num n =>
    obtain ⟨c, rest, hChars⟩ := exists_cons_of_ne_nil n.ne_nil
    refine ⟨c, rest, by rw [render, hChars], ?_, ?_⟩
    · rcases n.head_starts hChars with rfl | hDigit
      · decide
      · by_contra hSpace
        simp only [isSpace, Bool.not_eq_false, Bool.or_eq_true, beq_iff_eq] at hSpace
        rcases hSpace with ((rfl | rfl) | rfl) | rfl <;> exact absurd hDigit (by decide)
    · rintro rfl
      rcases n.head_starts hChars with h | h <;> exact absurd h (by decide)
  | str s => exact ⟨'"', _, by rw [render, quote], by decide, by decide⟩
  | arr elements => cases elements <;> exact ⟨'[', _, by rw [render], by decide, by decide⟩
  | obj members => cases members <;> exact ⟨'\x7b', _, by rw [render], by decide, by decide⟩

theorem run_valueOrClose (stack : List Frame) (depth : Nat) (v : Value) (rest : List Char) :
    run ⟨stack, .valueOrClose⟩ (render depth v ++ rest) = run ⟨stack, .value⟩ (render depth v ++ rest) := by
  obtain ⟨c, others, hRender, hSpace, hClose⟩ := render_head depth v
  rw [hRender]
  simp [step, hSpace, hClose]

theorem renderElements_delimited (depth : Nat) (elements : List Value)
    (hc : isNumberChar c = false) (rest : List Char) :
    ∃ d others, renderElements depth elements ++ c :: rest = d :: others ∧ isNumberChar d = false := by
  cases elements with
  | nil => exact ⟨c, rest, rfl, hc⟩
  | cons v others => exact ⟨',', _, rfl, by decide⟩

theorem renderMembers_delimited (depth : Nat) (members : List (String × Value))
    (hc : isNumberChar c = false) (rest : List Char) :
    ∃ d others, renderMembers depth members ++ c :: rest = d :: others ∧ isNumberChar d = false := by
  cases members with
  | nil => exact ⟨c, rest, rfl, hc⟩
  | cons member others => exact ⟨',', _, rfl, by decide⟩

theorem run_open
    (hDepth : stack.length < maxNestingDepth)
    (hOpen : c = '[' ∧ frame = .arr [] ∧ mode = .valueOrClose ∨
      c = '\x7b' ∧ frame = .obj [] "" ∧ mode = .nameOrClose) (rest : List Char) :
    run ⟨stack, .value⟩ (c :: rest) = run ⟨frame :: stack, mode⟩ rest := by
  rcases hOpen with ⟨rfl, rfl, rfl⟩ | ⟨rfl, rfl, rfl⟩ <;>
    simp [step, isSpace, stepValue, openFrame, hDepth]

theorem run_close_arr (done : List Value) (below : List Frame) (depth : Nat) (rest : List Char) :
    run ⟨.arr done :: below, .after⟩ (newline depth ++ [']'] ++ rest) =
      run (deliver (.arr done.reverse) below) rest := by
  rw [append_assoc, run_append_of (run_newline rfl depth)]
  simp [step, stepAfter, isSpace, closeFrame]

theorem run_close_obj (done : List (String × Value)) (name : String) (below : List Frame)
    (depth : Nat) (rest : List Char) :
    run ⟨.obj done name :: below, .after⟩ (newline depth ++ ['\x7d'] ++ rest) =
      run (deliver (.obj done.reverse) below) rest := by
  rw [append_assoc, run_append_of (run_newline rfl depth)]
  simp [step, stepAfter, isSpace, closeFrame]

theorem run_member (hMode : mode = .name ∨ mode = .nameOrClose) (done : List (String × Value))
    (old name : String) (below : List Frame) (depth : Nat) (rest : List Char) :
    run ⟨.obj done old :: below, mode⟩ (newline depth ++ quote name ++ [':', ' '] ++ rest) =
      run ⟨.obj done name :: below, .value⟩ rest := by
  have hSkips : (State.mode ⟨.obj done old :: below, mode⟩).skips = true := by rcases hMode with rfl | rfl <;> rfl
  rw [append_assoc, append_assoc, run_append_of (run_newline hSkips depth),
    run_append_of (run_quote_name hMode done old below name)]
  simp [step, isSpace]

mutual

/-- Reading a rendered value up to the rune after it hands that value over.
The induction is on the value; the containers around it stay on the stack. -/
theorem run_render : (v : Value) → (depth : Nat) → (stack : List Frame) →
    stack.length + height v ≤ maxNestingDepth → ∀ {c : Char}, isNumberChar c = false →
    ∀ rest, run ⟨stack, .value⟩ (render depth v ++ c :: rest) = run (deliver v stack) (c :: rest)
  | .null, depth, stack, _, c, _, rest => by
      rw [render]
      simp [step, isSpace, stepValue]
  | .bool true, depth, stack, _, c, _, rest => by
      rw [render]
      simp [step, isSpace, stepValue]
  | .bool false, depth, stack, _, c, _, rest => by
      rw [render]
      simp [step, isSpace, stepValue]
  | .num n, depth, stack, _, c, hc, rest => by
      rw [render]
      exact run_number stack n hc rest
  | .str s, depth, stack, _, c, _, rest => by
      rw [render]
      exact run_append_of (run_quote_value stack s) _
  | .arr [], depth, stack, hDepth, c, _, rest => by
      rw [render, cons_append, run_open (by simp [height] at hDepth; omega) (.inl ⟨rfl, rfl, rfl⟩)]
      simp [step, isSpace, closeFrame]
  | .arr (v :: others), depth, stack, hDepth, c, hc, rest => by
      simp only [height, heightElements] at hDepth
      obtain ⟨d, tail, hTail, hd⟩ := renderElements_delimited (depth + 1) others
        (c := '\n') (by decide) (List.replicate (2 * depth) ' ' ++ [']'] ++ c :: rest)
      have hFirst := run_render v (depth + 1) (.arr [] :: stack) (by simp only [length_cons]; omega) hd tail
      have hOthers := run_renderElements others (depth + 1) [v] stack
        (by omega) (c := '\n') (by decide) (List.replicate (2 * depth) ' ' ++ [']'] ++ c :: rest)
      have hClose := run_close_arr (others.reverse ++ [v]) stack depth (c :: rest)
      rw [render, cons_append, run_open (by omega) (.inl ⟨rfl, rfl, rfl⟩)]
      simp only [append_assoc]
      rw [run_append_of (run_newline rfl (depth + 1)), run_valueOrClose]
      simp only [newline, append_assoc, cons_append] at hTail hFirst hOthers hClose ⊢
      rw [hTail, hFirst, ← hTail, deliver_arr, hOthers, hClose]
      simp
  | .obj [], depth, stack, hDepth, c, _, rest => by
      rw [render, cons_append, run_open (by simp [height] at hDepth; omega) (.inr ⟨rfl, rfl, rfl⟩)]
      simp [step, isSpace, closeFrame]
  | .obj ((name, v) :: others), depth, stack, hDepth, c, hc, rest => by
      simp only [height, heightMembers] at hDepth
      obtain ⟨d, tail, hTail, hd⟩ := renderMembers_delimited (depth + 1) others
        (c := '\n') (by decide) (List.replicate (2 * depth) ' ' ++ ['\x7d'] ++ c :: rest)
      have hFirst := run_render v (depth + 1) (.obj [] name :: stack) (by simp only [length_cons]; omega) hd tail
      have hOthers := run_renderMembers others (depth + 1) [(name, v)] "" stack
        (by omega) (c := '\n') (by decide) (List.replicate (2 * depth) ' ' ++ ['\x7d'] ++ c :: rest)
      have hMember := run_member (.inr rfl) [] "" name stack (depth + 1)
      rw [render, cons_append, run_open (by omega) (.inr ⟨rfl, rfl, rfl⟩)]
      simp only [append_assoc] at hMember ⊢
      rw [hMember]
      obtain ⟨last, hOthers⟩ := hOthers
      have hClose := run_close_obj (others.reverse ++ [(name, v)]) last stack depth (c :: rest)
      simp only [newline, append_assoc, cons_append] at hTail hFirst hOthers hClose ⊢
      rw [hTail, hFirst, ← hTail, deliver_obj, hOthers, hClose]
      simp

theorem run_renderElements : (elements : List Value) → (depth : Nat) → (done : List Value) →
    (below : List Frame) → below.length + 1 + heightElements elements ≤ maxNestingDepth →
    ∀ {c : Char}, isNumberChar c = false → ∀ rest,
    run ⟨.arr done :: below, .after⟩ (renderElements depth elements ++ c :: rest) =
      run ⟨.arr (elements.reverse ++ done) :: below, .after⟩ (c :: rest)
  | [], depth, done, below, _, c, _, rest => by simp [renderElements]
  | v :: others, depth, done, below, hDepth, c, hc, rest => by
      simp only [heightElements] at hDepth
      obtain ⟨d, tail, hTail, hd⟩ := renderElements_delimited depth others hc rest
      have hFirst := run_render v depth (.arr done :: below) (by simp only [length_cons]; omega) hd tail
      have hOthers := run_renderElements others depth (v :: done) below (by omega) hc rest
      have hComma : step ⟨.arr done :: below, .after⟩ ',' = some ⟨.arr done :: below, .value⟩ := by
        simp [step, stepAfter, isSpace]
      rw [renderElements, cons_append, run_cons, hComma, bind_some]
      simp only [append_assoc]
      rw [run_append_of (run_newline rfl depth), hTail, hFirst, ← hTail, deliver_arr, hOthers]
      simp

theorem run_renderMembers : (members : List (String × Value)) → (depth : Nat) →
    (done : List (String × Value)) → (old : String) → (below : List Frame) →
    below.length + 1 + heightMembers members ≤ maxNestingDepth →
    ∀ {c : Char}, isNumberChar c = false → ∀ rest, ∃ last,
    run ⟨.obj done old :: below, .after⟩ (renderMembers depth members ++ c :: rest) =
      run ⟨.obj (members.reverse ++ done) last :: below, .after⟩ (c :: rest)
  | [], depth, done, old, below, _, c, _, rest => ⟨old, by simp [renderMembers]⟩
  | (name, v) :: others, depth, done, old, below, hDepth, c, hc, rest => by
      simp only [heightMembers] at hDepth
      obtain ⟨d, tail, hTail, hd⟩ := renderMembers_delimited depth others hc rest
      have hFirst := run_render v depth (.obj done name :: below) (by simp only [length_cons]; omega) hd tail
      obtain ⟨last, hOthers⟩ := run_renderMembers others depth ((name, v) :: done) "" below (by omega) hc rest
      have hComma : step ⟨.obj done old :: below, .after⟩ ',' = some ⟨.obj done old :: below, .name⟩ := by
        simp [step, stepAfter, isSpace]
      have hMember := run_member (.inl rfl) done old name below depth
      refine ⟨last, ?_⟩
      rw [renderMembers, cons_append, run_cons, hComma, bind_some]
      simp only [append_assoc] at hMember ⊢
      rw [hMember, hTail, hFirst, ← hTail, deliver_obj, hOthers]
      simp

end

theorem parse_render (v : Value) (h : height v ≤ maxNestingDepth) : parse (render 0 v) = some v := by
  have hRun := run_render v 0 [] (by simpa using h) (c := ' ') (by decide) []
  simp only [run] at hRun
  rw [parse, State.start, hRun]
  simp [deliver, step, stepAfter, isSpace]

end Json
