import Mathlib.Data.List.Basic
import Mathlib.Data.Option.Basic

/-! GRANT and REVOKE statements of SQL: their text with every name delimited by quotation
marks, the reading of a script back into statements, and what running it does to who holds
which privilege. -/
namespace Sql
open Option List

abbrev Name := {chars : List Char // chars ≠ []}

inductive Access where
  | select | usage
  deriving DecidableEq

inductive Target where
  | schema (name : Name)
  | relation (qualifiers : List Name) (name : Name)
  deriving DecidableEq

inductive Verb where
  | grant | revoke
  deriving DecidableEq

structure Statement where
  verb : Verb
  access : Access
  /-- The further privileges of the list. -/
  more : List Access
  target : Target
  role : Name
  deriving DecidableEq

def Statement.accesses (s : Statement) : List Access := s.access :: s.more

def double (chars : List Char) : List Char := chars.flatMap fun c => if c = '"' then ['"', '"'] else [c]

theorem mem_double : c ∈ double chars ↔ c ∈ chars := by
  simp only [double, mem_flatMap]
  constructor
  · rintro ⟨d, hd, hIn⟩
    split at hIn <;> simp_all
  · intro hIn
    refine ⟨c, hIn, ?_⟩
    split <;> simp_all

def quote (chars : List Char) : List Char := '"' :: (double chars ++ ['"'])

def Access.text : Access → List Char
  | .select => "SELECT".toList
  | .usage => "USAGE".toList

theorem Access.text_select : Access.select.text = "SELECT".toList := rfl

theorem Access.text_usage : Access.usage.text = "USAGE".toList := rfl

def Target.text : Target → List Char
  | .schema name => "SCHEMA ".toList ++ quote name.1
  | .relation qualifiers name => qualifiers.flatMap (fun q => quote q.1 ++ ['.']) ++ quote name.1

theorem Target.text_schema (n : Name) : (Target.schema n).text = "SCHEMA ".toList ++ quote n.1 := rfl

theorem Target.text_relation (qualifiers : List Name) (name : Name) :
    (Target.relation qualifiers name).text =
      qualifiers.flatMap (fun q => quote q.1 ++ ['.']) ++ quote name.1 := rfl

def Statement.text (s : Statement) : List Char :=
  (match s.verb with
    | .grant => "GRANT ".toList
    | .revoke => "REVOKE ".toList) ++
  s.access.text ++ s.more.flatMap (fun a => ", ".toList ++ a.text) ++
  " ON ".toList ++ s.target.text ++
  (match s.verb with
    | .grant => " TO ".toList
    | .revoke => " FROM ".toList) ++
  quote s.role.1

inductive Token where
  | name (n : Name)
  | access (a : Access)
  | verb (v : Verb)
  | on | schema | to | origin
  | comma | dot | semicolon
  deriving DecidableEq

def keywords : List (List Char × Token) :=
  [("SELECT".toList, .access .select), ("USAGE".toList, .access .usage),
    ("GRANT".toList, .verb .grant), ("REVOKE".toList, .verb .revoke), ("ON".toList, .on),
    ("SCHEMA".toList, .schema), ("TO".toList, .to), ("FROM".toList, .origin)]

/-- What has been read of the token at hand, its last character first. -/
inductive Mode where
  | between
  | word (read : List Char)
  | quoted (read : List Char)
  /-- After a quotation mark that closes the name, unless another one follows. -/
  | closing (read : List Char)
  deriving DecidableEq

def Mode.close : Mode → Option (List Token)
  | .between => some []
  | .word read => (keywords.lookup (read.reverse.map Char.toUpper)).map fun token => [token]
  | .quoted _ => none
  | .closing read => if h : read.reverse ≠ [] then some [.name ⟨read.reverse, h⟩] else none

def begin (c : Char) : Option (List Token × Mode) :=
  if c = '"' then some ([], .quoted [])
  else if c = ' ' ∨ c = '\n' then some ([], .between)
  else if c = ',' then some ([.comma], .between)
  else if c = '.' then some ([.dot], .between)
  else if c = ';' then some ([.semicolon], .between)
  else if c.isAlpha then some ([], .word [c])
  else none

def Mode.step : Mode → Char → Option (List Token × Mode)
  | .quoted read, c => if c = '"' then some ([], .closing read) else some ([], .quoted (c :: read))
  | .closing read, c =>
    if c = '"' then some ([], .quoted (c :: read))
    else do
      let token ← Mode.close (.closing read)
      let (tokens, next) ← begin c
      some (token ++ tokens, next)
  | .word read, c =>
    if c.isAlpha then some ([], .word (c :: read))
    else do
      let token ← Mode.close (.word read)
      let (tokens, next) ← begin c
      some (token ++ tokens, next)
  | .between, c => begin c

/-- The tokens that end within the text, and what is left of the last one. -/
def scan : Mode → List Char → Option (List Token × Mode)
  | mode, [] => some ([], mode)
  | mode, c :: rest => do
    let (tokens, next) ← mode.step c
    let (others, last) ← scan next rest
    some (tokens ++ others, last)

def lex (text : List Char) : Option (List Token) := do
  let (tokens, last) ← scan .between text
  let token ← last.close
  some (tokens ++ token)

def readAccesses : List Token → Option (Access × List Access × List Token)
  | .access a :: .on :: rest => some (a, [], rest)
  | .access a :: .comma :: rest => (readAccesses rest).map fun (b, more, rest) => (a, b :: more, rest)
  | _ => none

def readRelation : List Token → Option (List Name × Name × List Token)
  | .name q :: .dot :: rest =>
    (readRelation rest).map fun (qualifiers, name, rest) => (q :: qualifiers, name, rest)
  | .name n :: rest => some ([], n, rest)
  | _ => none

def readTarget : List Token → Option (Target × List Token)
  | .schema :: .name n :: rest => some (.schema n, rest)
  | tokens => (readRelation tokens).map fun (qualifiers, name, rest) => (.relation qualifiers name, rest)

def readRole : Verb → List Token → Option Name
  | .grant, [.to, .name role] => some role
  | .revoke, [.origin, .name role] => some role
  | _, _ => none

def readStatement : List Token → Option Statement
  | .verb verb :: rest => do
    let (access, more, rest) ← readAccesses rest
    let (target, rest) ← readTarget rest
    let role ← readRole verb rest
    some ⟨verb, access, more, target, role⟩
  | _ => none

def readScript (text : List Char) : Option (List Statement) := do
  let tokens ← lex text
  ((tokens.splitOn .semicolon).filter (· ≠ [])).mapM readStatement

/-- `;` and a new line between the statements, and `;` at the end. -/
def script (texts : List (List Char)) : List Char := ";\n".toList.intercalate texts ++ [';']

variable {last : Mode}

theorem scan_append {mode next : Mode} {front back : List Char} {tokens others : List Token}
    (hFront : scan mode front = some (tokens, next)) (hBack : scan next back = some (others, last)) :
    scan mode (front ++ back) = some (tokens ++ others, last) := by
  induction front generalizing mode tokens with
  | nil =>
    obtain ⟨rfl, rfl⟩ : tokens = [] ∧ next = mode := by simpa [scan, eq_comm] using hFront
    simpa using hBack
  | cons c rest ih =>
    simp only [scan, bind_eq_bind, bind_eq_some_iff, Prod.exists] at hFront
    obtain ⟨first, middle, hStep, more, end', hRest, hSame⟩ := hFront
    obtain ⟨rfl, rfl⟩ : first ++ more = tokens ∧ end' = next := by simpa using hSame
    simp [scan, hStep, ih hRest]

theorem scan_double (chars read : List Char) :
    scan (.quoted read) (double chars) = some ([], .quoted (chars.reverse ++ read)) := by
  induction chars generalizing read with
  | nil => rfl
  | cons c rest ih =>
    by_cases hQuote : c = '"'
    · simp [double, scan, Mode.step, hQuote] at ih ⊢
      simp [ih]
    · simp [double, scan, Mode.step, hQuote] at ih ⊢
      simp [ih]

theorem scan_quote (chars : List Char) : scan .between (quote chars) = some ([], .closing chars.reverse) := by
  have hOpen : scan .between ['"'] = some ([], .quoted []) := by decide +kernel
  have hClose : scan (.quoted (chars.reverse ++ [])) ['"'] = some ([], .closing chars.reverse) := by
    simp [scan, Mode.step]
  exact scan_append hOpen (scan_append (scan_double chars []) hClose)

variable {c : Char}

theorem scan_name {n : Name} {rest : List Char} {tokens : List Token}
    (hQuote : c ≠ '"') (hRest : scan .between (c :: rest) = some (tokens, last)) :
    scan .between (quote n.1 ++ c :: rest) = some (.name n :: tokens, last) := by
  have hClosing : scan (.closing n.1.reverse) (c :: rest) = some (.name n :: tokens, last) := by
    simp only [scan, Mode.step, bind_eq_bind, bind_eq_some_iff, Prod.exists] at hRest ⊢
    obtain ⟨first, next, hBegin, others, end', hOthers, hSame⟩ := hRest
    obtain ⟨rfl, rfl⟩ : first ++ others = tokens ∧ end' = last := by simpa using hSame
    refine ⟨.name n :: first, next, ?_, others, end', hOthers, rfl⟩
    simp [hQuote, Mode.close, n.2, hBegin]
  simpa using scan_append (scan_quote n.1) hClosing

def Target.tokens : Target → List Token
  | .schema n => [.schema, .name n]
  | .relation qualifiers name => qualifiers.flatMap (fun q => [.name q, .dot]) ++ [.name name]

def Statement.tokens (s : Statement) : List Token :=
  .verb s.verb :: .access s.access :: s.more.flatMap (fun a => [.comma, .access a]) ++
    .on :: s.target.tokens ++
    (match s.verb with
      | .grant => [.to]
      | .revoke => [.origin]) ++
    [.name s.role]

theorem Target.text_intercalate (qualifiers : List Name) (name : Name) :
    (Target.relation qualifiers name).text =
      ['.'].intercalate ((qualifiers ++ [name]).map fun n => quote n.1) := by
  induction qualifiers with
  | nil => simp [Target.text_relation, List.intercalate]
  | cons q others ih =>
    have hRest : ((others ++ [name]).map fun n : Name => quote n.1) ≠ [] := by simp
    obtain ⟨first, rest, hFirst⟩ := exists_cons_of_ne_nil hRest
    rw [Target.text_relation] at ih ⊢
    rw [cons_append, map_cons, hFirst, intercalate_cons_cons, ← hFirst, ← ih]
    simp

theorem Target.text_ne_nil (t : Target) : t.text ≠ [] := by
  cases t with
  | schema n => simp [Target.text_schema]
  | relation qualifiers name => simp [Target.text_relation, quote]

theorem scan_target (target : Target) {rest : List Char} {tokens : List Token} (hQuote : c ≠ '"') (hRest : scan .between (c :: rest) = some (tokens, last)) :
    scan .between (target.text ++ c :: rest) = some (target.tokens ++ tokens, last) := by
  cases target with
  | schema n =>
    have hWord : scan .between "SCHEMA ".toList = some ([.schema], .between) := by decide +kernel
    have hName := scan_append hWord (scan_name (n := n) hQuote hRest)
    rw [Target.text_schema, append_assoc]
    exact hName
  | relation qualifiers name =>
    induction qualifiers with
    | nil => simpa [Target.text_relation, Target.tokens] using scan_name hQuote hRest
    | cons q others ih =>
      have hDot : scan .between ['.'] = some ([.dot], .between) := by decide +kernel
      have hNext : scan .between ('.' :: ((Target.relation others name).text ++ c :: rest)) =
          some (.dot :: ((Target.relation others name).tokens ++ tokens), last) :=
        scan_append hDot ih
      have hName := scan_name (n := q) (by decide) hNext
      simpa [Target.text_relation, Target.tokens] using hName

theorem scan_more (more : List Access) {rest : List Char} {tokens : List Token}
    (hRest : scan .between rest = some (tokens, last)) (a : Access) :
    scan .between (a.text ++ more.flatMap (fun b => ", ".toList ++ b.text) ++ " ON ".toList ++ rest) =
      some (.access a :: more.flatMap (fun b => [.comma, .access b]) ++ .on :: tokens, last) := by
  induction more generalizing a with
  | nil =>
    have hOn : scan .between (a.text ++ " ON ".toList) = some ([.access a, .on], .between) := by
      cases a <;> decide +kernel
    simpa using scan_append hOn hRest
  | cons b others ih =>
    have hComma : scan .between (a.text ++ ", ".toList) = some ([.access a, .comma], .between) := by
      cases a <;> decide +kernel
    simpa using scan_append hComma (ih b)

theorem Statement.scan_text (s : Statement) :
    scan .between (s.text ++ [';']) = some (s.tokens ++ [.semicolon], .between) := by
  have hEnd : scan .between [';'] = some ([.semicolon], .between) := by decide +kernel
  have hRole : scan .between (quote s.role.1 ++ [';']) = some ([.name s.role, .semicolon], .between) :=
    scan_name (by decide) hEnd
  obtain ⟨verb, access, more, target, role⟩ := s
  cases verb with
  | grant =>
    have hGrant : scan .between "GRANT ".toList = some ([.verb .grant], .between) := by decide +kernel
    have hTo : scan .between (' ' :: "TO ".toList) = some ([.to], .between) := by decide +kernel
    have hRest : scan .between (' ' :: ("TO ".toList ++ (quote role.1 ++ [';']))) =
        some ([.to, .name role, .semicolon], .between) := scan_append hTo hRole
    have hTarget := scan_target target (by decide) hRest
    simpa [Statement.text, Statement.tokens] using scan_append hGrant (scan_more more hTarget access)
  | revoke =>
    have hRevoke : scan .between "REVOKE ".toList = some ([.verb .revoke], .between) := by decide +kernel
    have hFrom : scan .between (' ' :: "FROM ".toList) = some ([.origin], .between) := by decide +kernel
    have hRest : scan .between (' ' :: ("FROM ".toList ++ (quote role.1 ++ [';']))) =
        some ([.origin, .name role, .semicolon], .between) := scan_append hFrom hRole
    have hTarget := scan_target target (by decide) hRest
    simpa [Statement.text, Statement.tokens] using scan_append hRevoke (scan_more more hTarget access)

theorem readAccesses_tokens (a : Access) (more : List Access) (rest : List Token) :
    readAccesses (.access a :: more.flatMap (fun b => [.comma, .access b]) ++ .on :: rest) =
      some (a, more, rest) := by
  induction more generalizing a with
  | nil => rfl
  | cons b others ih =>
    have hNext := ih b
    simp only [cons_append] at hNext
    simp [readAccesses, hNext]

theorem readRelation_tokens (qualifiers : List Name) (name : Name) (hRest : rest.head? ≠ some .dot) :
    readRelation (qualifiers.flatMap (fun q => [.name q, .dot]) ++ .name name :: rest) =
      some (qualifiers, name, rest) := by
  induction qualifiers with
  | nil =>
    cases rest with
    | nil => rfl
    | cons token others => cases token <;> first | rfl | simp at hRest
  | cons q others ih => simp [readRelation, ih]

theorem readTarget_tokens (target : Target) (hRest : rest.head? ≠ some .dot) :
    readTarget (target.tokens ++ rest) = some (target, rest) := by
  cases target with
  | schema n => rfl
  | relation qualifiers name =>
    have hRelation := readRelation_tokens qualifiers name hRest
    have hPlain : readTarget ((Target.relation qualifiers name).tokens ++ rest) =
        (readRelation ((Target.relation qualifiers name).tokens ++ rest)).map
          fun (qualifiers, name, rest) => (.relation qualifiers name, rest) := by
      cases qualifiers <;> rfl
    rw [hPlain]
    simp only [Target.tokens, append_assoc, singleton_append]
    rw [hRelation]
    rfl

theorem Statement.readStatement_tokens (s : Statement) : readStatement s.tokens = some s := by
  obtain ⟨verb, access, more, target, role⟩ := s
  cases verb with
  | grant =>
    have hAccesses := readAccesses_tokens access more (target.tokens ++ [.to, .name role])
    have hTarget : readTarget (target.tokens ++ [.to, .name role]) =
        some (target, [.to, .name role]) := readTarget_tokens target (by simp)
    simp only [cons_append] at hAccesses
    simp [Statement.tokens, readStatement, hAccesses, hTarget, readRole]
  | revoke =>
    have hAccesses := readAccesses_tokens access more (target.tokens ++ [.origin, .name role])
    have hTarget : readTarget (target.tokens ++ [.origin, .name role]) =
        some (target, [.origin, .name role]) := readTarget_tokens target (by simp)
    simp only [cons_append] at hAccesses
    simp [Statement.tokens, readStatement, hAccesses, hTarget, readRole]

theorem Statement.semicolon_not_mem (s : Statement) : Token.semicolon ∉ s.tokens := by
  obtain ⟨verb, access, more, target, role⟩ := s
  have hTarget : Token.semicolon ∉ target.tokens := by cases target <;> simp [Target.tokens]
  cases verb <;> simp [Statement.tokens, hTarget]

theorem script_cons (text : List Char) (hTexts : texts ≠ []) :
    script (text :: texts) = text ++ [';'] ++ ('\n' :: script texts) := by
  obtain ⟨next, others, rfl⟩ := exists_cons_of_ne_nil hTexts
  simp [script, List.intercalate, List.intersperse]

theorem scan_script (hSome : ss ≠ []) :
    scan .between (script (ss.map Statement.text)) =
      some (ss.flatMap (fun s => s.tokens ++ [.semicolon]), .between) := by
  induction ss with
  | nil => exact absurd rfl hSome
  | cons s others ih =>
    by_cases hOthers : others = []
    · subst hOthers
      simpa [script, List.intercalate] using s.scan_text
    · have hNewLine : scan .between ['\n'] = some ([], .between) := by decide +kernel
      have hNext := scan_append s.scan_text (scan_append hNewLine (ih hOthers))
      rw [map_cons, script_cons _ (by simpa using hOthers)]
      simpa using hNext

theorem splitOn_semicolon (ss : List Statement) :
    (ss.flatMap (fun s => s.tokens ++ [.semicolon])).splitOn .semicolon = ss.map Statement.tokens ++ [[]] := by
  induction ss with
  | nil => rfl
  | cons s others ih =>
    rw [flatMap_cons, append_assoc, singleton_append,
      splitOn_append_cons_self, splitOn_eq_singleton s.semicolon_not_mem, ih]
    rfl

theorem mapM_readStatement_tokens (ss : List Statement) :
    (ss.map Statement.tokens).mapM readStatement = some ss := by
  induction ss with
  | nil => rfl
  | cons s others ih => simp [s.readStatement_tokens, ih]

theorem readScript_script (ss : List Statement) : readScript (script (ss.map Statement.text)) = some ss := by
  by_cases hSome : ss = []
  · subst hSome
    decide +kernel
  · have hLex : lex (script (ss.map Statement.text)) = some (ss.flatMap fun s => s.tokens ++ [.semicolon]) := by
      simp [lex, scan_script hSome, Mode.close]
    have hFull : (ss.map Statement.tokens).filter (· ≠ []) = ss.map Statement.tokens :=
      filter_eq_self.mpr (by simp [Statement.tokens])
    rw [readScript, hLex]
    simp only [bind_eq_bind, bind_some]
    rw [splitOn_semicolon, filter_append, hFull]
    simpa using mapM_readStatement_tokens ss

section Privileges
variable {Object : Type*}

abbrev Held (Object : Type*) := Name → Access → Object → Bool

/-- The names a server knows, and the privileges there are on each kind of object. -/
structure Names (Object : Type*) where
  locate : Target → Option Object
  takes : Object → Access → Bool

variable (names : Names Object)

def Statement.Covers (s : Statement) (role : Name) (access : Access) (object : Object) : Prop :=
  s.role = role ∧ access ∈ s.accesses ∧ names.locate s.target = some object

def Statement.allowed (s : Statement) : Bool :=
  match names.locate s.target with
  | none => false
  | some object => s.accesses.all (names.takes object)

def Covered (ss : List Statement) (role : Name) (access : Access) (object : Object) : Prop :=
  ∃ s ∈ ss, s.Covers names role access object

variable {ss : List Statement} {role : Name} {access : Access} {object : Object}

theorem covered_cons {s : Statement} : Covered names (s :: ss) role access object ↔
      s.Covers names role access object ∨ Covered names ss role access object := by
  simp [Covered]

theorem covered_append {first second : List Statement} : Covered names (first ++ second) role access object ↔
      Covered names first role access object ∨ Covered names second role access object := by
  simp only [Covered, mem_append, or_and_right, exists_or]

variable [DecidableEq Object]

instance (s : Statement) (role : Name) (access : Access) (object : Object) :
    Decidable (s.Covers names role access object) :=
  inferInstanceAs (Decidable (_ ∧ _ ∧ _))

def Statement.apply (held : Held Object) (s : Statement) : Held Object := fun role access object =>
  if s.Covers names role access object then decide (s.verb = .grant) else held role access object

def execute (text : List Char) (held : Held Object) : Option (Held Object) :=
  match readScript text with
  | none => none
  | some ss => if ss.all (Statement.allowed names) then some (ss.foldl (Statement.apply names) held) else none

def Verb.Leaves (held covered : Prop) : Verb → Prop
  | .grant => held ∨ covered
  | .revoke => held ∧ ¬ covered

theorem foldl_apply {verb : Verb} (hVerb : ∀ s ∈ ss, s.verb = verb) (held : Held Object) (role : Name)
    (access : Access) (object : Object) :
    ss.foldl (Statement.apply names) held role access object = true ↔
      verb.Leaves (held role access object = true) (Covered names ss role access object) := by
  induction ss generalizing held with
  | nil => cases verb <;> simp [Verb.Leaves, Covered]
  | cons s others ih =>
    have hOwn : s.verb = verb := hVerb s (by simp)
    rw [foldl_cons, ih fun t ht => hVerb t (by simp [ht]), covered_cons]
    by_cases hCovers : s.Covers names role access object
    · cases verb <;> simp [Verb.Leaves, Statement.apply, hCovers, hOwn]
    · simp [Statement.apply, hCovers]

theorem execute_script {held after : Held Object}
    (hRun : execute names (script (ss.map Statement.text)) held = some after) :
    after = ss.foldl (Statement.apply names) held := by
  simp only [execute, readScript_script] at hRun
  split at hRun
  · exact (Option.some.inj hRun).symm
  · cases hRun

end Privileges

end Sql
