import Mathlib.Data.List.Infix

/-! Sequential programs that call on an environment. A program is a tree of
calls; what it may do is stated on the calls it has made so far, for every
answer the environment could give, so that the same fact serves a run on its
own and a run interleaved with others. -/
namespace Interaction
open List

/-- A program that has finished, or asks for an operation and continues with
the answer. -/
inductive Program {Op : Type} (Answer : Op → Type) (α : Type) where
  | done (value : α)
  | call (op : Op) (next : Answer op → Program Answer α)

structure Call {Op : Type} (Answer : Op → Type) where
  op : Op
  answer : Answer op

variable {Op : Type} {Answer : Op → Type} {α β : Type}

namespace Program

def bind : Program Answer α → (α → Program Answer β) → Program Answer β
  | .done value, f => f value
  | .call op next, f => .call op fun answer => (next answer).bind f

instance : Monad (Program Answer) where
  pure := .done
  bind := .bind

def ask (op : Op) : Program Answer (Answer op) := .call op .done

end Program

/-- What the environment may answer, and which operations a program may ask
for after the calls it has made, latest first. -/
structure Rules {Op : Type} (Answer : Op → Type) where
  legal : (op : Op) → Answer op → Prop
  permits : List (Call Answer) → Op → Prop

/-- Continuing after the calls `past`, the program only asks for permitted
operations, and `post` holds of its result and of all calls made by then. -/
def Program.Obeys (rules : Rules Answer) :
    Program Answer α → List (Call Answer) → (α → List (Call Answer) → Prop) → Prop
  | .done value, past, post => post value past
  | .call op next, past, post =>
    rules.permits past op ∧
      ∀ answer, rules.legal op answer → (next answer).Obeys rules (⟨op, answer⟩ :: past) post

/-- A record of calls in which every operation was permitted by the calls
before it and every answer was legal. -/
def Rules.Follows (rules : Rules Answer) : List (Call Answer) → Prop
  | [] => True
  | call :: earlier => rules.permits earlier call.op ∧ rules.legal call.op call.answer ∧ rules.Follows earlier

variable {rules : Rules Answer} {calls : List (Call Answer)}

theorem Rules.Follows.of_mem {call : Call Answer} (h : rules.Follows calls) (hMem : call ∈ calls) :
    ∃ earlier, call :: earlier <:+ calls ∧ rules.permits earlier call.op ∧
      rules.legal call.op call.answer ∧ rules.Follows earlier := by
  induction calls with
  | nil => simp at hMem
  | cons first rest ih =>
    rcases mem_cons.mp hMem with rfl | hMem
    · exact ⟨rest, suffix_rfl, h⟩
    · obtain ⟨earlier, hSuffix, hFacts⟩ := ih h.2.2 hMem
      exact ⟨earlier, hSuffix.trans (suffix_cons _ _), hFacts⟩

theorem Rules.Follows.unique (once : Call Answer → Prop) (h : rules.Follows calls)
    (hOnce : ∀ earlier call, once call → rules.permits earlier call.op → ∀ other ∈ earlier, ¬ once other)
    {first second : Call Answer} (hFirst : first ∈ calls) (hSecond : second ∈ calls)
    (hFirstOnce : once first) (hSecondOnce : once second) : first = second := by
  induction calls with
  | nil => simp at hFirst
  | cons call rest ih =>
    rcases mem_cons.mp hFirst with hHead | hLater
    · rcases mem_cons.mp hSecond with hHead' | hLater'
      · rw [hHead, hHead']
      · subst hHead
        exact absurd hSecondOnce (hOnce rest first hFirstOnce h.1 second hLater')
    · rcases mem_cons.mp hSecond with hHead' | hLater'
      · subst hHead'
        exact absurd hFirstOnce (hOnce rest second hSecondOnce h.1 first hLater)
      · exact ih h.2.2 hLater hLater'

namespace Program
variable {rules : Rules Answer} {past : List (Call Answer)}

variable {post : α → List (Call Answer) → Prop} {p : Program Answer α}

theorem obeys_bind {f : α → Program Answer β} {middle : α → List (Call Answer) → Prop}
    {post : β → List (Call Answer) → Prop} (hFirst : p.Obeys rules past middle)
    (hSecond : ∀ value later, middle value later → (f value).Obeys rules later post) :
    (p >>= f).Obeys rules past post := by
  induction p generalizing past with
  | done value => exact hSecond value past hFirst
  | call op next ih =>
    refine ⟨hFirst.1, ?_⟩
    intro answer hLegal
    exact ih answer (hFirst.2 answer hLegal)

theorem Obeys.mono (h : p.Obeys rules past first)
    (hPost : ∀ value later, first value later → second value later) : p.Obeys rules past second := by
  induction p generalizing past with
  | done value => exact hPost value past h
  | call op next ih =>
    refine ⟨h.1, ?_⟩
    intro answer hLegal
    exact ih answer (h.2 answer hLegal)

theorem Obeys.extends (h : p.Obeys rules past post) :
    p.Obeys rules past fun value later => post value later ∧ past <:+ later := by
  induction p generalizing past with
  | done value => exact ⟨h, suffix_rfl⟩
  | call op next ih =>
    refine ⟨h.1, ?_⟩
    intro answer hLegal
    refine (ih answer (h.2 answer hLegal)).mono ?_
    intro value later hLater
    exact ⟨hLater.1, (suffix_cons _ _).trans hLater.2⟩

end Program

abbrev Attempt {Op : Type} (Answer : Op → Type) (ε : Type) := ExceptT ε (Program Answer)

variable {ε : Type}

/-- `Obeys` for a program that can fail; nothing is asked of a failed one. -/
def Attempt.Obeys (rules : Rules Answer) (p : Attempt Answer ε α) (past : List (Call Answer))
    (post : α → List (Call Answer) → Prop) : Prop :=
  Program.Obeys rules p.run past fun result later =>
    match result with
    | .ok value => post value later
    | .error _ => True

namespace Attempt
variable {rules : Rules Answer} {past : List (Call Answer)}

variable {post : α → List (Call Answer) → Prop} {p : Attempt Answer ε α}

theorem obeys_pure (h : post value past) : Attempt.Obeys rules (pure value : Attempt Answer ε α) past post := h

theorem obeys_throw {failure : ε} : Attempt.Obeys rules (throw failure : Attempt Answer ε α) past post := trivial

theorem obeys_bind {f : α → Attempt Answer ε β} {middle : α → List (Call Answer) → Prop}
    {post : β → List (Call Answer) → Prop} (hFirst : Attempt.Obeys rules p past middle)
    (hSecond : ∀ value later, middle value later → Attempt.Obeys rules (f value) later post) :
    Attempt.Obeys rules (p >>= f) past post := by
  unfold Attempt.Obeys
  rw [ExceptT.run_bind]
  refine Program.obeys_bind hFirst ?_
  intro result later hMiddle
  cases result with
  | ok value => exact hSecond value later hMiddle
  | error failure => trivial

theorem obeys_lift {op : Op} {post : Answer op → List (Call Answer) → Prop} (hPermits : rules.permits past op)
    (hPost : ∀ answer, rules.legal op answer → post answer (⟨op, answer⟩ :: past)) :
    Attempt.Obeys rules (ExceptT.lift (Program.ask op) : Attempt Answer ε (Answer op)) past post :=
  ⟨hPermits, hPost⟩

theorem Obeys.mono (h : Attempt.Obeys rules p past first)
    (hPost : ∀ value later, first value later → second value later) : Attempt.Obeys rules p past second := by
  refine Program.Obeys.mono h ?_
  intro result later hFirst
  cases result with
  | ok value => exact hPost value later hFirst
  | error failure => trivial

theorem Obeys.extends (h : Attempt.Obeys rules p past post) :
    Attempt.Obeys rules p past fun value later => post value later ∧ past <:+ later := by
  refine Program.Obeys.mono (Program.Obeys.extends h) ?_
  intro result later hLater
  cases result with
  | ok value => exact hLater
  | error failure => trivial

end Attempt

end Interaction
