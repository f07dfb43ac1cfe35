import DBVault.Interaction.Execution

/-! Programs that run alone: the run itself as a function of the choices, how
it sits in an execution, and rules for what it ensures. -/
namespace Interaction
open List

variable {Op : Type} {Answer : Op → Type} {World Choice α β ε : Type}

/-- Run a program with nobody else around, taking one choice per operation. -/
def Program.run (env : Environment Answer World Choice) :
    Program Answer α → World × (Nat → Choice) → α × World × (Nat → Choice)
  | .done value, (w, choices) => (value, w, choices)
  | .call op next, (w, choices) =>
    let (answer, w') := env.perform w op (choices 0)
    (next answer).run env (w', fun n => choices (n + 1))

namespace Program
variable {env : Environment Answer World Choice}

@[simp] theorem run_done (value : α) (w : World) (choices : Nat → Choice) :
    (Program.done value : Program Answer α).run env (w, choices) = (value, w, choices) := rfl

@[simp] theorem run_call (op : Op) (next : Answer op → Program Answer α) (w : World)
    (choices : Nat → Choice) :
    (Program.call op next).run env (w, choices) =
      (next (env.perform w op (choices 0)).1).run env
        ((env.perform w op (choices 0)).2, fun n => choices (n + 1)) := rfl

def events (env : Environment Answer World Choice) (thread : Nat) :
    Program Answer α → World × (Nat → Choice) → List (Event Answer Choice)
  | .done _, _ => []
  | .call op next, (w, choices) =>
    let (answer, w') := env.perform w op (choices 0)
    (next answer).events env thread (w', fun n => choices (n + 1)) ++ [⟨thread, choices 0, ⟨op, answer⟩⟩]

variable {p : Program Answer α} {e : Event Answer Choice}

theorem mem_events {w : World} (h : e ∈ p.events env thread (w, choices)) :
    ∃ n w', e.choice = choices n ∧ e.call.answer = (env.perform w' e.call.op (choices n)).1 := by
  induction p generalizing w choices with
  | done value => simp [events] at h
  | call op next ih =>
    rcases mem_append.mp h with h | h
    · obtain ⟨n, w', hEvent⟩ := ih _ h
      exact ⟨n + 1, w', hEvent⟩
    · rw [mem_singleton.mp h]
      exact ⟨0, w, rfl, rfl⟩

theorem events_thread {s : World × (Nat → Choice)} (h : e ∈ p.events env thread s) : e.thread = thread := by
  induction p generalizing s with
  | done value => simp [events] at h
  | call op next ih =>
    rcases mem_append.mp h with h | h
    · exact ih _ h
    · rw [mem_singleton.mp h]

/-- Every choice of a solo run is admissible where it is taken. -/
def Admissible (env : Environment Answer World Choice) : Program Answer α → World × (Nat → Choice) → Prop
  | .done _, _ => True
  | .call op next, (w, choices) =>
    env.admissible w op (choices 0) ∧
      (next (env.perform w op (choices 0)).1).Admissible env
        ((env.perform w op (choices 0)).2, fun n => choices (n + 1))

instance decidableAdmissible [∀ w op c, Decidable (env.admissible w op c)] :
    (p : Program Answer α) → (s : World × (Nat → Choice)) → Decidable (p.Admissible env s)
  | .done _, _ => .isTrue trivial
  | .call _ next, (_, _) => @instDecidableAnd _ _ _ (decidableAdmissible (next _) _)

end Program

theorem Execution.solo {env : Environment Answer World Choice} {start s : System Answer World α}
    {history : List (Event Answer Choice)} (prior : Execution env start history s) (thread : Nat)
    (choices : Nat → Choice) (h : (s.threads thread).Admissible env (s.world, choices)) :
    Execution env start ((s.threads thread).events env thread (s.world, choices) ++ history)
      ⟨((s.threads thread).run env (s.world, choices)).2.1, Function.update s.threads thread
        (.done ((s.threads thread).run env (s.world, choices)).1)⟩ := by
  generalize hProgram : s.threads thread = p at h
  induction p generalizing s history choices with
  | done value =>
    have hSame : Function.update s.threads thread (.done value) = s.threads := by
      rw [← hProgram]
      exact Function.update_eq_self thread s.threads
    simpa [Program.events, hSame] using prior
  | call op next ih =>
    have hNext := ih _ (prior.step (choices 0) hProgram h.1) (fun n => choices (n + 1)) (by simp) h.2
    simpa [Program.events] using hNext

/-- One thread of a run goes on to its end. -/
def onward (env : Environment Answer World Choice) (thread : Nat) (choices : Nat → Choice)
    (run : List (Event Answer Choice) × System Answer World α) : List (Event Answer Choice) × System Answer World α :=
  let outcome := (run.2.threads thread).run env (run.2.world, choices)
  ((run.2.threads thread).events env thread (run.2.world, choices) ++ run.1,
    ⟨outcome.2.1, Function.update run.2.threads thread (.done outcome.1)⟩)

theorem Execution.onward {env : Environment Answer World Choice} {start : System Answer World α}
    {run : List (Event Answer Choice) × System Answer World α} (prior : Execution env start run.1 run.2) {thread : Nat}
    {choices : Nat → Choice} (h : (run.2.threads thread).Admissible env (run.2.world, choices)) :
    Execution env start (Interaction.onward env thread choices run).1 (Interaction.onward env thread choices run).2 :=
  prior.solo thread choices h

/-- The outcome of a thread that has ended. -/
def ended (run : List (Event Answer Choice) × System Answer World α) (thread : Nat) : Option α :=
  match run.2.threads thread with
  | .done out => some out
  | .call .. => none

theorem ended_eq {run : List (Event Answer Choice) × System Answer World α} {thread : Nat} {out : α}
    (h : ended run thread = some out) : run.2.threads thread = .done out := by
  unfold ended at h
  split at h
  · rename_i hDone
    rw [hDone, Option.some.inj h]
  · cases h

/-- However the world chooses among the good choices, `post` holds of the result
and the world the program leaves. -/
def Program.Ensures (env : Environment Answer World Choice) (good : Choice → Prop) :
    Program Answer α → World → (α → World → Prop) → Prop
  | .done value, w, post => post value w
  | .call op next, w, post =>
    ∀ c, good c → (next (env.perform w op c).1).Ensures env good (env.perform w op c).2 post

namespace Program
variable {env : Environment Answer World Choice} {good : Choice → Prop} {w : World}

variable {p : Program Answer α}

theorem Ensures.run {post : α → World → Prop} (h : p.Ensures env good w post)
    (hGood : ∀ n, good (choices n)) : post (p.run env (w, choices)).1 (p.run env (w, choices)).2.1 := by
  induction p generalizing w choices with
  | done value => exact h
  | call op next ih => exact ih _ (h _ (hGood 0)) fun n => hGood (n + 1)

theorem Ensures.mono (h : p.Ensures env good w first)
    (hPost : ∀ value w', first value w' → second value w') : p.Ensures env good w second := by
  induction p generalizing w with
  | done value => exact hPost value w h
  | call op next ih => exact fun c hc => ih _ (h c hc)

theorem Ensures.restrict {good' : Choice → Prop} (h : p.Ensures env good w post) (hGood : ∀ c, good' c → good c) :
    p.Ensures env good' w post := by
  induction p generalizing w with
  | done value => exact h
  | call op next ih => exact fun c hc => ih _ (h c (hGood c hc))

/-- With one choice there is one run. -/
theorem ensures_of_run {c : Choice}
    (h : post (p.run env (w, fun _ => c)).1 (p.run env (w, fun _ => c)).2.1) : p.Ensures env (· = c) w post := by
  induction p generalizing w with
  | done value => exact h
  | call op next ih =>
    rintro _ rfl
    exact ih _ h

theorem ensures_ask (h : ∀ c, good c → env.perform w op c = (answer, w')) (hPost : post answer w') :
    (ask op).Ensures env good w post := by
  intro c hc
  rw [h c hc]
  exact hPost

theorem ensures_bind {f : α → Program Answer β} {middle : α → World → Prop}
    {post : β → World → Prop} (hFirst : p.Ensures env good w middle)
    (hSecond : ∀ value w', middle value w' → (f value).Ensures env good w' post) :
    (p >>= f).Ensures env good w post := by
  induction p generalizing w with
  | done value => exact hSecond value w hFirst
  | call op next ih => exact fun c hc => ih _ (hFirst c hc)

theorem ensures_ask_bind (h : ∀ c, good c → env.perform w op c = (answer, w'))
    (hNext : (f answer).Ensures env good w' post) : (ask op >>= f).Ensures env good w post := by
  intro c hc
  rw [h c hc]
  exact hNext

end Program

/-- `Ensures` for a program that can fail, with a condition on failures. -/
def Attempt.Ensures (env : Environment Answer World Choice) (good : Choice → Prop)
    (p : Attempt Answer ε α) (w : World) (post : α → World → Prop) (failed : ε → World → Prop) :
    Prop :=
  Program.Ensures env good p.run w fun result w' =>
    match result with
    | .ok value => post value w'
    | .error err => failed err w'

namespace Attempt
variable {env : Environment Answer World Choice} {good : Choice → Prop} {w : World}
  {failed : ε → World → Prop}

variable {post : α → World → Prop} {p : Attempt Answer ε α}

theorem ensures_pure (h : post value w) :
    Attempt.Ensures env good (pure value : Attempt Answer ε α) w post failed := h

theorem Ensures.of_ok (h : Attempt.Ensures env good p w post failed)
    (hGood : ∀ n, good (choices n)) (hRun : (p.run.run env (w, choices)).1 = .ok value) :
    post value (p.run.run env (w, choices)).2.1 := by
  have hPost := Program.Ensures.run h hGood
  rw [hRun] at hPost
  exact hPost

theorem Ensures.succeeds (h : Attempt.Ensures env good p w post fun _ _ => False) (hGood : ∀ n, good (choices n)) :
    ∃ value, (p.run.run env (w, choices)).1 = .ok value ∧ post value (p.run.run env (w, choices)).2.1 := by
  have hPost := Program.Ensures.run h hGood
  cases hRun : (p.run.run env (w, choices)).1 with
  | ok value =>
    rw [hRun] at hPost
    exact ⟨value, rfl, hPost⟩
  | error err =>
    rw [hRun] at hPost
    exact hPost.elim

theorem Ensures.mono (h : Attempt.Ensures env good p w first failed)
    (hPost : ∀ value w', first value w' → second value w') : Attempt.Ensures env good p w second failed := by
  refine Program.Ensures.mono h ?_
  intro result w' hFirst
  cases result with
  | ok value => exact hPost value w' hFirst
  | error err => exact hFirst

theorem Ensures.mono_failed (h : Attempt.Ensures env good p w post failed)
    (hFailed : ∀ err w', failed err w' → failed' err w') : Attempt.Ensures env good p w post failed' := by
  refine Program.Ensures.mono h ?_
  intro result w' hFirst
  cases result with
  | ok value => exact hFirst
  | error err => exact hFailed err w' hFirst

theorem ensures_bind {f : α → Attempt Answer ε β} {middle : α → World → Prop}
    {post : β → World → Prop} (hFirst : Attempt.Ensures env good p w middle failed)
    (hSecond : ∀ value w', middle value w' → Attempt.Ensures env good (f value) w' post failed) :
    Attempt.Ensures env good (p >>= f) w post failed := by
  unfold Attempt.Ensures
  rw [ExceptT.run_bind]
  refine Program.ensures_bind hFirst ?_
  intro result w' hMiddle
  cases result with
  | ok value => exact hSecond value w' hMiddle
  | error err => exact hMiddle

end Attempt

end Interaction
