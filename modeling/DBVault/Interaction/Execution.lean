import DBVault.Interaction.Program

/-! Programs run against a shared world, one operation at a time and in any
order. A history records every operation with the thread that asked for it;
what a thread's own calls must look like comes from its program alone, what
the world looks like comes from the history. -/
namespace Interaction
variable {Op : Type} {Answer : Op → Type} {World Choice α β : Type}

/-- How the world answers. A choice stands for everything the world decides
by itself: faults, times, fresh names. -/
structure Environment {Op : Type} (Answer : Op → Type) (World Choice : Type) where
  perform : World → (op : Op) → Choice → Answer op × World
  admissible : World → Op → Choice → Prop

structure Event {Op : Type} (Answer : Op → Type) (Choice : Type) where
  thread : Nat
  choice : Choice
  call : Call Answer

structure System {Op : Type} (Answer : Op → Type) (World α : Type) where
  world : World
  threads : Nat → Program Answer α

/-- A run up to some point, with the events so far, latest first. -/
inductive Execution (env : Environment Answer World Choice) (start : System Answer World α) :
    List (Event Answer Choice) → System Answer World α → Prop where
  | start : Execution env start [] start
  | step {history : List (Event Answer Choice)} {s : System Answer World α} {thread : Nat}
      {op : Op} {next : Answer op → Program Answer α} (choice : Choice)
      (prior : Execution env start history s) (hThread : s.threads thread = .call op next)
      (hChoice : env.admissible s.world op choice) :
      Execution env start
        (⟨thread, choice, ⟨op, (env.perform s.world op choice).1⟩⟩ :: history)
        ⟨(env.perform s.world op choice).2,
          Function.update s.threads thread (next (env.perform s.world op choice).1)⟩

def ownCalls (thread : Nat) (history : List (Event Answer Choice)) : List (Call Answer) :=
  (history.filter (·.thread == thread)).map (·.call)

@[simp] theorem ownCalls_append (thread : Nat) (later earlier : List (Event Answer Choice)) :
    ownCalls thread (later ++ earlier) = ownCalls thread later ++ ownCalls thread earlier := by
  simp [ownCalls]

theorem mem_ownCalls {thread : Nat} :
    call ∈ ownCalls thread history ↔ ∃ e ∈ history, e.thread = thread ∧ e.call = call := by
  simp [ownCalls, and_assoc]

theorem mem_ownCalls_of_mem (h : e ∈ history) : e.call ∈ ownCalls e.thread history :=
  mem_ownCalls.mpr ⟨e, h, rfl, rfl⟩

namespace Execution
variable {env : Environment Answer World Choice} {start s : System Answer World α}
  {history : List (Event Answer Choice)} {rules : Nat → Rules Answer}
  {post : Nat → α → List (Call Answer) → Prop}

theorem obeys (run : Execution env start history s)
    (hStart : ∀ t, (start.threads t).Obeys (rules t) [] (post t))
    (hLegal : ∀ t w op c, env.admissible w op c → (rules t).legal op (env.perform w op c).1)
    (t : Nat) : (s.threads t).Obeys (rules t) (ownCalls t history) (post t) := by
  induction run with
  | start => exact hStart t
  | @step history s thread op next choice prior hThread hChoice ih =>
    by_cases h : t = thread
    · subst h
      rw [hThread] at ih
      have hNext := ih.2 _ (hLegal t s.world op choice hChoice)
      simpa [ownCalls] using hNext
    · have hOther : thread ≠ t := Ne.symm h
      simpa [Function.update_of_ne h, ownCalls, hOther] using ih

theorem follows (run : Execution env start history s)
    (hStart : ∀ t, (start.threads t).Obeys (rules t) [] (post t))
    (hLegal : ∀ t w op c, env.admissible w op c → (rules t).legal op (env.perform w op c).1)
    (t : Nat) : (rules t).Follows (ownCalls t history) := by
  induction run with
  | start => trivial
  | @step history s thread op next choice prior hThread hChoice ih =>
    by_cases h : thread = t
    · subst h
      have hObeys := prior.obeys hStart hLegal thread
      rw [hThread] at hObeys
      have hOwn : ownCalls thread
          (⟨thread, choice, ⟨op, (env.perform s.world op choice).1⟩⟩ :: history) =
          ⟨op, (env.perform s.world op choice).1⟩ :: ownCalls thread history := by
        simp [ownCalls]
      rw [hOwn]
      exact ⟨hObeys.1, hLegal thread s.world op choice hChoice, ih⟩
    · simpa [ownCalls, h] using ih

theorem invariant (holds : List (Event Answer Choice) → World → Prop)
    (run : Execution env start history s) (hInit : holds [] start.world)
    (hStep : ∀ history w t op c, holds history w → env.admissible w op c →
      holds (⟨t, c, ⟨op, (env.perform w op c).1⟩⟩ :: history) (env.perform w op c).2) :
    holds history s.world := by
  induction run with
  | start => exact hInit
  | @step history s thread op next choice prior hThread hChoice ih =>
    exact hStep history s.world thread op choice ih hChoice

end Execution

end Interaction
