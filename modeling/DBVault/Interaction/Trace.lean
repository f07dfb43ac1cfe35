import DBVault.Interaction.Solo

/-! What a solo run leads to: facts about its result, the world it leaves and
the calls it has made by then. -/
namespace Interaction
variable {Op : Type} {Answer : Op → Type} {World Choice α β ε : Type}

def Program.Asks (allowed : Op → Prop) : Program Answer α → Prop
  | .done _ => True
  | .call op next => allowed op ∧ ∀ answer, (next answer).Asks allowed

/-- However the world chooses, `post` holds of the result, the world and the
calls, latest first. -/
def Program.Leads (env : Environment Answer World Choice) :
    Program Answer α → World → List (Call Answer) → (α → World → List (Call Answer) → Prop) → Prop
  | .done value, w, past, post => post value w past
  | .call op next, w, past, post =>
    ∀ c, env.admissible w op c → (next (env.perform w op c).1).Leads env (env.perform w op c).2
      (⟨op, (env.perform w op c).1⟩ :: past) post

namespace Program
variable {env : Environment Answer World Choice} {allowed : Op → Prop} {w : World} {past : List (Call Answer)}

variable {p : Program Answer α} {f : α → Program Answer β}

theorem asks_bind (hFirst : p.Asks allowed)
    (hSecond : ∀ value, (f value).Asks allowed) : (p >>= f).Asks allowed := by
  induction p with
  | done value => exact hSecond value
  | call op next ih => exact ⟨hFirst.1, fun answer => ih answer (hFirst.2 answer)⟩

theorem asks_ask_bind {op : Op} {f : Answer op → Program Answer α} (hOp : allowed op)
    (h : ∀ answer, (f answer).Asks allowed) : (ask op >>= f).Asks allowed := ⟨hOp, h⟩

theorem Asks.admissible (h : p.Asks allowed) {s : World × (Nat → Choice)}
    (hChoices : ∀ w op n, allowed op → env.admissible w op (s.2 n)) : p.Admissible env s := by
  induction p generalizing s with
  | done value => trivial
  | call op next ih => exact ⟨hChoices s.1 op 0 h.1, ih _ (h.2 _) fun w op n => hChoices w op (n + 1)⟩

theorem Asks.mono {more : Op → Prop} (h : p.Asks allowed) (hMore : ∀ op, allowed op → more op) : p.Asks more := by
  induction p with
  | done value => trivial
  | call op next ih => exact ⟨hMore op h.1, fun answer => ih answer (h.2 answer)⟩

/-- What happens does not depend on what is admissible. -/
theorem run_eq {f : World → (op : Op) → Choice → Answer op × World} (first second : World → Op → Choice → Prop)
    (p : Program Answer α) (s : World × (Nat → Choice)) (thread : Nat) :
    p.run ⟨f, first⟩ s = p.run ⟨f, second⟩ s ∧
      p.events ⟨f, first⟩ thread s = p.events ⟨f, second⟩ thread s := by
  induction p generalizing s with
  | done value => exact ⟨rfl, rfl⟩
  | call op next ih => exact ⟨(ih _ _).1, congrArg (· ++ _) (ih _ _).2⟩

theorem Leads.run {post : α → World → List (Call Answer) → Prop} (h : p.Leads env w past post)
    {choices : Nat → Choice} (thread : Nat) (hAdmissible : p.Admissible env (w, choices)) :
    post (p.run env (w, choices)).1 (p.run env (w, choices)).2.1
      ((p.events env thread (w, choices)).map (·.call) ++ past) := by
  induction p generalizing w past choices with
  | done value => exact h
  | call op next ih => simpa [events] using ih _ (h _ hAdmissible.1) hAdmissible.2

theorem Leads.mono {first second : α → World → List (Call Answer) → Prop} (h : p.Leads env w past first)
    (hPost : ∀ value w' later, first value w' later → second value w' later) : p.Leads env w past second := by
  induction p generalizing w past with
  | done value => exact hPost value w past h
  | call op next ih => exact fun c hc => ih _ (h c hc)

theorem leads_bind {middle : α → World → List (Call Answer) → Prop}
    {post : β → World → List (Call Answer) → Prop} (hFirst : p.Leads env w past middle)
    (hSecond : ∀ value w' later, middle value w' later → (f value).Leads env w' later post) :
    (p >>= f).Leads env w past post := by
  induction p generalizing w past with
  | done value => exact hSecond value w past hFirst
  | call op next ih => exact fun c hc => ih _ (hFirst c hc)

theorem Asks.leads {inv : World → List (Call Answer) → Prop} (h : p.Asks allowed)
    (hStep : ∀ w past op c, allowed op → env.admissible w op c → inv w past →
      inv (env.perform w op c).2 (⟨op, (env.perform w op c).1⟩ :: past)) (hInv : inv w past) :
    p.Leads env w past fun _ w' later => inv w' later := by
  induction p generalizing w past with
  | done value => exact hInv
  | call op next ih =>
    intro c hc
    exact ih _ (h.2 _) (hStep w past op c h.1 hc hInv)

end Program

/-- `Asks` for a program that can fail. -/
def Attempt.Asks (allowed : Op → Prop) (p : Attempt Answer ε α) : Prop := Program.Asks allowed p.run

/-- `Leads` for a program that can fail, with a condition on failures. -/
def Attempt.Leads (env : Environment Answer World Choice) (p : Attempt Answer ε α) (w : World)
    (past : List (Call Answer)) (post : α → World → List (Call Answer) → Prop)
    (failed : World → List (Call Answer) → Prop) : Prop :=
  Program.Leads env p.run w past fun result w' later =>
    match result with
    | .ok value => post value w' later
    | .error _ => failed w' later

namespace Attempt
variable {env : Environment Answer World Choice} {allowed : Op → Prop} {w : World}
  {past : List (Call Answer)} {failed : World → List (Call Answer) → Prop}

theorem asks_pure : Attempt.Asks allowed (pure value : Attempt Answer ε α) := trivial

variable {f : α → Attempt Answer ε β} {p : Attempt Answer ε α} {post : β → World → List (Call Answer) → Prop}

theorem asks_bind (hFirst : Attempt.Asks allowed p) (hSecond : ∀ value, Attempt.Asks allowed (f value)) :
    Attempt.Asks allowed (p >>= f) := by
  unfold Attempt.Asks
  rw [ExceptT.run_bind]
  refine Program.asks_bind hFirst ?_
  intro result
  cases result with
  | ok value => exact hSecond value
  | error err => trivial

theorem leads_bind {middle : α → World → List (Call Answer) → Prop}
    (hFirst : Attempt.Leads env p w past middle failed)
    (hSecond : ∀ value w' later, middle value w' later → Attempt.Leads env (f value) w' later post failed) :
    Attempt.Leads env (p >>= f) w past post failed := by
  unfold Attempt.Leads
  rw [ExceptT.run_bind]
  refine Program.leads_bind hFirst ?_
  intro result w' later hMiddle
  cases result with
  | ok value => exact hSecond value w' later hMiddle
  | error err => exact hMiddle

theorem leads_lift_bind {op : Op} {f : Answer op → Attempt Answer ε β}
    (h : ∀ c, env.admissible w op c → Attempt.Leads env (f (env.perform w op c).1)
      (env.perform w op c).2 (⟨op, (env.perform w op c).1⟩ :: past) post failed) :
    Attempt.Leads env (ExceptT.lift (Program.ask op) >>= f) w past post failed := h

theorem Asks.leads_bind {inv : World → List (Call Answer) → Prop} (h : Attempt.Asks allowed p)
    (hStep : ∀ w past op c, allowed op → env.admissible w op c → inv w past →
      inv (env.perform w op c).2 (⟨op, (env.perform w op c).1⟩ :: past)) (hInv : inv w past)
    (hFailed : ∀ w' later, inv w' later → failed w' later)
    (hNext : ∀ value w' later, inv w' later → Attempt.Leads env (f value) w' later post failed) :
    Attempt.Leads env (p >>= f) w past post failed := by
  refine Attempt.leads_bind ?_ hNext
  refine (Program.Asks.leads h hStep hInv).mono ?_
  intro result w' later hLater
  cases result with
  | ok value => exact hLater
  | error err => exact hFailed w' later hLater

end Attempt

end Interaction
