import Mathlib.Data.List.Induction

/-! A component that answers calls one after the other, with the record of what it
answered. -/
namespace Interaction
open List

theorem forall_split_snoc {α : Type} {P : List α → α → Prop} {xs : List α} {x : α} :
    (∀ before y after, xs ++ [x] = before ++ y :: after → P before y) ↔
      (∀ before y after, xs = before ++ y :: after → P before y) ∧ P xs x := by
  constructor
  · intro hAll
    exact ⟨fun before y after hSplit => hAll before y (after ++ [x]) (by simp [hSplit]), hAll xs x [] rfl⟩
  · rintro ⟨hAll, hLast⟩ before y after hSplit
    rcases eq_nil_or_concat after with rfl | ⟨rest, last, rfl⟩
    · obtain ⟨rfl, hSame⟩ := append_inj' hSplit rfl
      obtain rfl := singleton_inj.mp hSame
      exact hLast
    · rw [concat_eq_append, ← cons_append, ← append_assoc] at hSplit
      exact hAll before y rest (append_inj' hSplit rfl).1

structure Component (State Request Answer : Type) where
  start : State
  perform : State → Request → Answer × State

namespace Component
variable {State Request Answer : Type} (c : Component State Request Answer)

def run (calls : List Request) : State := calls.foldl (fun s call => (c.perform s call).2) c.start

def transcriptFrom (s : State) : List Request → List (Request × Answer)
  | [] => []
  | call :: rest => (call, (c.perform s call).1) :: transcriptFrom (c.perform s call).2 rest

def transcript (calls : List Request) : List (Request × Answer) := c.transcriptFrom c.start calls

@[simp] theorem run_nil : c.run [] = c.start := rfl

@[simp] theorem transcript_nil : c.transcript [] = [] := rfl

@[simp] theorem run_snoc (calls : List Request) (call : Request) :
    c.run (calls ++ [call]) = (c.perform (c.run calls) call).2 := by
  simp [run]

@[simp] theorem transcript_snoc (calls : List Request) (call : Request) :
    c.transcript (calls ++ [call]) = c.transcript calls ++ [(call, (c.perform (c.run calls) call).1)] := by
  have hFrom : ∀ s, c.transcriptFrom s (calls ++ [call]) = c.transcriptFrom s calls ++
      [(call, (c.perform (calls.foldl (fun s call => (c.perform s call).2) s) call).1)] := by
    induction calls with
    | nil => exact fun _ => rfl
    | cons first rest ih =>
      intro s
      simp [transcriptFrom, ih]
  exact hFrom c.start

@[simp] theorem transcript_calls (calls : List Request) : (c.transcript calls).map Prod.fst = calls := by
  induction calls using List.reverseRecOn with
  | nil => rfl
  | append_singleton calls call ih => simp [ih]

theorem transcript_split (hSplit : c.transcript calls = earlier ++ (call, answer) :: later) :
    ∃ before after, calls = before ++ call :: after ∧ c.transcript before = earlier ∧
      (c.perform (c.run before) call).1 = answer := by
  induction calls using List.reverseRecOn generalizing later with
  | nil => simp at hSplit
  | append_singleton calls last ih =>
    rw [transcript_snoc] at hSplit
    rcases eq_nil_or_concat later with rfl | ⟨rest, final, rfl⟩
    · obtain ⟨hEarlier, hLast⟩ := append_inj' hSplit rfl
      obtain ⟨rfl, rfl⟩ := Prod.mk.inj (singleton_inj.mp hLast)
      exact ⟨calls, [], rfl, hEarlier, rfl⟩
    · rw [concat_eq_append, ← cons_append, ← append_assoc] at hSplit
      obtain ⟨before, after, rfl, hEarlier, hAnswer⟩ := ih (append_inj' hSplit rfl).1
      exact ⟨before, after ++ [last], by simp, hEarlier, hAnswer⟩

theorem invariant {P : List (Request × Answer) → State → Prop} (start : P [] c.start)
    (step : ∀ entries s call, P entries s →
      P (entries ++ [(call, (c.perform s call).1)]) (c.perform s call).2) (calls : List Request) :
    P (c.transcript calls) (c.run calls) := by
  induction calls using List.reverseRecOn with
  | nil => exact start
  | append_singleton calls call ih =>
    rw [run_snoc, transcript_snoc]
    exact step _ _ call ih

end Component

end Interaction
