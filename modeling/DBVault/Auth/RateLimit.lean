import DBVault.Domain
import DBVault.Interaction.Calls
import DBVault.Queue.Table
import Mathlib.Data.Finset.Dedup
import Mathlib.Data.Finset.Order

/-! The limit on the endpoints that take credentials: attempts are counted in fixed windows,
one for each address and path. The map of windows is cleared of old ones when it has grown. -/
namespace DBVault.Auth
open List Keyed Interaction

def loginWindow : Int := 60 * 1000000000

def loginMaxTries : Nat := 10

/-- The count is not bounded here; the source's would need 2^63 attempts within a minute
to wrap around. -/
structure Window where
  start : Time
  count : Nat
  deriving DecidableEq

def Window.Over (w : Window) (now : Time) : Prop := loginWindow ≤ now - w.start

instance (w : Window) (now : Time) : Decidable (w.Over now) :=
  inferInstanceAs (Decidable (loginWindow ≤ now - w.start))

abbrev Attempts := Table (Prod.fst : String × Window → String)

namespace Attempts

def window (attempts : Attempts) (key : String) : Option Window := (attempts.find key).map Prod.snd

def put (attempts : Attempts) (key : String) (w : Window) : Attempts := attempts.store (key, w)

def evict (attempts : Attempts) (now : Time) : Attempts where
  rows := attempts.rows.filter fun entry => ¬ entry.2.Over now
  distinct := attempts.distinct.sublist (filter_sublist.map _)

def opened (attempts : Attempts) (key : String) (now : Time) : Attempts :=
  let grown := attempts.put key ⟨now, 1⟩
  if 10000 < grown.rows.length then grown.evict now else grown

def allow (attempts : Attempts) (ip : String) (now : Time) : Bool × Attempts :=
  if ip = "" then (false, attempts)
  else match attempts.window ip with
    | none => (true, attempts.opened ip now)
    | some w =>
      if w.Over now then (true, attempts.opened ip now)
      else (w.count + 1 ≤ loginMaxTries, attempts.put ip { w with count := w.count + 1 })

end Attempts

structure Request where
  (remoteAddr path : String)

def clientIP (splitHostPort : String → Option String) (r : Request) : String :=
  (splitHostPort r.remoteAddr).getD r.remoteAddr

def attemptKey (splitHostPort : String → Option String) (r : Request) : String :=
  let ip := clientIP splitHostPort r
  if ip = "" then "" else ip ++ "|" ++ r.path

def admitLoginAttempt (splitHostPort : String → Option String) (attempts : Attempts)
    (r : Request) (now : Time) : Bool × Attempts :=
  attempts.allow (attemptKey splitHostPort r) now

namespace Attempts
variable {attempts : Attempts} {key other : String} {now : Time} {w : Window}

@[simp] theorem window_put :
    (attempts.put key w).window other = if other = key then some w else attempts.window other := by
  unfold window put
  rw [Table.find_store]
  split <;> rfl

theorem window_eq_some : attempts.window key = some w ↔ (key, w) ∈ attempts.rows := by
  unfold window
  rw [Option.map_eq_some_iff]
  constructor
  · rintro ⟨entry, hFind, rfl⟩
    obtain ⟨hMem, rfl⟩ := Table.find_eq_some.mp hFind
    exact hMem
  · intro hMem
    exact ⟨(key, w), Table.find_eq_some.mpr ⟨hMem, rfl⟩, rfl⟩

theorem window_evict_eq_some :
    (attempts.evict now).window key = some w ↔ attempts.window key = some w ∧ ¬ w.Over now := by
  rw [window_eq_some, window_eq_some]
  simp [evict]

/-- Everything an attempt can do: what it answers and which windows there are afterwards. -/
inductive Effect (attempts : Attempts) (key : String) (now : Time) : Bool × Attempts → Prop where
  /-- There is no key to count under. -/
  | refused (hKey : key = "") : Effect attempts key now (false, attempts)
  /-- A window starts. Windows of other keys stay, unless they have run out. -/
  | opened (hKey : key ≠ "") (hOver : ∀ w, attempts.window key = some w → w.Over now)
      (next : Attempts) (hOwn : next.window key = some ⟨now, 1⟩)
      (hLost : ∀ other ≠ key, next.window other = none → ∀ w, attempts.window other = some w → w.Over now)
      (hOld : ∀ other ≠ key, ∀ w, next.window other = some w → attempts.window other = some w) :
      Effect attempts key now (true, next)
  /-- The attempt is counted in the window that is running. -/
  | counted (hKey : key ≠ "") (w : Window) (hOwn : attempts.window key = some w)
      (hRuns : ¬ w.Over now) (next : Attempts)
      (hNext : ∀ other, next.window other =
        if other = key then some { w with count := w.count + 1 } else attempts.window other) :
      Effect attempts key now (decide (w.count + 1 ≤ loginMaxTries), next)

theorem allow_effect (attempts : Attempts) (key : String) (now : Time) :
    Effect attempts key now (attempts.allow key now) := by
  unfold allow
  by_cases hKey : key = ""
  · rw [if_pos hKey]
    exact .refused hKey
  rw [if_neg hKey]
  have hOpened (hOver : ∀ w, attempts.window key = some w → w.Over now) :
      Effect attempts key now (true, attempts.opened key now) := by
    refine .opened hKey hOver _ ?_ ?_ ?_
    all_goals unfold opened; dsimp only; split
    · rw [window_evict_eq_some]
      exact ⟨by simp, by simp [Window.Over, loginWindow]⟩
    · simp
    · intro other hOther hGone w hWindow
      by_contra hRuns
      have hStays : (attempts.put key ⟨now, 1⟩).window other = some w := by simp [hOther, hWindow]
      simp [window_evict_eq_some.mpr ⟨hStays, hRuns⟩] at hGone
    · intro other hOther hGone w hWindow
      simp [hOther, hWindow] at hGone
    · intro other hOther w hWindow
      simpa [hOther] using (window_evict_eq_some.mp hWindow).1
    · intro other hOther w hWindow
      simpa [hOther] using hWindow
  cases hWindow : attempts.window key with
  | none => exact hOpened (by simp [hWindow])
  | some w =>
    simp only
    split
    · rename_i hOver
      exact hOpened (by simp [hWindow, hOver])
    · rename_i hRuns
      exact .counted hKey w hWindow hRuns _ (fun other => window_put)

end Attempts

structure Attempt where
  key : String
  time : Time
  deriving DecidableEq

/-- Whether the attempt was admitted, and when the window started it was counted in. -/
structure Outcome where
  admitted : Bool
  window : Option Time
  deriving DecidableEq

def limiter : Component Attempts Attempt Outcome where
  start := .empty
  perform attempts attempt :=
    let (admitted, next) := attempts.allow attempt.key attempt.time
    (⟨admitted, (next.window attempt.key).map Window.start⟩, next)

def Request.attempt (splitHostPort : String → Option String) (now : Time) (r : Request) : Attempt :=
  ⟨attemptKey splitHostPort r, now⟩

/-- A request is admitted as the limiter answers its attempt, after the requests before it. -/
theorem admitLoginAttempt_run (splitHostPort : String → Option String) (requests : List (Request × Time))
    (r : Request) (now : Time) :
    (admitLoginAttempt splitHostPort (requests.foldl (fun attempts request =>
        (admitLoginAttempt splitHostPort attempts request.1 request.2).2) .empty) r now).1 =
      (limiter.perform (limiter.run (requests.map fun request => request.1.attempt splitHostPort request.2))
        (r.attempt splitHostPort now)).1.admitted := by
  rw [Component.run, List.foldl_map]
  rfl

def InOrder (calls : List Attempt) : Prop := calls.Pairwise fun a b => a.time ≤ b.time

def admissions (key : String) (start : Time) (entries : List (Attempt × Outcome)) : Nat :=
  entries.countP fun e => e.1.key = key ∧ e.2.admitted ∧ e.2.window = some start

def admissionsBetween (key : String) (first last : Time) (entries : List (Attempt × Outcome)) :
    Nat :=
  entries.countP fun e => e.1.key = key ∧ e.2.admitted ∧ first ≤ e.1.time ∧ e.1.time ≤ last

theorem countP_or_le {α : Type} {p q : α → Prop} [DecidablePred p] [DecidablePred q] {xs : List α} :
    (xs.countP fun x => p x ∨ q x) ≤ xs.countP (p ·) + xs.countP (q ·) := by
  induction xs with
  | nil => rfl
  | cons x xs ih =>
    simp only [countP_cons, decide_eq_true_eq]
    by_cases hp : p x <;> by_cases hq : q x <;> simp only [hp, hq, or_self, or_true, true_or,
      if_true, if_false] <;> omega

theorem admissions_snoc (key : String) (start : Time) (entries : List (Attempt × Outcome))
    (e : Attempt × Outcome) : admissions key start (entries ++ [e]) = admissions key start entries +
      if e.1.key = key ∧ e.2.admitted ∧ e.2.window = some start then 1 else 0 := by
  simp [admissions, countP_append, countP_singleton]

/-- A window of an earlier attempt: the one that is held, one that was over when the one held
started, or, where none is held, one that is over. -/
def Accounted (start now : Time) : Option Window → Prop
  | some held => start = held.start ∨ start + loginWindow ≤ held.start
  | none => start + loginWindow ≤ now

/-- What the map says about the attempts so far, none of which is later than `now`. -/
structure Agrees (attempts : Attempts) (entries : List (Attempt × Outcome)) (now : Time) : Prop where
  noKey : attempts.window "" = none
  past : ∀ key w, attempts.window key = some w → w.start ≤ now
  counted : ∀ key w, attempts.window key = some w → admissions key w.start entries ≤ w.count
  bounded : ∀ key start, admissions key start entries ≤ loginMaxTries
  within : ∀ e ∈ entries, ∀ start, e.2.window = some start → start ≤ e.1.time ∧ e.1.time < start + loginWindow
  accounted : ∀ e ∈ entries, ∀ start, e.2.window = some start → Accounted start now (attempts.window e.1.key)
  apart : ∀ e ∈ entries, ∀ e' ∈ entries, e.1.key = e'.1.key → ∀ start start',
    e.2.window = some start → e'.2.window = some start' → start < start' →
    start + loginWindow ≤ start'
  keyed : ∀ e ∈ entries, e.2.admitted = true → e.1.key ≠ "" ∧ e.2.window.isSome

namespace Agrees
variable {attempts next : Attempts} {entries : List (Attempt × Outcome)} {a : Attempt}
  {now : Time} {admitted : Bool} {key : String} {w : Window}

theorem start : Agrees .empty [] now where
  noKey := rfl
  past := by rintro key w ⟨⟩
  counted := by rintro key w ⟨⟩
  bounded := by simp [admissions]
  within := by simp
  accounted := by simp
  apart := by simp
  keyed := by simp

theorem later (h : Agrees attempts entries now) (hLater : now ≤ now') : Agrees attempts entries now' where
  noKey := h.noKey
  past key w hWindow := (h.past key w hWindow).trans hLater
  counted := h.counted
  bounded := h.bounded
  within := h.within
  accounted e he start hStart := by
    have hOld := h.accounted e he start hStart
    cases hWindow : attempts.window e.1.key with
    | some held => rwa [hWindow] at hOld
    | none =>
      rw [hWindow] at hOld
      exact le_trans hOld hLater
  apart := h.apart
  keyed := h.keyed

variable {e : Attempt × Outcome} {start : Time}

theorem over_of_opened (h : Agrees attempts entries now)
    (hOver : ∀ w, attempts.window key = some w → w.Over now) (he : e ∈ entries)
    (hKey : e.1.key = key) (hStart : e.2.window = some start) : start + loginWindow ≤ now := by
  have hOld := h.accounted e he start hStart
  subst hKey
  cases hWindow : attempts.window e.1.key with
  | some held =>
    have hHeld := hOver held hWindow
    rw [hWindow] at hOld
    simp only [Accounted, Window.Over, loginWindow] at hOld hHeld ⊢
    unfold Time at *
    omega
  | none => rwa [hWindow] at hOld

theorem admissions_now (h : Agrees attempts entries now)
    (hOver : ∀ w, attempts.window key = some w → w.Over now) : admissions key now entries = 0 := by
  rw [admissions, countP_eq_zero]
  rintro e he hHere
  obtain ⟨hKey, -, hStart⟩ := of_decide_eq_true hHere
  have hGone := h.over_of_opened hOver he hKey hStart
  simp only [loginWindow] at hGone
  unfold Time at *
  omega

theorem refused (h : Agrees attempts entries a.time) (hKey : a.key = "") :
    Agrees attempts (entries ++ [(a, ⟨false, (attempts.window a.key).map Window.start⟩)]) a.time := by
  have hNone : (attempts.window a.key).map Window.start = none := by rw [hKey, h.noKey]; rfl
  rw [hNone]
  constructor
  · exact h.noKey
  · exact h.past
  · intro key w hWindow
    simpa [admissions_snoc] using h.counted key w hWindow
  · intro key start
    simpa [admissions_snoc] using h.bounded key start
  · simpa [or_imp, forall_and] using h.within
  · simpa [or_imp, forall_and] using h.accounted
  · simpa [or_imp, forall_and] using h.apart
  · simpa [or_imp, forall_and] using h.keyed

theorem snoc (h : Agrees attempts entries a.time) (hKey : a.key ≠ "") (w : Window)
    (hOwn : next.window a.key = some w) (hRuns : w.start ≤ a.time ∧ a.time < w.start + loginWindow)
    (hEarlier : ∀ e ∈ entries, e.1.key = a.key → ∀ start, e.2.window = some start →
      start = w.start ∨ start + loginWindow ≤ w.start)
    (hCount : admissions a.key w.start entries + (if admitted then 1 else 0) ≤ w.count)
    (hBound : admissions a.key w.start entries + (if admitted then 1 else 0) ≤ loginMaxTries)
    (hOld : ∀ other ≠ a.key, ∀ w, next.window other = some w → attempts.window other = some w)
    (hLost : ∀ other ≠ a.key, next.window other = none → ∀ w, attempts.window other = some w → w.Over a.time) :
    Agrees next (entries ++ [(a, ⟨admitted, some w.start⟩)]) a.time := by
  have hHere : admissions a.key w.start (entries ++ [(a, ⟨admitted, some w.start⟩)]) =
      admissions a.key w.start entries + if admitted then 1 else 0 := by
    simp [admissions_snoc]
  have hElsewhere {key : String} {start : Time} (hNe : ¬ (key = a.key ∧ start = w.start)) :
      admissions key start (entries ++ [(a, ⟨admitted, some w.start⟩)]) = admissions key start entries := by
    rw [admissions_snoc, if_neg, Nat.add_zero]
    rintro ⟨rfl, -, hStart⟩
    cases hStart
    exact hNe ⟨rfl, rfl⟩
  constructor
  · cases hWindow : next.window "" with
    | none => rfl
    | some w => simpa [h.noKey] using hOld "" (Ne.symm hKey) w hWindow
  · intro key held hWindow
    by_cases hSame : key = a.key
    · obtain rfl : w = held := by simpa [hSame, hOwn] using hWindow
      exact hRuns.1
    · exact h.past key held (hOld key hSame held hWindow)
  · intro key held hWindow
    by_cases hSame : key = a.key
    · subst hSame
      obtain rfl : w = held := by simpa [hOwn] using hWindow
      rwa [hHere]
    · rw [hElsewhere (fun hBoth => hSame hBoth.1)]
      exact h.counted key held (hOld key hSame held hWindow)
  · intro key start
    by_cases hSame : key = a.key ∧ start = w.start
    · obtain ⟨rfl, rfl⟩ := hSame
      rwa [hHere]
    · rw [hElsewhere hSame]
      exact h.bounded key start
  · intro e he start hStart
    rcases mem_append.mp he with he | he
    · exact h.within e he start hStart
    · obtain rfl := mem_singleton.mp he
      cases hStart
      exact hRuns
  · intro e he start hStart
    rcases mem_append.mp he with he | he
    · by_cases hSame : e.1.key = a.key
      · rw [hSame, hOwn]
        exact hEarlier e he hSame start hStart
      · cases hWindow : next.window e.1.key with
        | some held =>
          have hBefore := h.accounted e he start hStart
          rwa [hOld _ hSame held hWindow] at hBefore
        | none => exact h.over_of_opened (hLost _ hSame hWindow) he rfl hStart
    · obtain rfl := mem_singleton.mp he
      cases hStart
      rw [hOwn]
      exact .inl rfl
  · -- Two windows of one key: only the one that the new attempt is counted in is new.
    intro e he e' he' hSame start start' hStart hStart' hLess
    rcases mem_append.mp he with he | he <;> rcases mem_append.mp he' with he' | he'
    · exact h.apart e he e' he' hSame start start' hStart hStart' hLess
    · obtain rfl := mem_singleton.mp he'
      cases hStart'
      exact (hEarlier e he hSame start hStart).resolve_left hLess.ne
    · obtain rfl := mem_singleton.mp he
      cases hStart
      rcases hEarlier e' he' hSame.symm start' hStart' with rfl | hOver
      · exact absurd hLess (lt_irrefl _)
      · simp only [loginWindow] at hOver
        unfold Time at *
        omega
    · obtain rfl := mem_singleton.mp he
      obtain rfl := mem_singleton.mp he'
      cases hStart
      cases hStart'
      exact absurd hLess (lt_irrefl _)
  · simpa [or_imp, forall_and, hKey] using h.keyed

theorem allow (h : Agrees attempts entries a.time) :
    Agrees (limiter.perform attempts a).2 (entries ++ [(a, (limiter.perform attempts a).1)]) a.time := by
  have hEffect := Attempts.allow_effect attempts a.key a.time
  unfold limiter
  simp only
  generalize attempts.allow a.key a.time = result at hEffect ⊢
  cases hEffect with
  | refused hKey => exact h.refused hKey
  | opened hKey hOver next hOwn hLost hOld =>
    have hNone := h.admissions_now hOver
    simp only [hOwn, Option.map_some]
    refine h.snoc hKey ⟨a.time, 1⟩ hOwn ⟨le_refl _, ?_⟩ ?_ (by simp [hNone])
      (by simp [hNone, loginMaxTries]) hOld hLost
    · exact lt_add_of_pos_right _ (by decide)
    · intro e he hKey start hStart
      exact .inr (h.over_of_opened hOver he hKey hStart)
  | counted hKey w hOwn hRuns next hNext =>
    have hHeld : next.window a.key = some { w with count := w.count + 1 } := by simp [hNext]
    have hCounted := h.counted a.key w hOwn
    have hBounded := h.bounded a.key w.start
    simp only [hHeld, Option.map_some]
    refine h.snoc hKey ⟨w.start, w.count + 1⟩ hHeld ⟨h.past a.key w hOwn, ?_⟩ ?_ ?_ ?_ ?_ ?_
    · simp only [Window.Over] at hRuns ⊢
      unfold Time at *
      omega
    · intro e he hSame start hStart
      have hBefore := h.accounted e he start hStart
      rwa [hSame, hOwn] at hBefore
    · simp only [decide_eq_true_eq]
      split <;> omega
    · simp only [decide_eq_true_eq]
      split <;> omega
    · intro other hOther held hWindow
      rwa [hNext, if_neg hOther] at hWindow
    · intro other hOther hGone held hWindow
      rw [hNext, if_neg hOther, hWindow] at hGone
      cases hGone

variable {first last : Time}

theorem one_of_two (h : Agrees attempts entries now) (hShort : last - first < loginWindow)
    {e₁ e₂ : Attempt × Outcome} {start₁ start₂ : Time} (he₁ : e₁ ∈ entries) (he₂ : e₂ ∈ entries)
    (he : e ∈ entries) (hKey₁ : e₁.1.key = e.1.key) (hKey₂ : e₂.1.key = e.1.key)
    (hStart₁ : e₁.2.window = some start₁) (hStart₂ : e₂.2.window = some start₂)
    (hStart : e.2.window = some start) (hTime₁ : first ≤ e₁.1.time ∧ e₁.1.time ≤ last)
    (hTime₂ : first ≤ e₂.1.time ∧ e₂.1.time ≤ last) (hTime : first ≤ e.1.time ∧ e.1.time ≤ last)
    (hNe : start₁ ≠ start₂) : start = start₁ ∨ start = start₂ := by
  have hWithin₁ := h.within e₁ he₁ start₁ hStart₁
  have hWithin₂ := h.within e₂ he₂ start₂ hStart₂
  have hWithin := h.within e he start hStart
  have h₁₂ := h.apart e₁ he₁ e₂ he₂ (hKey₁.trans hKey₂.symm) _ _ hStart₁ hStart₂
  have h₂₁ := h.apart e₂ he₂ e₁ he₁ (hKey₂.trans hKey₁.symm) _ _ hStart₂ hStart₁
  have h₁ := h.apart e₁ he₁ e he hKey₁ _ _ hStart₁ hStart
  have h₁' := h.apart e he e₁ he₁ hKey₁.symm _ _ hStart hStart₁
  have h₂ := h.apart e₂ he₂ e he hKey₂ _ _ hStart₂ hStart
  have h₂' := h.apart e he e₂ he₂ hKey₂.symm _ _ hStart hStart₂
  unfold Time at *
  omega

theorem admissionsBetween_le (h : Agrees attempts entries now) (hShort : last - first < loginWindow) :
    admissionsBetween key first last entries ≤ loginMaxTries + loginMaxTries := by
  -- Either one window holds all of the interval's attempts, or two do.
  have hTwo : ∃ start₁ start₂, ∀ e ∈ entries,
      e.1.key = key ∧ e.2.admitted = true ∧ first ≤ e.1.time ∧ e.1.time ≤ last →
        e.2.window = some start₁ ∨ e.2.window = some start₂ := by
    by_contra hMore
    push Not at hMore
    obtain ⟨e₁, he₁, ⟨hKey₁, hAdmitted₁, hTime₁⟩, -⟩ := hMore 0 0
    obtain ⟨start₁, hStart₁⟩ := Option.isSome_iff_exists.mp (h.keyed e₁ he₁ hAdmitted₁).2
    obtain ⟨e₂, he₂, ⟨hKey₂, hAdmitted₂, hTime₂⟩, hNe, -⟩ := hMore start₁ start₁
    obtain ⟨start₂, hStart₂⟩ := Option.isSome_iff_exists.mp (h.keyed e₂ he₂ hAdmitted₂).2
    obtain ⟨e, he, ⟨hKey, hAdmitted, hTime⟩, hNe₁, hNe₂⟩ := hMore start₁ start₂
    obtain ⟨start, hStart⟩ := Option.isSome_iff_exists.mp (h.keyed e he hAdmitted).2
    rcases h.one_of_two hShort he₁ he₂ he (hKey₁.trans hKey.symm) (hKey₂.trans hKey.symm)
      hStart₁ hStart₂ hStart hTime₁ hTime₂ hTime (fun hSame => hNe (hSame ▸ hStart₂)) with rfl | rfl
    · exact hNe₁ hStart
    · exact hNe₂ hStart
  obtain ⟨start₁, start₂, hTwo⟩ := hTwo
  calc admissionsBetween key first last entries
      ≤ entries.countP fun e => (e.1.key = key ∧ e.2.admitted ∧ e.2.window = some start₁) ∨
          (e.1.key = key ∧ e.2.admitted ∧ e.2.window = some start₂) := by
        apply countP_mono_left
        intro e he hHere
        have hHere := of_decide_eq_true hHere
        have hWindow := hTwo e he hHere
        simpa [hHere.1, hHere.2.1] using hWindow
    _ ≤ admissions key start₁ entries + admissions key start₂ entries := by exact countP_or_le
    _ ≤ loginMaxTries + loginMaxTries := Nat.add_le_add (h.bounded _ _) (h.bounded _ _)

end Agrees

theorem agrees_run (hOrder : InOrder calls)
    (hNow : ∀ a ∈ calls, a.time ≤ now) : Agrees (limiter.run calls) (limiter.transcript calls) now := by
  induction calls using List.reverseRecOn generalizing now with
  | nil => exact .start
  | append_singleton calls a ih =>
    obtain ⟨hBefore, -, hLast⟩ := pairwise_append.mp hOrder
    rw [Component.run_snoc, Component.transcript_snoc]
    have hAgrees := ih hBefore (fun b hb => hLast b hb a (mem_singleton_self a))
    exact hAgrees.allow.later (hNow a (by simp))

theorem window_of_runs (hNoKey : attempts.window "" = none) (hWindow : attempts.window key = some w)
    (hRuns : ¬ w.Over a.time) :
    (limiter.perform attempts a).2.window key =
      some { w with count := if a.key = key then w.count + 1 else w.count } := by
  have hEffect := Attempts.allow_effect attempts a.key a.time
  unfold limiter
  simp only
  generalize attempts.allow a.key a.time = result at hEffect ⊢
  cases hEffect with
  | refused hKey =>
    have hNe : a.key ≠ key := by
      rintro rfl
      simp [hKey, hNoKey] at hWindow
    simp [hNe, hWindow]
  | opened hKey hOver next hOwn hLost hOld =>
    have hNe : key ≠ a.key := fun hSame => hRuns (hOver w (hSame ▸ hWindow))
    cases hNext : next.window key with
    | none => exact absurd (hLost key hNe hNext w hWindow) hRuns
    | some held =>
      obtain rfl : held = w := by simpa [hOld key hNe held hNext] using hWindow
      simp [Ne.symm hNe]
  | counted hKey held hOwn _ next hNext =>
    simp only [hNext]
    by_cases hSame : key = a.key
    · subst hSame
      obtain rfl : held = w := by simpa [hOwn] using hWindow
      simp
    · simp [hSame, Ne.symm hSame, hWindow]

/-- At most ten attempts are admitted in a window and twenty within less than a minute. A
running window is not reset, neither by other keys nor by eviction, and nothing is admitted
without a key. -/
theorem login_attempts_limited (calls : List Attempt) (hOrder : InOrder calls) :
    (∀ key start, admissions key start (limiter.transcript calls) ≤ 10) ∧
    (∀ key first last, last - first < loginWindow →
      admissionsBetween key first last (limiter.transcript calls) ≤ 20) ∧
    (∀ before a after, calls = before ++ a :: after → ∀ key w,
      (limiter.run before).window key = some w → ¬ w.Over a.time →
        (limiter.run (before ++ [a])).window key =
          some { w with count := if a.key = key then w.count + 1 else w.count }) ∧
    ∀ e ∈ limiter.transcript calls, e.1.key = "" → e.2.admitted = false := by
  obtain ⟨now, hNow⟩ : ∃ now : Time, ∀ a ∈ calls, a.time ≤ now := by
    obtain ⟨now, hNow⟩ := (calls.map Attempt.time).toFinset.exists_le
    exact ⟨now, fun a ha => hNow _ (by simpa using ⟨a, ha, rfl⟩)⟩
  have hAgrees := agrees_run hOrder hNow
  refine ⟨hAgrees.bounded, fun key first last => hAgrees.admissionsBetween_le, ?_, ?_⟩
  · rintro before a after rfl key w hWindow hRuns
    obtain ⟨hBefore, -, hLater⟩ := pairwise_append.mp hOrder
    have hThen := agrees_run hBefore (fun b hb => hLater b hb a mem_cons_self)
    rw [Component.run_snoc]
    exact window_of_runs hThen.noKey hWindow hRuns
  · intro e he hKey
    by_contra hAdmitted
    exact (hAgrees.keyed e he (by simpa using hAdmitted)).1 hKey

/-- Twelve attempts from one address within a second, one from another, and one a minute later. -/
def burst : List Attempt :=
  List.replicate 12 ⟨"198.51.100.7|/api/v1/auth/login", 0⟩ ++
    [⟨"203.0.113.9|/api/v1/auth/login", 1000000000⟩, ⟨"198.51.100.7|/api/v1/auth/login", 60000000000⟩]

theorem burst_limited : InOrder burst ∧
    admissions "198.51.100.7|/api/v1/auth/login" 0 (limiter.transcript burst) = 10 ∧
    admissionsBetween "198.51.100.7|/api/v1/auth/login" 1 60000000000 (limiter.transcript burst) ≤ 20 := by
  have hOrder : InOrder burst := by unfold InOrder; decide +kernel
  exact ⟨hOrder, by decide +kernel, (login_attempts_limited burst hOrder).2.1 _ _ _ (by decide)⟩

end DBVault.Auth
