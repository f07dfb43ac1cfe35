import DBVault.Interaction.Trace
import DBVault.Ports.History
import DBVault.Storage.Listing

/-! The loop that goes through a listing page by page. On a store that nobody
changes meanwhile it visits all that the listing has to show. -/
namespace DBVault
open List Interaction Program

def visitAll {σ : Type} (visit : StoredObject → σ → Prog σ) : List StoredObject → σ → Prog σ
  | [], st => pure st
  | obj :: rest, st => do visitAll visit rest (← visit obj st)

/-- Go through a listing, a thousand objects a page, until there are no more
pages or there is an error; `none` after as many pages as there is fuel. -/
def forPages {σ : Type} (pathPrefix : String) (visit : StoredObject → σ → Prog σ) :
    Nat → String → σ → Prog (Option (σ × Option GoError))
  | 0, _, _ => pure none
  | fuel + 1, token, st => do
      match ← ask (.list ⟨pathPrefix, token, 1000⟩) with
      | .error err => pure (some (st, some err))
      | .ok res =>
        let st ← visitAll visit res.objects st
        if res.hasMore then forPages pathPrefix visit fuel res.continuationToken st
        else pure (some (st, none))

section
variable {σ : Type} {allowed : Op → Prop} {visit : StoredObject → σ → Prog σ}
  (hVisit : ∀ obj st, (visit obj st).Asks allowed)
include hVisit

theorem visitAll_asks (objs : List StoredObject) (st : σ) : (visitAll visit objs st).Asks allowed := by
  induction objs generalizing st with
  | nil => trivial
  | cons obj rest ih => exact asks_bind (hVisit obj st) ih

theorem forPages_asks (hList : ∀ token, allowed (.list ⟨pathPrefix, token, 1000⟩))
    (fuel : Nat) (token : String) (st : σ) : (forPages pathPrefix visit fuel token st).Asks allowed := by
  induction fuel generalizing token st with
  | zero => trivial
  | succ fuel ih =>
    refine asks_ask_bind (hList token) ?_
    intro answer
    match answer with
    | .error err => trivial
    | .ok res =>
      refine asks_bind (visitAll_asks hVisit res.objects st) ?_
      intro st'
      split
      · exact ih _ _
      · trivial

end

section
variable {P : Ports} {w : World} {allowed : World → Op → Choice → Prop} {past : List PastCall}

theorem leads_read {α : Type} {op : Op} {f : Answer op → Prog α}
    {post : α → World → List PastCall → Prop} (hSame : ∀ c, (perform P w op c).2 = w)
    (h : ∀ c, allowed w op c → (f (perform P w op c).1).Leads ⟨perform P, allowed⟩ w
      (⟨op, (perform P w op c).1⟩ :: past) post) :
    (ask op >>= f).Leads ⟨perform P, allowed⟩ w past post := by
  intro c hc
  change Program.Leads _ (f _) (perform P w op c).2 _ _
  rw [hSame c]
  exact h c hc

variable {σ : Type} {visit : StoredObject → σ → Prog σ} {inv : List StoredObject → σ → List PastCall → Prop}

/-- How the loop ends: with everything visited, at a page that was refused, or
without fuel for all the pages. -/
inductive Paged (P : Ports) (w : World) (allowed : World → Op → Choice → Prop) (pathPrefix : String)
    (inv : List StoredObject → σ → List PastCall → Prop) (seen : List StoredObject) (fuel : Nat)
    (token : String) : Option (σ × Option GoError) → List PastCall → Prop where
  | all {objs : List StoredObject} {st : σ} {later : List PastCall}
      (hRest : P.backend.rest w.objects pathPrefix token = .ok objs)
      (hInv : inv (seen ++ objs) st later) :
      Paged P w allowed pathPrefix inv seen fuel token (some (st, none)) later
  | refused {visited : List StoredObject} {next : String} {st : σ} {past : List PastCall}
      {c : Choice} {err : GoError} (hInv : inv visited st past)
      (hAllowed : allowed w (.list ⟨pathPrefix, next, 1000⟩) c)
      (hAnswer : (perform P w (.list ⟨pathPrefix, next, 1000⟩) c).1 = .error err) :
      Paged P w allowed pathPrefix inv seen fuel token (some (st, some err))
        (⟨.list ⟨pathPrefix, next, 1000⟩, .error err⟩ :: past)
  | exhausted {later : List PastCall}
      (hFuel : fuel = 0 ∨ ∃ objs, P.backend.rest w.objects pathPrefix token = .ok objs ∧ fuel ≤ objs.length) :
      Paged P w allowed pathPrefix inv seen fuel token none later

theorem fuel_le_objects {fuel : Nat}
    (h : fuel = 0 ∨ ∃ objs, P.backend.rest w.objects pathPrefix token = .ok objs ∧ fuel ≤ objs.length) :
     fuel ≤ w.objects.entries.length := by
  rcases h with rfl | ⟨objs, hObjs, hFuel⟩
  · exact Nat.zero_le _
  · exact hFuel.trans (Backend.rest_length hObjs)

variable (hVisit : ∀ seen obj st past, inv seen st past →
  (visit obj st).Leads ⟨perform P, allowed⟩ w past fun st' w' later => w' = w ∧ inv (seen ++ [obj]) st' later)
include hVisit

theorem visitAll_leads {objs seen : List StoredObject} {st : σ} (hInv : inv seen st past) :
    (visitAll visit objs st).Leads ⟨perform P, allowed⟩ w past
      fun st' w' later => w' = w ∧ inv (seen ++ objs) st' later := by
  induction objs generalizing seen st past with
  | nil => exact ⟨rfl, by simpa using hInv⟩
  | cons obj rest ih =>
    refine leads_bind (hVisit seen obj st past hInv) ?_
    rintro st' _ later ⟨rfl, hSeen⟩
    simpa using ih hSeen

theorem forPages_leads
    (hList : ∀ seen st past req res, inv seen st past → inv seen st (⟨.list req, .ok res⟩ :: past))
    (pathPrefix : String) (fuel : Nat) {token : String} (seen : List StoredObject) {st : σ} (hInv : inv seen st past) :
    (forPages pathPrefix visit fuel token st).Leads ⟨perform P, allowed⟩ w past
      fun result w' later => w' = w ∧ Paged P w allowed pathPrefix inv seen fuel token result later := by
  induction fuel generalizing token seen st past with
  | zero => exact ⟨rfl, .exhausted (.inl rfl)⟩
  | succ fuel ih =>
    refine leads_read (fun _ => rfl) ?_
    intro c hAllowed
    generalize hAnswer : (perform P w (.list ⟨pathPrefix, token, 1000⟩) c).1 = answer
    cases answer with
    | error err => exact ⟨rfl, .refused hInv hAllowed hAnswer⟩
    | ok res =>
      obtain ⟨later, hRest, hMore⟩ := Backend.list_page (reading_ok hAnswer)
      refine leads_bind (visitAll_leads hVisit (hList _ _ _ _ res hInv)) ?_
      rintro st' _ past' ⟨rfl, hSeen⟩
      cases hHas : res.hasMore with
      | false =>
        simp only [hHas, Bool.false_eq_true, if_false] at hMore ⊢
        exact ⟨rfl, .all (by simpa [hMore] using hRest) hSeen⟩
      | true =>
        simp only [hHas, if_true] at hMore ⊢
        refine (ih _ hSeen).mono ?_
        rintro result _ last ⟨rfl, hResult⟩
        refine ⟨rfl, ?_⟩
        cases hResult with
        | @all objs _ _ hObjs hAll =>
          obtain rfl : later = objs := Except.ok.inj (hMore.2.symm.trans hObjs)
          exact .all hRest (by simpa using hAll)
        | refused hLast hAllowed' hAnswer' => exact .refused hLast hAllowed' hAnswer'
        | exhausted hFuel =>
          have hPage : 0 < res.objects.length := length_pos_of_ne_nil hMore.1
          have hLater : fuel ≤ later.length := by
            rcases hFuel with rfl | ⟨objs, hObjs, hLength⟩
            · exact Nat.zero_le _
            · obtain rfl : later = objs := Except.ok.inj (hMore.2.symm.trans hObjs)
              exact hLength
          refine .exhausted (.inr ⟨_, hRest, ?_⟩)
          rw [length_append]
          omega

end

section
variable {P : Ports} {w : World} {σ : Type} {visit : StoredObject → σ → Prog σ}
  {effect : σ → StoredObject → σ}

theorem ensures_read {α : Type} {op : Op} {f : Answer op → Prog α} {post : α → World → Prop}
    (hSame : ∀ c, (perform P w op c).2 = w)
    (h : ∀ c, c.Clean → (f (perform P w op c).1).Ensures (environment P) Choice.Clean w post) :
    (ask op >>= f).Ensures (environment P) Choice.Clean w post := by
  intro c hc
  change Program.Ensures _ _ (f _) (perform P w op c).2 _
  rw [hSame c]
  exact h c hc

theorem perform_list_clean (hc : c.Clean) (hList : P.backend.list w.objects req = answer) :
    perform P w (.list req) c = (answer, w) := by
  have hFault : c.fault = .none := hc
  simp only [perform, reading, hFault, hList]

variable (hVisit : ∀ obj st, (visit obj st).Ensures (environment P) Choice.Clean w
  fun st' w' => w' = w ∧ st' = effect st obj)
include hVisit

theorem visitAll_ensures (objs : List StoredObject) (st : σ) :
    (visitAll visit objs st).Ensures (environment P) Choice.Clean w
      fun st' w' => w' = w ∧ st' = objs.foldl effect st := by
  induction objs generalizing st with
  | nil => exact ⟨rfl, rfl⟩
  | cons obj rest ih =>
    refine ensures_bind (hVisit obj st) ?_
    rintro _ _ ⟨rfl, rfl⟩
    exact ih (effect st obj)

theorem forPages_ensures {fuel : Nat}
    (hRest : P.backend.rest w.objects pathPrefix token = .ok objs) (hFuel : objs.length < fuel) (st : σ) :
    (forPages pathPrefix visit fuel token st).Ensures (environment P) Choice.Clean w
      fun result w' => w' = w ∧ result = some (objs.foldl effect st, none) := by
  induction fuel generalizing token objs st with
  | zero => omega
  | succ fuel ih =>
    cases hList : P.backend.list w.objects ⟨pathPrefix, token, 1000⟩ with
    | error err =>
      rw [Backend.list_error hList] at hRest
      cases hRest
    | ok res =>
      obtain ⟨later, hShown, hMore⟩ := Backend.list_page hList
      obtain rfl : res.objects ++ later = objs := Except.ok.inj (hShown.symm.trans hRest)
      refine ensures_ask_bind (fun _ hc => perform_list_clean hc hList) ?_
      refine ensures_bind (visitAll_ensures hVisit res.objects st) ?_
      rintro _ w' ⟨hWorld, rfl⟩
      rw [hWorld]
      cases hHas : res.hasMore with
      | false =>
        simp only [hHas, Bool.false_eq_true, if_false] at hMore ⊢
        exact ⟨rfl, by simp [hMore]⟩
      | true =>
        simp only [hHas, if_true] at hMore ⊢
        have hPage : 0 < res.objects.length := length_pos_of_ne_nil hMore.1
        rw [length_append] at hFuel
        refine (ih hMore.2 (by omega) _).mono ?_
        rintro result _ ⟨rfl, rfl⟩
        exact ⟨rfl, by simp⟩

omit hVisit in
theorem forPages_refused {fuel : Nat}
    (hRest : P.backend.rest w.objects pathPrefix token = .error err) (hFuel : 0 < fuel) (st : σ) :
    (forPages pathPrefix visit fuel token st).Ensures (environment P) Choice.Clean w
      fun result w' => w' = w ∧ result = some (st, some err) := by
  obtain ⟨fuel, rfl⟩ := Nat.exists_eq_succ_of_ne_zero hFuel.ne'
  cases hList : P.backend.list w.objects ⟨pathPrefix, token, 1000⟩ with
  | ok res =>
    obtain ⟨later, hShown, -⟩ := Backend.list_page hList
    rw [hShown] at hRest
    cases hRest
  | error err' =>
    obtain rfl : err' = err := Except.error.inj ((Backend.list_error hList).symm.trans hRest)
    exact ensures_ask_bind (fun _ hc => perform_list_clean hc hList) ⟨rfl, rfl⟩

end

end DBVault
