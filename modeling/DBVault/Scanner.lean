import DBVault.Ports.Paging

/-! The two readers that look for completion records: `repository.Scanner.Scan`
goes through the whole listing and compares it with the catalogue, recovery's
`Startup` counts them in the first page. -/
namespace DBVault
open List Text Interaction Program

def isCompletion (obj : StoredObject) : Bool := "/complete.json".toList.isSuffixOf obj.key.toList

namespace Scanner

inductive Mode where
  | quick | standard | deep | forensic
  deriving DecidableEq

structure ScanResult where
  repositoryID : String
  mode : Mode
  validSnapshots : Int := 0
  localOnlySnapshots : List String := []
  startedAt : Time
  completedAt : Time := .zero

/-- The result so far, with the keys of the map `seen`. -/
structure Survey where
  out : ScanResult
  seen : List String := []

def Survey.see (st : Survey) (obj : StoredObject) : Survey :=
  if isCompletion obj then
    { out := { st.out with validSnapshots := st.out.validSnapshots + 1 }
      seen := obj.key :: st.seen }
  else st

def Survey.localOnly (st : Survey) (snaps : List Snapshot) : List String :=
  (snaps.filter fun snap => snap.status = .committed ∧ snap.completionObjectKey ∉ st.seen).map (·.id)

/-- `Scanner.Scan`; an error of the catalogue is taken for an empty one. -/
def scan (repo : String) (mode : Mode) (fuel : Nat) : Prog (Option (ScanResult × Option GoError)) := do
  let start ← ask .now
  match ← forPages "snapshots/" (fun obj st => pure (Survey.see st obj)) fuel ""
      { out := { repositoryID := repo, mode := mode, startedAt := start } } with
  | none => pure none
  | some (st, some err) => pure (some (st.out, some err))
  | some (st, none) =>
    let answer ← ask (.listSnapshots "")
    let snaps := match answer with
      | .ok snaps => snaps
      | .error _ => []
    let done ← ask .now
    pure (some ({ st.out with
      localOnlySnapshots := st.localOnly snaps
      completedAt := done }, none))

section
variable (objs : List StoredObject) (st : Survey)

theorem foldl_see_valid : (objs.foldl Survey.see st).out.validSnapshots =
    st.out.validSnapshots + (objs.filter isCompletion).length := by
  induction objs generalizing st with
  | nil => simp
  | cons obj rest ih =>
    rw [foldl_cons, ih, Survey.see]
    by_cases h : isCompletion obj = true
    · simp only [h, if_true, filter_cons_of_pos, length_cons, Int.natCast_add, Int.cast_ofNat_Int]
      omega
    · rw [if_neg h, filter_cons_of_neg h]

theorem mem_foldl_see {key : String} : key ∈ (objs.foldl Survey.see st).seen ↔
    key ∈ st.seen ∨ key ∈ (objs.filter isCompletion).map (·.key) := by
  induction objs generalizing st with
  | nil => simp
  | cons obj rest ih =>
    rw [foldl_cons, ih, Survey.see]
    by_cases h : isCompletion obj = true
    · simp only [h, if_true, filter_cons_of_pos, mem_cons, map_cons]
      rw [or_assoc, or_left_comm]
    · rw [if_neg h, filter_cons_of_neg h]

end

/-- What `Scan` finds, if it sees `objs`. -/
structure Found (w : World) (objs : List StoredObject) (r : ScanResult) : Prop where
  valid : r.validSnapshots = (objs.filter isCompletion).length
  localOnly : ∀ id, id ∈ r.localOnlySnapshots ↔ ∃ row ∈ w.rows, row.snapshot.id = id ∧
    row.snapshot.status = .committed ∧
    row.snapshot.completionObjectKey ∉ (objs.filter isCompletion).map (·.key)

theorem perform_listSnapshots_clean (P : Ports) (w : World) {c : Choice} (hc : c.Clean) :
    perform P w (.listSnapshots "") c = (.ok (w.rows.map (·.snapshot)), w) := by
  have hFault : c.fault = .none := hc
  simp [perform, reading, hFault]

theorem scan_ensures {P : Ports} {w : World} {fuel : Nat} (hFuel : w.objects.entries.length < fuel)
    (hRefused : ∀ err, P.backend.shown w.objects "snapshots/" = .error err → w.rows = []) (repo : String)
    (mode : Mode) :
    (scan repo mode fuel).Ensures (environment P) Choice.Clean w fun result _ =>
      ∃ r err, result = some (r, err) ∧
        Found w ((P.backend.covered w.objects "snapshots/").map P.backend.shownAs) r := by
  refine ensures_read (fun _ => rfl) ?_
  intro c _
  rcases P.backend.shown_eq w.objects "snapshots/" with hShown | ⟨err, hShown, hNone⟩
  · have hVisit : ∀ obj (st : Survey), (pure (st.see obj) : Prog Survey).Ensures (environment P)
        Choice.Clean w fun st' w' => w' = w ∧ st' = st.see obj := fun _ _ => ⟨rfl, rfl⟩
    refine ensures_bind (forPages_ensures hVisit hShown ((Backend.rest_length hShown).trans_lt hFuel) _) ?_
    rintro _ w' ⟨hWorld, rfl⟩
    rw [hWorld]
    refine ensures_ask_bind (fun _ hc => perform_listSnapshots_clean P w hc) ?_
    refine ensures_read (fun _ => rfl) ?_
    intro c' _
    refine ⟨_, none, rfl, ?_, ?_⟩
    · simp [foldl_see_valid]
    · intro id
      simp only [Survey.localOnly, mem_map, mem_filter, mem_foldl_see, not_mem_nil, false_or, decide_eq_true_eq]
      constructor
      · rintro ⟨_, ⟨⟨row, hRow, rfl⟩, hStatus, hKey⟩, rfl⟩
        exact ⟨row, hRow, rfl, hStatus, hKey⟩
      · rintro ⟨row, hRow, rfl, hStatus, hKey⟩
        exact ⟨_, ⟨⟨row, hRow, rfl⟩, hStatus, hKey⟩, rfl⟩
  · refine ensures_bind (forPages_refused hShown (Nat.zero_lt_of_lt hFuel) _) ?_
    rintro _ w' ⟨hWorld, rfl⟩
    refine ⟨_, some err, rfl, ?_, ?_⟩
    · simp [Backend.covered_eq_nil hNone]
    · simp [hRefused err hShown]

end Scanner

namespace Recovery

structure Summary where
  (recoveredJobs remoteCompletions : Int := 0)
  interruptedJobs : List String := []

def countCompletions (out : Summary) : Prog Summary := do
  match ← ask (.list ⟨"snapshots/", "", 1000⟩) with
  | .error _ => pure out
  | .ok res =>
    pure { out with
      remoteCompletions := out.remoteCompletions + (res.objects.filter isCompletion).length }

/-- `Service.Startup`, with what `RecoverExpired` of the queue has returned, if
there is a queue. -/
def startup (recovered : Option (Result (List String))) : Prog (Summary × Option GoError) :=
  match recovered with
  | some (.error err) => pure ({}, some err)
  | some (.ok ids) => do
      let out ← countCompletions { recoveredJobs := ids.length, interruptedJobs := ids }
      pure (out, none)
  | none => do
      let out ← countCompletions {}
      pure (out, none)

theorem countCompletions_ensures (P : Ports) (w : World) (out : Summary) :
    (countCompletions out).Ensures (environment P) Choice.Clean w fun result _ =>
      result.remoteCompletions = out.remoteCompletions +
        (((P.backend.firstPage (P.backend.covered w.objects "snapshots/")).map
          P.backend.shownAs).filter isCompletion).length := by
  cases hList : P.backend.list w.objects ⟨"snapshots/", "", 1000⟩ with
  | ok res =>
    refine ensures_ask_bind (fun _ hc => perform_list_clean hc hList) ?_
    rw [← Backend.list_firstPage hList]
    exact rfl
  | error err =>
    refine ensures_ask_bind (fun _ hc => perform_list_clean hc hList) ?_
    have hShown : P.backend.shown w.objects "snapshots/" = .error err := Backend.list_error hList
    rcases P.backend.shown_eq w.objects "snapshots/" with hOk | ⟨_, _, hNone⟩
    · rw [hOk] at hShown
      cases hShown
    · rw [Backend.covered_eq_nil hNone]
      cases P.backend <;> exact (Int.add_zero _).symm

theorem startup_ensures (P : Ports) (w : World) {recovered : Option (Result (List String))}
    (hRecovered : ∀ err, recovered ≠ some (.error err)) :
    (startup recovered).Ensures (environment P) Choice.Clean w fun result _ =>
      result.1.remoteCompletions =
        (((P.backend.firstPage (P.backend.covered w.objects "snapshots/")).map
          P.backend.shownAs).filter isCompletion).length := by
  match recovered with
  | some (.error err) => exact absurd rfl (hRecovered err)
  | some (.ok ids) =>
    refine ensures_bind (countCompletions_ensures P w _) ?_
    intro out w' hCount
    exact hCount.trans (Int.zero_add _)
  | none =>
    refine ensures_bind (countCompletions_ensures P w _) ?_
    intro out w' hCount
    exact hCount.trans (Int.zero_add _)

end Recovery

end DBVault
