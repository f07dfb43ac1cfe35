import DBVault.Interaction.Trace
import DBVault.Restore.RoundTrip

/-! What `Restore` leaves behind when it fails. -/
namespace DBVault.Restore
open List Text Interaction RemoteService Attempt World

/-- A file that could not be opened or renamed is as it was, and removing files
does not fail. Every other operation may fail in any way. -/
def definite : Op → Choice → Prop
  | .openTrunc _, c | .rename .., c => ∀ err, c.fault ≠ .lose err
  | .remove _, c => (∀ err, c.fault ≠ .refuse err) ∧ ∀ err, c.fault ≠ .lose err
  | _, _ => True

instance (fault : Fault) : Decidable (∀ err, fault ≠ .lose err) :=
  match fault with
  | .lose err => .isFalse fun h => h err rfl
  | .none | .refuse _ | .cut .. | .garble _ => .isTrue fun _ => Fault.noConfusion

instance (fault : Fault) : Decidable (∀ err, fault ≠ .refuse err) :=
  match fault with
  | .refuse err => .isFalse fun h => h err rfl
  | .none | .lose _ | .cut .. | .garble _ => .isTrue fun _ => Fault.noConfusion

instance : (op : Op) → (c : Choice) → Decidable (definite op c) := by
  intro op c
  unfold definite
  split <;> infer_instance

abbrev definiteEnvironment (P : Ports) : Environment Answer World Choice := ⟨perform P, fun _ => definite⟩

instance (P : Ports) (w : World) (op : Op) (c : Choice) :
    Decidable ((definiteEnvironment P).admissible w op c) :=
  inferInstanceAs (Decidable (definite op c))

variable {err : GoError} {newPath : String}

theorem writing_error {α σ : Type} {c : Choice} {answer : Result α} {before after : σ}
    (hAnswer : ∃ value, answer = .ok value) (hLose : ∀ err, c.fault ≠ .lose err)
    (h : (writing c answer before after).1 = .error err) : (writing c answer before after).2 = before := by
  obtain ⟨value, rfl⟩ := hAnswer
  unfold writing at h ⊢
  cases hFault : c.fault with
  | refuse err => rfl
  | lose err => exact absurd hFault (hLose err)
  | none => simp [hFault] at h
  | cut length err => simp [hFault] at h
  | garble bytes => simp [hFault] at h

variable (P : Ports) {w : World} {c : Choice} {path target : String}

theorem openTrunc_error (hDefinite : definite (.openTrunc path) c)
    (h : (perform P w (.openTrunc path) c).1 = .error err) : (perform P w (.openTrunc path) c).2 = w :=
  writing_error ⟨(), rfl⟩ hDefinite h

theorem rename_error (hDefinite : definite (.rename path newPath) c)
    (h : (perform P w (.rename path newPath) c).1 = .error err) :
    (perform P w (.rename path newPath) c).2 = w := by
  simp only [perform] at h ⊢
  cases hFile : w.files path with
  | none => rfl
  | some bytes =>
    simp only [hFile] at h
    exact writing_error ⟨(), rfl⟩ hDefinite h

theorem remove_definite (hDefinite : definite (.remove path) c) :
    perform P w (.remove path) c = (.ok (), w.setFile path none) := by
  simp only [perform, writing]
  cases hFault : c.fault with
  | refuse err => exact absurd hFault (hDefinite.1 err)
  | lose err => exact absurd hFault (hDefinite.2 err)
  | _ => rfl

def filling (tmp : String) : Op → Prop
  | .remove _ | .openTrunc _ | .rename .. => False
  | .truncate path _ | .writeAt path _ _ => path = tmp
  | _ => True

/-- The files are as before, up to what the temporary file has in it. -/
structure SameFiles (tmp : String) (w w' : World) : Prop where
  others : ∀ path, path ≠ tmp → w'.files path = w.files path
  tmp : w'.files tmp = none ↔ w.files tmp = none

variable {tmp : String}

theorem SameFiles.rfl : SameFiles tmp w w := ⟨fun _ _ => .refl _, .refl _⟩

theorem SameFiles.trans {w' w'' : World} (h : SameFiles tmp w w')
    (h' : SameFiles tmp w' w'') : SameFiles tmp w w'' :=
  ⟨fun path hPath => (h'.others path hPath).trans (h.others path hPath), h'.tmp.trans h.tmp⟩

theorem sameFiles_setFile {old new : Bytes} (h : w.files tmp = some old) :
    SameFiles tmp w (w.setFile tmp (some new)) :=
  ⟨fun _ hPath => setFile_files_of_ne _ _ hPath, by simp [h]⟩

theorem sameFiles_perform {op : Op} (h : filling tmp op) (c : Choice) :
    SameFiles tmp w (perform P w op c).2 := by
  cases op with
  | remove | openTrunc | rename => exact h.elim
  | truncate path size =>
    obtain rfl : path = tmp := h
    simp only [perform]
    split
    · exact .rfl
    · rename_i bytes hFile
      exact writing_elim .rfl (sameFiles_setFile hFile)
  | writeAt path data offset =>
    obtain rfl : path = tmp := h
    simp only [perform]
    split
    · exact .rfl
    · rename_i bytes hFile
      split
      · exact .rfl
      · exact writing_elim .rfl (sameFiles_setFile hFile)
  | put req =>
    simp only [perform, putObject]
    split
    · exact .rfl
    · exact writing_elim .rfl ⟨fun _ _ => .refl _, .refl _⟩
  | delete key =>
    simp only [perform, deleteObject]
    split
    · exact .rfl
    · exact writing_elim .rfl ⟨fun _ _ => .refl _, .refl _⟩
  | createBackupRun | updateBackupRun | createSnapshot => exact writing_elim .rfl ⟨fun _ _ => .refl _, .refl _⟩
  | newID => exact ⟨fun _ _ => .refl _, .refl _⟩
  | _ => exact .rfl

section
variable {s : Service} {man : SnapshotManifest} {tmp : String}

theorem asks_check {α : Type} {allowed : Op → Prop} {result : Result α} :
    Attempt.Asks allowed (orReturn (pure result)) := trivial

theorem asks_readObject {key : String} {missing unreadable : GoError → GoError} :
    Attempt.Asks (filling tmp) (readObject key missing unreadable) := by
  refine ⟨trivial, ?_⟩
  intro answer
  cases answer <;> trivial

variable {snap : Snapshot}

theorem asks_readCompletion {words : Wording} {payload : Bytes} :
    Attempt.Asks (filling tmp) (s.readCompletion words snap payload) := by
  unfold RemoteService.readCompletion
  split
  · exact asks_pure
  · exact asks_bind asks_readObject fun _ => asks_check

theorem asks_readAndVerifyManifest : Attempt.Asks (filling tmp) (readAndVerifyManifest s snap) := by
  have hSigned : Attempt.Asks (filling tmp) (s.readSigned wording snap) := by
    refine asks_bind asks_readObject fun payload => ?_
    refine asks_bind asks_readObject fun sig => ?_
    refine asks_bind asks_check fun _ => ?_
    exact asks_bind asks_readCompletion fun _ => asks_pure
  refine asks_bind hSigned fun payload => ?_
  refine asks_bind asks_check fun man => ?_
  refine asks_bind asks_check fun _ => ?_
  exact asks_bind asks_check fun _ => asks_pure

theorem asks_restoreChunks (chs : List ChunkInfo) : Attempt.Asks (filling tmp) (restoreChunks s man tmp chs) := by
  induction chs with
  | nil => exact asks_pure
  | cons ch rest ih =>
    refine asks_bind ?_ fun _ => ih
    refine asks_bind asks_readObject fun encrypted => ?_
    refine asks_bind asks_check fun plain => ?_
    exact ⟨rfl, fun _ => trivial⟩

theorem asks_fill : Attempt.Asks (filling tmp) (fill s man tmp) := by
  refine asks_bind ?_ fun _ => ?_
  · unfold setSize
    split
    · exact ⟨rfl, fun _ => trivial⟩
    · exact asks_pure
  refine asks_bind (asks_restoreChunks _) fun _ => ?_
  refine asks_bind ⟨trivial, fun _ => trivial⟩ fun _ => ?_
  refine asks_bind ⟨trivial, fun _ => trivial⟩ fun _ => ?_
  unfold validate
  split
  · exact asks_bind ⟨trivial, fun _ => trivial⟩ fun _ => asks_check
  · exact asks_pure

end

def Cleared (target : String) (calls : List PastCall) : Prop :=
  ∃ answer, ⟨.remove (tmpPath target), answer⟩ ∈ calls

/-- The old file was moved out of the way, and then the new one could not be
moved into its place. -/
def SetAside (target : String) (calls : List PastCall) : Prop :=
  ∃ rollback err, ⟨.rename target rollback, .ok ()⟩ ∈ calls ∧
    ⟨.rename (tmpPath target) target, .error err⟩ ∈ calls

def Unmoved (calls : List PastCall) : Prop := ∀ call ∈ calls, ∀ oldPath newPath, call.op ≠ .rename oldPath newPath

theorem Unmoved.cons {calls : List PastCall} {call : PastCall} (h : Unmoved calls)
    (hCall : ∀ oldPath newPath, call.op ≠ .rename oldPath newPath) : Unmoved (call :: calls) := by
  intro other hMem
  rcases mem_cons.mp hMem with rfl | hMem
  · exact hCall
  · exact h other hMem

theorem Unmoved.not_mem (h : Unmoved calls) : (⟨.rename oldPath newPath, answer⟩ : PastCall) ∉ calls :=
  fun hMem => h _ hMem oldPath newPath rfl

theorem not_setAside_of_unmoved
    (h : Unmoved calls) : ¬ SetAside target (⟨.rename oldPath newPath, answer⟩ :: calls) := by
  rintro ⟨rollback, err, hOld, hNew⟩
  have hOld := (mem_cons.mp hOld).resolve_right h.not_mem
  have hNew := (mem_cons.mp hNew).resolve_right h.not_mem
  simp only [Call.mk.injEq, Op.rename.injEq] at hOld hNew
  exact tmpPath_ne target (hNew.1.1.trans hOld.1.1.symm)

section
variable (target) (w w' : World) (later : List PastCall)

structure Preparing : Prop where
  files : SameFiles (tmpPath target) w w'
  unmoved : Unmoved later
  uncleared : ¬ Cleared target later

structure Filling : Prop where
  same : w'.files target = w.files target
  unmoved : Unmoved later
  cleared : Cleared target later

structure Replacing : Prop where
  gone : w'.files target = none
  before : w.files target ≠ none
  moved : ∃ rollback, ⟨.rename target rollback, .ok ()⟩ ∈ later
  cleared : Cleared target later

/-- A failure the clean-up still has to answer. -/
structure Broken : Prop where
  cleared : Cleared target later
  same : w'.files target = w.files target ↔ ¬ SetAside target later

def LeftAsItWas : Prop :=
  (w'.files target = w.files target ∧ w'.files (tmpPath target) = none) ↔
    ¬ SetAside target later ∧ (w.files (tmpPath target) = none ∨ Cleared target later)

end

section
variable {P : Ports} {w w' : World} {past : List PastCall}

theorem Cleared.cons {calls : List PastCall} (h : Cleared target calls) (call : PastCall) :
    Cleared target (call :: calls) := by
  obtain ⟨answer, hMem⟩ := h
  exact ⟨answer, mem_cons_of_mem _ hMem⟩

variable {op : Op}

theorem filling_ne_rename {tmp : String} (h : filling tmp op) (oldPath newPath : String) :
    op ≠ .rename oldPath newPath := by
  rintro rfl
  exact h

theorem Preparing.step (h : Preparing target w w' past) (hOp : filling (tmpPath target) op) :
    Preparing target w (perform P w' op c).2 (⟨op, (perform P w' op c).1⟩ :: past) where
  files := h.files.trans (sameFiles_perform P hOp c)
  unmoved := h.unmoved.cons (filling_ne_rename hOp)
  uncleared := by
    rintro ⟨answer, hMem⟩
    rcases mem_cons.mp hMem with hHead | hMem
    · obtain rfl := (Call.mk.inj hHead).1
      exact hOp
    · exact h.uncleared ⟨answer, hMem⟩

theorem Filling.step (h : Filling target w w' past) (hOp : filling (tmpPath target) op) :
    Filling target w (perform P w' op c).2 (⟨op, (perform P w' op c).1⟩ :: past) where
  same := ((sameFiles_perform P hOp c).others _ (tmpPath_ne target).symm).trans h.same
  unmoved := h.unmoved.cons (filling_ne_rename hOp)
  cleared := h.cleared.cons _

theorem Filling.broken (h : Filling target w w' past) : Broken target w w' past where
  cleared := h.cleared
  same := iff_of_true h.same fun hAside => by
    obtain ⟨rollback, err, hMem, -⟩ := hAside
    exact h.unmoved.not_mem hMem

theorem Filling.rename_failed (h : Filling target w w' past) :
    Broken target w w' (⟨.rename oldPath newPath, .error err⟩ :: past) where
  cleared := h.cleared.cons _
  same := iff_of_true h.same (not_setAside_of_unmoved h.unmoved)

theorem Replacing.rename_failed (h : Replacing target w w' past) :
    Broken target w w' (⟨.rename (tmpPath target) target, .error err⟩ :: past) where
  cleared := h.cleared.cons _
  same := by
    obtain ⟨rollback, hMoved⟩ := h.moved
    have hAside : SetAside target (⟨.rename (tmpPath target) target, .error err⟩ :: past) :=
      ⟨rollback, err, mem_cons_of_mem _ hMoved, mem_cons_self⟩
    refine iff_of_false ?_ (not_not_intro hAside)
    rw [h.gone]
    exact fun hNone => h.before hNone.symm

theorem cleared_self : Cleared target (⟨.remove (tmpPath target), answer⟩ :: past) := ⟨answer, mem_cons_self⟩

theorem setAside_cons (hCall : ∀ oldPath newPath, call.op ≠ .rename oldPath newPath) :
    SetAside target (call :: past) ↔ SetAside target past := by
  have hMem : ∀ oldPath newPath (answer : Result Unit),
      (⟨.rename oldPath newPath, answer⟩ : PastCall) ∈ call :: past ↔
        ⟨.rename oldPath newPath, answer⟩ ∈ past := by
    intro oldPath newPath answer
    refine ⟨fun h => (mem_cons.mp h).resolve_left ?_, mem_cons_of_mem _⟩
    rintro rfl
    exact hCall oldPath newPath rfl
  simp only [SetAside, hMem]

theorem Preparing.left (h : Preparing target w w' past) : LeftAsItWas target w w' past := by
  have hTarget := h.files.others _ (tmpPath_ne target).symm
  have hAside : ¬ SetAside target past := by
    rintro ⟨rollback, err, hMem, -⟩
    exact h.unmoved.not_mem hMem
  simp [LeftAsItWas, hTarget, hAside, h.files.tmp, h.uncleared]

theorem Preparing.clear (h : Preparing target w w' past) (removed : Result Unit) :
    Filling target w (w'.setFile (tmpPath target) none) (⟨.remove (tmpPath target), removed⟩ :: past) where
  same := by
    rw [setFile_files_of_ne _ _ (tmpPath_ne target).symm]
    exact h.files.others _ (tmpPath_ne target).symm
  unmoved := h.unmoved.cons (by simp)
  cleared := cleared_self

theorem Filling.opened {w'' : World} (h : Filling target w w' past) (opened : Result Unit)
    (hSame : w''.files target = w'.files target) :
    Filling target w w'' (⟨.openTrunc (tmpPath target), opened⟩ :: past) where
  same := hSame.trans h.same
  unmoved := h.unmoved.cons (by simp)
  cleared := h.cleared.cons _

theorem Filling.left (h : Filling target w w' past) (hTmp : w'.files (tmpPath target) = none) :
    LeftAsItWas target w w' past := by
  have hAside := h.broken.same.mp h.same
  simp [LeftAsItWas, h.same, hTmp, hAside, h.cleared]

theorem Broken.left (h : Broken target w w' past) (closed removed : Result Unit) :
    LeftAsItWas target w (w'.setFile (tmpPath target) none)
      (⟨.remove (tmpPath target), removed⟩ :: ⟨.close (tmpPath target), closed⟩ :: past) := by
  have hAside : SetAside target
      (⟨.remove (tmpPath target), removed⟩ :: ⟨.close (tmpPath target), closed⟩ :: past) ↔ SetAside target past :=
    (setAside_cons (by simp)).trans (setAside_cons (by simp))
  simp [LeftAsItWas, setFile_files_of_ne _ _ (tmpPath_ne target).symm, h.same, hAside,
    cleared_self]

end

section
variable {s : Service} {w w' : World} {past : List PastCall} {man : SnapshotManifest}

theorem rollbackPath_ne (target : String) (t : Time) : rollbackPath target t ≠ target := by
  simp [rollbackPath, String.append_assoc]

theorem rename_leads
    (hOk : ∀ bytes, w.files oldPath = some bytes →
      post () ((w.setFile oldPath none).setFile newPath (some bytes)) (⟨.rename oldPath newPath, .ok ()⟩ :: past))
    (hFailed : ∀ err, failed w (⟨.rename oldPath newPath, .error err⟩ :: past)) :
    Attempt.Leads (definiteEnvironment s.ports) (orReturn (ask (.rename oldPath newPath))) w past post failed := by
  intro c hDefinite
  cases hAnswer : (perform s.ports w (.rename oldPath newPath) c).1 with
  | ok value =>
    obtain ⟨bytes, hFile, hWorld⟩ := rename_ok s.ports hAnswer
    simp only [Program.Leads, hWorld]
    exact hOk bytes hFile
  | error err =>
    simp only [Program.Leads, rename_error s.ports hDefinite hAnswer]
    exact hFailed err

theorem openTrunc_leads {path : String} {post : Unit → World → List PastCall → Prop}
    {failed : World → List PastCall → Prop}
    (hOk : post () (w.setFile path (some [])) (⟨.openTrunc path, .ok ()⟩ :: past))
    (hFailed : ∀ err, failed w (⟨.openTrunc path, .error err⟩ :: past)) :
    Attempt.Leads (definiteEnvironment s.ports) (orReturn (ask (.openTrunc path))) w past post failed := by
  intro c hDefinite
  cases hAnswer : (perform s.ports w (.openTrunc path) c).1 with
  | ok value =>
    simp only [Program.Leads, openTrunc_ok s.ports hAnswer]
    exact hOk
  | error err =>
    simp only [Program.Leads, openTrunc_error s.ports hDefinite hAnswer]
    exact hFailed err

theorem keepOld_leads (replace : Bool) (h : Filling target w w' past) :
    Attempt.Leads (definiteEnvironment s.ports) (keepOld target replace) w' past
      (fun _ w'' later => Filling target w w'' later ∨ Replacing target w w'' later)
      (Broken target w) := by
  unfold keepOld
  split
  · refine leads_lift_bind ?_
    intro cStat _
    have hStat : Filling target w (perform s.ports w' (.stat target) cStat).2
        (⟨.stat target, (perform s.ports w' (.stat target) cStat).1⟩ :: past) := h.step trivial
    split
    · refine leads_lift_bind ?_
      intro cNow _
      have hNow : Filling target w (perform s.ports _ .now cNow).2 (⟨.now, cNow.time⟩ :: _) := hStat.step trivial
      refine rename_leads ?_ fun err => hNow.rename_failed
      intro bytes hFile
      refine .inr ⟨?_, ?_, ⟨_, mem_cons_self⟩, hNow.cleared.cons _⟩
      · rw [setFile_files_of_ne _ _ (rollbackPath_ne target _).symm, setFile_files_self]
      · rw [← hNow.same, hFile]
        exact Option.some_ne_none bytes
    · exact .inl hStat
  · exact .inl h

theorem replace_leads (replace : Bool) (h : Filling target w w' past) :
    Attempt.Leads (definiteEnvironment s.ports)
      (do fill s man (tmpPath target)
          keepOld target replace
          orReturn (ask (.rename (tmpPath target) target)))
      w' past (fun _ _ _ => True) (Broken target w) := by
  refine asks_fill.leads_bind (fun _ _ op c hOp _ hFilling => hFilling.step hOp) h
    (fun _ _ hFilling => hFilling.broken) ?_
  intro _ _ _ hFilled
  refine leads_bind (keepOld_leads replace hFilled) ?_
  rintro _ _ _ (hKept | hKept)
  · exact rename_leads (fun _ _ => trivial) fun err => hKept.rename_failed
  · exact rename_leads (fun _ _ => trivial) fun err => hKept.rename_failed

theorem cleaningUp_leads {body : Attempted Unit}
    (h : Attempt.Leads (definiteEnvironment s.ports) body w' past (fun _ _ _ => True) (Broken target w)) :
    Attempt.Leads (definiteEnvironment s.ports) (cleaningUp (tmpPath target) body) w' past
      (fun _ _ _ => True) (LeftAsItWas target w) := by
  refine Program.leads_bind h ?_
  intro result w'' later hBroken
  cases result with
  | ok value => trivial
  | error err =>
    intro cClose _ cRemove hRemove
    have hBroken : Broken target w w'' later := hBroken
    simp only [remove_definite s.ports hRemove]
    exact hBroken.left _ _

theorem restore_leads (id : String) (replace : Bool) :
    Attempt.Leads (definiteEnvironment s.ports) (restore s id target replace) w []
      (fun _ _ _ => True) (LeftAsItWas target w) := by
  have hStart : Preparing target w w [] := ⟨.rfl, by simp [Unmoved], by simp [Cleared]⟩
  have hFailed : ∀ w' later, Preparing target w w' later → LeftAsItWas target w w' later := fun _ _ h => h.left
  have hStep : ∀ w' past op c, filling (tmpPath target) op →
      (definiteEnvironment s.ports).admissible w' op c → Preparing target w w' past →
        Preparing target w (perform s.ports w' op c).2 (⟨op, (perform s.ports w' op c).1⟩ :: past) :=
    fun _ _ _ _ hOp _ h => h.step hOp
  refine Attempt.Asks.leads_bind ⟨trivial, fun _ => trivial⟩ hStep hStart hFailed ?_
  intro stat _ _ hStat
  refine asks_check.leads_bind hStep hStat hFailed ?_
  intro _ _ _ hChecked
  refine Attempt.Asks.leads_bind ⟨trivial, fun _ => trivial⟩ hStep hChecked hFailed ?_
  rintro ⟨snap, _⟩ _ _ hFound
  refine asks_readAndVerifyManifest.leads_bind hStep hFound hFailed ?_
  rintro ⟨_, man⟩ _ _ hRead
  refine Attempt.Asks.leads_bind ⟨trivial, fun _ => trivial⟩ hStep hRead hFailed ?_
  intro _ _ _ hMade
  refine leads_lift_bind ?_
  intro cRemove hRemove
  simp only [remove_definite s.ports hRemove]
  have hRemoved := hMade.clear (.ok ())
  refine leads_bind (openTrunc_leads ?_ fun err => ?_) fun _ _ _ hOpened =>
    cleaningUp_leads (replace_leads replace hOpened)
  · exact hRemoved.opened (.ok ()) (setFile_files_of_ne _ _ (tmpPath_ne target).symm)
  · exact (hRemoved.opened (.error err) rfl).left (setFile_files_self ..)

end

/-- A failed restore has left the target as it was, and no temporary file, except
in two cases: the old file had been moved away when moving the new one into its
place failed, or a temporary file was there before and the run has not got as
far as removing it. -/
theorem failed_restore_left_iff (s : Service) (id target : String) (replace : Bool) (w : World)
    (choices : Nat → Choice)
    (hDefinite : (restore s id target replace).run.Admissible (definiteEnvironment s.ports)
      (w, choices)) {err : GoError}
    (hFailed : ((restore s id target replace).run.run (definiteEnvironment s.ports)
      (w, choices)).1 = .error err) :
    let w' := ((restore s id target replace).run.run (definiteEnvironment s.ports) (w, choices)).2.1
    let calls := ((restore s id target replace).run.events (definiteEnvironment s.ports) 0
      (w, choices)).map (·.call)
    (w'.files target = w.files target ∧ w'.files (tmpPath target) = none) ↔
      ¬ SetAside target calls ∧ (w.files (tmpPath target) = none ∨ Cleared target calls) := by
  have hLeft := Program.Leads.run (restore_leads (w := w) id replace) 0 hDefinite
  rw [hFailed, append_nil] at hLeft
  exact hLeft

namespace Sample

def bare : Bytes :=
  utf8 "\x7b\"snapshot_id\":\"a\",\"root_digest\":\"r\",\"database\":\x7b\"engine\":\"x\"\x7d\x7d"

def bareWorld : World where
  objects := .ofList [("m.json".toList, bare), ("m.sig".toList, [bare.getLastD 0])]
  rows := [⟨{ (entry "a").snapshot with
    manifestObjectKey := "m.json", completionObjectKey := "" }, []⟩]
  files := fun path => if path = "out" then some [9] else none

def failing (number n : Nat) : Choice :=
  { fault := if n = number then .refuse (.other "input/output error") else .none }

def overwriting : Program Answer (Result Unit) := (restore server "a" "out" true).run

abbrev env : Environment Answer World Choice := definiteEnvironment server.ports

end Sample

open Sample

theorem failed_restore_left_iff_sample :
    ∃ err, (overwriting.run env (bareWorld, failing 7)).1 = .error err ∧
      (((overwriting.run env (bareWorld, failing 7)).2.1.files "out" = some [9] ∧
          (overwriting.run env (bareWorld, failing 7)).2.1.files (tmpPath "out") = none) ↔
        ¬ SetAside "out" ((overwriting.events env 0 (bareWorld, failing 7)).map (·.call)) ∧
          (bareWorld.files (tmpPath "out") = none ∨
            Cleared "out" ((overwriting.events env 0 (bareWorld, failing 7)).map (·.call)))) := by
  have hFailed : (overwriting.run env (bareWorld, failing 7)).1.isOk = false := by decide +kernel
  have hDefinite : overwriting.Admissible env (bareWorld, failing 7) := by decide +kernel
  cases hRun : (overwriting.run env (bareWorld, failing 7)).1 with
  | ok value => simp [hRun, Except.isOk, Except.toBool] at hFailed
  | error err =>
    exact ⟨err, rfl, failed_restore_left_iff server "a" "out" true bareWorld (failing 7) hDefinite hRun⟩

/-- The second of the two renames fails: the restore reports an error, and there
is no file at the target any more. -/
theorem second_rename_fails :
    overwriting.Admissible env (bareWorld, failing 12) ∧
      (overwriting.run env (bareWorld, failing 12)).1.isOk = false ∧
      bareWorld.files "out" = some [9] ∧
      (overwriting.run env (bareWorld, failing 12)).2.1.files "out" = none := by
  decide +kernel

end DBVault.Restore
