import DBVault.Ports.History

/-! What the file operations do when they succeed, and that they do succeed
when nothing goes wrong. -/
namespace DBVault
open Text Interaction

namespace World
variable (w : World) (path other : String) (content later : Option Bytes)

@[simp] theorem setFile_files_self : (w.setFile path content).files path = content := by simp [setFile]

theorem setFile_files_of_ne {path other : String} (h : other ≠ path) :
    (w.setFile path content).files other = w.files other := by
  simp [setFile, h]

@[simp] theorem setFile_setFile : (w.setFile path content).setFile path later = w.setFile path later := by
  simp only [setFile, World.mk.injEq, true_and]
  funext p
  by_cases h : p = path <;> simp [h]

theorem setFile_self {w : World} {path : String} {content : Option Bytes}
    (h : w.files path = content) : w.setFile path content = w := by
  have hFiles : (fun p => if p = path then content else w.files p) = w.files := by
    funext p
    by_cases hp : p = path
    · rw [if_pos hp, hp, h]
    · rw [if_neg hp]
  simp [setFile, hFiles]

end World

variable (P : Ports) {w : World} {c : Choice} {path : String}

theorem truncate_ok {size : Int} (h : (perform P w (.truncate path size) c).1 = .ok v) :
    ∃ bytes, w.files path = some bytes ∧ (perform P w (.truncate path size) c).2 =
      w.setFile path (some (truncateBytes size.toNat bytes)) := by
  simp only [perform] at h ⊢
  cases hFile : w.files path with
  | none => simp [hFile] at h
  | some bytes =>
    simp only [hFile] at h
    exact ⟨bytes, rfl, (writing_ok h).2⟩

theorem writeAt_ok {offset : Int} (h : (perform P w (.writeAt path data offset) c).1 = .ok v) :
    ∃ bytes, w.files path = some bytes ∧ 0 ≤ offset ∧ (perform P w (.writeAt path data offset) c).2 =
      w.setFile path (some (writeBytes bytes offset.toNat data)) := by
  simp only [perform] at h ⊢
  cases hFile : w.files path with
  | none => simp [hFile] at h
  | some bytes =>
    simp only [hFile] at h ⊢
    by_cases hOffset : offset < 0
    · simp [hOffset] at h
    · simp only [hOffset, if_false] at h ⊢
      exact ⟨bytes, rfl, by omega, (writing_ok h).2⟩

theorem openTrunc_ok (h : (perform P w (.openTrunc path) c).1 = .ok v) :
    (perform P w (.openTrunc path) c).2 = w.setFile path (some []) :=
  (writing_ok h).2

theorem rename_ok (h : (perform P w (.rename path newPath) c).1 = .ok v) :
    ∃ bytes, w.files path = some bytes ∧ (perform P w (.rename path newPath) c).2 =
      (w.setFile path none).setFile newPath (some bytes) := by
  simp only [perform] at h ⊢
  cases hFile : w.files path with
  | none => simp [hFile] at h
  | some bytes =>
    simp only [hFile] at h
    exact ⟨bytes, rfl, (writing_ok h).2⟩

theorem remove_cases (w : World) (path : String) (c : Choice) :
    ∃ content, (perform P w (.remove path) c).2 = w.setFile path content :=
  writing_elim (motive := fun w' => ∃ content, w' = w.setFile path content)
    ⟨w.files path, (World.setFile_self rfl).symm⟩ ⟨none, rfl⟩

theorem getSnapshot_ok {id : String} (h : (perform P w (.getSnapshot id) c).1 = .ok found) :
    ∃ row, w.rows.find? (·.snapshot.id == id) = some row ∧ row.snapshot = found.1 := by
  have hRead := reading_ok h
  split at hRead
  · rename_i row hRow
    exact ⟨row, hRow, by cases hRead; rfl⟩
  · cases hRead

section
variable {α σ : Type} (hc : c.Clean)

include hc

theorem writing_clean (answer : Result α) (before after : σ) :
    writing c answer before after = (answer, after) := by
  have hFault : c.fault = .none := hc
  simp [writing, hFault]

theorem reading_clean (answer : Result α) : reading c answer = answer := by
  have hFault : c.fault = .none := hc
  simp [reading, hFault]

theorem delivering_clean (stored : Bytes) : delivering c stored = .ok ⟨stored, none⟩ := by
  have hFault : c.fault = .none := hc
  simp [delivering, hFault]

theorem truncate_clean {size : Int} (h : w.files path = some bytes) :
    perform P w (.truncate path size) c = (.ok (), w.setFile path (some (truncateBytes size.toNat bytes))) := by
  simp only [perform, h, writing_clean hc]

theorem writeAt_clean {offset : Int} (h : w.files path = some bytes) (hOffset : 0 ≤ offset) :
    perform P w (.writeAt path data offset) c =
      (.ok (), w.setFile path (some (writeBytes bytes offset.toNat data))) := by
  simp only [perform, h, writing_clean hc, if_neg (not_lt.mpr hOffset)]

theorem openTrunc_clean : perform P w (.openTrunc path) c = (.ok (), w.setFile path (some [])) :=
  writing_clean hc _ _ _

theorem remove_clean : perform P w (.remove path) c = (.ok (), w.setFile path none) := writing_clean hc _ _ _

theorem rename_clean (h : w.files path = some bytes) :
    perform P w (.rename path newPath) c = (.ok (), (w.setFile path none).setFile newPath (some bytes)) := by
  simp only [perform, h, writing_clean hc]

theorem sync_clean : perform P w (.sync path) c = (.ok (), w) := by simp only [perform, reading_clean hc]

theorem close_clean : perform P w (.close path) c = (.ok (), w) := by simp only [perform, reading_clean hc]

theorem mkdirAll_clean : perform P w (.mkdirAll path) c = (.ok (), w) := by simp only [perform, reading_clean hc]

theorem openFile_clean (h : w.files path = some bytes) :
    perform P w (.openFile path) c = (.ok ⟨bytes, none⟩, w) := by
  simp only [perform, h, delivering_clean hc]

theorem stat_clean_none (h : w.files path = none) : perform P w (.stat path) c = (.error .notExist, w) := by
  simp [perform, h, reading_clean hc]

theorem getSnapshot_clean {id : String} (h : w.rows.find? (·.snapshot.id == id) = some row) :
    perform P w (.getSnapshot id) c = (.ok (row.snapshot, row.links), w) := by
  simp only [perform, h, reading_clean hc]

theorem head_clean (h : w.Holds P key bytes) : perform P w (.head key) c = (.ok ⟨key, bytes.length⟩, w) := by
  simp only [perform, h, reading_clean hc]

end

end DBVault
