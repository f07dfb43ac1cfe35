import DBVault.Ports

/-! What a world owes to the history that led to it: objects were put, rows
were entered, identifiers are not given out twice, and what was stored or seen
stays until something deletes it. -/
namespace DBVault
open List Text Interaction Objects

abbrev History := List (Event Answer Choice)

abbrev World.Holds (w : World) (P : Ports) (key : String) (bytes : Bytes) : Prop :=
  w.findObject P.backend key = .ok bytes

variable {w : World} {P : Ports} {key : String} {bytes : Bytes}

theorem World.holds_iff :
    w.Holds P key bytes ↔ ∃ a, P.backend.locate key = .ok a ∧ w.objects.find a = some bytes := by
  unfold Holds findObject
  cases hLocate : P.backend.locate key with
  | error err => simp [bind, Except.bind]
  | ok a =>
    cases hFind : w.objects.find a <;>
      simp [bind, Except.bind, pure, Except.pure, hFind]

variable {c : Choice}

theorem writing_elim {α σ : Type} {motive : σ → Prop} {answer : Result α} {before after : σ}
    (hBefore : motive before) (hAfter : motive after) : motive (writing c answer before after).2 := by
  unfold writing
  split
  · exact hBefore
  · exact hAfter
  · exact hAfter

inductive WorldStep (P : Ports) (w : World) : Op → World → Prop where
  | same {op : Op} : WorldStep P w op w
  | issue {stem id : String} : WorldStep P w (.newID stem) { w with issued := id :: w.issued }
  | runs {op : Op} {runs : List BackupRun} : WorldStep P w op { w with runs := runs }
  | files {op : Op} {files : String → Option Bytes} : WorldStep P w op { w with files := files }
  | row {snap : Snapshot} {links : List SnapshotChunk} {records : List ChunkRecord} :
      WorldStep P w (.createSnapshot snap links records)
        { w with rows := ⟨snap, links⟩ :: w.rows.filter (·.snapshot.id ≠ snap.id) }
  | put {req : PutObjectRequest} {a : Address} (h : P.backend.locate req.key = .ok a) :
      WorldStep P w (.put req) { w with objects := req.store w.objects a }
  | delete {key : String} {a : Address} (h : P.backend.locate key = .ok a) :
      WorldStep P w (.delete key) { w with objects := w.objects.erase a }

theorem perform_step (P : Ports) (w : World) (op : Op) (c : Choice) : WorldStep P w op (perform P w op c).2 := by
  cases op with
  | newID stem => exact .issue
  | createBackupRun | updateBackupRun => exact writing_elim .same .runs
  | createSnapshot => exact writing_elim .same .row
  | remove | openTrunc => exact writing_elim .same .files
  | put req =>
    simp only [perform, World.putObject]
    split
    · exact .same
    · rename_i a hAddress
      exact writing_elim .same (.put hAddress)
  | delete key =>
    simp only [perform, World.deleteObject]
    split
    · exact .same
    · rename_i a hAddress
      exact writing_elim .same (.delete hAddress)
  | truncate | rename =>
    simp only [perform]
    split
    · exact .same
    · exact writing_elim .same .files
  | writeAt path data offset =>
    simp only [perform]
    split
    · exact .same
    · split
      · exact .same
      · exact writing_elim .same .files
  | _ => exact .same

variable {obj : StoredObject}

theorem perform_put_ok {req : PutObjectRequest} (h : (perform P w (.put req) c).1 = .ok obj) :
    ∃ a, P.backend.locate req.key = .ok a ∧ (perform P w (.put req) c).2.objects = req.store w.objects a := by
  simp only [perform, World.putObject] at h ⊢
  cases hAddress : P.backend.locate req.key with
  | error err =>
    rw [hAddress] at h
    cases h
  | ok a =>
    rw [hAddress] at h
    exact ⟨a, rfl, congrArg World.objects (writing_ok h).2⟩

theorem perform_head_ok
    (h : (perform P w (.head key) c).1 = .ok obj) : ∃ bytes, w.Holds P key bytes := by
  have hRead := reading_ok h
  split at hRead
  · rename_i bytes hBytes
    exact ⟨bytes, hBytes⟩
  · cases hRead

theorem perform_get_faithful (hc : c.Faithful) (key : String) (h : (perform P w (.get key) c).1 = .ok r)
    (hEnding : r.ending = none) : w.Holds P key r.bytes := by
  simp only [perform] at h
  split at h
  · rename_i bytes hFind
    cases hFault : c.fault <;> simp only [delivering, hFault] at h <;> cases h
    · exact hFind
    · cases hEnding
    · exact absurd hFault (hc _)
  · cases h

theorem perform_get_clean (hc : c.Clean)
    (h : w.Holds P key bytes) : perform P w (.get key) c = (.ok ⟨bytes, none⟩, w) := by
  have hFault : c.fault = .none := hc
  simp only [perform, h, delivering, hFault]

theorem perform_get_missing {err : GoError} (h : w.findObject P.backend key = .error err) (c : Choice) :
    perform P w (.get key) c = (.error err, w) := by
  simp only [perform, h]

section
variable {P : Ports} {w w' : World} {op : Op} {a : Address} {bytes : Bytes}

variable {req : PutObjectRequest} {objects : Objects} {c : Address}

theorem PutObjectRequest.find_store (h : (req.store objects a).find c = some bytes) :
    objects.find c = some bytes ∨ c = a ∧ req.body = bytes := by
  unfold store at h
  split at h <;> rw [find_putNew] at h <;> split at h
  · rename_i hNew
    exact .inr ⟨hNew.1, Option.some.inj h⟩
  · exact .inl h
  · rename_i hNew
    exact .inr ⟨hNew.1, Option.some.inj h⟩
  · rw [find_erase] at h
    split at h
    · cases h
    · exact .inl h

theorem PutObjectRequest.store_isSome (req : PutObjectRequest) (objects : Objects) (a : Address) :
    ∃ bytes, (req.store objects a).find a = some bytes := by
  unfold store
  split
  · exact objects.find_putNew_isSome a req.body
  · exact (objects.erase a).find_putNew_isSome a req.body

theorem PutObjectRequest.store_keeps
    (h : objects.find c = some bytes) : ∃ b, (req.store objects a).find c = some b := by
  unfold store
  split
  · exact ⟨bytes, find_putNew_of_some h⟩
  · by_cases hc : c = a
    · subst hc
      exact (objects.erase c).find_putNew_isSome c req.body
    · exact ⟨bytes, find_putNew_of_some (by rw [find_erase, if_neg hc]; exact h)⟩

section
variable (hStep : WorldStep P w op w')
include hStep

theorem WorldStep.find (h : w'.objects.find a = some bytes) :
    w.objects.find a = some bytes ∨
      ∃ req, op = .put req ∧ P.backend.locate req.key = .ok a ∧ req.body = bytes := by
  cases hStep with
  | @put req b hAddress =>
    rcases req.find_store h with hOld | ⟨rfl, hBody⟩
    · exact .inl hOld
    · exact .inr ⟨req, rfl, hAddress, hBody⟩
  | delete hAddress =>
    simp only [find_erase] at h
    split at h
    · cases h
    · exact .inl h
  | _ => exact .inl h

theorem WorldStep.keeps (h : w.objects.find a = some bytes)
    (hDelete : ∀ key, op = .delete key → P.backend.locate key ≠ .ok a) : ∃ b, w'.objects.find a = some b := by
  cases hStep with
  | put hAddress => exact PutObjectRequest.store_keeps h
  | @delete key b hAddress =>
    have hOther : a ≠ b := by
      rintro rfl
      exact hDelete key rfl hAddress
    exact ⟨bytes, by simp only [find_erase, hOther, ↓reduceIte, h]⟩
  | _ => exact ⟨bytes, h⟩

variable {row : CatalogueRow}

theorem WorldStep.entered (h : row ∈ w'.rows) :
    row ∈ w.rows ∨ ∃ records, op = .createSnapshot row.snapshot row.links records := by
  cases hStep with
  | @row snap links records =>
    rcases mem_cons.mp h with rfl | hOld
    · exact .inr ⟨records, rfl⟩
    · exact .inl (mem_filter.mp hOld).1
  | _ => exact .inl h

theorem WorldStep.keeps_row (h : row ∈ w.rows) :
    ∃ row' ∈ w'.rows, row'.snapshot.id = row.snapshot.id := by
  cases hStep with
  | @row snap links records =>
    by_cases hSame : row.snapshot.id = snap.id
    · exact ⟨⟨snap, links⟩, .head _, hSame.symm⟩
    · exact ⟨row, .tail _ (mem_filter.mpr ⟨h, by simpa using hSame⟩), rfl⟩
  | _ => exact ⟨row, h, rfl⟩

theorem WorldStep.rows_nodup (h : (w.rows.map (·.snapshot.id)).Nodup) : (w'.rows.map (·.snapshot.id)).Nodup := by
  cases hStep with
  | row =>
    rw [map_cons, nodup_cons]
    exact ⟨by simp, h.sublist (filter_sublist.map _)⟩
  | _ => exact h

theorem WorldStep.issued_subset : w.issued ⊆ w'.issued := by
  cases hStep with
  | issue => exact subset_cons_self _ _
  | _ => exact List.Subset.refl _

end

end

variable {P : Ports} {α : Type} {start s : System Answer World α} {history : History}

theorem objects_put (run : Execution (environment P) start history s)
    (hStart : start.world.objects = .empty) :
    ∀ a bytes, s.world.objects.find a = some bytes → ∃ e ∈ history, ∃ req,
      e.call.op = .put req ∧ P.backend.locate req.key = .ok a ∧ req.body = bytes := by
  apply run.invariant fun history w =>
    ∀ a bytes, w.objects.find a = some bytes → ∃ e ∈ history, ∃ req,
      e.call.op = .put req ∧ P.backend.locate req.key = .ok a ∧ req.body = bytes
  · intro a bytes h
    rw [hStart] at h
    cases h
  · intro history w t op c ih _ a bytes hFind
    rcases (perform_step P w op c).find hFind with hOld | hPut
    · obtain ⟨e, hMem, hPut⟩ := ih a bytes hOld
      exact ⟨e, .tail _ hMem, hPut⟩
    · exact ⟨_, .head _, hPut⟩

theorem rows_entered (run : Execution (environment P) start history s) (hStart : start.world.rows = []) :
    ∀ row ∈ s.world.rows, ∃ e ∈ history, ∃ records,
      e.call.op = .createSnapshot row.snapshot row.links records := by
  apply run.invariant fun history w => ∀ row ∈ w.rows, ∃ e ∈ history, ∃ records,
      e.call.op = .createSnapshot row.snapshot row.links records
  · simp [hStart]
  · intro history w t op c ih _ row hRow
    rcases (perform_step P w op c).entered hRow with hOld | hEntered
    · obtain ⟨e, hMem, hEntered⟩ := ih row hOld
      exact ⟨e, .tail _ hMem, hEntered⟩
    · exact ⟨_, .head _, hEntered⟩

variable {snap : Snapshot}

section
variable (run : Execution (environment P) start history s)
include run

theorem row_kept {t : Nat} {links : List SnapshotChunk} {records : List ChunkRecord}
    (hCall : ⟨.createSnapshot snap links records, .ok ()⟩ ∈ ownCalls t history) :
    ∃ row ∈ s.world.rows, row.snapshot.id = snap.id := by
  obtain ⟨e, hMem, -, hEvent⟩ := mem_ownCalls.mp hCall
  revert hMem
  apply run.invariant fun history w => e ∈ history → ∃ row ∈ w.rows, row.snapshot.id = snap.id
  · simp
  · intro history w t op c ih _ hMem
    rcases mem_cons.mp hMem with rfl | hMem
    · obtain ⟨rfl, hAnswer⟩ := Call.mk.inj hEvent
      have hWorld := (writing_ok (eq_of_heq hAnswer)).2
      exact ⟨⟨snap, links⟩, by simp only [perform, hWorld]; exact .head _, rfl⟩
    · obtain ⟨row, hRow, hID⟩ := ih hMem
      obtain ⟨row', hRow', hSame⟩ := (perform_step P w op c).keeps_row hRow
      exact ⟨row', hRow', hSame.trans hID⟩

theorem rows_nodup (hStart : start.world.rows = []) : (s.world.rows.map (·.snapshot.id)).Nodup := by
  apply run.invariant fun _ w => (w.rows.map (·.snapshot.id)).Nodup
  · simp [hStart]
  · exact fun _ w _ op c ih _ => (perform_step P w op c).rows_nodup ih

theorem find_row (hStart : start.world.rows = []) {row : CatalogueRow} (hRow : row ∈ s.world.rows) :
    s.world.rows.find? (·.snapshot.id == row.snapshot.id) = some row := by
  have hNodup := rows_nodup run hStart
  generalize s.world.rows = rows at hNodup hRow
  induction rows with
  | nil => simp at hRow
  | cons first rest ih =>
    rw [map_cons, nodup_cons] at hNodup
    rcases mem_cons.mp hRow with rfl | hRow
    · simp
    · have hOther : first.snapshot.id ≠ row.snapshot.id := fun hEq => hNodup.1 (hEq ▸ mem_map_of_mem hRow)
      simpa [hOther] using ih hNodup.2 hRow

end

variable {sourceID : String} {w : World} {root : String} {c : Choice}

theorem perform_findSnapshotByRoot (P : Ports)
    (h : (perform P w (.findSnapshotByRoot sourceID root) c).1 = .ok (some snap)) :
    snap.rootDigest = root ∧ ∃ row ∈ w.rows, row.snapshot = snap := by
  have hFound := mem_of_getElem? (Except.ok.inj (reading_ok h))
  obtain ⟨hMem, hMatch⟩ := mem_filter.mp hFound
  obtain ⟨row, hRow, hSnap⟩ := mem_map.mp hMem
  exact ⟨(of_decide_eq_true hMatch).2.1, row, hRow, hSnap⟩

theorem found_entered (run : Execution (environment P) start history s) (hStart : start.world.rows = [])
    {e : Event Answer Choice} (hMem : e ∈ history)
    (hFound : e.call = ⟨.findSnapshotByRoot sourceID root, .ok (some snap)⟩) : snap.rootDigest = root ∧
      (∃ e' ∈ history, ∃ links records, e'.call.op = .createSnapshot snap links records) ∧
      ∃ row ∈ s.world.rows, row.snapshot.id = snap.id := by
  induction run with
  | start => simp at hMem
  | @step history s thread op next c prior hThread hChoice ih =>
    rcases mem_cons.mp hMem with rfl | hMem
    · obtain ⟨rfl, hAnswer⟩ := Call.mk.inj hFound
      obtain ⟨hRoot, row, hRow, rfl⟩ := perform_findSnapshotByRoot P (eq_of_heq hAnswer)
      obtain ⟨e', hMem', records, hOp⟩ := rows_entered prior hStart row hRow
      exact ⟨hRoot, ⟨e', .tail _ hMem', _, records, hOp⟩, row, hRow, rfl⟩
    · obtain ⟨hRoot, ⟨e', hMem', hEntered⟩, row, hRow, hID⟩ := ih hMem
      obtain ⟨row', hRow', hSame⟩ := (perform_step P s.world op c).keeps_row hRow
      exact ⟨hRoot, ⟨e', .tail _ hMem', hEntered⟩, row', hRow', hSame.trans hID⟩

/-- The identifiers given out so far are recorded, and none went to two threads. -/
structure IDsFresh (history : History) (w : World) : Prop where
  known : ∀ e ∈ history, ∀ stem id, e.call = ⟨.newID stem, id⟩ → id ∈ w.issued
  apart : ∀ e ∈ history, ∀ e' ∈ history, ∀ stem stem' id,
    e.call = ⟨.newID stem, id⟩ → e'.call = ⟨.newID stem', id⟩ → e.thread = e'.thread

theorem ids_fresh (run : Execution (environment P) start history s) : IDsFresh history s.world := by
  apply run.invariant IDsFresh
  · exact ⟨by simp, by simp⟩
  · intro history w t op c ih hChoice
    have hSubset := (perform_step P w op c).issued_subset
    have hNew : ∀ stem id, (⟨op, (perform P w op c).1⟩ : PastCall) = ⟨.newID stem, id⟩ →
        id ∉ w.issued ∧ id ∈ (perform P w op c).2.issued := by
      rintro stem id hCall
      cases op with
      | newID stem' =>
        cases hCall
        exact ⟨hChoice, by simp [perform]⟩
      | _ => cases hCall
    constructor
    · intro e hMem stem id hCall
      rcases mem_cons.mp hMem with rfl | hMem
      · exact (hNew stem id hCall).2
      · exact hSubset (ih.known e hMem stem id hCall)
    · intro e hMem e' hMem' stem stem' id hCall hCall'
      rcases mem_cons.mp hMem with rfl | hMem
      · rcases mem_cons.mp hMem' with rfl | hMem'
        · rfl
        · exact absurd (ih.known e' hMem' stem' id hCall') (hNew stem id hCall).1
      · rcases mem_cons.mp hMem' with rfl | hMem'
        · exact absurd (ih.known e hMem stem id hCall) (hNew stem' id hCall').1
        · exact ih.apart e hMem e' hMem' stem stem' id hCall hCall'

inductive SeenAt (P : Ports) (a : Address) : PastCall → Prop where
  | put {req : PutObjectRequest} {obj : StoredObject} (h : P.backend.locate req.key = .ok a) :
      SeenAt P a ⟨.put req, .ok obj⟩
  | head {key : String} {obj : StoredObject} (h : P.backend.locate key = .ok a) :
      SeenAt P a ⟨.head key, .ok obj⟩

def DeletesAt (P : Ports) (a : Address) (op : Op) : Prop := ∃ key, op = .delete key ∧ P.backend.locate key = .ok a

def Present (P : Ports) (a : Address) : History → Prop
  | [] => False
  | e :: earlier => SeenAt P a e.call ∨ (¬ DeletesAt P a e.call.op ∧ Present P a earlier)

theorem SeenAt.find {op : Op} {a : Address} (h : SeenAt P a ⟨op, (perform P w op c).1⟩) :
    ∃ bytes, (perform P w op c).2.objects.find a = some bytes := by
  generalize hCall : (⟨op, (perform P w op c).1⟩ : PastCall) = call at h
  cases h with
  | @put req obj hAddress =>
    obtain ⟨rfl, hAnswer⟩ := Call.mk.inj hCall
    obtain ⟨b, hLocate, hObjects⟩ := perform_put_ok (eq_of_heq hAnswer)
    obtain rfl : b = a := Except.ok.inj (hLocate.symm.trans hAddress)
    rw [hObjects]
    exact req.store_isSome w.objects b
  | @head key obj hAddress =>
    obtain ⟨rfl, hAnswer⟩ := Call.mk.inj hCall
    obtain ⟨bytes, hHolds⟩ := perform_head_ok (eq_of_heq hAnswer)
    obtain ⟨b, hLocate, hFind⟩ := World.holds_iff.mp hHolds
    obtain rfl : b = a := Except.ok.inj (hLocate.symm.trans hAddress)
    exact ⟨bytes, hFind⟩

theorem present_find (run : Execution (environment P) start history s) :
    Present P a history → ∃ bytes, s.world.objects.find a = some bytes := by
  apply run.invariant fun history w => Present P a history → ∃ bytes, w.objects.find a = some bytes
  · exact False.elim
  · intro history w t op c ih _ hPresent
    rcases hPresent with hSeen | ⟨hKept, hEarlier⟩
    · exact hSeen.find
    · obtain ⟨bytes, hFind⟩ := ih hEarlier
      exact (perform_step P w op c).keeps hFind fun key hOp hAddress => hKept ⟨key, hOp, hAddress⟩

theorem present_of_mem (hMem : e ∈ history)
    (hSeen : SeenAt P a e.call) (hKept : ∀ d ∈ history, ¬ DeletesAt P a d.call.op) : Present P a history := by
  induction history with
  | nil => simp at hMem
  | cons first rest ih =>
    rcases mem_cons.mp hMem with rfl | hMem
    · exact .inl hSeen
    · exact .inr ⟨hKept first (.head _), ih hMem fun d hd => hKept d (.tail _ hd)⟩

end DBVault
