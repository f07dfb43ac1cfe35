import DBVault.Backup

/-! The keys `Create` writes to, component by component. Their endings are
plain, so two keys that lead to the same address have the same ending: chunk
keys only meet for one chunk, snapshot keys only for one snapshot and file. -/
namespace DBVault.Backup
open List Text Text.Path

theorem plain_of_mem (hMem : x ∈ c) (hDot : x ≠ '.') (hSlash : '/' ∉ c) : Plain c where
  nonempty := by
    rintro rfl
    simp at hMem
  notDot := by
    rintro rfl
    simp [dot, hDot] at hMem
  notDotDot := by
    rintro rfl
    simp [dotDot, hDot] at hMem
  slashFree := hSlash

theorem slash_not_mem_hexChars (bytes : Bytes) : '/' ∉ hexChars bytes :=
  fun hMem => (isHex_of_mem hMem).ne (by decide) rfl

theorem newID_plain (hStem : '/' ∉ stem.toList) (nano : Int) (random : Bytes) :
    Plain (newID stem nano random).toList := by
  apply plain_of_mem (x := '_')
  · simp [newID]
  · decide
  · have hNano : '/' ∉ decimalChars nano := not_mem_decimalChars nano (by decide) (by decide)
    simp [newID, hStem, hNano, slash_not_mem_hexChars]

def snapshotTail (snapshotID file : String) : List Component :=
  ["snapshots".toList, snapshotID.toList, file.toList]

inductive FileKind where
  | manifest
  | sig
  | complete

def FileKind.name : FileKind → String
  | .manifest => "manifest.json"
  | .sig => "manifest.sig"
  | .complete => "complete.json"

theorem FileKind.name_inj {kind other : FileKind} (h : kind.name = other.name) : kind = other := by
  cases kind <;> cases other <;> first | rfl | exact absurd h (by decide)

theorem FileKind.plain (kind : FileKind) : Plain kind.name.toList := by cases kind <;> decide

theorem components_snapshotKey (sourceID : String)
    (hID : '/' ∉ snapshotID.toList) (hFile : '/' ∉ file.toList) :
    components (snapshotKey sourceID snapshotID file).toList =
      components sourceID.toList ++ snapshotTail snapshotID file := by
  have hText : (snapshotKey sourceID snapshotID file).toList = sourceID.toList ++ '/' ::
      ("snapshots".toList ++ '/' :: (snapshotID.toList ++ '/' :: file.toList)) := by
    simp [snapshotKey]
  have hDirectory : components "snapshots".toList = ["snapshots".toList] := components_slashFree (by decide)
  rw [hText, components_append, components_append, components_append, components_slashFree hID,
    components_slashFree hFile, hDirectory]
  rfl

theorem snapshotTail_plain (hID : Plain snapshotID.toList)
    (kind : FileKind) : ∀ c ∈ snapshotTail snapshotID kind.name, Plain c := by
  have hDirectory : Plain "snapshots".toList := by decide
  simpa [snapshotTail, hID, kind.plain] using hDirectory

def chunkDirectory (sourceID keyVersion : String) : List Component :=
  (if sourceID ≠ "" then components sourceID.toList else []) ++
    "chunks".toList :: components keyVersion.toList

def chunkTail (chunkID : String) : List Component :=
  [chunkID.toList.take 2, (chunkID.toList.drop 2).take 2, (chunkFileName chunkID).toList]

variable {id : String}

theorem hexID_length (h : Hashes.IsHexID id) : id.toList.length = 64 := by
  obtain ⟨d, rfl⟩ := h
  simp [Digest.hex, d.size]

theorem hexID_isHex (h : Hashes.IsHexID id) : ∀ c ∈ id.toList, IsHex c := by
  obtain ⟨d, rfl⟩ := h
  intro c hc
  rw [Digest.hex, toList_hexEncode] at hc
  exact isHex_of_mem hc

theorem chunkFileName_plain (h : Hashes.IsHexID id) : Plain (chunkFileName id).toList := by
  apply plain_of_mem (x := 'v')
  · simp [chunkFileName]
  · decide
  · have hSlash : '/' ∉ id.toList := fun hMem => (hexID_isHex h _ hMem).ne (by decide) rfl
    simp [chunkFileName, hSlash]

theorem hex_plain (hHex : ∀ x ∈ c, IsHex x) (hNe : c ≠ []) : Plain c := by
  obtain ⟨x, rest, rfl⟩ := exists_cons_of_ne_nil hNe
  exact plain_of_mem (mem_cons_self) ((hHex x mem_cons_self).ne (by decide))
    fun hMem => (hHex _ hMem).ne (by decide) rfl

theorem chunkTail_plain (h : Hashes.IsHexID id) : ∀ c ∈ chunkTail id, Plain c := by
  have hLength := hexID_length h
  have hFirst : Plain (id.toList.take 2) := by
    apply hex_plain fun x hx => hexID_isHex h x (mem_of_mem_take hx)
    intro hNil
    have := congrArg List.length hNil
    simp [hLength] at this
  have hSecond : Plain ((id.toList.drop 2).take 2) := by
    apply hex_plain fun x hx => hexID_isHex h x (mem_of_mem_drop (mem_of_mem_take hx))
    intro hNil
    have := congrArg List.length hNil
    simp [hLength] at this
  simp [chunkTail, hFirst, hSecond, chunkFileName_plain h]

theorem components_chunkObjectKey (sourceID keyVersion : String) (h : Hashes.IsHexID id) :
    components (chunkObjectKey sourceID keyVersion id).toList =
      chunkDirectory sourceID keyVersion ++ chunkTail id := by
  have hFree : ∀ c ∈ chunkTail id, '/' ∉ c := fun c hc => (chunkTail_plain h c hc).slashFree
  simp only [chunkTail, mem_cons, not_mem_nil, or_false, forall_eq_or_imp, forall_eq] at hFree
  obtain ⟨hFirst, hSecond, hName⟩ := hFree
  have hTail : components (keyVersion.toList ++ '/' :: (id.toList.take 2 ++ '/' ::
      ((id.toList.drop 2).take 2 ++ '/' :: (chunkFileName id).toList))) =
      components keyVersion.toList ++ chunkTail id := by
    rw [components_append, components_append, components_append, components_slashFree hFirst,
      components_slashFree hSecond, components_slashFree hName]
    rfl
  have hChunks : components "chunks".toList = ["chunks".toList] := components_slashFree (by decide)
  have hPad : List.replicate (4 - id.toList.length) '0' ++ id.toList = id.toList := by simp [hexID_length h]
  unfold chunkObjectKey chunkDirectory
  by_cases hSource : sourceID = ""
  · have hText : ("chunks/" ++ (keyVersion ++ "/" ++ String.ofList (id.toList.take 2) ++ "/" ++
        String.ofList ((id.toList.drop 2).take 2) ++ "/" ++ chunkFileName id)).toList =
        "chunks".toList ++ '/' :: (keyVersion.toList ++ '/' :: (id.toList.take 2 ++ '/' ::
          ((id.toList.drop 2).take 2 ++ '/' :: (chunkFileName id).toList))) := by simp
    simp only [hPad, hSource, ne_eq, not_true_eq_false, if_false]
    rw [hText, components_append, hTail, hChunks]
    simp
  · have hText : (sourceID ++ "/chunks/" ++ (keyVersion ++ "/" ++
        String.ofList (id.toList.take 2) ++ "/" ++ String.ofList ((id.toList.drop 2).take 2) ++
        "/" ++ chunkFileName id)).toList =
        sourceID.toList ++ '/' :: ("chunks".toList ++ '/' :: (keyVersion.toList ++ '/' ::
          (id.toList.take 2 ++ '/' :: ((id.toList.drop 2).take 2 ++ '/' :: (chunkFileName id).toList)))) := by simp
    simp only [hPad, hSource, ne_eq, not_false_eq_true, if_true]
    rw [hText, components_append, components_append, hTail, hChunks]
    simp

section
variable {backend : Backend} {a : Address} {sourceID keyVersion id snapshotID : String}

theorem snapshotKey_endsIn (kind : FileKind) (hID : Plain snapshotID.toList)
    (h : backend.locate (snapshotKey sourceID snapshotID kind.name) = .ok a) :
    EndsIn a (snapshotTail snapshotID kind.name) :=
  Backend.endsIn_of_locate h (components_snapshotKey sourceID hID.slashFree kind.plain.slashFree)
    (snapshotTail_plain hID kind)

theorem chunkKey_endsIn (hID : Hashes.IsHexID id)
    (h : backend.locate (chunkObjectKey sourceID keyVersion id) = .ok a) : EndsIn a (chunkTail id) :=
  Backend.endsIn_of_locate h (components_chunkObjectKey _ _ hID) (chunkTail_plain hID)

theorem snapshotTail_meet {other : String} {kind kind' : FileKind}
    (h : EndsIn a (snapshotTail snapshotID kind.name))
    (h' : EndsIn a (snapshotTail other kind'.name)) : snapshotID = other ∧ kind = kind' := by
  have hTails := h.unique h' rfl (by simp [snapshotTail])
  simp only [snapshotTail, List.cons.injEq, String.toList_inj, and_true, true_and] at hTails
  exact ⟨hTails.1, FileKind.name_inj hTails.2⟩

theorem chunkTail_meet (h : EndsIn a (chunkTail id)) (h' : EndsIn a (chunkTail id')) : id = id' := by
  have hTails := h.unique h' rfl (by simp [chunkTail])
  have hName : (chunkFileName id).toList = (chunkFileName id').toList := by
    simp only [chunkTail, List.cons.injEq] at hTails
    exact hTails.2.2.1
  rw [chunkFileName, chunkFileName, String.toList_append, String.toList_append] at hName
  exact String.toList_inj.mp (append_cancel_right hName)

theorem chunkTail_snapshotTail (h : EndsIn a (chunkTail id)) : ¬ EndsIn a (snapshotTail snapshotID file) := by
  intro h'
  have hTails := h.unique h' rfl (by simp [chunkTail])
  simp only [chunkTail, snapshotTail, List.cons.injEq] at hTails
  have hLength := congrArg List.length hTails.1
  simp at hLength
  omega

end

/-- What `Create` keeps under a key: a chunk, or a file of a snapshot. -/
inductive Keeps : String → String ⊕ String × FileKind → Prop where
  | chunk {id : String} (sourceID keyVersion : String) (hID : Hashes.IsHexID id) :
      Keeps (chunkObjectKey sourceID keyVersion id) (.inl id)
  | file {id : String} (sourceID : String) (kind : FileKind) (hID : Plain id.toList) :
      Keeps (snapshotKey sourceID id kind.name) (.inr (id, kind))

/-- One thing at most is kept at an address, whatever sources and key versions the keys are made of. -/
theorem keeps_one (backend : Backend) (a : Address) :
    {what | ∃ key, Keeps key what ∧ backend.locate key = .ok a}.Subsingleton := by
  rintro what ⟨key, hKeeps, hLocate⟩ other ⟨key', hKeeps', hLocate'⟩
  cases hKeeps with
  | chunk _ _ hID =>
    have hEnds := chunkKey_endsIn hID hLocate
    cases hKeeps' with
    | chunk _ _ hID' => exact congrArg _ (chunkTail_meet hEnds (chunkKey_endsIn hID' hLocate'))
    | file _ kind hID' => exact absurd (snapshotKey_endsIn kind hID' hLocate') (chunkTail_snapshotTail hEnds)
  | file _ kind hID =>
    have hEnds := snapshotKey_endsIn kind hID hLocate
    cases hKeeps' with
    | chunk _ _ hID' => exact absurd hEnds (chunkTail_snapshotTail (chunkKey_endsIn hID' hLocate'))
    | file _ kind' hID' =>
      obtain ⟨rfl, rfl⟩ := snapshotTail_meet hEnds (snapshotKey_endsIn kind' hID' hLocate')
      rfl

end DBVault.Backup
