import DBVault.Storage.Address

/-! Listings page by page: what a listing still has to show after a token, and
that the pages show it in order and without gaps. -/
namespace DBVault
open List Text Text.Path

theorem keyLE_cons {c d : Char} {rest others : List Char} :
    keyLE (c :: rest) (d :: others) = true ↔ c.toNat < d.toNat ∨ c.toNat = d.toNat ∧ keyLE rest others = true := by
  simp [keyLE]

theorem keyLE_total (a b : List Char) : keyLE a b = true ∨ keyLE b a = true := by
  induction a generalizing b with
  | nil => exact .inl rfl
  | cons c rest ih =>
    cases b with
    | nil => exact .inr rfl
    | cons d others =>
      simp only [keyLE_cons]
      have hRest := ih others
      rcases lt_trichotomy c.toNat d.toNat with hLess | hSame | hMore
      · exact .inl (.inl hLess)
      · exact hRest.imp (fun h => .inr ⟨hSame, h⟩) fun h => .inr ⟨hSame.symm, h⟩
      · exact .inr (.inl hMore)

theorem keyLE_trans (h : keyLE a b = true) (h' : keyLE b c = true) : keyLE a c = true := by
  induction a generalizing b c with
  | nil => rfl
  | cons x rest ih =>
    cases b with
    | nil => simp [keyLE] at h
    | cons y others =>
      cases c with
      | nil => simp [keyLE] at h'
      | cons z more =>
        rw [keyLE_cons] at h h' ⊢
        rcases h with h | ⟨hSame, h⟩
        · rcases h' with h' | ⟨hSame', -⟩
          · exact .inl (h.trans h')
          · exact .inl (hSame' ▸ h)
        · rcases h' with h' | ⟨hSame', h'⟩
          · exact .inl (hSame ▸ h')
          · exact .inr ⟨hSame.trans hSame', ih h h'⟩

theorem keyLE_antisymm (h : keyLE a b = true) (h' : keyLE b a = true) : a = b := by
  induction a generalizing b with
  | nil =>
    cases b with
    | nil => rfl
    | cons d others => simp [keyLE] at h'
  | cons c rest ih =>
    cases b with
    | nil => simp [keyLE] at h
    | cons d others =>
      rw [keyLE_cons] at h h'
      rcases h with h | ⟨hSame, h⟩
      · omega
      · rcases h' with h' | ⟨-, h'⟩
        · omega
        · rw [Char.toNat_inj.mp hSame, ih h h']

abbrev Before (a b : Address × Bytes) : Prop := keyLE a.1 b.1 = true

instance : Std.Total Before := ⟨fun a b => keyLE_total a.1 b.1⟩

instance : IsTrans (Address × Bytes) Before := ⟨fun _ _ _ => keyLE_trans⟩

theorem sortedEntries_perm (entries : List (Address × Bytes)) : (sortedEntries entries).Perm entries :=
  perm_insertionSort _ _

theorem Filesystem.inWalkOrder_perm (entries : List (Address × Bytes)) : (inWalkOrder entries).Perm entries :=
  perm_insertionSort _ _

theorem sortedEntries_sorted (entries : List (Address × Bytes)) : (sortedEntries entries).Pairwise Before :=
  pairwise_insertionSort _ _

theorem sortedEntries_filter (hNodup : (entries.map (·.1)).Nodup)
    (p : Address × Bytes → Bool) : sortedEntries (entries.filter p) = (sortedEntries entries).filter p := by
  refine List.Perm.eq_of_pairwise ?_ (sortedEntries_sorted _) ((sortedEntries_sorted _).filter p) ?_
  · intro a b ha hb hab hba
    have ha' := mem_of_mem_filter ((sortedEntries_perm _).mem_iff.mp ha)
    have hb' := (sortedEntries_perm _).mem_iff.mp (mem_of_mem_filter hb)
    exact inj_on_of_nodup_map hNodup ha' hb' (keyLE_antisymm hab hba)
  · exact (sortedEntries_perm _).trans ((sortedEntries_perm _).filter p).symm

theorem filter_after (hSorted : entries.Pairwise Before) (hNodup : (entries.map (·.1)).Nodup)
    (hEntries : entries = front ++ [x] ++ back) :
    entries.filter (fun entry => !keyLE entry.1 x.1) = back := by
  subst hEntries
  rw [pairwise_append] at hSorted
  obtain ⟨hFront, -, hBack⟩ := hSorted
  have hNone : (front ++ [x]).filter (fun entry => !keyLE entry.1 x.1) = [] := by
    apply filter_eq_nil_iff.mpr
    intro entry hEntry
    have hBefore : keyLE entry.1 x.1 = true := by
      rcases mem_append.mp hEntry with hEntry | hEntry
      · exact (pairwise_append.mp hFront).2.2 entry hEntry x (by simp)
      · rw [mem_singleton.mp hEntry]
        exact (keyLE_total x.1 x.1).elim id id
    simp [hBefore]
  have hAll : back.filter (fun entry => !keyLE entry.1 x.1) = back := by
    apply filter_eq_self.mpr
    intro entry hEntry
    rw [Bool.not_eq_true', Bool.eq_false_iff]
    intro hBefore
    have hSame := keyLE_antisymm (hBack x (by simp) entry hEntry) hBefore
    rw [map_append, nodup_append] at hNodup
    exact hNodup.2.2 x.1 (by simp) entry.1 (mem_map_of_mem hEntry) hSame
  rw [filter_append, hNone, hAll, nil_append]

namespace S3

def contents (s : Objects) (start token : List Char) : List (Address × Bytes) :=
  sortedEntries (s.entries.filter (listed start token))

def shownAs (base : String) (entry : Address × Bytes) : StoredObject := ⟨listedKey base entry.1, entry.2.length⟩

theorem contents_nodup (s : Objects) (start token : List Char) : ((contents s start token).map (·.1)).Nodup := by
  have hPerm : ((contents s start token).map (·.1)).Perm
      ((s.entries.filter (listed start token)).map (·.1)) := (sortedEntries_perm _).map _
  exact hPerm.nodup_iff.mpr (s.nodup.sublist (filter_sublist.map _))

theorem contents_next (h : contents s start token = front ++ [x] ++ back) (hFront : front ≠ []) :
    contents s start x.1 = back := by
  have hNodup := contents_nodup s start token
  have hSorted : (contents s start token).Pairwise Before := sortedEntries_sorted _
  have hMem : x ∈ s.entries.filter (listed start token) := by
    apply (sortedEntries_perm _).mem_iff.mp
    change x ∈ contents s start token
    simp [h]
  have hNe : x.1 ≠ [] := by
    obtain ⟨y, rest, rfl⟩ := exists_cons_of_ne_nil hFront
    intro hNil
    rw [h] at hNodup hSorted
    have hBefore : keyLE y.1 x.1 = true := by
      rw [append_assoc, cons_append, pairwise_cons] at hSorted
      exact hSorted.1 x (by simp)
    have hSame : y.1 = x.1 := by
      rw [hNil] at hBefore ⊢
      exact keyLE_antisymm hBefore rfl
    simp [hSame] at hNodup
  have hListed : ∀ entry, listed start x.1 entry = (listed start token entry && !keyLE entry.1 x.1) := by
    intro entry
    have hToken := (mem_filter.mp hMem).2
    simp only [listed, Bool.and_eq_true, Bool.or_eq_true, Bool.not_eq_true'] at hToken
    have hLater : keyLE entry.1 x.1 = false → token.isEmpty = true ∨ keyLE entry.1 token = false := by
      intro hAfter
      refine hToken.2.imp_right fun hNot => ?_
      rw [Bool.eq_false_iff] at hAfter hNot ⊢
      intro hBefore
      exact hAfter (keyLE_trans hBefore ((keyLE_total x.1 token).resolve_left hNot))
    rw [Bool.eq_iff_iff]
    simp only [listed, Bool.and_eq_true, Bool.or_eq_true, Bool.not_eq_true', List.isEmpty_iff, hNe, false_or]
    constructor
    · rintro ⟨hStart, hAfter⟩
      exact ⟨⟨hStart, by simpa using hLater hAfter⟩, hAfter⟩
    · rintro ⟨⟨hStart, -⟩, hAfter⟩
      exact ⟨hStart, hAfter⟩
  have hFilter : s.entries.filter (listed start x.1) =
      (s.entries.filter (listed start token)).filter fun entry => !keyLE entry.1 x.1 := by
    rw [filter_filter]
    congr 1
    funext entry
    rw [hListed, Bool.and_comm]
  rw [contents, hFilter, sortedEntries_filter (s.nodup.sublist (filter_sublist.map _))]
  exact filter_after hSorted hNodup h

theorem page_rest (base : String) :
    let contents := sortedEntries (s.entries.filter (listed start token))
    let page := contents.take 1000
    let hasMore := decide (1000 < contents.length)
    let next := if hasMore then String.ofList ((page.getLast?.map (·.1)).getD []) else ""
    if hasMore then
      page.map (shownAs base) ≠ [] ∧
        (S3.contents s start next.toList).map (shownAs base) = (contents.drop 1000).map (shownAs base)
    else (contents.drop 1000).map (shownAs base) = [] := by
  intro contents page hasMore next
  by_cases hMore : 1000 < contents.length
  · have hLength : page.length = 1000 := by simp [page, hMore.le]
    have hPage : page ≠ [] := by
      intro hNil
      simp [hNil] at hLength
    have hSplit : page = page.dropLast ++ [page.getLast hPage] := (dropLast_append_getLast hPage).symm
    have hFront : page.dropLast ≠ [] := by
      intro hNil
      have hShort := congrArg List.length hNil
      simp [hLength] at hShort
    have hNext : next.toList = (page.getLast hPage).1 := by
      simp [next, hasMore, hMore, getLast?_eq_some_getLast hPage]
    have hContents : S3.contents s start token = page.dropLast ++ [page.getLast hPage] ++ contents.drop 1000 := by
      rw [← hSplit]
      exact (take_append_drop 1000 contents).symm
    simp only [hasMore, hMore, decide_true, if_true, hNext, contents_next hContents hFront]
    exact ⟨by simpa using hPage, trivial⟩
  · have hDrop : contents.drop 1000 = [] := drop_eq_nil_of_le (not_lt.mp hMore)
    simp [hasMore, hMore, hDrop]

end S3

namespace Backend

/-- What a listing has to show after a token. -/
def rest : Backend → Objects → String → String → Result (List StoredObject)
  | .s3 base, s, pathPrefix, token => do
      let start ← S3.joinObjectKey base pathPrefix
      pure ((S3.contents s start token.toList).map (S3.shownAs base))
  | .filesystem, s, pathPrefix, token => (Filesystem.list s ⟨pathPrefix, token, 1000⟩).map (·.objects)

def shown (backend : Backend) (s : Objects) (pathPrefix : String) : Result (List StoredObject) :=
  backend.rest s pathPrefix ""

variable {backend : Backend} {s : Objects} {pathPrefix token : String}

theorem list_error (h : backend.list s ⟨pathPrefix, token, 1000⟩ = .error err) :
    backend.rest s pathPrefix token = .error err := by
  cases backend with
  | s3 base =>
    simp only [list, S3.list, rest] at h ⊢
    cases hStart : S3.joinObjectKey base pathPrefix with
    | error failure => simpa [hStart, bind, Except.bind] using h
    | ok start => simp [hStart, bind, Except.bind, pure, Except.pure] at h
  | filesystem => simp [list, Filesystem.list] at h

theorem list_page (h : backend.list s ⟨pathPrefix, token, 1000⟩ = .ok res) :
    ∃ later, backend.rest s pathPrefix token = .ok (res.objects ++ later) ∧
      if res.hasMore then
        res.objects ≠ [] ∧ backend.rest s pathPrefix res.continuationToken = .ok later
      else later = [] := by
  cases backend with
  | filesystem =>
    cases h
    exact ⟨[], by simp [rest, Filesystem.list, Except.map], by simp⟩
  | s3 base =>
    simp only [list, S3.list, rest] at h ⊢
    cases hStart : S3.joinObjectKey base pathPrefix with
    | error failure => simp [hStart, bind, Except.bind] at h
    | ok start =>
      have hSize : S3.pageSize 1000 = 1000 := rfl
      simp only [hStart, bind, Except.bind, pure, Except.pure, Except.ok.injEq, hSize] at h ⊢
      subst h
      change ∃ later, (S3.contents s start token.toList).map (S3.shownAs base) =
        ((S3.contents s start token.toList).take 1000).map (S3.shownAs base) ++ later ∧ _
      refine ⟨((S3.contents s start token.toList).drop 1000).map (S3.shownAs base), ?_, ?_⟩
      · rw [← map_append, take_append_drop]
      · exact S3.page_rest base

theorem rest_length (h : backend.rest s pathPrefix token = .ok objs) : objs.length ≤ s.entries.length := by
  cases backend with
  | filesystem =>
    simp only [rest, Filesystem.list, Except.map, Except.ok.injEq] at h
    subst h
    rw [length_map, (Filesystem.inWalkOrder_perm _).length_eq]
    exact length_filter_le _ _
  | s3 base =>
    simp only [rest] at h
    cases hStart : S3.joinObjectKey base pathPrefix with
    | error failure => simp [hStart, bind, Except.bind] at h
    | ok start =>
      simp only [hStart, bind, Except.bind, pure, Except.pure, Except.ok.injEq] at h
      subst h
      rw [length_map, S3.contents, (sortedEntries_perm _).length_eq]
      exact length_filter_le _ _

def covers : Backend → String → Address → Bool
  | .s3 base, pathPrefix, a =>
    match S3.joinObjectKey base pathPrefix with
    | .ok start => start.isPrefixOf a
    | .error _ => false
  | .filesystem, pathPrefix, a => (Filesystem.walkRoot pathPrefix).isPrefixOf (components a)

def keyOf : Backend → Address → String
  | .s3 base, a => S3.listedKey base a
  | .filesystem, a => String.ofList a

def sorted : Backend → List (Address × Bytes) → List (Address × Bytes)
  | .s3 _, entries => sortedEntries entries
  | .filesystem, entries => Filesystem.inWalkOrder entries

theorem sorted_perm (backend : Backend) (entries : List (Address × Bytes)) : (backend.sorted entries).Perm entries := by
  cases backend <;> exact perm_insertionSort _ _

def covered (backend : Backend) (s : Objects) (pathPrefix : String) : List (Address × Bytes) :=
  backend.sorted (s.entries.filter fun entry => backend.covers pathPrefix entry.1)

def shownAs (backend : Backend) (entry : Address × Bytes) : StoredObject := ⟨backend.keyOf entry.1, entry.2.length⟩

def firstPage : Backend → List (Address × Bytes) → List (Address × Bytes)
  | .s3 _, entries => entries.take 1000
  | .filesystem, entries => entries

theorem firstPage_sublist (backend : Backend) (entries : List (Address × Bytes)) :
    (backend.firstPage entries).Sublist entries := by
  cases backend with
  | s3 base => exact take_sublist 1000 entries
  | filesystem => exact List.Sublist.refl entries

theorem mem_covered :
    entry ∈ backend.covered s pathPrefix ↔
      s.find entry.1 = some entry.2 ∧ backend.covers pathPrefix entry.1 = true := by
  rw [covered, (sorted_perm _ _).mem_iff, mem_filter, Objects.find_eq_some_iff]

theorem covered_nodup : ((backend.covered s pathPrefix).map (·.1)).Nodup := by
  have hPerm : ((backend.covered s pathPrefix).map (·.1)).Perm
      ((s.entries.filter fun entry => backend.covers pathPrefix entry.1).map (·.1)) :=
    (sorted_perm _ _).map _
  exact hPerm.nodup_iff.mpr (s.nodup.sublist (filter_sublist.map _))

theorem listed_empty (start : List Char) :
    S3.listed start "".toList = fun entry : Address × Bytes => start.isPrefixOf entry.1 := by
  funext entry
  simp [S3.listed]

theorem shown_eq (backend : Backend) (s : Objects) (pathPrefix : String) :
    backend.shown s pathPrefix = .ok ((backend.covered s pathPrefix).map backend.shownAs) ∨
      ∃ err, backend.shown s pathPrefix = .error err ∧ ∀ a, backend.covers pathPrefix a = false := by
  cases backend with
  | filesystem => exact .inl rfl
  | s3 base =>
    simp only [shown, rest, covered, covers, S3.contents]
    cases hStart : S3.joinObjectKey base pathPrefix with
    | error err => exact .inr ⟨err, rfl, fun _ => rfl⟩
    | ok start =>
      simp only [bind, Except.bind, listed_empty]
      exact .inl rfl

theorem covered_eq_nil (h : ∀ a, backend.covers pathPrefix a = false) : backend.covered s pathPrefix = [] := by
  cases backend <;> simp [covered, h, sorted, sortedEntries, Filesystem.inWalkOrder]

theorem list_firstPage (h : backend.list s ⟨pathPrefix, "", 1000⟩ = .ok res) :
    res.objects = (backend.firstPage (backend.covered s pathPrefix)).map backend.shownAs := by
  cases backend with
  | filesystem =>
    cases h
    rfl
  | s3 base =>
    simp only [list, S3.list, covered, covers, firstPage] at h ⊢
    cases hStart : S3.joinObjectKey base pathPrefix with
    | error err => simp [hStart, bind, Except.bind] at h
    | ok start =>
      simp only [hStart, bind, Except.bind, pure, Except.pure, Except.ok.injEq] at h
      rw [listed_empty] at h
      subst h
      rfl

end Backend

end DBVault
