import DBVault.Storage.Listing

/-! When a listing spells an object the way its writer does. A key is written
below a directory as it comes, the adapters clean it into an address, and a
listing spells the address: the circle closes only for clean paths. -/
namespace DBVault
open List Text Text.Path

theorem prefix_slash_iff (h : '/' ∉ lead) : lead <+: p ++ '/' :: q ↔ lead <+: p := by
  induction lead generalizing p with
  | nil => simp
  | cons c rest ih =>
    simp only [mem_cons, not_or] at h
    cases p with
    | nil => simp [cons_prefix_cons, Ne.symm h.1]
    | cons d others => rw [cons_append, cons_prefix_cons, cons_prefix_cons, ih h.2]

theorem join_prefix_iff (hParts : parts ≠ []) :
    join (lead ++ [dir]) <+: join (lead ++ parts) ↔ dir <+: join parts := by
  by_cases hLead : lead = []
  · simp [hLead]
  · rw [join_append hLead (by simp), join_append hLead hParts, join_singleton,
      prefix_append_right_inj, cons_prefix_cons]
    simp

theorem trimPrefix_cases (lead p : List Char) :
    p = lead ++ trimPrefix lead p ∨ (¬ lead <+: p ∧ trimPrefix lead p = p) := by
  unfold trimPrefix
  split
  · rename_i h
    exact .inl (prefix_iff_eq_append.mp (List.isPrefixOf_iff_prefix.mp h)).symm
  · rename_i h
    exact .inr ⟨fun hLead => h (List.isPrefixOf_iff_prefix.mpr hLead), rfl⟩

theorem components_ne_nil (p : List Char) : components p ≠ [] := splitOn_ne_nil '/' p

namespace S3

theorem normal_slashes {rooted : Bool} (h : ∀ c ∈ slashes, c = '/') :
    normal rooted (components (slashes ++ p)) = normal rooted (components p) := by
  induction slashes with
  | nil => rfl
  | cons c rest ih =>
    obtain rfl : c = '/' := h c mem_cons_self
    have hComponents : components ('/' :: (rest ++ p)) = [] :: components (rest ++ p) := components_append [] _
    rw [cons_append, hComponents, ← ih fun d hd => h d (mem_cons_of_mem _ hd)]
    simp [normal, push]

theorem components_slashes (h : ∀ c ∈ slashes, c = '/') : ∀ c ∈ components slashes, c = [] := by
  induction slashes with
  | nil => simp [components]
  | cons c rest ih =>
    obtain rfl : c = '/' := h c mem_cons_self
    have hComponents : components ('/' :: rest) = [] :: components rest := components_append [] _
    rw [hComponents]
    simpa using ih fun d hd => h d (mem_cons_of_mem _ hd)

theorem trimSlashes_split (p : List Char) : ∃ front back, p = front ++ (trimSlashes p ++ back) ∧
    (∀ c ∈ front, c = '/') ∧ ∀ c ∈ back, c = '/' := by
  refine ⟨p.takeWhile (· == '/'), ((p.dropWhile (· == '/')).reverse.takeWhile (· == '/')).reverse, ?_, ?_, ?_⟩
  · have hBack := takeWhile_append_dropWhile (p := (· == '/')) (l := (p.dropWhile (· == '/')).reverse)
    have hInner : p.dropWhile (· == '/') = trimSlashes p ++
        ((p.dropWhile (· == '/')).reverse.takeWhile (· == '/')).reverse := by
      rw [trimSlashes, ← reverse_append, hBack, reverse_reverse]
    rw [← hInner, takeWhile_append_dropWhile]
  · intro c hc
    simpa using mem_takeWhile_imp hc
  · intro c hc
    simpa using mem_takeWhile_imp (mem_reverse.mp hc)

theorem baseParts_of_plain (h : ∀ c ∈ components (trimSlashes base.toList), Plain c) :
    baseParts base = components (trimSlashes base.toList) := by
  have hBase : base ≠ "" := by
    rintro rfl
    exact (h [] (by decide)).nonempty rfl
  obtain ⟨front, back, hSplit, hFront, hBack⟩ := trimSlashes_split base.toList
  have hNormal : baseParts base =
      normal (isRooted base.toList) (components (trimSlashes base.toList ++ back)) := by
    rw [baseParts, if_neg hBase]
    conv_lhs => rw [hSplit, normal_slashes hFront, ← hSplit]
  rw [hNormal]
  cases back with
  | nil => rw [append_nil, normal_plain h]
  | cons c rest =>
    obtain rfl : c = '/' := hBack c mem_cons_self
    have hEmpty := components_slashes fun d hd => hBack d (mem_cons_of_mem _ hd)
    have hDots : dotDot ∉ components rest := fun hMem => by cases hEmpty dotDot hMem
    have hFilter : (components rest).filter keeps = [] := by
      apply filter_eq_nil_iff.mpr
      intro d hd
      simp [hEmpty d hd, keeps]
    rw [components_append, normal_append_noDotDot hDots, normal_plain h, hFilter, append_nil]

variable {part : String}

theorem joinObjectKey_eq (hDots : dotDot ∉ components part.toList)
    (hPlace : Backend.place (.s3 base) (components part.toList) ≠ []) :
    joinObjectKey base part =
      if dotDot ∈ Backend.place (.s3 base) (components part.toList) then
        .error (.other "invalid object key")
      else .ok (join (Backend.place (.s3 base) (components part.toList))) := by
  obtain ⟨rooted, hJoined⟩ := trim_clean_join base hDots
  have hKept := Backend.place_kept (.s3 base) part.toList
  simp only [joinObjectKey, hDots, if_false, hJoined]
  generalize Backend.place (.s3 base) (components part.toList) = parts at hPlace hKept
  have hSegments : (components (join parts)).any (fun seg => seg = dotDot || seg = []) =
      decide (dotDot ∈ parts) := by
    rw [components_join (fun c hc => (hKept c hc).2.2) hPlace, Bool.eq_iff_iff]
    simp only [any_eq_true, Bool.or_eq_true, decide_eq_true_eq]
    constructor
    · rintro ⟨c, hc, rfl | rfl⟩
      · exact hc
      · exact absurd rfl (hKept [] hc).1
    · exact fun hMem => ⟨dotDot, hMem, .inl rfl⟩
  simp only [hPlace, false_and, if_false, if_neg (join_ne_dot hKept), checkSegments, hSegments, decide_eq_true_eq]

theorem dotDot_not_mem_key {base : String} {a : Address} (h : joinObjectKey base part = .ok a) :
    dotDot ∉ components part.toList := by
  intro hMem
  simp [joinObjectKey, hMem] at h

theorem dotDot_not_mem_base (h : joinObjectKey base part = .ok a) : dotDot ∉ baseParts base := by
  intro hMem
  have hPlace : dotDot ∈ Backend.place (.s3 base) (components part.toList) := mem_append_left _ hMem
  rw [joinObjectKey_eq (dotDot_not_mem_key h) (ne_nil_of_mem hPlace), if_pos hPlace] at h
  cases h

theorem joinObjectKey_directory (h : joinObjectKey base part = .ok a) (hDir : Plain dir)
    (hPath : path.toList = dir ++ ['/']) :
    joinObjectKey base path = .ok (join (baseParts base ++ [dir])) := by
  have hComponents : components path.toList = [dir, []] := by
    rw [hPath, components_append, components_slashFree hDir.slashFree]
    rfl
  have hDots : dotDot ∉ components path.toList := by
    rw [hComponents, mem_cons, not_or]
    exact ⟨Ne.symm hDir.notDotDot, by decide⟩
  have hPlace : Backend.place (.s3 base) (components path.toList) = baseParts base ++ [dir] := by
    have hFilter : [dir, []].filter keeps = [dir] := by
      rw [filter_cons_of_pos (keeps_of_plain hDir)]
      rfl
    rw [hComponents, Backend.place, hFilter]
  have hNot : dotDot ∉ baseParts base ++ [dir] := by
    simp only [mem_append, mem_singleton, not_or]
    exact ⟨dotDot_not_mem_base h, Ne.symm hDir.notDotDot⟩
  rw [joinObjectKey_eq hDots (by simp [hPlace]), hPlace, if_neg hNot]

end S3

namespace Backend

/-- The listing of `snapshots/` shows what is written for a source, under the
keys it is written under: the source is a clean path, it begins with
`snapshots`, and the configured prefix is spelt clean. -/
def Finds : Backend → String → Prop
  | .s3 base, sourceID => (∀ c ∈ components sourceID.toList, keeps c = true) ∧
      "snapshots".toList <+: sourceID.toList ∧
      (S3.baseParts base = [] ∨ trimSlashes base.toList = join (S3.baseParts base))
  | .filesystem, sourceID => normal true (components sourceID.toList) = components sourceID.toList ∧
      (components sourceID.toList).head? = some "snapshots".toList

variable {backend : Backend}

theorem Finds.ne_empty (h : backend.Finds sourceID) : sourceID ≠ "" := by
  rintro rfl
  cases backend with
  | s3 base => exact absurd (h.1 [] (by decide)) (by decide)
  | filesystem => exact absurd h.1 (by decide)

section
variable {sourceID key : String} {a : Address} {tail : List Component}
  (hKey : components key.toList = components sourceID.toList ++ tail)
include hKey

theorem key_eq (hNe : tail ≠ []) : key.toList = sourceID.toList ++ '/' :: join tail := by
  rw [← join_components key.toList, hKey, join_append (components_ne_nil _) hNe, join_components]

section
variable (hTail : ∀ c ∈ tail, Plain c)
include hTail

section
variable (hNe : tail ≠ [])
include hNe

theorem filesystem_shows_iff (h : filesystem.locate key = .ok a) :
    filesystem.covers "snapshots/" a = true ∧ filesystem.keyOf a = key ↔ filesystem.Finds sourceID := by
  have hAddress := locate_ok h
  have hFree := fun c hc => (filesystem.place_kept key.toList c hc).2.2
  rw [hKey, filesystem.place_append hTail] at hAddress hFree
  have hComponents : components a = normal true (components sourceID.toList) ++ tail := by
    rw [hAddress]
    exact components_join hFree (by simp [hNe])
  have hSpelt : filesystem.keyOf a = key ↔
      normal true (components sourceID.toList) = components sourceID.toList := by
    constructor
    · intro hSame
      have hChars : a = key.toList := by rw [← hSame]; simp [keyOf]
      rw [hChars, hKey] at hComponents
      exact (append_cancel_right hComponents).symm
    · intro hClean
      rw [hClean, ← hKey] at hComponents
      rw [keyOf, ← join_components a, hComponents, join_components]
      simp
  rw [hSpelt, Finds, and_comm]
  refine and_congr_right fun hClean => ?_
  have hDirectory : Filesystem.walkRoot "snapshots/" = ["snapshots".toList] := by decide
  obtain ⟨first, rest, hFirst⟩ := exists_cons_of_ne_nil (components_ne_nil sourceID.toList)
  rw [covers, hDirectory, hComponents, hClean, hFirst]
  rw [List.isPrefixOf_iff_prefix, cons_append, cons_prefix_cons, head?_cons, Option.some.injEq]
  exact ⟨fun hPrefix => hPrefix.1.symm, fun hSame => ⟨hSame.symm, nil_prefix⟩⟩

theorem s3_components (h : (s3 base).locate key = .ok a) :
    components a = S3.baseParts base ++ ((components sourceID.toList).filter keeps ++ tail) ∧
      ∀ c ∈ components a, Plain c := by
  have hAddress := locate_ok h
  have hKept := (s3 base).place_kept key.toList
  have hFilter : tail.filter keeps = tail := filter_eq_self.mpr fun c hc => keeps_of_plain (hTail c hc)
  have hPlace : (s3 base).place (components key.toList) =
      S3.baseParts base ++ ((components sourceID.toList).filter keeps ++ tail) := by
    rw [hKey, place, filter_append, hFilter]
  have hComponents : components a = (s3 base).place (components key.toList) := by
    rw [hAddress]
    exact components_join (fun c hc => (hKept c hc).2.2) (by simp [hPlace, hNe])
  refine ⟨hComponents.trans hPlace, ?_⟩
  intro c hc
  rw [hComponents] at hc
  obtain ⟨hEmpty, hDot, hSlash⟩ := hKept c hc
  refine ⟨hEmpty, hDot, ?_, hSlash⟩
  rintro rfl
  rcases mem_append.mp hc with hBase | hPart
  · exact S3.dotDot_not_mem_base h hBase
  · exact S3.dotDot_not_mem_key h (mem_filter.mp hPart).1

theorem s3_spelt_iff (h : (s3 base).locate key = .ok a) :
    (s3 base).keyOf a = key ↔ (∀ c ∈ components sourceID.toList, keeps c = true) ∧
      (S3.baseParts base = [] ∨ trimSlashes base.toList = join (S3.baseParts base)) := by
  obtain ⟨hComponents, hPlain⟩ := s3_components hKey hTail hNe h
  have hChars : (s3 base).keyOf a = key ↔ trimPrefix (trimSlashes base.toList ++ ['/']) a = key.toList := by
    rw [keyOf, S3.listedKey, ← String.toList_inj, String.toList_ofList]
  rw [hChars]
  have hSplit := trimPrefix_cases (trimSlashes base.toList ++ ['/']) a
  constructor
  · intro hTrim
    rw [hTrim] at hSplit
    -- the components of the source are among those of the address
    have hKeeps : ∀ {lead : List Component},
        components a = lead ++ (components sourceID.toList ++ tail) →
          (∀ c ∈ components sourceID.toList, keeps c = true) ∧ lead = S3.baseParts base := by
      intro lead hLead
      have hAll : ∀ c ∈ components sourceID.toList, keeps c = true := by
        intro c hc
        exact keeps_of_plain (hPlain c (by rw [hLead]; simp [hc]))
      rw [hComponents, filter_eq_self.mpr hAll] at hLead
      exact ⟨hAll, (append_cancel_right hLead).symm⟩
    rcases hSplit with hFront | ⟨-, hSame⟩
    · have hLead : components a =
          components (trimSlashes base.toList) ++ (components sourceID.toList ++ tail) := by
        rw [hFront, append_assoc, singleton_append, components_append, hKey]
      obtain ⟨hAll, hBase⟩ := hKeeps hLead
      exact ⟨hAll, .inr (by rw [← hBase, join_components])⟩
    · have hLead : components a = [] ++ (components sourceID.toList ++ tail) := by rw [← hSame, hKey, nil_append]
      obtain ⟨hAll, hBase⟩ := hKeeps hLead
      exact ⟨hAll, .inl hBase.symm⟩
  · rintro ⟨hAll, hBase⟩
    rw [filter_eq_self.mpr hAll, ← hKey] at hComponents
    have hAddress : a = join (S3.baseParts base ++ components key.toList) := by rw [← hComponents, join_components]
    by_cases hNone : S3.baseParts base = []
    · rw [hNone, nil_append, join_components] at hAddress
      rcases hSplit with hFront | ⟨-, hSame⟩
      · -- an address that begins with the prefix shows that the prefix has components
        rw [append_assoc, singleton_append] at hFront
        have hParts := components_append (trimSlashes base.toList)
          (trimPrefix (trimSlashes base.toList ++ ['/']) a)
        rw [← hFront] at hParts
        have hBaseParts := S3.baseParts_of_plain fun c hc => hPlain c (by rw [hParts]; exact mem_append_left _ hc)
        rw [hNone] at hBaseParts
        exact absurd hBaseParts.symm (components_ne_nil _)
      · rw [hSame, hAddress]
    · have hTrim := hBase.resolve_left hNone
      rw [join_append hNone (components_ne_nil _), join_components] at hAddress
      have hFront : a = (trimSlashes base.toList ++ ['/']) ++ key.toList := by
        rw [hTrim, hAddress, append_assoc, singleton_append]
      conv_lhs => rw [hFront, trimPrefix_append]

theorem s3_shows_iff (h : (s3 base).locate key = .ok a) :
    (s3 base).covers "snapshots/" a = true ∧ (s3 base).keyOf a = key ↔ (s3 base).Finds sourceID := by
  have hDirectory : S3.joinObjectKey base "snapshots/" = .ok (join (S3.baseParts base ++ ["snapshots".toList])) :=
    S3.joinObjectKey_directory h ⟨by decide, by decide, by decide, by decide⟩ (by decide)
  have hCovers : (∀ c ∈ components sourceID.toList, keeps c = true) →
      ((s3 base).covers "snapshots/" a = true ↔ "snapshots".toList <+: sourceID.toList) := by
    intro hAll
    obtain ⟨hComponents, -⟩ := s3_components hKey hTail hNe h
    rw [filter_eq_self.mpr hAll, ← hKey] at hComponents
    have hAddress : a = join (S3.baseParts base ++ components key.toList) := by rw [← hComponents, join_components]
    simp only [covers, hDirectory]
    rw [List.isPrefixOf_iff_prefix, hAddress, join_prefix_iff (components_ne_nil _), join_components,
      key_eq hKey hNe, prefix_slash_iff (by decide)]
  rw [s3_spelt_iff hKey hTail hNe h, Finds]
  constructor
  · rintro ⟨hCovered, hAll, hBase⟩
    exact ⟨hAll, (hCovers hAll).mp hCovered, hBase⟩
  · rintro ⟨hAll, hLead, hBase⟩
    exact ⟨(hCovers hAll).mpr hLead, hAll, hBase⟩

theorem shows_iff (h : backend.locate key = .ok a) :
    backend.covers "snapshots/" a = true ∧ backend.keyOf a = key ↔ backend.Finds sourceID := by
  cases backend with
  | s3 base => exact s3_shows_iff hKey hTail hNe h
  | filesystem => exact filesystem_shows_iff hKey hTail hNe h

end

end

theorem s3_not_chunks (hFinds : (s3 base).Finds sourceID)
    (h : (s3 base).locate key = .ok a) : (s3 base).covers "chunks/" a = false := by
  obtain ⟨hAll, hLead, -⟩ := hFinds
  have hDirectory : S3.joinObjectKey base "chunks/" = .ok (join (S3.baseParts base ++ ["chunks".toList])) :=
    S3.joinObjectKey_directory h ⟨by decide, by decide, by decide, by decide⟩ (by decide)
  have hSource := components_ne_nil sourceID.toList
  have hAddress : a = join (S3.baseParts base ++ (components sourceID.toList ++ tail.filter keeps)) := by
    rw [locate_ok h, hKey, place, filter_append, filter_eq_self.mpr hAll]
  have hJoin : sourceID.toList <+: join (components sourceID.toList ++ tail.filter keeps) := by
    by_cases hNone : tail.filter keeps = []
    · exact ⟨[], by rw [hNone, append_nil, append_nil, join_components]⟩
    · rw [join_append hSource hNone, join_components]
      exact prefix_append _ _
  simp only [covers, hDirectory]
  rw [Bool.eq_false_iff, Ne, List.isPrefixOf_iff_prefix, hAddress, join_prefix_iff (by simp [hSource])]
  intro hChunks
  obtain ⟨rest, hRest⟩ := hLead.trans hJoin
  rw [← hRest] at hChunks
  exact absurd hChunks (by simp)

end

/-- On the filesystem, what the listing of `chunks/` shows does not begin with
a source that is found. -/
theorem filesystem_not_chunks {sourceID key : String} {a : Address} {tail : List Component}
    (hFinds : filesystem.Finds sourceID) (hKey : components key.toList = components sourceID.toList ++ tail)
    (h : filesystem.covers "chunks/" a = true) : filesystem.keyOf a ≠ key := by
  rintro rfl
  have hDirectory : Filesystem.walkRoot "chunks/" = ["chunks".toList] := by decide
  obtain ⟨first, rest, hFirst⟩ := exists_cons_of_ne_nil (components_ne_nil sourceID.toList)
  have hHead : first = "snapshots".toList := by
    have hFound := hFinds.2
    rw [hFirst] at hFound
    exact Option.some.inj hFound
  rw [keyOf, String.toList_ofList, hFirst, hHead] at hKey
  rw [covers, hDirectory, hKey, List.isPrefixOf_iff_prefix, cons_append, cons_prefix_cons] at h
  exact absurd h.1 (by decide)

theorem shown_ok (dir : Component) (h : backend.locate key = .ok a) (hDir : Plain dir)
    (hPath : path.toList = dir ++ ['/']) (s : Objects) : ∃ objs, backend.shown s path = .ok objs := by
  cases backend with
  | filesystem => exact ⟨_, rfl⟩
  | s3 base =>
    simp only [shown, rest, S3.joinObjectKey_directory h hDir hPath]
    exact ⟨_, rfl⟩

theorem endsIn_of_keyOf {a : Address} {front tail : List Component}
    (hKey : components (backend.keyOf a).toList = front ++ tail) : EndsIn a tail := by
  cases backend with
  | filesystem =>
    rw [keyOf, String.toList_ofList] at hKey
    exact endsIn_self hKey
  | s3 base =>
    rw [keyOf, S3.listedKey, String.toList_ofList] at hKey
    rcases trimPrefix_cases (trimSlashes base.toList ++ ['/']) a with hFront | ⟨-, hSame⟩
    · rw [append_assoc, singleton_append] at hFront
      have hParts : components a = (components (trimSlashes base.toList) ++ front) ++ tail := by
        rw [hFront, components_append, hKey, append_assoc]
      exact endsIn_self hParts
    · rw [hSame] at hKey
      exact endsIn_self hKey

theorem place_inj {key other : List Char}
    (hSame : join (backend.place (components key)) = join (backend.place (components other))) :
    backend.place (components key) = backend.place (components other) := by
  have hKept := backend.place_kept key
  have hOther := backend.place_kept other
  by_cases hEmpty : backend.place (components key) = []
  · by_contra hNe
    rw [hEmpty] at hSame hNe
    exact join_ne_nil (Ne.symm hNe) (fun c hc => (hOther c hc).1) hSame.symm
  · by_cases hEmpty' : backend.place (components other) = []
    · rw [hEmpty'] at hSame
      exact absurd hSame (join_ne_nil hEmpty fun c hc => (hKept c hc).1)
    · exact join_inj (fun c hc => (hKept c hc).2.2) (fun c hc => (hOther c hc).2.2) hEmpty hEmpty' hSame

theorem locate_meet {here there : Backend} {key other : String} {a b b' : Address}
    (hKey : here.locate key = .ok a) (hOther : here.locate other = .ok a)
    (hThere : there.locate key = .ok b) (hThere' : there.locate other = .ok b') : b = b' := by
  have hPlace := place_inj ((locate_ok hKey).symm.trans (locate_ok hOther))
  rw [locate_ok hThere, locate_ok hThere']
  cases here with
  | s3 base =>
    have hKeeps := append_cancel_left hPlace
    cases there with
    | s3 base' => simp only [place, hKeeps]
    | filesystem =>
      simp only [place, normal_noDotDot (S3.dotDot_not_mem_key hKey),
        normal_noDotDot (S3.dotDot_not_mem_key hOther), hKeeps]
  | filesystem =>
    cases there with
    | s3 base' =>
      have hKeeps : (components key.toList).filter keeps = (components other.toList).filter keeps := by
        rw [← normal_noDotDot (S3.dotDot_not_mem_key hThere), ← normal_noDotDot (S3.dotDot_not_mem_key hThere')]
        exact hPlace
      simp only [place, hKeeps]
    | filesystem => rw [hPlace]

end Backend

end DBVault
