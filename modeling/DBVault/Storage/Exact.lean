import DBVault.Ports
import DBVault.Storage.Spelling

/-! When a listing is exact: it shows the keys that were put under a string prefix, each
once, and each of them leads back to the object that was shown. -/
namespace DBVault
open List Text Text.Path Backend Filesystem

theorem join_cons (c : Component) (rest : List Component) :
    join (c :: rest) = c ++ if rest = [] then [] else '/' :: join rest := by
  cases rest with
  | nil => simp
  | cons d others => rw [join_cons_cons, if_neg (by simp)]

theorem join_prefix_join (hFirst : first ≠ []) (hSecond : second ≠ []) :
    join (lead ++ first) <+: join (lead ++ second) ↔ join first <+: join second := by
  by_cases hLead : lead = []
  · simp [hLead]
  · rw [join_append hLead hFirst, join_append hLead hSecond, prefix_append_right_inj, cons_prefix_cons]
    simp

theorem components_append_text (p t : List Char) :
    ∃ front last u more, components p = front ++ [last] ∧ components t = u :: more ∧
      components (p ++ t) = front ++ (last ++ u) :: more := by
  obtain ⟨front, last, hParts⟩ := (eq_nil_or_concat (components p)).resolve_left (components_ne_nil p)
  obtain ⟨u, more, hMore⟩ := exists_cons_of_ne_nil (components_ne_nil t)
  rw [concat_eq_append] at hParts
  refine ⟨front, last, u, more, hParts, hMore, ?_⟩
  have hText : p ++ t = join (front ++ (last ++ u) :: more) := by
    conv_lhs => rw [← join_components p, ← join_components t, hParts, hMore]
    by_cases hFront : front = []
    · simp [hFront, join_cons]
    · rw [join_append hFront (by simp), join_append hFront (by simp)]
      simp [join_cons]
  rw [hText]
  refine components_join (fun c hc => ?_) (by simp)
  have hFree : ∀ {q : List Char} {d : Component}, d ∈ components q → '/' ∉ d := slashFree_of_mem_components
  rcases mem_append.mp hc with hc | hc
  · exact hFree (q := p) (by simp [hParts, hc])
  · rcases mem_cons.mp hc with rfl | hc
    · rw [mem_append, not_or]
      exact ⟨hFree (q := p) (by simp [hParts]), hFree (q := t) (by simp [hMore])⟩
    · exact hFree (q := t) (by simp [hMore, hc])

theorem join_prefix_append (first second : List Component) : join first <+: join (first ++ second) := by
  by_cases hFirst : first = []
  · simp [hFirst]
  · by_cases hSecond : second = []
    · simp [hSecond]
    · rw [join_append hFirst hSecond]
      exact prefix_append _ _

theorem place_prefix (hLead : p <+: k) (base : List Component) :
    join (base ++ (components p).filter keeps) <+: join (base ++ (components k).filter keeps) := by
  obtain ⟨t, rfl⟩ := hLead
  obtain ⟨front, last, u, more, hParts, -, hAll⟩ := components_append_text p t
  rw [hParts, hAll, filter_append, filter_append, ← append_assoc, ← append_assoc]
  by_cases hKeep : keeps last = true
  · have hLast : last ≠ [] ∧ last ≠ dot := by simpa [keeps] using hKeep
    have hLonger : keeps (last ++ u) = true := by
      obtain ⟨c, rest, rfl⟩ := exists_cons_of_ne_nil hLast.1
      simp only [keeps, Bool.and_eq_true, decide_eq_true_eq, ne_eq]
      refine ⟨by simp, fun hDot => hLast.2 ?_⟩
      obtain ⟨rfl, hNil⟩ := List.cons.inj hDot
      rw [(append_eq_nil_iff.mp hNil).1]
      rfl
    rw [filter_cons_of_pos hKeep, filter_nil, filter_cons_of_pos hLonger,
      join_prefix_join (by simp) (by simp), join_singleton, join_cons, append_assoc]
    exact prefix_append _ _
  · rw [filter_cons_of_neg hKeep, filter_nil, append_nil]
    exact join_prefix_append _ _

namespace S3

def verbatim (base key : String) : Address :=
  if baseParts base = [] then key.toList else trimSlashes base.toList ++ '/' :: key.toList

/-- The key reaches the bucket as it is written. -/
structure KeptAs (base key : String) (a : Address) : Prop where
  located : joinObjectKey base key = .ok a
  same : a = verbatim base key

variable {a : Address} {base key : String}

theorem joinObjectKey_plain (hJoin : joinObjectKey base key = .ok a) (hNe : a ≠ []) :
    components a = baseParts base ++ (components key.toList).filter keeps ∧ ∀ c ∈ components a, Plain c := by
  have hAddress := joinObjectKey_ok hJoin
  have hKept := place_kept (.s3 base) key.toList
  have hPlace : place (.s3 base) (components key.toList) ≠ [] := by
    intro hNil
    exact hNe (by rw [hAddress, hNil, join_nil])
  have hComponents : components a = place (.s3 base) (components key.toList) := by
    rw [hAddress, components_join (fun c hc => (hKept c hc).2.2) hPlace]
  refine ⟨hComponents, fun c hc => ?_⟩
  rw [hComponents] at hc
  obtain ⟨hEmpty, hDot, hSlash⟩ := hKept c hc
  refine ⟨hEmpty, hDot, ?_, hSlash⟩
  rintro rfl
  rcases mem_append.mp hc with hBase | hPart
  · exact dotDot_not_mem_base hJoin hBase
  · exact dotDot_not_mem_key hJoin (mem_filter.mp hPart).1

theorem baseParts_of_address {rest : Address} (hJoin : joinObjectKey base key = .ok a)
    (hFront : a = trimSlashes base.toList ++ '/' :: rest) : baseParts base ≠ [] := by
  have hPlain := (joinObjectKey_plain hJoin (by simp [hFront])).2
  rw [hFront, components_append] at hPlain
  rw [baseParts_of_plain fun c hc => hPlain c (mem_append_left _ hc)]
  exact components_ne_nil _

theorem KeptAs.listedKey (hKept : KeptAs base key a) : S3.listedKey base a = key := by
  have hChars : trimPrefix (trimSlashes base.toList ++ ['/']) a = key.toList := by
    by_cases hBase : baseParts base = []
    · have hSame : a = key.toList := by rw [hKept.same, verbatim, if_pos hBase]
      rcases trimPrefix_cases (trimSlashes base.toList ++ ['/']) a with hFront | ⟨-, hTrim⟩
      · rw [append_assoc, singleton_append] at hFront
        exact absurd hBase (baseParts_of_address hKept.located hFront)
      · rw [hTrim, hSame]
    · rw [hKept.same, verbatim, if_neg hBase, ← singleton_append (l := key.toList),
        ← append_assoc, trimPrefix_append]
  rw [S3.listedKey, hChars, String.ofList_toList]

theorem keptAs_listedKey (hJoin : joinObjectKey base (S3.listedKey base a) = .ok a) :
    KeptAs base (S3.listedKey base a) a := by
  refine ⟨hJoin, ?_⟩
  have hText : (S3.listedKey base a).toList = trimPrefix (trimSlashes base.toList ++ ['/']) a := by
    rw [S3.listedKey, String.toList_ofList]
  rcases trimPrefix_cases (trimSlashes base.toList ++ ['/']) a with hFront | ⟨-, hTrim⟩
  · rw [← hText, append_assoc, singleton_append] at hFront
    rw [verbatim, if_neg (baseParts_of_address hJoin hFront)]
    exact hFront
  · rw [hTrim] at hText
    by_cases hBase : baseParts base = []
    · rw [verbatim, if_pos hBase, hText]
    · have hNe : a ≠ [] := by
        rw [joinObjectKey_ok hJoin]
        exact join_ne_nil (by simp [place, hBase]) fun c hc => (place_kept (.s3 base) _ c hc).1
      obtain ⟨hComponents, hPlain⟩ := joinObjectKey_plain hJoin hNe
      have hKeep : (components a).filter keeps = components a :=
        filter_eq_self.mpr fun c hc => keeps_of_plain (hPlain c hc)
      rw [hText, hKeep] at hComponents
      exact absurd (self_eq_append_left.mp hComponents) hBase

end S3

/-- The objects shown are those held under keys that start with the prefix, each key is shown
once, and reading a key that was shown gives the object it was shown for. -/
structure Shows (held : String → Option Bytes) (pathPrefix : String)
    (locate : String → Result Address) (keyOf : Address → String)
    (shown : List (Address × Bytes)) : Prop where
  once : (shown.map fun entry => keyOf entry.1).Nodup
  exact_keys : ∀ key, key ∈ shown.map (fun entry => keyOf entry.1) ↔
    (∃ bytes, held key = some bytes) ∧ pathPrefix.toList <+: key.toList
  addressable : ∀ entry ∈ shown, locate (keyOf entry.1) = .ok entry.1 ∧ held (keyOf entry.1) = some entry.2

namespace Backend
variable (backend : Backend) (s : Objects) (pathPrefix : String)

def listAll : Nat → String → Result (List StoredObject)
  | 0, _ => .ok []
  | fuel + 1, token => do
      let res ← backend.list s ⟨pathPrefix, token, 1000⟩
      if res.hasMore then
        let later ← listAll fuel res.continuationToken
        pure (res.objects ++ later)
      else pure res.objects

variable {backend s pathPrefix}

theorem listAll_eq_rest (fuel : Nat) (token : String)
    (hFuel : ∀ objs, backend.rest s pathPrefix token = .ok objs → objs.length < fuel)
    (hPos : 0 < fuel) : backend.listAll s pathPrefix fuel token = backend.rest s pathPrefix token := by
  induction fuel generalizing token with
  | zero => exact absurd hPos (lt_irrefl 0)
  | succ fuel ih =>
    unfold listAll
    cases hList : backend.list s ⟨pathPrefix, token, 1000⟩ with
    | error err =>
      rw [list_error hList]
      rfl
    | ok res =>
      obtain ⟨later, hRest, hMore⟩ := list_page hList
      have hLength := hFuel _ hRest
      rw [length_append] at hLength
      by_cases hHas : res.hasMore = true
      · rw [if_pos hHas] at hMore
        have hSome := length_pos_iff.mpr hMore.1
        have hLater := ih res.continuationToken (fun objs hObjs => by
          rw [hMore.2] at hObjs
          obtain rfl := Except.ok.inj hObjs
          omega) (by omega)
        simp only [bind, Except.bind, hHas, if_true, hLater, hMore.2, hRest]
        rfl
      · rw [if_neg hHas] at hMore
        simp only [bind, Except.bind, hHas, hRest, hMore, append_nil]
        rfl

variable (backend s pathPrefix) in
theorem listAll_eq_shown : backend.listAll s pathPrefix (s.entries.length + 1) "" = backend.shown s pathPrefix :=
  listAll_eq_rest _ _ (fun _ hObjs => Nat.lt_succ_of_le (rest_length hObjs)) (Nat.succ_pos _)

end Backend

namespace S3

/-- The prefix is not refused, everything the listing covers was put there under a key that
starts with the prefix and is kept as it is written, and every such key is kept so. -/
structure ListsExactly (base : String) (s : Objects) (held : String → Option Bytes)
    (pathPrefix : String) : Prop where
  accepted : ∃ start, joinObjectKey base pathPrefix = .ok start
  sound : ∀ a bytes, s.find a = some bytes → covers (.s3 base) pathPrefix a = true →
    ∃ key, held key = some bytes ∧ pathPrefix.toList <+: key.toList ∧ KeptAs base key a
  complete : ∀ key bytes, held key = some bytes → pathPrefix.toList <+: key.toList →
    ∃ a, KeptAs base key a ∧ s.find a = some bytes

section
variable {base : String} {s : Objects} {held : String → Option Bytes} {pathPrefix : String}

theorem covers_of_prefix
    (hStart : joinObjectKey base pathPrefix = .ok start) (hKey : joinObjectKey base key = .ok a)
    (hLead : pathPrefix.toList <+: key.toList) : covers (.s3 base) pathPrefix a = true := by
  simp only [covers, hStart]
  rw [List.isPrefixOf_iff_prefix, joinObjectKey_ok hStart, joinObjectKey_ok hKey]
  exact place_prefix hLead _

theorem listsExactly_of_shows
    (hListed : Backend.listAll (.s3 base) s pathPrefix (s.entries.length + 1) "" =
      .ok ((Backend.covered (.s3 base) s pathPrefix).map (Backend.shownAs (.s3 base))))
    (hShows : Shows held pathPrefix (joinObjectKey base) (listedKey base)
      (Backend.covered (.s3 base) s pathPrefix)) : ListsExactly base s held pathPrefix := by
  have hEntry : ∀ entry ∈ Backend.covered (.s3 base) s pathPrefix, KeptAs base (listedKey base entry.1) entry.1 :=
    fun entry hIn => keptAs_listedKey (hShows.addressable entry hIn).1
  refine ⟨?_, fun a bytes hFind hCovers => ?_, fun key bytes hHeld hLead => ?_⟩
  · rw [Backend.listAll_eq_shown] at hListed
    cases hJoin : joinObjectKey base pathPrefix with
    | ok start => exact ⟨start, rfl⟩
    | error err => simp [Backend.shown, Backend.rest, hJoin, bind, Except.bind] at hListed
  · have hIn : (a, bytes) ∈ Backend.covered (.s3 base) s pathPrefix := Backend.mem_covered.mpr ⟨hFind, hCovers⟩
    have hKey := (hShows.exact_keys _).mp (mem_map_of_mem hIn)
    exact ⟨_, (hShows.addressable _ hIn).2, hKey.2, hEntry _ hIn⟩
  · obtain ⟨entry, hIn, rfl⟩ := mem_map.mp ((hShows.exact_keys key).mpr ⟨⟨bytes, hHeld⟩, hLead⟩)
    have hBytes := (hShows.addressable entry hIn).2
    rw [hHeld] at hBytes
    obtain rfl := Option.some.inj hBytes
    exact ⟨entry.1, hEntry entry hIn, (Backend.mem_covered.mp hIn).1⟩

theorem ListsExactly.shows (hExact : ListsExactly base s held pathPrefix) :
    Backend.listAll (.s3 base) s pathPrefix (s.entries.length + 1) "" =
        .ok ((Backend.covered (.s3 base) s pathPrefix).map (Backend.shownAs (.s3 base))) ∧
      Shows held pathPrefix (joinObjectKey base) (listedKey base) (Backend.covered (.s3 base) s pathPrefix) := by
  obtain ⟨start, hStart⟩ := hExact.accepted
  have hEntry : ∀ entry ∈ Backend.covered (.s3 base) s pathPrefix,
      ∃ key, held key = some entry.2 ∧ pathPrefix.toList <+: key.toList ∧ KeptAs base key entry.1 := by
    intro entry hIn
    obtain ⟨hFind, hCovers⟩ := Backend.mem_covered.mp hIn
    exact hExact.sound entry.1 entry.2 hFind hCovers
  refine ⟨?_, ?_, fun key => ⟨fun hIn => ?_, fun hHeld => ?_⟩, fun entry hIn => ?_⟩
  · rw [Backend.listAll_eq_shown]
    rcases shown_eq (.s3 base) s pathPrefix with hShown | ⟨err, hShown, -⟩
    · exact hShown
    · simp [Backend.shown, Backend.rest, hStart, bind, Except.bind, pure, Except.pure] at hShown
  · have hNodup : ((Backend.covered (.s3 base) s pathPrefix).map (·.1)).Nodup := Backend.covered_nodup
    refine (hNodup.of_map _).map_on fun x hx y hy hSame => ?_
    obtain ⟨key, -, -, hx'⟩ := hEntry x hx
    obtain ⟨other, -, -, hy'⟩ := hEntry y hy
    rw [hx'.listedKey, hy'.listedKey] at hSame
    exact inj_on_of_nodup_map hNodup hx hy (by rw [hx'.same, hy'.same, hSame])
  · obtain ⟨entry, hCovered, rfl⟩ := mem_map.mp hIn
    obtain ⟨key, hHeld, hLead, hKept⟩ := hEntry entry hCovered
    rw [hKept.listedKey]
    exact ⟨⟨_, hHeld⟩, hLead⟩
  · obtain ⟨⟨bytes, hBytes⟩, hLead⟩ := hHeld
    obtain ⟨a, hKept, hFind⟩ := hExact.complete key bytes hBytes hLead
    have hIn : (a, bytes) ∈ Backend.covered (.s3 base) s pathPrefix :=
      Backend.mem_covered.mpr ⟨hFind, covers_of_prefix hStart hKept.located hLead⟩
    exact mem_map.mpr ⟨(a, bytes), hIn, hKept.listedKey⟩
  · obtain ⟨key, hHeld, -, hKept⟩ := hEntry entry hIn
    rw [hKept.listedKey]
    exact ⟨hKept.located, hHeld⟩

end

end S3

/-- Whether a path below the root leads to what it names. -/
structure Named (a : Address) : Prop where
  plain : ∀ c ∈ components a, Plain c
  noDots : containsDotDot ('/' :: a) = false

/-- The files below the root, and the directories made there. -/
structure FileTree where
  files : Objects
  directories : List (List Component)
  named : ∀ a bytes, files.find a = some bytes → Named a

namespace FileTree

def empty : FileTree := ⟨.empty, [], fun _ _ hFind => by cases hFind⟩

variable (t : FileTree) (root : List Component)

def isDirectory (parts : List Component) : Bool := parts = [] || parts ∈ t.directories

def isFile (parts : List Component) : Bool := (t.files.find (join parts)).isSome

def parents (parts : List Component) : List (List Component) := (List.range parts.length).map parts.take

/-- `p + ".tmp"`. -/
def temporary (parts : List Component) : List Component := parts.dropLast ++ [parts.getLastD [] ++ ".tmp".toList]

theorem named_path (hDots : ¬ containsDotDot (clean ('/' :: key)) = true)
    (hNe : normal true (components key) ≠ []) : Named (join (normal true (components key))) := by
  rw [safePath_path, Bool.not_eq_true] at hDots
  have hKept : ∀ c ∈ normal true (components key), Text.Path.Kept true c :=
    normal_kept fun _ hIn => slashFree_of_mem_components hIn
  refine ⟨fun c hc => ?_, hDots⟩
  rw [components_join normal_slashFree hNe] at hc
  obtain ⟨hEmpty, hDot, hSlash, hDotDot⟩ := hKept c hc
  exact ⟨hEmpty, hDot, hDotDot rfl, hSlash⟩

def renamed (parts : List Component) (body : Bytes) : Objects :=
  ((t.files.erase (join (temporary parts))).erase (join parts)).putNew (join parts) body

theorem find_renamed (parts : List Component) (body : Bytes) (a : Address) :
    (t.renamed parts body).find a = if a = join parts then some body
      else if a = join (temporary parts) then none else t.files.find a := by
  rw [renamed, Objects.find_putNew, Objects.find_erase, if_pos rfl]
  by_cases hSame : a = join parts
  · simp [hSame]
  · simp [hSame, Objects.find_erase]

/-- `Put`. It fails where a file stands for a directory or a directory for a file. -/
def put (req : PutObjectRequest) : Result FileTree :=
  let parts := normal true (components req.key.toList)
  if hDots : containsDotDot (clean ('/' :: req.key.toList)) = true then
    .error (.other "invalid key")
  else if (parents parts).any t.isFile then .error (.other "not a directory")
  else
    let directories := parents parts ++ t.directories
    if req.ifNotExists = true ∧ (t.isDirectory parts = true ∨ t.isFile parts = true) then
      .ok { t with directories := directories }
    else if t.isDirectory (temporary parts) then .error (.other "is a directory")
    else if hParts : t.isDirectory parts = true then .error (.other "file exists")
    else .ok ⟨t.renamed parts req.body, directories, by
      intro a bytes hFind
      rw [find_renamed] at hFind
      split at hFind
      · next hSame =>
        rw [hSame]
        refine named_path hDots fun hNil => hParts ?_
        simp [isDirectory, parts, hNil]
      · split at hFind
        · cases hFind
        · exact t.named a bytes hFind⟩

def listedDirectory (pathPrefix : String) : List Component :=
  normal true (root ++ components (clean pathPrefix.toList))

def covered (pathPrefix : String) : List (Address × Bytes) :=
  inWalkOrder (t.files.entries.filter fun entry =>
    (listedDirectory root pathPrefix).isPrefixOf (root ++ components entry.1))

def shownAs (entry : Address × Bytes) : StoredObject := ⟨String.ofList entry.1, entry.2.length⟩

/-- `List`. What is not there has no files; below a file there is nothing to walk. -/
def list (req : ListObjectsRequest) : Result ListObjectsResult :=
  let directory := listedDirectory root req.pathPrefix
  if t.files.entries.any fun entry => (root ++ components entry.1).isPrefixOf directory &&
      root ++ components entry.1 ≠ directory then
    .error (.other "not a directory")
  else .ok { objects := (t.covered root req.pathPrefix).map shownAs }

/-- No file stands above the directory, the files in it are those held under keys that start
with the prefix, and all such keys are files in it. -/
structure ListsExactly (held : String → Option Bytes) (pathPrefix : String) : Prop where
  reached : ∀ a bytes, t.files.find a = some bytes →
    root ++ components a <+: listedDirectory root pathPrefix →
      root ++ components a = listedDirectory root pathPrefix
  sound : ∀ a bytes, t.files.find a = some bytes →
    listedDirectory root pathPrefix <+: root ++ components a →
      held (String.ofList a) = some bytes ∧ pathPrefix.toList <+: a
  complete : ∀ key bytes, held key = some bytes → pathPrefix.toList <+: key.toList →
    t.files.find key.toList = some bytes ∧ listedDirectory root pathPrefix <+: root ++ components key.toList

variable {t root}

theorem mem_covered {pathPrefix : String} {entry : Address × Bytes} :
    entry ∈ t.covered root pathPrefix ↔ t.files.find entry.1 = some entry.2 ∧
      listedDirectory root pathPrefix <+: root ++ components entry.1 := by
  rw [covered, (inWalkOrder_perm _).mem_iff, mem_filter, Objects.find_eq_some_iff, List.isPrefixOf_iff_prefix]

theorem covered_nodup : ((t.covered root pathPrefix).map (·.1)).Nodup := by
  have hPerm := (inWalkOrder_perm (t.files.entries.filter fun entry =>
    (listedDirectory root pathPrefix).isPrefixOf (root ++ components entry.1))).map (·.1)
  exact hPerm.nodup_iff.mpr (t.files.nodup.sublist (filter_sublist.map _))

theorem safePath_of_named (hNamed : Named a) : safePath (String.ofList a) = .ok a := by
  have hPath : clean ('/' :: a) = '/' :: a := by rw [safePath_path, normal_plain hNamed.plain, join_components]
  rw [safePath, String.toList_ofList, hPath, if_neg (by simp [hNamed.noDots])]
  rfl

theorem list_ok_iff :
    t.list root req = .ok { objects := (t.covered root req.pathPrefix).map shownAs } ↔
      ∀ a bytes, t.files.find a = some bytes →
        root ++ components a <+: listedDirectory root req.pathPrefix →
          root ++ components a = listedDirectory root req.pathPrefix := by
  have hAny : (t.files.entries.any fun entry =>
      (root ++ components entry.1).isPrefixOf (listedDirectory root req.pathPrefix) &&
        root ++ components entry.1 ≠ listedDirectory root req.pathPrefix) = true ↔
      ∃ a bytes, t.files.find a = some bytes ∧
        root ++ components a <+: listedDirectory root req.pathPrefix ∧
          root ++ components a ≠ listedDirectory root req.pathPrefix := by
    simp only [any_eq_true, Bool.and_eq_true, List.isPrefixOf_iff_prefix, decide_eq_true_eq,
      Prod.exists, Objects.find_eq_some_iff]
  unfold list
  by_cases hBlocked : ∃ a bytes, t.files.find a = some bytes ∧
      root ++ components a <+: listedDirectory root req.pathPrefix ∧
        root ++ components a ≠ listedDirectory root req.pathPrefix
  · rw [if_pos (hAny.mpr hBlocked)]
    obtain ⟨a, bytes, hFind, hAbove, hNe⟩ := hBlocked
    exact ⟨fun hOk => (by cases hOk), fun hAll => absurd (hAll a bytes hFind hAbove) hNe⟩
  · rw [if_neg fun hTrue => hBlocked (hAny.mp hTrue)]
    refine ⟨fun _ a bytes hFind hAbove => ?_, fun _ => rfl⟩
    by_contra hNe
    exact hBlocked ⟨a, bytes, hFind, hAbove, hNe⟩

theorem shows_iff :
    t.list root req = .ok { objects := (t.covered root req.pathPrefix).map shownAs } ∧
        Shows held req.pathPrefix safePath String.ofList (t.covered root req.pathPrefix) ↔
      t.ListsExactly root held req.pathPrefix := by
  rw [list_ok_iff]
  constructor
  · rintro ⟨hReached, hShows⟩
    refine ⟨hReached, fun a bytes hFind hBelow => ?_, fun key bytes hHeld hLead => ?_⟩
    · have hIn : (a, bytes) ∈ t.covered root req.pathPrefix := mem_covered.mpr ⟨hFind, hBelow⟩
      have hKey := (hShows.exact_keys _).mp (mem_map_of_mem hIn)
      rw [String.toList_ofList] at hKey
      exact ⟨(hShows.addressable _ hIn).2, hKey.2⟩
    · obtain ⟨entry, hIn, rfl⟩ := mem_map.mp ((hShows.exact_keys key).mpr ⟨⟨bytes, hHeld⟩, hLead⟩)
      have hBytes := (hShows.addressable entry hIn).2
      rw [hHeld] at hBytes
      obtain rfl := Option.some.inj hBytes
      rw [String.toList_ofList]
      exact mem_covered.mp hIn
  · intro hExact
    refine ⟨hExact.reached, ?_, fun key => ⟨fun hIn => ?_, fun hHeld => ?_⟩, fun entry hIn => ?_⟩
    · refine (covered_nodup.of_map _).map_on fun x hx y hy hSame => ?_
      exact inj_on_of_nodup_map covered_nodup hx hy (String.ofList_injective hSame)
    · obtain ⟨entry, hCovered, rfl⟩ := mem_map.mp hIn
      obtain ⟨hFind, hBelow⟩ := mem_covered.mp hCovered
      obtain ⟨hHeld, hLead⟩ := hExact.sound entry.1 entry.2 hFind hBelow
      rw [String.toList_ofList]
      exact ⟨⟨_, hHeld⟩, hLead⟩
    · obtain ⟨⟨bytes, hBytes⟩, hLead⟩ := hHeld
      obtain ⟨hFind, hBelow⟩ := hExact.complete key bytes hBytes hLead
      exact mem_map.mpr ⟨(key.toList, bytes), mem_covered.mpr ⟨hFind, hBelow⟩, String.ofList_toList⟩
    · obtain ⟨hFind, hBelow⟩ := mem_covered.mp hIn
      exact ⟨safePath_of_named (t.named entry.1 entry.2 hFind), (hExact.sound entry.1 entry.2 hFind hBelow).1⟩

end FileTree

def hold (held : String → Option Bytes) (req : PutObjectRequest) : String → Option Bytes :=
  if req.ifNotExists = true ∧ (held req.key).isSome = true then held
  else Function.update held req.key (some req.body)

def S3.putAll (base : String) (foreign : Objects) (reqs : List PutObjectRequest) :
    Objects × (String → Option Bytes) :=
  reqs.foldl (fun state req => match S3.joinObjectKey base req.key with
    | .ok a => (req.store state.1 a, hold state.2 req)
    | .error _ => state) (foreign, fun _ => none)

def validatePrefix (base : String) : Except String Unit :=
  if base = "" then .ok ()
  else if base.toList.head? = some '/' ∨ '\\' ∈ base.toList ∨
      containsDotDot base.toList = true then .error "unsafe path"
  else if [] ∈ components base.toList then .error "empty path component"
  else .ok ()

/-- Listings are exact just in case what they cover is what is held under the prefix, kept as
it is written: in a bucket with other objects, and in a directory tree. -/
theorem listings_exact_iff (base : String) (foreign : Objects) (root : List Component)
    (reqs : List PutObjectRequest) (req : ListObjectsRequest) :
    (Backend.listAll (.s3 base) (S3.putAll base foreign reqs).1 req.pathPrefix
          ((S3.putAll base foreign reqs).1.entries.length + 1) "" =
        .ok ((Backend.covered (.s3 base) (S3.putAll base foreign reqs).1 req.pathPrefix).map
          (Backend.shownAs (.s3 base))) ∧
      Shows (S3.putAll base foreign reqs).2 req.pathPrefix (S3.joinObjectKey base)
        (S3.listedKey base)
        (Backend.covered (.s3 base) (S3.putAll base foreign reqs).1 req.pathPrefix) ↔
      S3.ListsExactly base (S3.putAll base foreign reqs).1 (S3.putAll base foreign reqs).2 req.pathPrefix) ∧
    ∀ t, reqs.foldlM FileTree.put FileTree.empty = .ok t →
      (t.list root req = .ok { objects := (t.covered root req.pathPrefix).map FileTree.shownAs } ∧
        Shows (reqs.foldl hold fun _ => none) req.pathPrefix safePath String.ofList
          (t.covered root req.pathPrefix) ↔
      t.ListsExactly root (reqs.foldl hold fun _ => none) req.pathPrefix) :=
  ⟨⟨fun hShows => S3.listsExactly_of_shows hShows.1 hShows.2, S3.ListsExactly.shows⟩,
    fun _ _ => FileTree.shows_iff⟩

namespace ListingSample

def foreign : Objects := Objects.empty.putNew "backups-old/x".toList [1]

def request (key : String) : PutObjectRequest := ⟨key, [2], "", false⟩

/-- The listing of a bucket shows an object that was not put there, and a file whose name starts
with the prefix is not listed. -/
theorem listings_not_exact :
    validatePrefix "backups" = .ok () ∧
    ¬ "backups/".toList <+: "backups-old/x".toList ∧
    Backend.listAll (.s3 "backups") (S3.putAll "backups" foreign [request "a"]).1 "" 3 "" =
      .ok [⟨"backups-old/x", 1⟩, ⟨"a", 1⟩] ∧
    (S3.putAll "backups" foreign [request "a"]).2 "backups-old/x" = none ∧
    ((FileTree.empty.put (request "abc")).bind fun t =>
      (t.list ["srv".toList] ⟨"ab", "", 1000⟩).map (·.objects)) = .ok [] ∧
    ([request "abc"].foldl hold fun _ => none) "abc" = some [2] := by
  refine ⟨?_, by decide +kernel, ?_, by decide +kernel, ?_, by decide +kernel⟩
  · decide +kernel
  · exact eq_ok_of_toOption (by decide +kernel)
  · exact eq_ok_of_toOption (by decide +kernel)

end ListingSample

end DBVault
