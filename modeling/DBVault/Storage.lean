import DBVault.Domain
import DBVault.Text.Path
import Mathlib.Data.List.Sort
import Mathlib.Data.List.TakeWhile

/-! The object store behind its two adapters. Both turn a key into an address
by cleaning it as a path; an address holds at most one object. The S3 adapter
puts everything under a configured prefix and lists in pages; the filesystem
adapter lists a directory at once. Directories are left out here: the module
`Ports.Disk` adds them, and says when they do not matter. -/
namespace DBVault
open List Text Text.Path

abbrev Address := List Char

/-- The contents of a store, at most one object an address. -/
structure Objects where
  entries : List (Address × Bytes)
  nodup : (entries.map (·.1)).Nodup

namespace Objects

def empty : Objects := ⟨[], nodup_nil⟩

def find (s : Objects) (a : Address) : Option Bytes := s.entries.lookup a

variable {a : Address} {s : Objects}

theorem find_eq_none_iff : s.find a = none ↔ a ∉ s.entries.map (·.1) := by
  rw [find, lookup_eq_none_iff]
  constructor
  · intro h hMem
    obtain ⟨entry, hEntry, rfl⟩ := mem_map.mp hMem
    have := h entry hEntry
    simp at this
  · intro h entry hEntry
    simp only [bne_iff_ne, ne_eq]
    rintro rfl
    exact h (mem_map_of_mem hEntry)

theorem find_eq_some_iff {b : Bytes} : s.find a = some b ↔ (a, b) ∈ s.entries := by
  obtain ⟨entries, hNodup⟩ := s
  simp only [find]
  induction entries with
  | nil => simp
  | cons entry rest ih =>
    obtain ⟨c, d⟩ := entry
    rw [map_cons, nodup_cons] at hNodup
    rw [lookup_cons]
    by_cases h : a = c
    · subst h
      simp only [beq_self_eq_true, Option.some.injEq, mem_cons, Prod.mk.injEq, true_and]
      constructor
      · rintro rfl
        exact .inl rfl
      · rintro (rfl | hMem)
        · rfl
        · exact absurd (mem_map_of_mem hMem) hNodup.1
    · have hBeq : (a == c) = false := by simpa using h
      simp only [hBeq, mem_cons, Prod.mk.injEq, h, false_and, false_or]
      exact ih hNodup.2

def putNew (s : Objects) (a : Address) (b : Bytes) : Objects :=
  if h : a ∈ s.entries.map (·.1) then s
  else ⟨(a, b) :: s.entries, by rw [map_cons, nodup_cons]; exact ⟨h, s.nodup⟩⟩

def erase (s : Objects) (a : Address) : Objects :=
  ⟨s.entries.filter (·.1 ≠ a), s.nodup.sublist (filter_sublist.map _)⟩

theorem find_putNew (s : Objects) (a : Address) (b : Bytes) (c : Address) :
    (s.putNew a b).find c = if c = a ∧ s.find a = none then some b else s.find c := by
  by_cases h : a ∈ s.entries.map (·.1)
  · have hSome : s.find a ≠ none := fun hNone => find_eq_none_iff.mp hNone h
    simp [putNew, h, hSome]
  · have hNone : s.find a = none := find_eq_none_iff.mpr h
    simp only [putNew, h, dite_false, hNone, and_true]
    by_cases hc : c = a
    · subst hc
      simp [find]
    · have hBeq : (c == a) = false := by simpa using hc
      simp [find, lookup_cons, hBeq, hc]

theorem find_erase (s : Objects) (a c : Address) : (s.erase a).find c = if c = a then none else s.find c := by
  by_cases hc : c = a
  · subst hc
    rw [if_pos rfl, find_eq_none_iff]
    simp [erase]
  · rw [if_neg hc]
    cases hFind : s.find c with
    | none =>
      rw [find_eq_none_iff] at hFind ⊢
      intro hMem
      obtain ⟨entry, hEntry, rfl⟩ := mem_map.mp hMem
      exact hFind (mem_map_of_mem (mem_filter.mp hEntry).1)
    | some b =>
      rw [find_eq_some_iff] at hFind ⊢
      exact mem_filter.mpr ⟨hFind, by simpa using hc⟩

theorem find_putNew_of_some {c : Address} {b d : Bytes} (h : s.find c = some d) :
    (s.putNew a b).find c = some d := by
  rw [find_putNew]
  split
  · rename_i hNew
    rw [← hNew.1, h] at hNew
    exact absurd hNew.2 (by simp)
  · exact h

theorem find_putNew_isSome (s : Objects) (a : Address) (b : Bytes) : ∃ d, (s.putNew a b).find a = some d := by
  rw [find_putNew]
  cases h : s.find a with
  | none => exact ⟨b, by simp⟩
  | some d => exact ⟨d, by simp⟩

def ofList : List (Address × Bytes) → Objects
  | [] => empty
  | (a, b) :: rest => ((ofList rest).erase a).putNew a b

theorem find_ofList (entries : List (Address × Bytes)) (c : Address) :
    (ofList entries).find c = entries.lookup c := by
  induction entries with
  | nil => rfl
  | cons entry rest ih =>
    obtain ⟨a, b⟩ := entry
    rw [ofList, find_putNew, find_erase, find_erase, lookup_cons, ← ih]
    by_cases hc : c = a
    · simp [hc]
    · have hBeq : (c == a) = false := by simpa using hc
      simp [hc, hBeq]

end Objects

structure StoredObject where
  key : String
  size : Int
  deriving DecidableEq

structure PutObjectRequest where
  key : String
  body : Bytes
  contentType : String
  ifNotExists : Bool
  deriving DecidableEq

structure ListObjectsRequest where
  (pathPrefix continuationToken : String)
  limit : Int
  deriving DecidableEq

structure ListObjectsResult where
  objects : List StoredObject := []
  continuationToken : String := ""
  hasMore : Bool := false

def keyLE : List Char → List Char → Bool
  | [], _ => true
  | _ :: _, [] => false
  | c :: rest, d :: others => c.toNat < d.toNat || (c.toNat == d.toNat && keyLE rest others)

instance : DecidableRel fun a b : Address × Bytes => keyLE a.1 b.1 = true :=
  fun a b => inferInstanceAs (Decidable (keyLE a.1 b.1 = true))

def sortedEntries (entries : List (Address × Bytes)) : List (Address × Bytes) :=
  entries.insertionSort fun a b => keyLE a.1 b.1 = true

namespace S3

/-- The last check of `JoinObjectKey`. -/
def checkSegments (joined : List Char) : Result Address :=
  if (components joined).any (fun seg => seg = dotDot || seg = []) then
    .error (.other "invalid object key")
  else .ok joined

def joinObjectKey (base part : String) : Result Address :=
  if dotDot ∈ components part.toList then
    .error (.other "invalid object key: path traversal detected")
  else
    let all := if base = "" then [part.toList] else [base.toList, part.toList]
    let joined := trimPrefix ['/'] (clean (join all))
    if joined = dot then .ok [] else checkSegments joined

/-- How a listing names an object: without the configured prefix, if the
address starts with it as it is written in the configuration. -/
def listedKey (base : String) (a : Address) : String :=
  String.ofList (trimPrefix (trimSlashes base.toList ++ ['/']) a)

def listed (start token : List Char) (entry : Address × Bytes) : Bool :=
  start.isPrefixOf entry.1 && (token.isEmpty || !keyLE entry.1 token)

def pageSize (limit : Int) : Nat := if limit ≤ 0 then 1000 else min limit.toNat 1000

/-- `Store.List`. The continuation token is the last address of the page. -/
def list (base : String) (s : Objects) (req : ListObjectsRequest) : Result ListObjectsResult := do
  let start ← joinObjectKey base req.pathPrefix
  let contents := sortedEntries (s.entries.filter (listed start req.continuationToken.toList))
  let page := contents.take (pageSize req.limit)
  let hasMore := decide (pageSize req.limit < contents.length)
  pure
    { objects := page.map fun entry => ⟨listedKey base entry.1, entry.2.length⟩
      continuationToken := if hasMore then String.ofList ((page.getLast?.map (·.1)).getD []) else ""
      hasMore := hasMore }

end S3

namespace Filesystem

def containsDotDot : List Char → Bool
  | '.' :: '.' :: _ => true
  | _ :: rest => containsDotDot rest
  | [] => false

/-- `Store.safePath`, as the path below the root directory. -/
def safePath (key : String) : Result Address :=
  let path := clean ('/' :: key.toList)
  if containsDotDot path then .error (.other "invalid key") else .ok (path.drop 1)

def walkLE : List Component → List Component → Bool
  | [], _ => true
  | _ :: _, [] => false
  | c :: rest, d :: others => if c = d then walkLE rest others else keyLE c d

def inWalkOrder (entries : List (Address × Bytes)) : List (Address × Bytes) :=
  entries.insertionSort fun x y => walkLE (components x.1) (components y.1) = true

/-- The directory that is walked, below the root directory. A walk from above (`..`) comes to all files
below it; a name after `..` is taken to be that of another directory. -/
def walkRoot (pathPrefix : String) : List Component :=
  let parts := normal false (components (clean pathPrefix.toList))
  if parts.all (· = dotDot) then [] else parts

/-- `Store.List` walks a directory; limits and tokens are ignored. -/
def list (s : Objects) (req : ListObjectsRequest) : Result ListObjectsResult :=
  let contents := inWalkOrder (s.entries.filter fun entry =>
    (walkRoot req.pathPrefix).isPrefixOf (components entry.1))
  .ok { objects := contents.map fun entry => ⟨String.ofList entry.1, entry.2.length⟩ }

end Filesystem

inductive Backend where
  | s3 (base : String)
  | filesystem

namespace Backend

def locate : Backend → String → Result Address
  | .s3 base, key => S3.joinObjectKey base key
  | .filesystem, key => Filesystem.safePath key

def list : Backend → Objects → ListObjectsRequest → Result ListObjectsResult
  | .s3 base => S3.list base
  | .filesystem => Filesystem.list

/-- The error of `Head` and `Get` when there is no object. -/
def missing : Backend → GoError
  | .s3 _ => newError .chunkMissing "object not found"
  | .filesystem => .notExist

end Backend

end DBVault
