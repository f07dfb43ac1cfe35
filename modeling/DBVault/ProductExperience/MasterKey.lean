import DBVault.Digest
import DBVault.Text.Path
import DBVault.Text.Words

/-! The repository master key: where it is read from, when a new one is drawn, and what
`SetMasterKey` leaves behind. Directories, reads and writes may fail at any call; what
outlives a process is on disk only. -/
namespace DBVault.ProductExperience.MasterKey
open Function List Text

abbrev Key := Digest

abbrev Disk := String → Option String

/-- What `os.WriteFile` does: it truncates the file before it writes, so that a failing one
may leave the beginning of the text. -/
inductive WriteOutcome where
  | done
  | untouched
  | cut (length : Nat)
  deriving DecidableEq

def WriteOutcome.leaves (text : String) (old : Option String) : WriteOutcome → Option String
  | done => some text
  | untouched => old
  | cut length => some (String.ofList (text.toList.take length))

structure Reading where
  /-- The directory of `DBVAULT_KEY_FILE` can be made. -/
  mkdir : Bool
  /-- A file that is there can be read. -/
  read : Bool
  /-- The write of a drawn key. -/
  write : WriteOutcome
  deriving DecidableEq

/-- What the file system answers to one `SetMasterKey`. -/
structure Writing where
  mkdir : Bool
  write : WriteOutcome
  /-- The second write, to the file under the root. -/
  fallback : WriteOutcome
  /-- The text of its error. -/
  reason : String
  deriving DecidableEq

inductive Op where
  | fetch (reading : Reading)
  | set (keyInput : String) (writing : Writing)

/-- The environment of the process, the root of its data and the hash. -/
structure Setting where
  hashes : Hashes
  /-- `DBVAULT_MASTER_KEY`. -/
  masterKey : String
  /-- `DBVAULT_KEY_FILE`. -/
  (keyFile root : String)
  /-- The file a path leads to. -/
  locate : String → String

def keyText (key : Key) : String := key.hex ++ "\n"

namespace Setting
variable (env : Setting)

/-- 64 hexadecimal digits are the key itself, any other text is hashed. -/
def keyOf (trimmed : String) : Key :=
  match hexDecode trimmed with
  | some bytes => if hSize : bytes.length = 32 then ⟨bytes, hSize⟩ else env.hashes.sha256 (utf8 trimmed)
  | none => env.hashes.sha256 (utf8 trimmed)

/-- `filepath.Join(s.root, "master.key")`. -/
def rootFile : String :=
  let lead := if env.root = "" then [] else env.root.toList ++ ['/']
  String.ofList (Path.clean (lead ++ "master.key".toList))

def resolveMasterKeyPath (mkdir : Bool) : String :=
  if env.keyFile ≠ "" ∧ mkdir = true then env.keyFile else env.rootFile

def readFile (disk : Disk) (path : String) (read : Bool) : Option String :=
  if read = true then disk (env.locate path) else none

def writeFile (disk : Disk) (path text : String) (outcome : WriteOutcome) : Disk :=
  Function.update disk (env.locate path) (outcome.leaves text (disk (env.locate path)))

/-- `getRawMasterKey`: the key and where it comes from. Every error but that of the read is
dropped, and that one leads to a new key. -/
def getRawMasterKey (disk : Disk) (reading : Reading) (drawn : Key) : (Key × String) × Disk :=
  if trimSpace env.masterKey ≠ "" then
    ((env.keyOf (trimSpace env.masterKey), "env:DBVAULT_MASTER_KEY"), disk)
  else
    let path := env.resolveMasterKeyPath reading.mkdir
    match (env.readFile disk path reading.read).filter (· ≠ "") with
    | some text => ((env.keyOf (trimSpace text), path), disk)
    | none => ((drawn, path), env.writeFile disk path (keyText drawn) reading.write)

/-- `SetMasterKey`: the key with the path of its file. -/
def setMasterKey (disk : Disk) (keyInput : String) (writing : Writing) :
    Except String (Key × String) × Disk :=
  let trimmed := trimSpace keyInput
  if trimmed = "" then (.error "master key cannot be empty", disk)
  else
    let key := env.keyOf trimmed
    let path := env.resolveMasterKeyPath writing.mkdir
    let first := env.writeFile disk path (keyText key) writing.write
    if writing.write = .done then (.ok (key, path), first)
    else
      let second := env.writeFile first env.rootFile (keyText key) writing.fallback
      if writing.fallback = .done then (.ok (key, env.rootFile), second)
      else (.error ("failed to persist key file: " ++ writing.reason), second)

def keys : Disk → List (Reading × Key) → List Key
  | _, [] => []
  | disk, (reading, drawn) :: rest =>
    let fetched := env.getRawMasterKey disk reading drawn
    fetched.1.1 :: keys fetched.2 rest

/-- Up to the next call that sets a key, all fetches return this one. -/
def Returned (key : Key) : Disk → List (Op × Key) → Prop
  | _, [] => True
  | disk, (.fetch reading, drawn) :: rest =>
    (env.getRawMasterKey disk reading drawn).1.1 = key ∧
      Returned key (env.getRawMasterKey disk reading drawn).2 rest
  | disk, (.set keyInput writing, _) :: rest =>
    (∃ answer, (env.setMasterKey disk keyInput writing).1 = .ok answer) ∨
      Returned key (env.setMasterKey disk keyInput writing).2 rest

/-- The key there is for a fetch: that of the environment, or else that of the file whose
path is resolved. -/
def standing (disk : Disk) (reading : Reading) : Option Key :=
  if trimSpace env.masterKey ≠ "" then some (env.keyOf (trimSpace env.masterKey))
  else ((env.readFile disk (env.resolveMasterKeyPath reading.mkdir) reading.read).filter
    (· ≠ "")).map fun text => env.keyOf (trimSpace text)

def place (reading : Reading) : String := env.locate (env.resolveMasterKeyPath reading.mkdir)

variable {env} {disk : Disk} {reading : Reading} {key : Key}

theorem fetch_of_standing (hStanding : env.standing disk reading = some key) (drawn : Key) :
    ∃ source, env.getRawMasterKey disk reading drawn = ((key, source), disk) := by
  unfold standing at hStanding
  unfold getRawMasterKey
  split at hStanding
  · next hEnv =>
    obtain rfl := Option.some.inj hStanding
    exact ⟨_, if_pos hEnv⟩
  · next hEnv =>
    obtain ⟨text, hText, rfl⟩ := Option.map_eq_some_iff.mp hStanding
    refine ⟨env.resolveMasterKeyPath reading.mkdir, ?_⟩
    rw [if_neg hEnv]
    simp only [hText]

theorem fetch_of_none (hStanding : env.standing disk reading = none) (drawn : Key) :
    env.getRawMasterKey disk reading drawn = ((drawn, env.resolveMasterKeyPath reading.mkdir),
      env.writeFile disk (env.resolveMasterKeyPath reading.mkdir) (keyText drawn) reading.write) := by
  unfold standing at hStanding
  unfold getRawMasterKey
  split at hStanding
  · cases hStanding
  · next hEnv =>
    have hText := Option.map_eq_none_iff.mp hStanding
    rw [if_neg hEnv]
    simp only [hText]

theorem standing_of_fetch {drawn : Key} (hDrawn : drawn ≠ key)
    (hKey : (env.getRawMasterKey disk reading drawn).1.1 = key) : env.standing disk reading = some key := by
  cases hStanding : env.standing disk reading with
  | none =>
    rw [fetch_of_none hStanding] at hKey
    exact absurd hKey hDrawn
  | some found =>
    obtain ⟨source, hFetch⟩ := fetch_of_standing hStanding drawn
    rw [hFetch] at hKey
    rw [show found = key from hKey]

theorem readFile_congr {read : Bool} (hSame : disk (env.locate path) = other (env.locate path)) :
    env.readFile disk path read = env.readFile other path read := by
  rw [readFile, readFile, hSame]

theorem standing_congr {other : Disk} (hSame : disk (env.place reading) = other (env.place reading)) :
    env.standing disk reading = env.standing other reading := by
  rw [standing, standing, readFile_congr hSame]

theorem read_of_standing
    (hBlank : ¬ trimSpace env.masterKey ≠ "") (hStanding : env.standing disk reading = some key) :
    reading.read = true := by
  by_contra hRead
  simp [standing, if_neg hBlank, readFile, hRead] at hStanding

theorem blank_of_standing_none
    (hStanding : env.standing disk reading = none) : ¬ trimSpace env.masterKey ≠ "" := by
  intro hEnv
  simp [standing, if_pos hEnv] at hStanding

theorem standing_of_text {text : String}
    (hBlank : ¬ trimSpace env.masterKey ≠ "") (hRead : reading.read = true)
    (hText : disk (env.place reading) = some text) (hNe : text ≠ "") :
    env.standing disk reading = some (env.keyOf (trimSpace text)) := by
  have hFile : env.readFile disk (env.resolveMasterKeyPath reading.mkdir) reading.read = some text := by
    rw [readFile, if_pos hRead]
    exact hText
  simp [standing, if_neg hBlank, hFile, hNe]

theorem keyOf_hex (key : Key) : env.keyOf key.hex = key := by simp [keyOf, Digest.hex, key.size]

end Setting

theorem toList_keyText (key : Key) : (keyText key).toList = hexChars key.bytes ++ ['\n'] := by
  simp [keyText, Digest.hex]

def WriteOutcome.Whole : WriteOutcome → Prop
  | done => True
  | untouched => False
  | cut length => 64 ≤ length

variable {outcome : WriteOutcome}

theorem WriteOutcome.Whole.leaves (hWhole : outcome.Whole) (key : Key) (old : Option String) :
    ∃ text, outcome.leaves (keyText key) old = some text ∧ text ≠ "" ∧ trimSpace text = key.hex := by
  have hLength : (hexChars key.bytes).length = 64 := by simp [key.size]
  have hNewline : ∀ c ∈ ['\n'], isSpace c = true := by
    rintro c hc
    rw [mem_singleton.mp hc]
    decide
  -- What is kept are the digits and possibly the end of the line.
  have hKept : ∀ spaces : List Char, (∀ c ∈ spaces, isSpace c = true) →
      trimSpace (String.ofList (hexChars key.bytes ++ spaces)) = key.hex ∧
        String.ofList (hexChars key.bytes ++ spaces) ≠ "" := by
    intro spaces hSpaces
    refine ⟨trimSpace_append (fun c hc => (isHex_of_mem hc).not_isSpace) hSpaces, ?_⟩
    intro hEmpty
    have hNil := congrArg String.toList hEmpty
    simp only [String.toList_ofList, String.toList_empty, append_eq_nil_iff] at hNil
    simp [hNil.1] at hLength
  cases outcome with
  | done =>
    obtain ⟨hTrim, hNe⟩ := hKept ['\n'] hNewline
    rw [← toList_keyText, String.ofList_toList] at hTrim hNe
    exact ⟨_, rfl, hNe, hTrim⟩
  | untouched => exact hWhole.elim
  | cut length =>
    obtain ⟨hTrim, hNe⟩ := hKept (['\n'].take (length - 64)) fun c hc => hNewline c (mem_of_mem_take hc)
    have hTake : (keyText key).toList.take length = hexChars key.bytes ++ ['\n'].take (length - 64) := by
      rw [toList_keyText, take_append, hLength, take_of_length_le (hLength ▸ hWhole)]
    exact ⟨_, by rw [WriteOutcome.leaves, hTake], hNe, hTrim⟩

def zeroKey : Key := ⟨List.replicate 32 0, by simp⟩

def oneKey : Key := ⟨List.replicate 31 0 ++ [1], by simp⟩

theorem zeroKey_ne_oneKey : zeroKey ≠ oneKey := by
  intro hSame
  have hBytes := congrArg Digest.bytes hSame
  revert hBytes
  decide

theorem exists_ne (key : Key) : ∃ other : Key, other ≠ key := by
  by_cases hKey : zeroKey = key
  · exact ⟨oneKey, fun hSame => zeroKey_ne_oneKey (hKey.trans hSame.symm)⟩
  · exact ⟨zeroKey, hKey⟩

theorem WriteOutcome.leaves_zero_one (hPart : ¬ outcome.Whole) (old : Option String) :
    outcome.leaves (keyText zeroKey) old = outcome.leaves (keyText oneKey) old := by
  cases outcome with
  | done => exact absurd trivial hPart
  | untouched => rfl
  | cut length =>
    have hShort : length ≤ 63 := by
      simp only [Whole, not_le] at hPart
      omega
    have hLead : (keyText zeroKey).toList.take 63 = (keyText oneKey).toList.take 63 := by
      rw [toList_keyText, toList_keyText]
      decide
    have hTake := congrArg (List.take length) hLead
    rw [take_take, take_take, Nat.min_eq_left hShort] at hTake
    rw [leaves, leaves, hTake]

namespace Setting
variable {env : Setting} {disk : Disk} {key : Key} {path : String}

theorem standing_writeFile {outcome : WriteOutcome}
    {reading : Reading} (hBlank : ¬ trimSpace env.masterKey ≠ "") (hWhole : outcome.Whole)
    (hRead : reading.read = true) (hPlace : env.place reading = env.locate path) :
    env.standing (env.writeFile disk path (keyText key) outcome) reading = some key := by
  obtain ⟨text, hLeaves, hNe, hTrim⟩ := hWhole.leaves key (disk (env.locate path))
  have hText : env.writeFile disk path (keyText key) outcome (env.place reading) = some text := by
    rw [hPlace, writeFile, update_self, hLeaves]
  rw [standing_of_text hBlank hRead hText hNe, hTrim, keyOf_hex]

theorem keys_of_standing (hStanding : ∀ call ∈ calls, env.standing disk call.1 = some key) :
    ∀ k ∈ env.keys disk calls, k = key := by
  induction calls with
  | nil => simp [keys]
  | cons call rest ih =>
    obtain ⟨reading, drawn⟩ := call
    obtain ⟨source, hFetch⟩ := fetch_of_standing (hStanding (reading, drawn) (by simp)) drawn
    simp only [keys, hFetch, mem_cons, forall_eq_or_imp, true_and]
    exact ih fun call hIn => hStanding call (mem_cons_of_mem _ hIn)

theorem standing_of_keys {calls : List (Reading × Key)}
    (hDrawn : ∀ call ∈ calls, call.2 ≠ key) (hKeys : ∀ k ∈ env.keys disk calls, k = key) :
    ∀ call ∈ calls, env.standing disk call.1 = some key := by
  induction calls with
  | nil => simp
  | cons call rest ih =>
    obtain ⟨reading, drawn⟩ := call
    simp only [keys, mem_cons, forall_eq_or_imp] at hKeys hDrawn ⊢
    have hStanding := standing_of_fetch hDrawn.1 hKeys.1
    obtain ⟨source, hFetch⟩ := fetch_of_standing hStanding drawn
    rw [hFetch] at hKeys
    exact ⟨hStanding, ih hDrawn.2 hKeys.2⟩

variable (env) in
/-- One key stands for all fetches, or the first one draws a key, writes all its digits and
all others read the same file. -/
def Steady (disk : Disk) (fetches : List Reading) : Prop :=
  (∃ key, ∀ reading ∈ fetches, env.standing disk reading = some key) ∨
    ∃ first rest, fetches = first :: rest ∧ env.standing disk first = none ∧
      (rest = [] ∨ first.write.Whole ∧
        ∀ reading ∈ rest, reading.read = true ∧ env.place reading = env.place first)

variable (env) in
/-- Whatever is drawn, all fetches return the same key. -/
def Unchanging (disk : Disk) (fetches : List Reading) : Prop :=
  ∀ calls : List (Reading × Key), calls.map Prod.fst = fetches →
    ∀ k ∈ env.keys disk calls, ∀ other ∈ env.keys disk calls, k = other

theorem Steady.unchanging (hSteady : env.Steady disk fetches) : env.Unchanging disk fetches := by
  rintro calls rfl k hk other hOther
  rcases hSteady with ⟨key, hStanding⟩ | ⟨first, rest, hFetches, hNone, hRest⟩
  · have hAll := keys_of_standing fun call hIn => hStanding call.1 (mem_map_of_mem hIn)
    rw [hAll k hk, hAll other hOther]
  · obtain ⟨⟨reading, drawn⟩, later, rfl, rfl, rfl⟩ := map_eq_cons_iff.mp hFetches
    have hAll : ∀ k ∈ env.keys disk ((reading, drawn) :: later), k = drawn := by
      simp only [keys, fetch_of_none hNone, mem_cons, forall_eq_or_imp, true_and]
      rcases hRest with hNil | ⟨hWhole, hRest⟩
      · simp [map_eq_nil_iff.mp hNil, keys]
      · apply keys_of_standing
        intro call hIn
        obtain ⟨hRead, hPlace⟩ := hRest call.1 (mem_map_of_mem hIn)
        exact standing_writeFile (blank_of_standing_none hNone) hWhole hRead hPlace
    rw [hAll k hk, hAll other hOther]

theorem Unchanging.standing {after : Disk} {first : Reading} {rest : List Reading}
    {drawn : Key} {source : String} (hSame : env.Unchanging disk (first :: rest))
    (hFetch : env.getRawMasterKey disk first drawn = ((key, source), after)) :
    ∀ reading ∈ rest, env.standing after reading = some key := by
  intro reading hIn
  obtain ⟨other, hOther⟩ := exists_ne key
  have hKeys := hSame ((first, drawn) :: rest.map fun r => (r, other)) (by simp [comp_def])
  simp only [keys, hFetch, mem_cons, forall_eq_or_imp] at hKeys
  have hDrawn : ∀ call ∈ rest.map fun r => (r, other), call.2 ≠ key := by simpa using fun _ _ => hOther
  exact standing_of_keys hDrawn (fun k hk => (hKeys.2 k hk).1) (reading, other) (mem_map_of_mem hIn)

theorem Unchanging.steady {fetches : List Reading}
    (hSame : env.Unchanging disk fetches) : env.Steady disk fetches := by
  cases fetches with
  | nil => exact .inl ⟨zeroKey, by simp⟩
  | cons first rest =>
    cases hFirst : env.standing disk first with
    | some key =>
      obtain ⟨source, hFetch⟩ := fetch_of_standing hFirst zeroKey
      exact .inl ⟨key, by simpa using ⟨hFirst, hSame.standing hFetch⟩⟩
    | none =>
      refine .inr ⟨first, rest, rfl, hFirst, or_iff_not_imp_left.mpr fun hNe => ?_⟩
      have hRest := fun drawn => hSame.standing (fetch_of_none hFirst drawn)
      -- A file that is the same after two draws cannot hold both keys.
      have hDiffer : ∀ reading ∈ rest,
          env.writeFile disk (env.resolveMasterKeyPath first.mkdir) (keyText zeroKey) first.write
            (env.place reading) ≠
          env.writeFile disk (env.resolveMasterKeyPath first.mkdir) (keyText oneKey) first.write
            (env.place reading) := by
        intro reading hIn hText
        have hZero := hRest zeroKey reading hIn
        rw [standing_congr hText, hRest oneKey reading hIn] at hZero
        exact zeroKey_ne_oneKey (Option.some.inj hZero).symm
      have hPlace : ∀ reading ∈ rest, env.place reading = env.place first := by
        intro reading hIn
        by_contra hOther
        apply hDiffer reading hIn
        rw [place, place] at hOther
        simp only [writeFile, place, update_of_ne hOther]
      refine ⟨?_, fun reading hIn => ⟨?_, hPlace reading hIn⟩⟩
      · by_contra hPart
        obtain ⟨reading, hIn⟩ := exists_mem_of_ne_nil rest hNe
        apply hDiffer reading hIn
        rw [hPlace reading hIn, place, writeFile, writeFile, update_self,
          update_self, WriteOutcome.leaves_zero_one hPart]
      · exact read_of_standing (blank_of_standing_none hFirst) (hRest zeroKey reading hIn)

/-- `SetMasterKey` can write the key to one of the two files. -/
def Sets (keyInput : String) (writing : Writing) : Prop :=
  trimSpace keyInput ≠ "" ∧ (writing.write = .done ∨ writing.fallback = .done)

variable {keyInput : String} {writing : Writing}

theorem setMasterKey_ok_iff :
    (∃ answer, (env.setMasterKey disk keyInput writing).1 = .ok answer) ↔ Sets keyInput writing := by
  simp only [setMasterKey, Sets]
  split_ifs <;> simp_all

theorem key_of_setMasterKey (hSet : (env.setMasterKey disk keyInput writing).1 = .ok (key, path)) :
    key = env.keyOf (trimSpace keyInput) := by
  simp only [setMasterKey] at hSet
  split_ifs at hSet <;> simp_all

variable (env) in
def Denotes (key : Key) (text : String) : Prop := text ≠ "" ∧ env.keyOf (trimSpace text) = key

variable (env) in
/-- The file there holds the key. -/
def Holds (key : Key) (disk : Disk) (place : String) : Prop := ∃ text, disk place = some text ∧ env.Denotes key text

variable (env) in
/-- The files that hold the key once a text is written to one of them. -/
def heldAfterWrite (key : Key) (held : String → Prop) (path text : String) : WriteOutcome → String → Prop
  | .done => Function.update held (env.locate path) (env.Denotes key text)
  | .untouched => held
  | .cut length => Function.update held (env.locate path) (env.Denotes key (String.ofList (text.toList.take length)))

variable (env) in
/-- The files that hold the key once `SetMasterKey` was called: it writes to the file it resolves,
and if that fails to the one under the root. -/
def heldAfterSet (key : Key) (held : String → Prop) (keyInput : String) (writing : Writing) : String → Prop :=
  if trimSpace keyInput = "" then held
  else
    let text := keyText (env.keyOf (trimSpace keyInput))
    let first := env.heldAfterWrite key held (env.resolveMasterKeyPath writing.mkdir) text writing.write
    if writing.write = .done then first else env.heldAfterWrite key first env.rootFile text writing.fallback

variable (env) in
/-- Up to the next call that sets a key, the environment has this one, or it has none and every
fetch can read a file that holds it. -/
def Stands (key : Key) : (String → Prop) → List Op → Prop
  | _, [] => True
  | held, .fetch reading :: rest =>
    (if trimSpace env.masterKey ≠ "" then env.keyOf (trimSpace env.masterKey) = key
      else reading.read = true ∧ held (env.place reading)) ∧ Stands key held rest
  | held, .set keyInput writing :: rest =>
    Sets keyInput writing ∨ Stands key (env.heldAfterSet key held keyInput writing) rest

theorem standing_iff_holds {reading : Reading} : env.standing disk reading = some key ↔
    if trimSpace env.masterKey ≠ "" then env.keyOf (trimSpace env.masterKey) = key
      else reading.read = true ∧ env.Holds key disk (env.place reading) := by
  unfold standing
  split
  · exact Option.some_inj
  · rw [Option.map_eq_some_iff, readFile, place, Holds]
    cases reading.read with
    | false => simp
    | true => simp [Denotes, and_assoc]

theorem holds_writeFile (path text : String) (outcome : WriteOutcome) :
    env.Holds key (env.writeFile disk path text outcome) = env.heldAfterWrite key (env.Holds key disk) path text outcome := by
  funext p
  by_cases hPlace : p = env.locate path
  · subst hPlace
    cases outcome <;> simp [Holds, writeFile, heldAfterWrite, WriteOutcome.leaves]
  · cases outcome <;> simp [Holds, writeFile, heldAfterWrite, update_of_ne hPlace]

theorem holds_setMasterKey (keyInput : String) (writing : Writing) :
    env.Holds key (env.setMasterKey disk keyInput writing).2 =
      env.heldAfterSet key (env.Holds key disk) keyInput writing := by
  simp only [setMasterKey, heldAfterSet]
  split_ifs <;> simp only [holds_writeFile]

theorem returned_iff_stands (ops : List Op) (disk : Disk) :
    (∀ calls : List (Op × Key), calls.map Prod.fst = ops → env.Returned key disk calls) ↔
      env.Stands key (env.Holds key disk) ops := by
  induction ops generalizing disk with
  | nil => simp [Stands, Returned]
  | cons op rest ih =>
    obtain ⟨other, hOther⟩ := exists_ne key
    have hCons : (∀ calls : List (Op × Key), calls.map Prod.fst = op :: rest →
        env.Returned key disk calls) ↔ ∀ (drawn : Key) (calls : List (Op × Key)),
          calls.map Prod.fst = rest → env.Returned key disk ((op, drawn) :: calls) := by
      constructor
      · exact fun hAll drawn calls hCalls => hAll ((op, drawn) :: calls) (by simp [hCalls])
      · intro hAll calls hCalls
        obtain ⟨⟨_, drawn⟩, later, rfl, rfl, hLater⟩ := map_eq_cons_iff.mp hCalls
        exact hAll drawn later hLater
    rw [hCons]
    cases op with
    | fetch reading =>
      simp only [Returned, Stands, ← standing_iff_holds]
      constructor
      · intro hAll
        have hStanding := standing_of_fetch hOther (hAll other (rest.map fun o => (o, other))
          (by simp [comp_def])).1
        obtain ⟨source, hFetch⟩ := fetch_of_standing hStanding other
        refine ⟨hStanding, (ih disk).mp fun calls hCalls => ?_⟩
        have hLater := (hAll other calls hCalls).2
        rwa [hFetch] at hLater
      · rintro ⟨hStanding, hRest⟩ drawn calls hCalls
        obtain ⟨source, hFetch⟩ := fetch_of_standing hStanding drawn
        rw [hFetch]
        exact ⟨rfl, (ih disk).mpr hRest calls hCalls⟩
    | set keyInput writing =>
      simp only [Returned, Stands, setMasterKey_ok_iff, ← holds_setMasterKey, ← ih]
      by_cases hSets : Sets keyInput writing
      · simp [hSets]
      · simp only [hSets, false_or]
        exact ⟨fun hAll => hAll other, fun hAll _ => hAll⟩

variable (env) in
/-- The files that hold the key that `SetMasterKey` reports to have set: the one it wrote in full, what
a failing first write has left of the other, and those that held it before. -/
def heldOnceSet (key : Key) (held : String → Prop) (writing : Writing) (place : String) : Prop :=
  let path := env.resolveMasterKeyPath writing.mkdir
  if writing.write = .done then place = env.locate path ∨ held place
  else place = env.locate env.rootFile ∨ env.heldAfterWrite key held path (keyText key) writing.write place

theorem denotes_keyText (key : Key) : env.Denotes key (keyText key) := by
  obtain ⟨text, hText, hNe, hTrim⟩ := (show WriteOutcome.done.Whole from trivial).leaves key none
  cases hText
  exact ⟨hNe, by rw [hTrim, keyOf_hex]⟩

theorem heldAfterWrite_done (held : String → Prop) (path : String) : env.heldAfterWrite key held path (keyText key) .done =
    fun place => place = env.locate path ∨ held place := by
  funext place
  by_cases hPlace : place = env.locate path
  · simp [heldAfterWrite, hPlace, denotes_keyText]
  · simp [heldAfterWrite, hPlace]

theorem heldAfterSet_eq (hSet : (env.setMasterKey disk keyInput writing).1 = .ok (key, path)) (held : String → Prop) :
    env.heldAfterSet key held keyInput writing = env.heldOnceSet key held writing := by
  obtain ⟨hSome, hDone⟩ := setMasterKey_ok_iff.mp ⟨_, hSet⟩
  funext place
  rw [heldAfterSet, if_neg hSome, ← key_of_setMasterKey hSet, heldOnceSet]
  split
  · next hWrite => rw [hWrite, heldAfterWrite_done]
  · next hWrite => rw [hDone.resolve_left hWrite, heldAfterWrite_done]

/-- Without `SetMasterKey` all fetches return one key whatever is drawn just in case it
stands for all of them, or the first one draws it, writes it whole and the others read that
file. After `SetMasterKey` they return the key that was set just in case the environment has it,
or has none and the files that are read hold it. -/
theorem masterKey_stable_iff (env : Setting) (disk : Disk) :
    (∀ fetches, env.Unchanging disk fetches ↔ env.Steady disk fetches) ∧
      ∀ keyInput writing key path,
        (env.setMasterKey disk keyInput writing).1 = .ok (key, path) → ∀ ops,
          ((∀ calls : List (Op × Key), calls.map Prod.fst = ops →
            env.Returned key (env.setMasterKey disk keyInput writing).2 calls) ↔
          env.Stands key (env.heldOnceSet key (env.Holds key disk) writing) ops) := by
  refine ⟨fun _ => ⟨Unchanging.steady, Steady.unchanging⟩, ?_⟩
  intro keyInput writing key path hSet ops
  rw [← heldAfterSet_eq hSet, ← holds_setMasterKey]
  exact returned_iff_stands ops _

end Setting

namespace Sample

def readable : Reading := ⟨true, true, .done⟩

def unreadable : Reading := ⟨true, false, .done⟩

def plain : Setting := ⟨.leading, "", "", "/data", id⟩

/-- `DBVAULT_MASTER_KEY` holds a key. -/
def pinned : Setting := { plain with masterKey := zeroKey.hex }

def written : Writing := ⟨true, .done, .done, ""⟩

/-- One failing read replaces the key for good, and a key that was set is never used while
the environment has another one. -/
theorem key_changes :
    ¬ plain.Unchanging (fun _ => none) [readable, unreadable] ∧
      (pinned.setMasterKey (fun _ => none) oneKey.hex written).1 = .ok (oneKey, "/data/master.key") ∧
      ¬ pinned.Returned oneKey (pinned.setMasterKey (fun _ => none) oneKey.hex written).2
        [(.fetch readable, oneKey)] := by
  refine ⟨fun hSame => ?_, rfl, fun hReturned => ?_⟩
  · have hKeys : plain.keys (fun _ => none) [(readable, zeroKey), (unreadable, oneKey)] =
        [zeroKey, oneKey] := rfl
    have hEqual := hSame [(readable, zeroKey), (unreadable, oneKey)] rfl
    rw [hKeys] at hEqual
    exact zeroKey_ne_oneKey (hEqual zeroKey (by simp) oneKey (by simp))
  · exact zeroKey_ne_oneKey hReturned.1

end Sample

end DBVault.ProductExperience.MasterKey
