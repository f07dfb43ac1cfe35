import DBVault.Domain

/-! Artifacts and the page chunker. The chunker reads the artifact's file in
buffers of whole pages; what it returns is described by `Tiles`, the only fact
about it that later results use. -/
namespace DBVault
open List Text Json

structure SnapshotMetadata where
  engineVersion : String
  (pageSize pageCount : Int)
  schemaDigest : String

/-- A snapshot artifact: its metadata and the bytes of its file. Page sizes are
positive, and all numbers are Go integers. -/
structure Artifact where
  metadata : SnapshotMetadata
  content : Bytes
  pageSize_pos : 0 < metadata.pageSize
  pageSize_int64 : IsInt64 metadata.pageSize
  pageCount_int64 : IsInt64 metadata.pageCount
  content_int64 : IsInt64 content.length

def Artifact.size (art : Artifact) : Int := art.content.length

/-- What an `io.Reader` delivers: some bytes, then end of file or an error. -/
structure Stream where
  bytes : Bytes
  ending : Option GoError

def Stream.readAll (s : Stream) : Result Bytes :=
  match s.ending with
  | none => .ok s.bytes
  | some err => .error err

inductive ReadResult where
  | full (buf : Bytes) (rest : Stream)
  | short (buf : Bytes)
  | eof
  | failed (err : GoError)

/-- `io.ReadFull` into a buffer of `size` bytes. -/
def Stream.readFull (size : Nat) (s : Stream) : ReadResult :=
  if size ≤ s.bytes.length then .full (s.bytes.take size) ⟨s.bytes.drop size, s.ending⟩
  else
    match s.ending with
    | some err => .failed err
    | none => if s.bytes = [] then .eof else .short s.bytes

structure PlainChunk where
  (index sequence pageStart pageCount plaintextSize compressedSize : Int)
  data : Bytes

def pagesPerChunk (pageSize targetBytes : Int) : Int :=
  if pageSize ≤ 0 then 1
  else
    let p := targetBytes.tdiv pageSize
    if p < 1 then 1 else p

def pagesOf (pageSize : Int) (n : Nat) : Int := (n : Int) / pageSize + if (n : Int) % pageSize ≠ 0 then 1 else 0

def plainChunk (pageSize seq pageStart : Int) (buf : Bytes) : PlainChunk where
  index := seq
  sequence := seq
  pageStart := pageStart
  pageCount := pagesOf pageSize buf.length
  plaintextSize := buf.length
  compressedSize := buf.length
  data := buf

/-- The loop of `Chunks`. A pass that reads a full buffer uses up at least one
byte, so `fuel` beyond the length of the file is never needed. -/
def chunkLoop (pageSize : Int) (bufSize : Nat) : Nat → Stream → Int → Int → Result (List PlainChunk)
  | 0, _, _, _ => .ok []
  | fuel + 1, s, seq, pageStart =>
    match s.readFull bufSize with
    | .eof => .ok []
    | .failed err => .error err
    | .short buf => .ok [plainChunk pageSize seq pageStart buf]
    | .full buf rest => do
        let ch := plainChunk pageSize seq pageStart buf
        let others ← chunkLoop pageSize bufSize fuel rest (seq + 1) (pageStart + ch.pageCount)
        pure (ch :: others)

def bufferSize (pageSize targetBytes : Int) : Nat := (pagesPerChunk pageSize targetBytes * pageSize).toNat

/-- What `PageChunker.Chunks` does with an opened file once its buffer can be made. -/
def chunks (pageSize targetBytes : Int) (file : Stream) : Result (List PlainChunk) :=
  chunkLoop pageSize (bufferSize pageSize targetBytes) (file.bytes.length + 1) file 0 0

/-- `maxAlloc` of the runtime on 64-bit systems. -/
def maxAlloc : Nat := 2 ^ 48

/-- `PageChunker.Chunks` on an opened file; `none` if `make` panics, as it does for a longer buffer. To its
caller that is a stop like any other, so what follows `chunks` there leaves it out. -/
def pageChunks (pageSize targetBytes : Int) (file : Stream) : Option (Result (List PlainChunk)) :=
  if bufferSize pageSize targetBytes ≤ maxAlloc then some (chunks pageSize targetBytes file) else none

/-- The chunks cut `content` into consecutive non-empty pieces, numbered from
`seq` and starting at page `pageStart`; every piece but the last fills its
pages. -/
inductive Tiles (pageSize : Int) : Int → Int → List PlainChunk → Bytes → Prop where
  | nil (seq pageStart : Int) : Tiles pageSize seq pageStart [] []
  | cons {seq pageStart : Int} {buf rest : Bytes} {others : List PlainChunk} (hBuf : buf ≠ [])
      (hPages : rest ≠ [] → pagesOf pageSize buf.length * pageSize = buf.length)
      (hRest : Tiles pageSize (seq + 1) (pageStart + pagesOf pageSize buf.length) others rest) :
      Tiles pageSize seq pageStart (plainChunk pageSize seq pageStart buf :: others) (buf ++ rest)

theorem one_le_pagesPerChunk (pageSize targetBytes : Int) : 1 ≤ pagesPerChunk pageSize targetBytes := by
  unfold pagesPerChunk
  split
  · exact Int.le_refl 1
  · dsimp only
    split <;> omega

theorem bufferSize_eq (hPos : 0 < pageSize) (targetBytes : Int) :
    (bufferSize pageSize targetBytes : Int) = pagesPerChunk pageSize targetBytes * pageSize := by
  have hPages := one_le_pagesPerChunk pageSize targetBytes
  exact Int.toNat_of_nonneg (Int.mul_nonneg (by omega) (by omega))

theorem bufferSize_pos (hPos : 0 < pageSize) (targetBytes : Int) : 0 < bufferSize pageSize targetBytes := by
  have hPages := one_le_pagesPerChunk pageSize targetBytes
  have hMul := Int.mul_pos (show 0 < pagesPerChunk pageSize targetBytes by omega) hPos
  have hEq := bufferSize_eq hPos targetBytes
  omega

theorem pagesOf_bufferSize (hPos : 0 < pageSize) (targetBytes : Int) :
    pagesOf pageSize (bufferSize pageSize targetBytes) * pageSize = bufferSize pageSize targetBytes := by
  rw [pagesOf, bufferSize_eq hPos, Int.mul_emod_left, Int.mul_ediv_cancel _ (by omega)]
  simp

theorem pagesOf_nonneg (hPos : 0 < pageSize) (n : Nat) : 0 ≤ pagesOf pageSize n := by
  have hDiv : 0 ≤ (n : Int) / pageSize := Int.ediv_nonneg (Int.natCast_nonneg n) hPos.le
  unfold pagesOf
  split <;> omega

theorem pagesOf_le (hPos : 0 < pageSize) (n : Nat) : pagesOf pageSize n ≤ n := by
  have hSplit := Int.mul_ediv_add_emod n pageSize
  have hDiv : 0 ≤ (n : Int) / pageSize := Int.ediv_nonneg (Int.natCast_nonneg n) hPos.le
  have hMod := Int.emod_nonneg n hPos.ne'
  have hMul : (n : Int) / pageSize ≤ pageSize * ((n : Int) / pageSize) := le_mul_of_one_le_left hDiv hPos
  unfold pagesOf
  split <;> omega

variable {content : Bytes}

theorem chunkLoop_tiles (hSize : 0 < bufSize) (hPages : pagesOf pageSize bufSize * pageSize = bufSize)
    (hFuel : content.length < fuel) (seq pageStart : Int) :
    ∃ cs, chunkLoop pageSize bufSize fuel ⟨content, none⟩ seq pageStart = .ok cs ∧
      Tiles pageSize seq pageStart cs content := by
  induction fuel generalizing content seq pageStart with
  | zero => omega
  | succ fuel ih =>
    by_cases hFull : bufSize ≤ content.length
    · have hTake : (content.take bufSize).length = bufSize := by simp [hFull]
      obtain ⟨others, hLoop, hTiles⟩ := @ih (content.drop bufSize)
        (by rw [length_drop]; omega) (seq + 1)
        (pageStart + pagesOf pageSize (content.take bufSize).length)
      refine ⟨plainChunk pageSize seq pageStart (content.take bufSize) :: others, ?_, ?_⟩
      · simp only [chunkLoop, Stream.readFull, if_pos hFull]
        have hPageCount : (plainChunk pageSize seq pageStart (content.take bufSize)).pageCount =
          pagesOf pageSize (content.take bufSize).length := rfl
        rw [hPageCount, hLoop]
        rfl
      · have hNonempty : content.take bufSize ≠ [] := by
          intro h
          rw [h, length_nil] at hTake
          omega
        have hCons := Tiles.cons hNonempty (fun _ => by rw [hTake]; exact hPages) hTiles
        rwa [take_append_drop] at hCons
    · by_cases hEmpty : content = []
      · subst hEmpty
        refine ⟨[], ?_, .nil _ _⟩
        simp only [chunkLoop, Stream.readFull, if_neg hFull, if_true]
      · refine ⟨[plainChunk pageSize seq pageStart content], ?_, ?_⟩
        · simp only [chunkLoop, Stream.readFull, if_neg hFull, hEmpty, if_false]
        · have hCons : Tiles pageSize seq pageStart [plainChunk pageSize seq pageStart content]
              (content ++ []) := .cons hEmpty (by simp) (.nil _ _)
          rwa [append_nil] at hCons

theorem chunks_tiles (hPos : 0 < pageSize) (targetBytes : Int) (content : Bytes) :
    ∃ cs, chunks pageSize targetBytes ⟨content, none⟩ = .ok cs ∧ Tiles pageSize 0 0 cs content :=
  chunkLoop_tiles (bufferSize_pos hPos targetBytes) (pagesOf_bufferSize hPos targetBytes) (Nat.lt_succ_self _) 0 0

theorem chunkLoop_error (hSize : 0 < bufSize)
    {err : GoError} (hFuel : content.length < fuel) (seq pageStart : Int) :
    chunkLoop pageSize bufSize fuel ⟨content, some err⟩ seq pageStart = .error err := by
  induction fuel generalizing content seq pageStart with
  | zero => omega
  | succ fuel ih =>
    by_cases hFull : bufSize ≤ content.length
    · simp only [chunkLoop, Stream.readFull, if_pos hFull]
      rw [ih (by rw [length_drop]; omega)]
      rfl
    · simp only [chunkLoop, Stream.readFull, if_neg hFull]

theorem chunks_error (hPos : 0 < pageSize) (targetBytes : Int) (content : Bytes)
    (err : GoError) : chunks pageSize targetBytes ⟨content, some err⟩ = .error err :=
  chunkLoop_error (bufferSize_pos hPos targetBytes) (Nat.lt_succ_self _) 0 0

/-- The chunks `Create` works with, for a file read without an error. -/
def Artifact.chunks (art : Artifact) (targetBytes : Int) : List PlainChunk :=
  match DBVault.chunks art.metadata.pageSize targetBytes ⟨art.content, none⟩ with
  | .ok cs => cs
  | .error _ => []

theorem Artifact.chunks_eq (art : Artifact) (targetBytes : Int) :
    DBVault.chunks art.metadata.pageSize targetBytes ⟨art.content, none⟩ = .ok (art.chunks targetBytes) := by
  obtain ⟨cs, hOk, -⟩ := chunks_tiles art.pageSize_pos targetBytes art.content
  rw [Artifact.chunks, hOk]

theorem Artifact.chunks_of_file {art : Artifact} {file : Stream} {chs : List PlainChunk}
    (hFile : ∀ f, (.ok file : Result Stream) = .ok f → f.ending = none → f.bytes = art.content)
    (h : DBVault.chunks art.metadata.pageSize targetBytes file = .ok chs) : art.chunks targetBytes = chs := by
  obtain ⟨bytes, ending⟩ := file
  cases ending with
  | none =>
    have hBytes : bytes = art.content := hFile _ rfl rfl
    rw [hBytes, art.chunks_eq] at h
    exact Except.ok.inj h
  | some err =>
    rw [chunks_error art.pageSize_pos] at h
    cases h

theorem Artifact.tiles (art : Artifact) (targetBytes : Int) :
    Tiles art.metadata.pageSize 0 0 (art.chunks targetBytes) art.content := by
  obtain ⟨cs, hOk, hTiles⟩ := chunks_tiles art.pageSize_pos targetBytes art.content
  rw [Artifact.chunks, hOk]
  exact hTiles

namespace Tiles
variable {pageSize seq pageStart : Int} {cs : List PlainChunk} {content : Bytes}

section
variable (h : Tiles pageSize seq pageStart cs content)
include h

theorem flatten : (cs.map (·.data)).flatten = content := by
  induction h with
  | nil => rfl
  | cons hBuf hPages hRest ih => simp [plainChunk, ih]

theorem eq_nil_iff : cs = [] ↔ content = [] := by
  cases h with
  | nil => simp
  | cons hBuf hPages hRest => simp [hBuf]

theorem bounds (hPos : 0 < pageSize) :
    ∀ ch ∈ cs, (seq ≤ ch.sequence ∧ ch.sequence < seq + content.length) ∧
      (pageStart ≤ ch.pageStart ∧ 0 ≤ ch.pageCount ∧ ch.pageStart + ch.pageCount ≤ pageStart + content.length) ∧
      0 ≤ ch.plaintextSize ∧ ch.plaintextSize ≤ content.length := by
  induction h with
  | nil => simp
  | @cons seq pageStart buf rest others hBuf hPages hRest ih =>
    have hLength : 0 < buf.length := length_pos_iff.mpr hBuf
    have hUpper := pagesOf_le hPos buf.length
    have hLower := pagesOf_nonneg hPos buf.length
    intro ch hch
    rw [length_append, Nat.cast_add]
    rcases mem_cons.mp hch with rfl | hch
    · simp only [plainChunk]
      omega
    · have hLater := ih ch hch
      omega

end

end Tiles

/-- A page is among the first pages of `n` bytes exactly if it starts before their end. -/
theorem lt_pagesOf_iff (hPos : 0 < pageSize) (n : Nat) (k : Int) : k < pagesOf pageSize n ↔ k * pageSize < n := by
  have hSplit := Int.mul_ediv_add_emod n pageSize
  unfold pagesOf
  split_ifs with hMod
  · rw [Int.lt_add_one_iff, Int.le_ediv_iff_mul_le hPos, Int.le_iff_lt_or_eq, or_iff_left]
    intro hEq
    exact hMod (by rw [← hEq, Int.mul_emod_left])
  · rw [not_not.mp hMod, Int.add_zero, Int.mul_comm] at hSplit
    rw [Int.add_zero, ← hSplit, Int.mul_ediv_cancel _ hPos.ne', Int.mul_lt_mul_right hPos]

theorem touches_iff (hPos : 0 < pageSize) (pageStart page : Int) (n : Nat) :
    (∃ i < n, (pageStart * pageSize + (i : Nat)) / pageSize = page) ↔
      pageStart ≤ page ∧ page < pageStart + pagesOf pageSize n := by
  simp only [Int.add_comm (pageStart * pageSize), Int.add_mul_ediv_right _ _ hPos.ne']
  constructor
  · rintro ⟨i, hi, rfl⟩
    have hLow := Int.ediv_nonneg (Int.natCast_nonneg i) hPos.le
    have hHigh := (lt_pagesOf_iff hPos n _).mpr
      (Int.lt_of_le_of_lt (Int.ediv_mul_le i hPos.ne') (Int.ofNat_lt.mpr hi))
    omega
  · rintro ⟨hLow, hHigh⟩
    have hStart := (lt_pagesOf_iff hPos n (page - pageStart)).mp (by omega)
    have hNat := Int.toNat_of_nonneg (Int.mul_nonneg (show 0 ≤ page - pageStart by omega) hPos.le)
    refine ⟨((page - pageStart) * pageSize).toNat, by omega, ?_⟩
    rw [hNat, Int.mul_ediv_cancel _ hPos.ne']
    omega

theorem chunkLoop_full
    (h : chunkLoop pageSize bufSize fuel s seq pageStart = .ok cs) :
    ∀ ch ∈ cs.dropLast, ch.data.length = bufSize := by
  induction fuel generalizing s seq pageStart cs with
  | zero =>
    cases h
    simp
  | succ fuel ih =>
    rw [chunkLoop] at h
    split at h
    · cases h
      simp
    · cases h
    · cases h
      simp
    · rename_i buf rest hRead
      obtain ⟨others, hOthers, hEq⟩ := bind_eq_ok h
      cases hEq
      have hBuf : buf.length = bufSize := by
        unfold Stream.readFull at hRead
        split at hRead
        · cases hRead
          simpa
        · split at hRead
          · cases hRead
          · split at hRead <;> cases hRead
      intro ch hch
      cases others with
      | nil => simp at hch
      | cons other others =>
        rw [dropLast_cons_cons, mem_cons] at hch
        rcases hch with rfl | hch
        · exact hBuf
        · exact ih hOthers ch hch

theorem Tiles.chunk_at {before after : List PlainChunk} {ch : PlainChunk}
    {content : Bytes} (h : Tiles pageSize seq pageStart (before ++ ch :: after) content) :
    ch.sequence = seq + before.length ∧
      ch.pageStart * pageSize = pageStart * pageSize + (before.map (·.data)).flatten.length ∧
      ch.pageCount = pagesOf pageSize ch.data.length := by
  induction before generalizing seq pageStart content with
  | nil =>
    cases h
    simp [plainChunk]
  | cons first before ih =>
    rw [cons_append] at h
    cases h with
    | cons hBuf hPages hRest =>
      obtain ⟨hSeq, hStart, hCount⟩ := ih hRest
      have hFull := hPages (fun hNil => by simpa using hRest.eq_nil_iff.mpr hNil)
      refine ⟨?_, ?_, hCount⟩
      · rw [hSeq, length_cons]
        omega
      · rw [hStart, Int.add_mul, hFull]
        simp [plainChunk, Int.add_assoc]

/-- Numbered from zero, in order all bytes of the file, each at the page it names, all but the last of the
full size, with as many pages as their bytes lie on. -/
def TileFile (pageSize targetBytes : Int) (content : Bytes) (cs : List PlainChunk) : Prop :=
  (cs.map (·.data)).flatten = content ∧ (content = [] → cs = []) ∧ ∀ before ch after, cs = before ++ ch :: after →
    let offset : Int := (before.map (·.data)).flatten.length
    ch.sequence = before.length ∧ ch.pageStart * pageSize = offset ∧
    (after ≠ [] → ch.data.length = pagesPerChunk pageSize targetBytes * pageSize) ∧
    ∀ page, (∃ i < ch.data.length, (offset + (i : Nat)) / pageSize = page) ↔
      ch.pageStart ≤ page ∧ page < ch.pageStart + ch.pageCount

theorem chunks_tileFile (hPos : 0 < pageSize) (targetBytes : Int) (content : Bytes) :
    ∃ cs, chunks pageSize targetBytes ⟨content, none⟩ = .ok cs ∧ TileFile pageSize targetBytes content cs := by
  obtain ⟨cs, hChunks, hTiles⟩ := chunks_tiles hPos targetBytes content
  refine ⟨cs, hChunks, hTiles.flatten, hTiles.eq_nil_iff.mpr, ?_⟩
  rintro before ch after rfl
  obtain ⟨hSeq, hStart, hCount⟩ := hTiles.chunk_at
  rw [Int.zero_mul, Int.zero_add] at hStart
  refine ⟨by simpa using hSeq, hStart, ?_, ?_⟩
  · intro hAfter
    rw [← bufferSize_eq hPos, chunkLoop_full hChunks ch]
    rw [dropLast_append_of_ne_nil (cons_ne_nil ch after), dropLast_cons_of_ne_nil hAfter]
    simp
  · intro page
    rw [← hStart, hCount]
    exact touches_iff hPos ch.pageStart page ch.data.length

theorem bufferSize_le_iff (hPos : 0 < pageSize) (targetBytes : Int) (limit : Nat) :
    bufferSize pageSize targetBytes ≤ limit ↔ pageSize ≤ limit ∧ targetBytes - targetBytes % pageSize ≤ limit := by
  have hBuffer := bufferSize_eq hPos targetBytes
  have hWhole : targetBytes - targetBytes % pageSize = targetBytes / pageSize * pageSize := by
    have hSplit := Int.mul_ediv_add_emod targetBytes pageSize
    rw [Int.mul_comm] at hSplit
    omega
  rw [pagesPerChunk, if_neg (by omega)] at hBuffer
  rw [hWhole, ← Int.ofNat_le, hBuffer]
  dsimp only
  split_ifs with hSmall
  · have hDiv : targetBytes / pageSize ≤ 0 := by
      rcases Int.lt_or_le targetBytes 0 with hNegative | hNonneg
      · exact (Int.ediv_neg_of_neg_of_pos hNegative hPos).le
      · rw [Int.tdiv_eq_ediv_of_nonneg hNonneg] at hSmall
        omega
    have hNone := Int.mul_nonpos_of_nonpos_of_nonneg hDiv hPos.le
    omega
  · have hNonneg : 0 ≤ targetBytes := by
      by_contra hNegative
      have hDiv := Int.tdiv_nonneg (show 0 ≤ -targetBytes by omega) hPos.le
      rw [Int.neg_tdiv] at hDiv
      omega
    rw [Int.tdiv_eq_ediv_of_nonneg hNonneg] at hSmall ⊢
    have hOne := Int.mul_le_mul_of_nonneg_right (show 1 ≤ targetBytes / pageSize by omega) hPos.le
    omega

/-- The chunks of a file are returned, and tile it, exactly if a page and the whole pages of the target are
not longer than what `make` allows. -/
theorem chunks_tile_file_iff (hPos : 0 < pageSize) (targetBytes : Int) (content : Bytes) :
    (∃ cs, pageChunks pageSize targetBytes ⟨content, none⟩ = some (.ok cs) ∧
      TileFile pageSize targetBytes content cs) ↔
      pageSize ≤ maxAlloc ∧ targetBytes - targetBytes % pageSize ≤ maxAlloc := by
  rw [← bufferSize_le_iff hPos]
  unfold pageChunks
  split_ifs with hFits
  · obtain ⟨cs, hChunks, hTile⟩ := chunks_tileFile hPos targetBytes content
    exact iff_of_true ⟨cs, congrArg some hChunks, hTile⟩ hFits
  · exact iff_of_false (fun ⟨_, hSome, _⟩ => nomatch hSome) hFits

theorem chunks_tile_file_odd :
    ∃ cs, pageChunks 2 4 ⟨[1, 2, 3, 4, 5], none⟩ = some (.ok cs) ∧ TileFile 2 4 [1, 2, 3, 4, 5] cs :=
  (chunks_tile_file_iff (by decide) 4 [1, 2, 3, 4, 5]).mpr (by decide)

/-- The buffer for a target of 2 ^ 62 bytes cannot be made, not even for an empty file. -/
theorem huge_target_panics : pageChunks 4096 (2 ^ 62) ⟨[], none⟩ = none := by decide

end DBVault
