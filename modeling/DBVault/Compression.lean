import DBVault.Domain

/-! The compression adapter in its two builds. Both keep the plain bytes when
compression saves too little, and both tell a frame from plain bytes by
looking at the bytes. -/
namespace DBVault
open Text

structure Compressor where
  (level minimumSavingsPercent : Int)
  deriving DecidableEq

def Compressor.new (level minSavings : Int) : Compressor := ⟨level, if minSavings = 0 then 5 else minSavings⟩

def Compressor.name : String := "zstd"

def savedPercent (data compressed : Bytes) : Int := 100 - (compressed.length * 100 / max 1 data.length : Nat)

def Compressor.select (c : Compressor) (data compressed : Bytes) : Bytes :=
  if savedPercent data compressed < c.minimumSavingsPercent then data else compressed

/-- Whatever `compress` writes for `data`, `decompress` turns back into it. -/
def RoundTrips (compress decompress : Bytes → Result Bytes) (data : Bytes) : Prop :=
  ∀ out, compress data = .ok out → decompress out = .ok data

/-- The shape both builds share: data is stored as itself or as a frame, a frame
is recognised and decoded, and anything that is not recognised is taken as it is. -/
theorem roundTrips_iff_of_select (framed : Bytes → Prop) {c : Compressor}
    {compress decompress decode : Bytes → Result Bytes} {data frame : Bytes}
    (hCompress : compress data = .ok (c.select data frame))
    (hFramed : ∀ bytes, framed bytes → decompress bytes = decode bytes)
    (hPlain : ∀ bytes, ¬ framed bytes → decompress bytes = .ok bytes) (hFrame : decompress frame = .ok data) :
    RoundTrips compress decompress data ↔
      (savedPercent data frame < c.minimumSavingsPercent → framed data → decode data = .ok data) := by
  simp only [RoundTrips, hCompress, Except.ok.injEq, forall_eq', Compressor.select]
  by_cases hRaw : savedPercent data frame < c.minimumSavingsPercent
  · simp only [hRaw, if_true, forall_true_left]
    by_cases hLooks : framed data
    · rw [hFramed data hLooks]
      simp [hLooks]
    · simp [hPlain data hLooks, hLooks]
  · simp [hRaw, hFrame]

inductive Speed where
  | fastest | standard | better
  deriving DecidableEq

def zstdMagic : Bytes := [0x28, 0xb5, 0x2f, 0xfd]

/-- The zstd library. An empty input has an empty encoding; every other input
becomes a frame behind the magic bytes. -/
structure Zstd where
  encodeAll : Speed → Bytes → Bytes
  decodeAll : Bytes → Result Bytes
  encodeAll_empty : ∀ speed, encodeAll speed [] = []
  encodeAll_framed : ∀ speed data, data ≠ [] → zstdMagic <+: encodeAll speed data
  decodeAll_encodeAll : ∀ speed data, decodeAll (encodeAll speed data) = .ok data

namespace Zstd
variable (lib : Zstd)

def speed (level : Int) : Speed := if level ≤ 2 then .fastest else if level ≥ 7 then .better else .standard

def compress (c : Compressor) (data : Bytes) : Result Bytes :=
  .ok (c.select data (lib.encodeAll (speed c.level) data))

def decompress (data : Bytes) : Result Bytes := if zstdMagic <+: data then lib.decodeAll data else .ok data

theorem decompress_encodeAll (speed : Speed) (data : Bytes) :
    lib.decompress (lib.encodeAll speed data) = .ok data := by
  by_cases hEmpty : data = []
  · subst hEmpty
    rw [lib.encodeAll_empty]
    rfl
  · rw [decompress, if_pos (lib.encodeAll_framed speed data hEmpty), lib.decodeAll_encodeAll]

end Zstd

/-- Go past the extra field of a gzip header: two bytes of length and the field. -/
def gzipExtra (announced : Bool) (bytes : Bytes) : Option Bytes :=
  if announced then
    match bytes with
    | low :: high :: rest =>
      let size := low.toNat + 256 * high.toNat
      if size ≤ rest.length then some (rest.drop size) else none
    | _ => none
  else some bytes

/-- Go past a name or a comment: at most 511 bytes and a zero. -/
def gzipText (announced : Bool) (bytes : Bytes) : Option Bytes :=
  if announced then
    let size := (bytes.takeWhile (· ≠ 0)).length
    if size < min 512 bytes.length then some (bytes.drop (size + 1)) else none
  else some bytes

/-- The checksum of a header, where it is announced, is that of the bytes before. -/
def gzipChecked (crc : Bytes → Nat) (announced : Bool) (data bytes : Bytes) : Bool :=
  if announced then
    match bytes with
    | low :: high :: _ => crc (data.take (data.length - bytes.length)) = low.toNat + 256 * high.toNat
    | _ => false
  else true

/-- Whether the bytes begin with a gzip header: ten bytes, then what the flags among them announce. -/
def gzipHeader (crc : Bytes → Nat) (data : Bytes) : Bool :=
  let flags := data.getD 3 0
  let rest := do
    let rest ← gzipExtra (flags &&& 4 ≠ 0) (data.drop 10)
    let rest ← gzipText (flags &&& 8 ≠ 0) rest
    gzipText (flags &&& 16 ≠ 0) rest
  10 ≤ data.length && data.take 3 = [0x1f, 0x8b, 8] && rest.any (gzipChecked crc (flags &&& 2 ≠ 0) data)

/-- The gzip library: what it deflates begins with a header and is inflated by `readAll`. -/
structure Gzip where
  crc : Bytes → Nat
  deflate : Int → Bytes → Bytes
  readAll : Bytes → Result Bytes
  header_deflate : ∀ level data, gzipHeader crc (deflate level data) = true
  readAll_deflate : ∀ level data, readAll (deflate level data) = .ok data

namespace Gzip
variable (lib : Gzip)

def level (c : Compressor) : Int := if c.level = 0 then -1 else c.level

/-- `gzip.NewWriterLevel` accepts `HuffmanOnly` up to `BestCompression`. -/
def validLevel (level : Int) : Bool := -2 ≤ level && level ≤ 9

def compress (c : Compressor) (data : Bytes) : Result Bytes :=
  if validLevel (level c) then .ok (c.select data (lib.deflate (level c) data))
  else .error (.other "gzip: invalid compression level")

def newReader (data : Bytes) : Result Unit :=
  if gzipHeader lib.crc data then .ok () else .error (.other "gzip: invalid header")

def decompress (data : Bytes) : Result Bytes :=
  match lib.newReader data with
  | .error _ => .ok data
  | .ok _ => lib.readAll data

end Gzip

/-- Both builds give back what they were given exactly when data that is kept
plain is not mistaken for a frame the library reads as something else. -/
theorem compressor_roundTrips_iff (z : Zstd) (g : Gzip) (c : Compressor) (data : Bytes) :
    (RoundTrips (z.compress c) z.decompress data ↔
      (savedPercent data (z.encodeAll (Zstd.speed c.level) data) < c.minimumSavingsPercent →
        zstdMagic <+: data → z.decodeAll data = .ok data)) ∧
    (RoundTrips (g.compress c) g.decompress data ↔
      (Gzip.validLevel (Gzip.level c) = true →
        savedPercent data (g.deflate (Gzip.level c) data) < c.minimumSavingsPercent →
        gzipHeader g.crc data = true → g.readAll data = .ok data)) := by
  constructor
  · refine roundTrips_iff_of_select (zstdMagic <+: ·) rfl ?_ ?_ ?_
    · intro bytes h
      rw [Zstd.decompress, if_pos h]
    · intro bytes h
      rw [Zstd.decompress, if_neg h]
    · exact z.decompress_encodeAll _ _
  · by_cases hLevel : Gzip.validLevel (Gzip.level c) = true
    · simp only [hLevel, forall_true_left]
      refine roundTrips_iff_of_select (gzipHeader g.crc · = true) ?_ ?_ ?_ ?_
      · rw [Gzip.compress, if_pos hLevel]
      · intro bytes h
        rw [Gzip.decompress, Gzip.newReader, if_pos h]
      · intro bytes h
        rw [Gzip.decompress, Gzip.newReader, if_neg h]
      · rw [Gzip.decompress, Gzip.newReader, if_pos (g.header_deflate _ _)]
        exact g.readAll_deflate _ _
    · simp [RoundTrips, Gzip.compress, hLevel]

/-- A library that stores its input behind the magic bytes and has no frame
without content. -/
def storedZstd : Zstd where
  encodeAll _ data := if data = [] then [] else zstdMagic ++ data
  decodeAll bytes :=
    if bytes = [] then .ok []
    else if bytes.drop 4 = [] then .error (.other "unexpected EOF") else .ok (bytes.drop 4)
  encodeAll_empty _ := rfl
  encodeAll_framed _ data h := by simp [h]
  decodeAll_encodeAll _ data := by
    by_cases h : data = []
    · simp [h]
    · simp [h, zstdMagic]

def plainHeader : Bytes := [0x1f, 0x8b, 8, 0, 0, 0, 0, 0, 0, 0xff]

/-- A library that stores its input behind a plain header and before a final zero. -/
def storedGzip : Gzip where
  crc _ := 0
  deflate _ data := plainHeader ++ data ++ [0]
  readAll bytes := if bytes.drop 10 = [] then .error (.other "unexpected EOF") else .ok (bytes.drop 10).dropLast
  header_deflate _ data := by simp [gzipHeader, plainHeader, gzipExtra, gzipText, gzipChecked]
  readAll_deflate _ data := by simp [plainHeader]

/-- The zstd magic bytes alone, or a gzip header alone, are stored plain and cannot be read back. -/
theorem compressor_loses_bare_header :
    (storedZstd.compress (.new 3 0) zstdMagic = .ok zstdMagic ∧
      storedZstd.decompress zstdMagic = .error (.other "unexpected EOF")) ∧
    (storedGzip.compress (.new 3 0) plainHeader = .ok plainHeader ∧
      storedGzip.decompress plainHeader = .error (.other "unexpected EOF")) :=
  ⟨⟨rfl, rfl⟩, rfl, rfl⟩

end DBVault
