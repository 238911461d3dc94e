import FsRover.Io.Carrier
import FsRover.Lib.Bisect
import FsRover.Lib.Guards

/-!
# Expert Witness images

`ewf.c` reads forensic images of segment files. The tables of the segments give the place of every
chunk: in version 1 as 31-bit offsets with a bit for compression, until the offsets pass 2 GiB and
the bit becomes one of the offset; in version 2 as offsets, sizes and flags.

The checks of a table are modelled with what they find as the place of each chunk, which the source
does not keep. `inflate` and `bunzip2` stand as parameters: what is written, and whether it is all.

## Main definitions

* `FsRover.EwfImage`, `FsRover.EwfGroup`, `FsRover.EwfPlace` : the image, its tables, and places.
* `FsRover.ewfParseVolume`, `FsRover.ewf2ApplyMetadata` : the geometry accepted.
* `FsRover.ewfParseTable`, `FsRover.ewf2ParseTable` : the tables accepted.
* `FsRover.EwfScanned` : an image after its segments are scanned, with the places checked.
-/

namespace FsRover

open Guards

def EWF_SECTION_DESC_SIZE : ℕ := 76
def EWF_VOLUME_SIZE : ℕ := 1052
def EWF_SMART_VOLUME_SIZE : ℕ := 94
def EWF_TABLE_HEADER_SIZE : ℕ := 24
def EWF2_TABLE_HEADER_SIZE : ℕ := 32
def EWF2_TABLE_ENTRY_SIZE : ℕ := 16
def EWF2_TABLE_FOOTER_SIZE : ℕ := 16
def EWF_MAX_GROUPS : ℕ := 2 ^ 20
def EWF_MAX_CHUNKS : ℕ := 16 * 2 ^ 20
def EWF_MAX_CHUNK_SIZE : ℕ := 64 * 2 ^ 20
def EWF_CACHE_NONE : ℕ := 0xffffffff

def ewfBadDevice (message : String) : GrubError := ⟨.badDevice, message⟩

/-- `struct ewf2_entry`. -/
structure Ewf2Entry where
  offset : ℕ
  size : ℕ
  flags : ℕ
  deriving DecidableEq

/-- `EWF2_CHUNK_COMPRESSED`, `EWF2_CHUNK_CHECKSUMED` and `EWF2_CHUNK_PATTERN_FILL`. -/
def Ewf2Entry.compressed (e : Ewf2Entry) : Bool := e.flags.testBit 0
def Ewf2Entry.checksummed (e : Ewf2Entry) : Bool := e.flags.testBit 1
def Ewf2Entry.patternFill (e : Ewf2Entry) : Bool := e.flags.testBit 2

/-- `entries` and `entries2`, of which a group has one. -/
inductive EwfEntries
  | v1 (entries : List ℕ)
  | v2 (entries : List Ewf2Entry)

/-- `struct ewf_group`. -/
structure EwfGroup where
  firstChunk : ℕ
  count : ℕ
  overflowAt : ℕ
  segment : ℕ
  baseOffset : ℕ
  dataEnd : ℕ
  entries : EwfEntries

/-- `struct ewf_image`, without what reading changes. -/
structure EwfImage where
  segments : List GrubFile
  groups : List EwfGroup
  nchunks : ℕ
  indexedChunks : ℕ
  chunkSize : ℕ
  sectorSize : ℕ
  totalBytes : ℕ
  volumeSeen : Bool
  smart : Bool
  version2 : Bool
  compressionMethod : ℕ
  compCapacity : ℕ

/-- The image as `grub_zalloc` gives it, of a version. -/
def EwfImage.start (version2 : Bool) : EwfImage :=
  { segments := [], groups := [], nchunks := 0, indexedChunks := 0, chunkSize := 0, sectorSize := 0,
    totalBytes := 0, volumeSeen := false, smart := false, version2, compressionMethod := 0,
    compCapacity := 0 }

/-- `struct ewf2_metadata`. -/
structure Ewf2Metadata where
  sectors : ℕ
  chunks : ℕ
  sectorSize : ℕ
  sectorsPerChunk : ℕ
  deviceSeen : Bool
  caseSeen : Bool

/-- What `ewf_chunk_location` gives. -/
structure EwfPlace where
  segment : ℕ
  off : ℕ
  storedSize : ℕ
  compressed : Bool
  checksummed : Bool
  patternFill : Bool
  pattern : ℕ
  deriving DecidableEq

/-- `ewf_adler32`. The source reduces the sums less often, which gives the same. -/
def ewfAdler32 (bs : List UInt8) : ℕ :=
  let s := bs.foldl (fun s b =>
    let s1 := (s.1 + b.toNat) % 65521
    (s1, (s.2 + s1) % 65521)) (1, 0)
  s.2 * 2 ^ 16 + s.1

/-- `ewf_pread`. -/
def ewfPread (file : GrubFile) (call off len : ℕ) : Except (GrubError × Option Buf) Buf :=
  if file.size = GRUB_FILE_SIZE_UNKNOWN then .error (ewfBadDevice "EWF segment truncated", none)
  else file.pread call off len (ewfBadDevice "EWF segment truncated")

/-- `ewf_pread` while the image is opened. -/
def ewfRead0 (file : GrubFile) (off len : ℕ) : Except GrubError Buf :=
  (ewfPread file 0 off len).mapError Prod.fst

/-- `ewf_add_group`, and the chunks indexed. -/
def ewfAddGroup (img : EwfImage) (compCapacity : ℕ) (group : EwfGroup) :
    Except GrubError EwfImage :=
  if EWF_MAX_GROUPS ≤ img.groups.length then .error ⟨.outOfRange, "too many EWF chunk tables"⟩
  else .ok { img with
    groups := img.groups ++ [group]
    indexedChunks := img.indexedChunks + group.count
    compCapacity }

/-! ### Geometry -/

/-- `ewf_power_of_two`. -/
def ewfPowerOfTwo (value : ℕ) : Bool := value ≠ 0 && value &&& (value - 1) = 0

/-- `ewf_parse_volume`. -/
def ewfParseVolume (img : EwfImage) (file : GrubFile) (off size : ℕ) :
    Except GrubError EwfImage := do
  refuseIf (img.volumeSeen = true) (ewfBadDevice "duplicate EWF volume section")
  refuseIf (size < EWF_SMART_VOLUME_SIZE) (ewfBadDevice "short EWF volume section")
  let smart := decide (size < EWF_VOLUME_SIZE)
  let volumeSize := if smart then EWF_SMART_VOLUME_SIZE else EWF_VOLUME_SIZE
  let data ← ewfRead0 file off volumeSize
  refuseIf (lostLe32 data (volumeSize - 4) ≠ ewfAdler32 (data.take (volumeSize - 4)))
    (ewfBadDevice "bad EWF volume checksum")
  refuseIf (smart = false ∧ data 0 = 0x0e)
    ⟨.notImplementedYet, "logical EWF-L01 images are not disk images"⟩
  let chunks := lostLe32 data 4
  let sectorsPerChunk := lostLe32 data 8
  let sectorSize := lostLe32 data 12
  let sectors := if smart then lostLe32 data 16 else lostLe64 data 16
  refuseIf (chunks = 0 ∨ EWF_MAX_CHUNKS < chunks ∨ sectorsPerChunk = 0 ∨ sectorSize = 0
    ∨ ewfPowerOfTwo sectorSize = false ∨ sectorSize < 128 ∨ 65536 < sectorSize
    ∨ EWF_MAX_CHUNK_SIZE / sectorSize < sectorsPerChunk) (ewfBadDevice "bad EWF media geometry")
  let chunkSize := u32 (sectorsPerChunk * sectorSize)
  let total := sectors * sectorSize
  refuseIf (chunkSize = 0 ∨ EWF_MAX_CHUNK_SIZE < chunkSize ∨ 2 ^ 64 ≤ total ∨ total = 0)
    ⟨.outOfRange, "bad EWF media size"⟩
  refuseIf (u64 (total + chunkSize - 1) / chunkSize ≠ chunks)
    (ewfBadDevice "inconsistent EWF chunk count")
  .ok { img with
    nchunks := chunks
    chunkSize
    sectorSize
    totalBytes := total
    smart
    volumeSeen := true }

/-- `ewf2_apply_metadata`. -/
def ewf2ApplyMetadata (img : EwfImage) (metadata : Ewf2Metadata) : Except GrubError EwfImage := do
  refuseIf (metadata.deviceSeen = false ∨ metadata.caseSeen = false)
    (ewfBadDevice "missing EWF2 media metadata")
  let sectorSize := metadata.sectorSize
  let chunkSize := metadata.sectorsPerChunk * sectorSize
  let total := metadata.sectors * sectorSize
  refuseIf (metadata.chunks = 0 ∨ EWF_MAX_CHUNKS < metadata.chunks ∨ metadata.sectors = 0
    ∨ sectorSize = 0 ∨ metadata.sectorsPerChunk = 0 ∨ ewfPowerOfTwo sectorSize = false
    ∨ sectorSize < 128 ∨ 65536 < sectorSize ∨ 2 ^ 64 ≤ chunkSize ∨ chunkSize = 0
    ∨ EWF_MAX_CHUNK_SIZE < chunkSize ∨ 2 ^ 64 ≤ total ∨ total = 0)
    (ewfBadDevice "bad EWF2 media geometry")
  refuseIf (total / chunkSize + (if total % chunkSize ≠ 0 then 1 else 0) ≠ metadata.chunks)
    (ewfBadDevice "inconsistent EWF2 chunk count")
  refuseIf (img.volumeSeen = true ∧ (img.nchunks ≠ metadata.chunks ∨ img.sectorSize ≠ sectorSize
    ∨ img.chunkSize ≠ chunkSize ∨ img.totalBytes ≠ total))
    (ewfBadDevice "inconsistent EWF2 segment geometry")
  .ok (if img.volumeSeen then img else { img with
    nchunks := metadata.chunks
    chunkSize
    sectorSize
    totalBytes := total
    volumeSeen := true })

/-- `max_stored`. -/
def EwfImage.maxStored (img : EwfImage) : ℕ := img.chunkSize + img.chunkSize / 100 + 65536

/-! ### Tables of version 1 -/

/-- What the checks of the entries of a table use. -/
structure EwfTable where
  segment : ℕ
  count : ℕ
  baseOffset : ℕ
  fileSize : ℕ
  sectionOff : ℕ
  sectionEnd : ℕ
  chunkSize : ℕ
  maxStored : ℕ

/-- What the checks of the entries leave. -/
structure EwfScan where
  overflow : Bool
  overflowAt : ℕ
  dataEnd : ℕ
  compCapacity : ℕ

/-- The offset in an entry, `current`. -/
def ewfOffset (overflow : Bool) (raw : ℕ) : ℕ := if overflow then raw else raw % 2 ^ 31

/-- The offset in the entry behind one with the offset `current`, `next`. -/
def ewfNextOffset (overflow : Bool) (current nextRaw : ℕ) : ℕ :=
  if overflow = false ∧ nextRaw % 2 ^ 31 < current ∧ current ≤ nextRaw then nextRaw
  else ewfOffset overflow nextRaw

/-- The check of the entry behind, if there is one. -/
def ewfCheckNext (overflow : Bool) (current : ℕ) : Option ℕ → Except GrubError Unit
  | some nextRaw =>
    refuseIf (ewfNextOffset overflow current nextRaw ≤ current)
      (ewfBadDevice "invalid EWF chunk offsets")
  | none => .ok ()

/-- The end of the data section of the last chunk, `data_end`. -/
def ewfDataEnd (t : EwfTable) (dataEnd phys : ℕ) : Option ℕ → Except GrubError ℕ
  | some _ => .ok dataEnd
  | none =>
    if phys < t.sectionOff then .ok t.sectionOff
    else if phys < t.sectionEnd then .ok t.sectionEnd
    else .error (ewfBadDevice "last EWF chunk outside data section")

/-- `stored_size`. -/
def ewfStoredSize (overflow : Bool) (current dataEnd phys : ℕ) : Option ℕ → ℕ
  | some nextRaw => ewfNextOffset overflow current nextRaw - current
  | none => dataEnd - phys

/-- A round of the loop of `ewf_parse_table`, with the entry behind if there is one. -/
def ewfCheckEntry (t : EwfTable) (i raw : ℕ) (next : Option ℕ) (s : EwfScan) :
    Except GrubError (EwfPlace × EwfScan) := do
  let current := ewfOffset s.overflow raw
  ewfCheckNext s.overflow current next
  refuseIf (2 ^ 64 ≤ t.baseOffset + current ∨ t.fileSize ≤ t.baseOffset + current)
    (ewfBadDevice "EWF chunk offset outside segment")
  let phys := t.baseOffset + current
  let dataEnd ← ewfDataEnd t s.dataEnd phys next
  let storedSize := ewfStoredSize s.overflow current dataEnd phys next
  refuseIf (storedSize = 0 ∨ t.maxStored < storedSize ∨ t.fileSize < phys
    ∨ t.fileSize - phys < storedSize) (ewfBadDevice "invalid EWF chunk size")
  refuseIf (raw < 2 ^ 31 ∧ s.overflow = false ∧ (storedSize < 4 ∨ t.chunkSize + 4 < storedSize))
    (ewfBadDevice "invalid uncompressed EWF chunk size")
  let compressed := !s.overflow && decide (2 ^ 31 ≤ raw)
  let crosses := s.overflow = false ∧ 0x7fffffff < current + storedSize
  .ok (⟨t.segment, phys, storedSize, compressed, !compressed, false, 0⟩,
    { overflow := s.overflow || decide crosses
      overflowAt := if crosses then i + 1 else s.overflowAt
      dataEnd
      compCapacity := max s.compCapacity storedSize })

/-- The loop of `ewf_parse_table`. -/
def ewfCheckEntries (t : EwfTable) : ℕ → List ℕ → EwfScan →
    Except GrubError (List EwfPlace × EwfScan)
  | _, [], s => .ok ([], s)
  | i, raw :: rest, s => do
    let (place, s) ← ewfCheckEntry t i raw rest.head? s
    let (places, s) ← ewfCheckEntries t (i + 1) rest s
    .ok (place :: places, s)

/-- The entries as numbers. -/
def ewfEntries (p : Buf) (count : ℕ) : List ℕ := (List.range count).map fun i => lostLe32 p (4 * i)

/-- The check of the bytes behind the entries of a table. -/
def ewfCheckFooter (img : EwfImage) (file : GrubFile) (footerOff : ℕ) (stored : List UInt8) :
    Except GrubError Unit :=
  if img.smart then .ok ()
  else do
    refuseIf (file.size < footerOff ∨ file.size - footerOff < 4)
      (ewfBadDevice "truncated EWF table footer")
    let checksum ← ewfRead0 file footerOff 4
    refuseIf (lostLe32 checksum 0 ≠ ewfAdler32 stored) (ewfBadDevice "bad EWF table checksum")

/-- `ewf_parse_table` of the segment, with the places it checked. -/
def ewfParseTable (img : EwfImage) (file : GrubFile) (segment sectionOff sectionSize : ℕ) :
    Except GrubError (EwfImage × List EwfPlace) := do
  refuseIf (img.volumeSeen = false) (ewfBadDevice "EWF table precedes volume metadata")
  refuseIf (sectionSize < EWF_SECTION_DESC_SIZE + EWF_TABLE_HEADER_SIZE)
    (ewfBadDevice "short EWF table section")
  let header ← ewfRead0 file (u64 (sectionOff + EWF_SECTION_DESC_SIZE)) EWF_TABLE_HEADER_SIZE
  refuseIf (lostLe32 header 20 ≠ ewfAdler32 (header.take 20))
    (ewfBadDevice "bad EWF table header checksum")
  let count := lostLe32 header 0
  refuseIf (count = 0 ∨ EWF_MAX_CHUNKS < count ∨ img.nchunks - img.indexedChunks < count)
    (ewfBadDevice "bad EWF table entry count")
  refuseIf (sectionSize - EWF_SECTION_DESC_SIZE - EWF_TABLE_HEADER_SIZE < 4 * count)
    (ewfBadDevice "truncated EWF table")
  let entriesOff := u64 (sectionOff + EWF_SECTION_DESC_SIZE + EWF_TABLE_HEADER_SIZE)
  let stored ← ewfRead0 file entriesOff (4 * count)
  ewfCheckFooter img file (u64 (entriesOff + 4 * count)) (stored.take (4 * count))
  let t : EwfTable := {
    segment, count
    baseOffset := lostLe64 header 8
    fileSize := file.size
    sectionOff
    sectionEnd := u64 (sectionOff + sectionSize)
    chunkSize := img.chunkSize
    maxStored := img.maxStored }
  let (places, s) ← ewfCheckEntries t 0 (ewfEntries stored count)
    ⟨false, count, 0, img.compCapacity⟩
  let img ← ewfAddGroup img s.compCapacity {
    firstChunk := img.indexedChunks
    count
    overflowAt := s.overflowAt
    segment
    baseOffset := t.baseOffset
    dataEnd := s.dataEnd
    entries := .v1 (ewfEntries stored count) }
  .ok (img, places)

/-! ### Tables of version 2 -/

/-- The place in an entry of version 2. -/
def Ewf2Entry.place (segment : ℕ) (e : Ewf2Entry) : EwfPlace :=
  ⟨segment, e.offset, e.size, e.compressed, e.checksummed, e.patternFill, e.offset⟩

/-- The check of the size of stored bytes. -/
def ewf2CheckSize (img : EwfImage) (e : Ewf2Entry) : Except GrubError Unit :=
  if e.compressed then
    refuseIf (e.checksummed = true ∨ e.size = 0 ∨ img.maxStored < e.size)
      (ewfBadDevice "invalid compressed EWF2 chunk")
  else
    refuseIf (e.checksummed = false ∨ e.size < 4 ∨ img.chunkSize + 4 < e.size)
      (ewfBadDevice "invalid uncompressed EWF2 chunk")

/-- A round of the loop of `ewf2_parse_table`, with the capacity it leaves. -/
def ewf2CheckEntry (img : EwfImage) (dataStart dataEnd : ℕ) (capacity : ℕ) (e : Ewf2Entry) :
    Except GrubError ℕ := do
  refuseIf (8 ≤ e.flags) (ewfBadDevice "unsupported EWF2 chunk flags")
  if e.patternFill then do
    refuseIf ((e.compressed = true ∧ e.checksummed = false) = False ∨ (e.size ≠ 0 ∧ e.size ≠ 8))
      (ewfBadDevice "invalid EWF2 pattern-fill chunk")
    .ok capacity
  else do
    ewf2CheckSize img e
    refuseIf (e.offset < dataStart ∨ dataEnd < e.offset ∨ dataEnd - e.offset < e.size)
      (ewfBadDevice "EWF2 chunk outside sector data section")
    .ok (if e.compressed then max capacity e.size else capacity)

/-- The entries of version 2. -/
def ewf2Entries (p : Buf) (count : ℕ) : List Ewf2Entry := (List.range count).map fun i =>
  ⟨lostLe64 p (16 * i), lostLe32 p (16 * i + 8), lostLe32 p (16 * i + 12)⟩

/-- `ewf2_parse_table` of the segment, with the places it checked. `integrity` is what
`ewf2_check_section_md5` gives for the section. -/
def ewf2ParseTable (img : EwfImage) (file : GrubFile) (integrity : Except GrubError Unit)
    (segment dataOffset dataSize dataStart dataEnd : ℕ) :
    Except GrubError (EwfImage × List EwfPlace) := do
  refuseIf (img.volumeSeen = false) (ewfBadDevice "EWF2 table precedes media metadata")
  refuseIf (dataSize < EWF2_TABLE_HEADER_SIZE + EWF2_TABLE_FOOTER_SIZE)
    (ewfBadDevice "short EWF2 sector table")
  integrity
  let header ← ewfRead0 file dataOffset EWF2_TABLE_HEADER_SIZE
  refuseIf (lostLe32 header 16 ≠ ewfAdler32 (header.take 16))
    (ewfBadDevice "bad EWF2 table header checksum")
  let count := lostLe32 header 8
  refuseIf (count = 0 ∨ EWF_MAX_CHUNKS < count ∨ lostLe64 header 0 ≠ img.indexedChunks
    ∨ img.nchunks - img.indexedChunks < count) (ewfBadDevice "bad EWF2 table chunk range")
  refuseIf (dataSize ≠ EWF2_TABLE_HEADER_SIZE + EWF2_TABLE_ENTRY_SIZE * count
    + EWF2_TABLE_FOOTER_SIZE) (ewfBadDevice "invalid EWF2 sector table size")
  let footerOffset := dataOffset + EWF2_TABLE_HEADER_SIZE + EWF2_TABLE_ENTRY_SIZE * count
  refuseIf (2 ^ 64 ≤ footerOffset) ⟨.outOfRange, "EWF2 table offset overflow"⟩
  let stored ← ewfRead0 file (dataOffset + EWF2_TABLE_HEADER_SIZE) (EWF2_TABLE_ENTRY_SIZE * count)
  let footer ← ewfRead0 file footerOffset EWF2_TABLE_FOOTER_SIZE
  refuseIf (lostLe32 footer 0 ≠ ewfAdler32 (stored.take (EWF2_TABLE_ENTRY_SIZE * count)))
    (ewfBadDevice "bad EWF2 table entries checksum")
  let entries := ewf2Entries stored count
  let capacity ← entries.foldlM (ewf2CheckEntry img dataStart dataEnd) img.compCapacity
  let img ← ewfAddGroup img capacity {
    firstChunk := img.indexedChunks
    count
    overflowAt := 0
    segment
    baseOffset := 0
    dataEnd := 0
    entries := .v2 entries }
  .ok (img, entries.map (Ewf2Entry.place segment))

/-! ### Scanning -/

/-- An image while its segments are scanned, in any order of the sections that change it, with the
places that the tables accepted have checked. -/
inductive EwfScanned : EwfImage → List EwfPlace → Prop
  | start (version2 : Bool) : EwfScanned (.start version2) []
  | segment {img : EwfImage} {places : List EwfPlace} (h : EwfScanned img places)
      (file : GrubFile) : EwfScanned { img with segments := img.segments ++ [file] } places
  | method {img : EwfImage} {places : List EwfPlace} (h : EwfScanned img places) (m : ℕ) :
      EwfScanned { img with compressionMethod := m } places
  | volume {img img' : EwfImage} {places : List EwfPlace} (h : EwfScanned img places)
      {file : GrubFile} {off size : ℕ} (hver : img.version2 = false)
      (hparse : ewfParseVolume img file off size = .ok img') : EwfScanned img' places
  | metadata {img img' : EwfImage} {places : List EwfPlace} (h : EwfScanned img places)
      {m : Ewf2Metadata} (hver : img.version2 = true)
      (hparse : ewf2ApplyMetadata img m = .ok img') : EwfScanned img' places
  | table {img img' : EwfImage} {places added : List EwfPlace} (h : EwfScanned img places)
      {file : GrubFile} {segment off size : ℕ} (hver : img.version2 = false)
      (hfile : img.segments[segment]? = some file)
      (hparse : ewfParseTable img file segment off size = .ok (img', added)) :
      EwfScanned img' (places ++ added)
  | table2 {img img' : EwfImage} {places added : List EwfPlace} (h : EwfScanned img places)
      {file : GrubFile} {integrity : Except GrubError Unit}
      {segment dataOffset dataSize dataStart dataEnd : ℕ} (hver : img.version2 = true)
      (hfile : img.segments[segment]? = some file)
      (hparse : ewf2ParseTable img file integrity segment dataOffset dataSize dataStart dataEnd
        = .ok (img', added)) : EwfScanned img' (places ++ added)

/-! ### Places -/

/-- Where `ewf_find_group` goes from a group. -/
def EwfGroup.side (chunk : ℕ) (g : EwfGroup) : Ordering :=
  if chunk < g.firstChunk then .lt else if g.count ≤ chunk - g.firstChunk then .gt else .eq

/-- `ewf_find_group`, with the number of the group that is cached afterwards. -/
def ewfFindGroup (groups : List EwfGroup) (cached chunk : ℕ) : Option EwfGroup × ℕ :=
  match groups[cached]?.filter fun g => g.side chunk = .eq with
  | some g => (some g, cached)
  | none =>
    match Bisect.find (fun i => groups[i]?.elim .lt (EwfGroup.side chunk)) groups.length with
    | some mid => (groups[mid]?, mid)
    | none => (none, cached)

/-- `ewf_chunk_location` in a table of version 1, from the entry with the number `index`. -/
def ewfLocate (capacity : ℕ) (g : EwfGroup) (entries : List ℕ) (index : ℕ) :
    Except GrubError EwfPlace := do
  let raw := entries.getD index 0
  let compressed := decide (index < g.overflowAt) && decide (2 ^ 31 ≤ raw)
  let current := ewfOffset (decide (g.overflowAt ≤ index)) raw
  refuseIf (2 ^ 64 ≤ g.baseOffset + current) ⟨.outOfRange, "EWF chunk offset overflow"⟩
  let phys := g.baseOffset + current
  let next := ewfOffset (decide (g.overflowAt ≤ index + 1)) (entries.getD (index + 1) 0)
  refuseIf (index + 1 < g.count ∧ next ≤ current) (ewfBadDevice "invalid EWF chunk offsets")
  let size := if index + 1 < g.count then next - current else u64 (g.dataEnd + 2 ^ 64 - phys)
  refuseIf (size = 0 ∨ capacity < size) (ewfBadDevice "invalid EWF chunk size")
  .ok ⟨g.segment, phys, u32 size, compressed, !compressed, false, 0⟩

/-- `ewf_chunk_location` in a group. -/
def EwfGroup.locate (capacity : ℕ) (g : EwfGroup) (index : ℕ) : Except GrubError EwfPlace :=
  match g.entries with
  | .v1 entries => ewfLocate capacity g entries index
  | .v2 entries => .ok ((entries.getD index ⟨0, 0, 0⟩).place g.segment)

/-- `ewf_chunk_location`, with the number of the group that is cached afterwards. -/
def ewfChunkLocation (img : EwfImage) (cached chunk : ℕ) : Except GrubError EwfPlace × ℕ :=
  match ewfFindGroup img.groups cached chunk with
  | (none, cached) => (.error (ewfBadDevice "missing EWF chunk table"), cached)
  | (some g, cached) => (g.locate img.compCapacity (chunk - g.firstChunk), cached)

/-! ### Reading -/

/-- What reading changes. The buffer for stored bytes is filled anew for every chunk. -/
structure EwfState where
  cachedChunk : ℕ
  cachedGroup : ℕ
  chunkBuf : Buf

section Read

variable (inflate bunzip2 : List UInt8 → ℕ → List UInt8 × Bool)

/-- The decompressor of the image, and what its failure is. -/
def EwfImage.decompress (img : EwfImage) : (List UInt8 → ℕ → List UInt8 × Bool) × GrubError :=
  if img.version2 = false ∨ img.compressionMethod = 1 then
    (inflate, ⟨.badCompressedData, "corrupt zlib chunk in EWF image"⟩)
  else (bunzip2, ⟨.badCompressedData, "corrupt bzip2 chunk in EWF2 image"⟩)

/-- The bytes of a chunk that the image has, `expected`. -/
def EwfImage.expected (img : EwfImage) (chunk : ℕ) : ℕ :=
  min img.chunkSize (img.totalBytes - chunk * img.chunkSize)

/-- A chunk of a repeated pattern. -/
def ewfPattern (img : EwfImage) (pattern : ℕ) : List UInt8 :=
  (List.range img.chunkSize).map fun i => UInt8.ofNat (pattern / 2 ^ (i % 8 * 8))

/-- `ewf_load_chunk` once the place is known: the error if there is one, and the buffer. -/
def ewfLoadPlace (img : EwfImage) (call : ℕ) (buf : Buf) (chunk : ℕ) (place : EwfPlace) :
    Except GrubError Unit × Buf :=
  if place.patternFill then (.ok (), buf.put 0 (ewfPattern img place.pattern))
  else
    match img.segments[place.segment]? with
    | none => (.error (ewfBadDevice "EWF segment truncated"), buf)
    | some file =>
      if place.compressed then
        match ewfPread file call place.off place.storedSize with
        | .error (e, _) => (.error e, buf)
        | .ok stored =>
          let codec := img.decompress inflate bunzip2
          let out := codec.1 (stored.take place.storedSize) img.chunkSize
          (if out.2 = false ∨ out.1.length < img.expected chunk ∨ img.chunkSize < out.1.length then
            .error codec.2 else .ok (), buf.put 0 out.1)
      else if place.checksummed = false ∨ place.storedSize < 4 then
        (.error (ewfBadDevice "short EWF data chunk"), buf)
      else
        let plainSize := place.storedSize - 4
        if plainSize < img.expected chunk ∨ img.chunkSize < plainSize then
          (.error (ewfBadDevice "bad EWF data chunk size"), buf)
        else
          match ewfPread file call place.off plainSize with
          | .error (e, left) => (.error e, left.elim buf (buf.splice 0 plainSize))
          | .ok plain =>
            let buf := buf.splice 0 plainSize plain
            match ewfPread file call (u64 (place.off + plainSize)) 4 with
            | .error (e, _) => (.error e, buf)
            | .ok checksum =>
              (if lostLe32 checksum 0 ≠ ewfAdler32 (buf.take plainSize) then
                .error (ewfBadDevice "bad EWF chunk checksum") else .ok (), buf)

/-- `ewf_load_chunk`. -/
def ewfLoadChunk (img : EwfImage) (call : ℕ) (s : EwfState) (chunk : ℕ) :
    Except GrubError Unit × EwfState :=
  if s.cachedChunk = chunk then (.ok (), s)
  else
    match ewfChunkLocation img s.cachedGroup chunk with
    | (.error e, cachedGroup) => (.error e, { s with cachedChunk := EWF_CACHE_NONE, cachedGroup })
    | (.ok place, cachedGroup) =>
      match ewfLoadPlace inflate bunzip2 img call s.chunkBuf chunk place with
      | (.error e, chunkBuf) => (.error e, ⟨EWF_CACHE_NONE, cachedGroup, chunkBuf⟩)
      | (.ok (), chunkBuf) => (.ok (), ⟨chunk, cachedGroup, chunkBuf⟩)

/-- `ewf_read`: the bytes it reads, at most those up to the end of the chunk. -/
def ewfRead (img : EwfImage) (call : ℕ) (s : EwfState) (off len : ℕ) :
    Except GrubError (List UInt8) × EwfState :=
  if img.totalBytes < off ∨ img.totalBytes - off < len then
    (.error ⟨.outOfRange, "read past end of EWF image"⟩, s)
  else
    let chunk := u32 (off / img.chunkSize)
    let inChunk := off % img.chunkSize
    let n := min (min (img.chunkSize - inChunk) len) (img.totalBytes - off)
    match ewfLoadChunk inflate bunzip2 img call s chunk with
    | (.error e, s) => (.error e, s)
    | (.ok (), s) => (.ok (History.slice s.chunkBuf inChunk n), s)

end Read

end FsRover
