import FsRover.Io.Carrier
import FsRover.Io.FfuCodec
import FsRover.Lib.Bisect
import FsRover.Lib.Guards
import FsRover.Lib.Heap

/-!
# Full flash updates

`ffu.c` exposes the first store of a full flash update as a disk. The write descriptors of the store
name, for every payload block, the disk blocks it is written to, counted from the start of the disk
or from its end. They are turned into a sorted map; the payload blocks of a compressed store are
decompressed one at a time into a cache.

## Main definitions

* `FsRover.FfuStore`, `FsRover.ffuOpenStore` : the headers up to the payload.
* `FsRover.ffuScanDescriptors` : both walks over the write descriptors.
-/

namespace FsRover

open Guards

/-- The bytes of a text. -/
def ascii (s : String) : List UInt8 := s.toList.map fun c => UInt8.ofNat c.toNat

def FFU_SECURITY_HEADER_SIZE : ℕ := 32
def FFU_IMAGE_HEADER_SIZE : ℕ := 24
def FFU_IMAGE_HEADER_SIZE_DTI : ℕ := 28
def FFU_STORE_HEADER_SIZE : ℕ := 248
def FFU_STORE_HEADER_V2_SIZE : ℕ := 14
def FFU_DTI_FIELDS : ℕ := 7
def FFU_BLOCK_DATA_ENTRY_SIZE : ℕ := 8
def FFU_DISK_LOCATION_SIZE : ℕ := 8
def FFU_COMPRESS_NONE : ℕ := 0
def FFU_COMPRESS_LZNT1 : ℕ := 2
def FFU_COMPRESS_XPRESS : ℕ := 3
def FFU_COMPRESS_XPRESS_HUFF : ℕ := 4
def FFU_DISK_BEGIN : ℕ := 0
def FFU_DISK_END : ℕ := 2
def FFU_HEADER_MAX : ℕ := 4096
def FFU_CHUNK_MAX : ℕ := 32 * 2 ^ 20
def FFU_BLOCK_MIN : ℕ := 512
def FFU_MANIFEST_MAX : ℕ := 2 ^ 20
def FFU_DTI_MAX : ℕ := 256
def FFU_DTI_BYTES_MAX : ℕ := 2 ^ 20
def FFU_STORES_MAX : ℕ := 64
def FFU_WDESC_BYTES_MAX : ℕ := 256 * 2 ^ 20
def FFU_SECTOR_SIZE_MAX : ℕ := 65536
def FFU_DISK_BYTES_MAX : ℕ := 2 ^ 52
def XCA_BLOCK_SIZE : ℕ := 64 * 2 ^ 10

def ffuTruncated : GrubError := ⟨.badDevice, "FFU image truncated"⟩

/-- `ffu_pread`. -/
def ffuPread (file : GrubFile) (call off len : ℕ) : Except GrubError Buf :=
  (file.pread call off len ffuTruncated).mapError Prod.fst

/-- `ffu_align_up`. -/
def ffuAlignUp (pos unit limit : ℕ) : Except GrubError ℕ := do
  let pad := if pos % unit ≠ 0 then unit - pos % unit else 0
  let pos ← require (grubAdd pos pad) ⟨.badDevice, "malformed FFU image"⟩
  refuseIf (limit < pos) ffuTruncated
  .ok pos

/-! ### The manifest -/

/-- `grub_strncasecmp` finds no difference. -/
def sameNoCase (a b : List UInt8) : Bool := a.map grubTolower = b.map grubTolower

/-- The digits at the head of `p`, behind those that made `v`. -/
def ffuDigits (v : ℕ) : List UInt8 → Option ℕ
  | [] => some v
  | c :: p =>
    if 0x30 ≤ c ∧ c ≤ 0x39 then
      let d := c.toNat - 0x30
      if (2 ^ 64 - 1 - d) / 10 < v then none else ffuDigits (v * 10 + d) p
    else some v

/-- `ffu_parse_u64`. -/
def ffuParseU64 (p : List UInt8) : Option ℕ :=
  match p with
  | [] => none
  | c :: _ => if 0x30 ≤ c ∧ c ≤ 0x39 then ffuDigits 0 p else none

def ffuBlank (c : UInt8) : Bool := c = 0x20 || c = 0x09

/-- `ffu_manifest_value`. -/
def ffuManifestValue (line key : List UInt8) : Option ℕ :=
  if line.length ≤ key.length ∨ sameNoCase (line.take key.length) key = false then none
  else
    match (line.drop key.length).dropWhile ffuBlank with
    | 0x3d :: value => ffuParseU64 (value.dropWhile ffuBlank)
    | _ => none

/-- The line without the blanks around it. -/
def ffuTrim (line : List UInt8) : List UInt8 :=
  (line.reverse.dropWhile fun c => c = 0x0d || ffuBlank c).reverse.dropWhile ffuBlank

/-- The loop of `ffu_read_manifest` over the lines: `MinSectorCount` and `SectorSize` of the first
`[Store]` section. -/
def ffuManifestLines (inStore : Bool) (minSectors sectorSize : ℕ) : List (List UInt8) → ℕ × ℕ
  | [] => (minSectors, sectorSize)
  | line :: lines =>
    match ffuTrim line with
    | [] => ffuManifestLines inStore minSectors sectorSize lines
    | c :: rest =>
      if c = 0x5b then
        if inStore then (minSectors, sectorSize)
        else
          ffuManifestLines (sameNoCase (rest.takeWhile (· ≠ 0x5d)) (ascii "Store"))
            minSectors sectorSize lines
      else if inStore = false then ffuManifestLines inStore minSectors sectorSize lines
      else
        match ffuManifestValue (c :: rest) (ascii "MinSectorCount") with
        | some v => ffuManifestLines inStore v sectorSize lines
        | none =>
          ffuManifestLines inStore minSectors
            ((ffuManifestValue (c :: rest) (ascii "SectorSize")).getD sectorSize) lines

/-- The lines of a text. -/
def textLines : List UInt8 → List (List UInt8)
  | [] => []
  | c :: text =>
    if c = 0x0a then [] :: textLines text
    else
      match textLines text with
      | [] => [[c]]
      | line :: lines => (c :: line) :: lines

/-- The size of the disk from a sector count and a sector size, or zero if they make no sense. -/
def ffuMinBytes (minSectors sectorSize : ℕ) : ℕ :=
  if minSectors ≠ 0 ∧ FFU_BLOCK_MIN ≤ sectorSize ∧ sectorSize ≤ FFU_SECTOR_SIZE_MAX then
    let bytes := (grubMul minSectors sectorSize).getD 0
    if FFU_DISK_BYTES_MAX < bytes then 0 else bytes
  else 0

/-- `ffu_read_manifest`: the size of the disk the manifest states, or zero. Without a manifest, or
with one that is too long, it is not called. -/
def ffuReadManifest (file : GrubFile) (off len : ℕ) : Except GrubError ℕ :=
  if len = 0 ∨ FFU_MANIFEST_MAX < len then .ok 0
  else do
    let manifest ← ffuPread file 0 off len
    let found := ffuManifestLines false 0 0 (textLines (manifest.take len))
    .ok (ffuMinBytes found.1 found.2)

/-! ### Headers -/

/-- What opening needs of the first store, and where the payload starts. -/
structure FfuStore where
  blockSize : ℕ
  compression : ℕ
  descCount : ℕ
  descLen : ℕ
  descOff : ℕ
  dataOff : ℕ
  minBytes : ℕ
  deriving DecidableEq, Repr

/-- `ffu_store_version`; the formats are `FFU_V1`, `FFU_V1_COMPRESSED` and `FFU_V2`. -/
inductive FfuVersion
  | v1 | v1Compressed | v2
  deriving DecidableEq, Repr

def ffuStoreVersion (sh : Buf) : Option FfuVersion :=
  let major := lostLe16 sh 4
  let full := lostLe16 sh 8
  if major = 1 ∧ full = 2 then some .v1
  else if major = 1 ∧ full = 3 then some .v1Compressed
  else if major = 2 ∧ full = 2 then some .v2
  else none

/-- What follows the header of the store at `pos` in each format: the compression, the number of
stores the header states, and how far to skip. -/
def ffuStoreFormat (file : GrubFile) (first : Bool) (pos : ℕ) :
    FfuVersion → Except GrubError (ℕ × ℕ × ℕ)
  | .v1 => .ok (FFU_COMPRESS_NONE, 1, FFU_STORE_HEADER_SIZE)
  | .v1Compressed => do
    let raw ← ffuPread file 0 (u64 (pos + FFU_STORE_HEADER_SIZE)) 4
    .ok (lostLe32 raw 0, 1, FFU_STORE_HEADER_SIZE + 4)
  | .v2 => do
    let sh2 ← ffuPread file 0 (u64 (pos + FFU_STORE_HEADER_SIZE)) FFU_STORE_HEADER_V2_SIZE
    refuseIf (first = true ∧ (lostLe16 sh2 0 = 0 ∨ FFU_STORES_MAX < lostLe16 sh2 0))
      ⟨.badDevice, "bad FFU store count"⟩
    .ok (FFU_COMPRESS_NONE, lostLe16 sh2 0,
      FFU_STORE_HEADER_SIZE + FFU_STORE_HEADER_V2_SIZE + 2 * lostLe16 sh2 12)

/-- One round of the loop over the stores in `ffu_open_image`: the store at `pos`, the number of
stores its header states, and where the next one starts, kept in `dataOff`. -/
def ffuStoreAt (file : GrubFile) (first : Bool) (pos : ℕ) : Except GrubError (FfuStore × ℕ) := do
  let sh ← ffuPread file 0 pos FFU_STORE_HEADER_SIZE
  let version ← require (ffuStoreVersion sh) ⟨.notImplementedYet,
    s!"unsupported FFU store format {lostLe16 sh 4}.{lostLe16 sh 8}"⟩
  let blockSize := lostLe32 sh 204
  refuseIf (blockSize < FFU_BLOCK_MIN ∨ FFU_CHUNK_MAX < blockSize ∨ blockSize % FFU_BLOCK_MIN ≠ 0)
    ⟨.badDevice, "bad FFU store block size"⟩
  let (compression, stores, skip) ← ffuStoreFormat file first pos version
  let skip ← require (grubAdd skip (lostLe32 sh 220)) ⟨.badDevice, "malformed FFU store"⟩
  let descOff := u64 (pos + skip)
  let skip ← require (grubAdd skip (lostLe32 sh 212)) ffuTruncated
  let pos ← require (grubAdd pos skip) ffuTruncated
  refuseIf (file.size < pos) ffuTruncated
  let pos ← ffuAlignUp pos blockSize file.size
  .ok ({ blockSize, compression, descCount := lostLe32 sh 208, descLen := lostLe32 sh 212, descOff,
         dataOff := pos, minBytes := 0 }, stores)

/-- The loop over the further stores: where the last one ends. -/
def ffuSkipStores (file : GrubFile) : ℕ → ℕ → Except GrubError ℕ
  | 0, pos => .ok pos
  | n + 1, pos => do
    let (store, _) ← ffuStoreAt file false pos
    ffuSkipStores file n store.dataOff

/-- The number of device targeting info records, which only image headers of one size state. -/
def ffuTargets (file : GrubFile) (hdrOff stride : ℕ) : Except GrubError ℕ :=
  if stride = FFU_IMAGE_HEADER_SIZE_DTI then do
    let raw ← ffuPread file 0 (u64 (hdrOff + FFU_IMAGE_HEADER_SIZE)) 4
    refuseIf (FFU_DTI_MAX < lostLe32 raw 0) ⟨.badDevice, "bad FFU device target info count"⟩
    .ok (lostLe32 raw 0)
  else .ok 0

/-- The loop over the device targeting info records. -/
def ffuSkipTargets (file : GrubFile) : ℕ → ℕ → Except GrubError ℕ
  | 0, pos => .ok pos
  | n + 1, pos => do
    let lens ← ffuPread file 0 pos (4 * FFU_DTI_FIELDS)
    let bytes := 4 * FFU_DTI_FIELDS
      + ((List.range FFU_DTI_FIELDS).map fun i => lostLe32 lens (4 * i)).sum
    refuseIf (FFU_DTI_BYTES_MAX < bytes) ⟨.badDevice, "bad FFU device target info"⟩
    let pos ← require (grubAdd pos bytes) ffuTruncated
    refuseIf (file.size < pos) ffuTruncated
    ffuSkipTargets file n pos

/-- The part of `ffu_open_image` up to the payload. -/
def ffuOpenStore (file : GrubFile) : Except GrubError FfuStore := do
  let shdr ← ffuPread file 0 0 FFU_SECURITY_HEADER_SIZE
  refuseIf (bytesAt shdr 4 (ascii "SignedImage ") = false) ⟨.badSignature, "not an FFU image"⟩
  let chunk := lostLe32 shdr 16 * 2 ^ 10
  refuseIf (chunk < FFU_BLOCK_MIN ∨ FFU_CHUNK_MAX < chunk) ⟨.badDevice, "bad FFU chunk size"⟩
  let pos := lostLe32 shdr 0
  refuseIf (pos < FFU_SECURITY_HEADER_SIZE ∨ FFU_HEADER_MAX < pos)
    ⟨.badDevice, "bad FFU security header size"⟩
  let pos ← require (grubAdd pos (lostLe32 shdr 24)) ffuTruncated
  let pos ← require (grubAdd pos (lostLe32 shdr 28)) ffuTruncated
  refuseIf (file.size < pos) ffuTruncated
  let hdrOff ← ffuAlignUp pos chunk file.size
  let ihdr ← ffuPread file 0 hdrOff FFU_IMAGE_HEADER_SIZE
  refuseIf (bytesAt ihdr 4 (ascii "ImageFlash  ") = false) ⟨.badSignature, "bad FFU image header"⟩
  let imgChunk := lostLe32 ihdr 20 * 2 ^ 10
  refuseIf (imgChunk < FFU_BLOCK_MIN ∨ FFU_CHUNK_MAX < imgChunk) ⟨.badDevice, "bad FFU chunk size"⟩
  let stride := lostLe32 ihdr 0
  refuseIf (stride < FFU_IMAGE_HEADER_SIZE ∨ FFU_HEADER_MAX < stride)
    ⟨.badDevice, "bad FFU image header size"⟩
  let targets ← ffuTargets file hdrOff stride
  let pos := u64 (hdrOff + stride)
  let manifestLen := lostLe32 ihdr 16
  let minBytes ← ffuReadManifest file pos manifestLen
  let pos ← require (grubAdd pos manifestLen) ffuTruncated
  refuseIf (file.size < pos) ffuTruncated
  let pos ← ffuSkipTargets file targets pos
  let pos ← ffuAlignUp pos imgChunk file.size
  let (store, stores) ← ffuStoreAt file true pos
  let dataOff ← ffuSkipStores file (stores - 1) store.dataOff
  .ok { store with dataOff, minBytes }

/-! ### Write descriptors -/

/-- `struct ffu_scan`. -/
structure FfuScan where
  nloc : ℕ
  maxStart : ℕ
  maxEnd : ℕ
  hasStart : Bool
  hasEnd : Bool
  deriving DecidableEq, Repr

/-- One disk location in `ffu_scan_descriptors`. -/
def ffuScanLocation (scan : FfuScan) (method index : ℕ) : Except GrubError FfuScan :=
  if method = FFU_DISK_BEGIN then
    .ok { scan with
      maxStart := if scan.hasStart = false ∨ scan.maxStart < index then index else scan.maxStart
      hasStart := true
      nloc := u64 (scan.nloc + 1) }
  else if method = FFU_DISK_END then
    .ok { scan with
      maxEnd := if scan.hasEnd = false ∨ scan.maxEnd < index then index else scan.maxEnd
      hasEnd := true
      nloc := u64 (scan.nloc + 1) }
  else .error ⟨.badDevice, s!"unknown FFU disk access method {method}"⟩

/-- The inner loop of `ffu_scan_descriptors`: the `nloc` locations at `p`. -/
def ffuScanLocations (buf : Buf) : ℕ → ℕ → FfuScan → Except GrubError FfuScan
  | 0, _, scan => .ok scan
  | nloc + 1, p, scan => do
    let scan ← ffuScanLocation scan (lostLe32 buf p) (lostLe32 buf (p + 4))
    ffuScanLocations buf nloc (p + FFU_DISK_LOCATION_SIZE) scan

/-- What `ffu_scan_descriptors` finds, with the payload offsets and the place it stops at. -/
structure FfuScanned where
  scan : FfuScan
  poff : List ℕ
  stop : ℕ

/-- The loop of `ffu_scan_descriptors`: the descriptors at `p`, with their payload from `payload`
on. Only a compressed store has the size of every payload block. -/
def ffuScanFrom (compressed : Bool) (buf : Buf) (len : ℕ) :
    ℕ → ℕ → ℕ → FfuScan → Except GrubError FfuScanned
  | 0, p, payload, scan => .ok ⟨scan, [payload], p⟩
  | ndesc + 1, p, payload, scan => do
    let truncated : GrubError := ⟨.badDevice, "truncated FFU write descriptor"⟩
    refuseIf (len - p < FFU_BLOCK_DATA_ENTRY_SIZE) truncated
    let nloc := lostLe32 buf p
    let p := p + FFU_BLOCK_DATA_ENTRY_SIZE
    refuseIf (compressed = true ∧ len - p < 4) truncated
    let size := if compressed then lostLe32 buf p else 0
    let p := if compressed then p + 4 else p
    refuseIf ((len - p) / FFU_DISK_LOCATION_SIZE < nloc) truncated
    let scan ← ffuScanLocations buf nloc p scan
    let rest ← ffuScanFrom compressed buf len ndesc (p + FFU_DISK_LOCATION_SIZE * nloc)
      (u64 (payload + size)) scan
    .ok { rest with poff := payload :: rest.poff }

/-- `ffu_scan_descriptors`; `room` is what the file holds from the payload on. -/
def ffuScanDescriptors (compressed : Bool) (buf : Buf) (len ndesc room : ℕ) :
    Except GrubError FfuScanned := do
  let found ← ffuScanFrom compressed buf len ndesc 0 0 ⟨0, 0, 0, false, false⟩
  refuseIf (found.stop ≠ len) ⟨.badDevice, "trailing FFU write descriptor data"⟩
  refuseIf (compressed = true ∧ room < found.poff.getD ndesc 0) ffuTruncated
  .ok found

/-- The disk block of a location, in 32 bits. -/
def ffuVblock (totalBlocks method index : ℕ) : ℕ :=
  if method = FFU_DISK_BEGIN then index else (totalBlocks + 2 ^ 32 - 1 - index) % 2 ^ 32

/-- The inner loop of `ffu_build_map`: the entries of the `nloc` locations at `p`, for payload
block `i`. -/
def ffuMapLocations (totalBlocks : ℕ) (buf : Buf) (i : ℕ) : ℕ → ℕ → List ℕ
  | 0, _ => []
  | nloc + 1, p =>
    (ffuVblock totalBlocks (lostLe32 buf p) (lostLe32 buf (p + 4)) * 2 ^ 32 + i)
      :: ffuMapLocations totalBlocks buf i nloc (p + FFU_DISK_LOCATION_SIZE)

/-- The loop of `ffu_build_map` over `ndesc` descriptors at `p`, the first of them number `i`. -/
def ffuMapFrom (compressed : Bool) (totalBlocks : ℕ) (buf : Buf) : ℕ → ℕ → ℕ → List ℕ
  | 0, _, _ => []
  | ndesc + 1, i, p =>
    let nloc := lostLe32 buf p
    let p := if compressed then p + FFU_BLOCK_DATA_ENTRY_SIZE + 4 else p + FFU_BLOCK_DATA_ENTRY_SIZE
    ffuMapLocations totalBlocks buf i nloc p
      ++ ffuMapFrom compressed totalBlocks buf ndesc (i + 1) (p + FFU_DISK_LOCATION_SIZE * nloc)

/-- `ffu_sort_map`, by `ffu_sift_down`. -/
def ffuSortMap (n : ℕ) (map : ℕ → ℕ) : ℕ → ℕ := Heap.sort id n map

/-! ### The image -/

/-- `struct ffu_image` without the cache; `xca` is what `xca_decompress` makes of a stream. -/
structure FfuImage where
  file : GrubFile
  totalBytes : ℕ
  dataOff : ℕ
  blockSize : ℕ
  totalBlocks : ℕ
  nblocks : ℕ
  map : ℕ → ℕ
  ndesc : ℕ
  compression : ℕ
  poff : ℕ → ℕ
  xca : List UInt8 → Option (List UInt8)

/-- The cache of `struct ffu_image`; `calls` counts the reads of the file. -/
structure FfuState where
  cache : Buf
  cached : ℕ
  calls : ℕ

def FFU_CACHED_NONE : ℕ := 2 ^ 32 - 1

/-- The cache after opening, with what the memory held before. -/
def FfuState.init (memory : Buf) : FfuState := ⟨memory, FFU_CACHED_NONE, 1⟩

/-- The number of blocks of the disk: what the descriptors reach, or what the manifest states. -/
def ffuTotal (scan : FfuScan) (minBytes blockSize : ℕ) : ℕ :=
  let total := (if scan.hasStart then scan.maxStart + 1 else 0)
    + if scan.hasEnd then scan.maxEnd + 1 else 0
  let need := (minBytes + blockSize - 1) / blockSize
  if minBytes ≠ 0 ∧ total < need ∧ need ≤ 0xffffffff then need else total

/-- `ffu_open_image`. -/
def ffuOpenImage (file : GrubFile) (xca : List UInt8 → Option (List UInt8)) :
    Except GrubError FfuImage := do
  let store ← ffuOpenStore file
  refuseIf (store.compression = FFU_COMPRESS_XPRESS_HUFF ∧ XCA_BLOCK_SIZE < store.blockSize)
    ⟨.notImplementedYet, s!"FFU XPRESS_HUFF blocks over {XCA_BLOCK_SIZE} bytes are not supported"⟩
  refuseIf (FFU_COMPRESS_XPRESS_HUFF < store.compression)
    ⟨.notImplementedYet, s!"unsupported FFU compression algorithm {store.compression}"⟩
  refuseIf (store.descCount = 0) ⟨.badDevice, "empty FFU store"⟩
  refuseIf (store.descLen = 0 ∨ FFU_WDESC_BYTES_MAX < store.descLen
    ∨ sub64 file.size store.descOff < store.descLen) ⟨.badDevice, "bad FFU write descriptor length"⟩
  refuseIf (store.compression = FFU_COMPRESS_NONE
    ∧ sub64 file.size store.dataOff < u64 (store.descCount * store.blockSize)) ffuTruncated
  let buf ← ffuPread file 0 store.descOff store.descLen
  let compressed := decide (store.compression ≠ FFU_COMPRESS_NONE)
  let found ← ffuScanDescriptors compressed buf store.descLen store.descCount
    (sub64 file.size store.dataOff)
  refuseIf (ffuTotal found.scan 0 store.blockSize = 0) ⟨.badDevice, "empty FFU store"⟩
  let totalBlocks := ffuTotal found.scan store.minBytes store.blockSize
  let size : GrubError := ⟨.badDevice, "bad FFU image size"⟩
  refuseIf (0xffffffff < totalBlocks) size
  let totalBytes ← require (grubMul totalBlocks store.blockSize) size
  let map := ffuMapFrom compressed totalBlocks buf store.descCount 0 0
  .ok { file, totalBytes, dataOff := store.dataOff, blockSize := store.blockSize, totalBlocks,
        nblocks := map.length, map := ffuSortMap map.length fun i => map.getD i 0,
        ndesc := store.descCount, compression := store.compression,
        poff := fun i => found.poff.getD i 0, xca }

/-! ### Reads -/

/-- `ffu_lookup`. -/
def ffuLookup (img : FfuImage) (vblock : ℕ) : Option ℕ :=
  let key := u64 ((vblock + 1) * 2 ^ 32)
  let lo := Bisect.search (fun mid => img.map mid < key) img.nblocks
  if lo = 0 ∨ img.map (lo - 1) / 2 ^ 32 ≠ vblock then none else some (img.map (lo - 1) % 2 ^ 32)

/-- The decompressor `ffu_cache_block` calls, with what it leaves in the destination. The MS-XCA one
is run to measure first, and only writes when the block comes out whole. -/
def ffuDecode (img : FfuImage) (src : List UInt8) : FfuWritten :=
  if img.compression = FFU_COMPRESS_LZNT1 then ffuLznt1Decompress src img.blockSize
  else if img.compression = FFU_COMPRESS_XPRESS_HUFF then
    match img.xca src with
    | none => .error []
    | some out => if out.length = img.blockSize then .ok out else .error []
  else ffuXpressDecompress src img.blockSize

/-- `ffu_cache_block`. A block that does not decompress is written over the one in the cache, which
keeps its number. -/
def ffuCacheBlock (img : FfuImage) (s : FfuState) (didx : ℕ) : Except GrubError Unit × FfuState :=
  let off := img.poff didx
  let stop := img.poff (didx + 1)
  if s.cached = didx then (.ok (), s)
  else if stop ≤ off ∨ 2 * img.blockSize < stop - off then
    (.error ⟨.badDevice, s!"bad FFU payload block {didx} size"⟩, s)
  else
    match ffuPread img.file s.calls (u64 (img.dataOff + off)) (stop - off) with
    | .error e => (.error e, { s with calls := s.calls + 1 })
    | .ok src =>
      let written := ffuDecode img (src.take (stop - off))
      let s := { s with cache := s.cache.write written.bytes, calls := s.calls + 1 }
      let corrupt : GrubError := ⟨.badCompressedData, s!"corrupt FFU payload block {didx}"⟩
      match written with
      | .error _ => (.error corrupt, s)
      | .ok out =>
        if out.length ≠ img.blockSize then (.error corrupt, s)
        else (.ok (), { s with cached := didx })

/-- `ffu_read`. -/
def ffuRead (img : FfuImage) (s : FfuState) (off len : ℕ) :
    Except GrubError (List UInt8) × FfuState :=
  if img.totalBytes < off ∨ img.totalBytes - off < len then
    (.error ⟨.outOfRange, "read past end of FFU image"⟩, s)
  else if len = 0 then (.ok [], s)
  else
    let vblock := off / img.blockSize
    let offInBlock := off % img.blockSize
    let len := min len (img.blockSize - offInBlock)
    match ffuLookup img (vblock % 2 ^ 32) with
    | none => (.ok (List.replicate len 0), s)
    | some didx =>
      if img.compression = FFU_COMPRESS_NONE then
        match ffuPread img.file s.calls
            (u64 (img.dataOff + didx * img.blockSize + offInBlock)) len with
        | .error e => (.error e, { s with calls := s.calls + 1 })
        | .ok b => (.ok (b.take len), { s with calls := s.calls + 1 })
      else
        match ffuCacheBlock img s didx with
        | (.error e, s) => (.error e, s)
        | (.ok (), s) => (.ok ((s.cache.from offInBlock).take len), s)

/-- `grub_ffu_read`. -/
def grubFfuRead (img : FfuImage) (s : FfuState) (off len : ℕ) :
    Except GrubError (List UInt8) × FfuState :=
  filterRead ⟨.fileReadError, "FFU read made no progress"⟩ (ffuRead img) s off len

end FsRover
