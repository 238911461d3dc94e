import Mathlib.Algebra.Group.Int.Defs
import Mathlib.Order.Basic
import FsRover.Io.Carrier
import FsRover.Lib.Bisect
import FsRover.Lib.Guards
import FsRover.Lib.Heap
import FsRover.Lib.Overlay

/-!
# The NTFS volume of a Ghost image

`gho.c`: the stored stream is a chain of compressed blocks. Behind them lies a sequence of packets
with the MFT records of the volume, each followed by the runs of its attributes. The runs are
recorded as extents, in fragments, and the extents are sorted and made disjoint at the end.

`gho_decode_block` is a parameter. So is the block index: it has the blocks one after the other, as
`gho_build_ntfs_block_index` leaves them. Memory that runs out is left out.

## Main definitions

* `FsRover.ghoNtfsPread`, `FsRover.ghoReadNtfs` : reads of the stream and of the volume.
* `FsRover.ghoNtfsMapAttribute` : the extents of one attribute.
* `FsRover.ghoRecordExtents`, `FsRover.ghoBuildNtfsExtents` : the extents of all records.
* `FsRover.GhoExact` : the table that the volume is read with holds what was stored last.
-/

namespace FsRover

open Guards

def GHO_NTFS_FRAGMENT : ℕ := 32 * 2 ^ 10
def GHO_NTFS_RECORD_MAX : ℕ := 64 * 2 ^ 10
def GHO_MAX_BLOCKS : ℕ := 4 * 2 ^ 20
def GHO_MAX_EXTENTS : ℕ := 4 * 2 ^ 20
def GHO_CACHE_NONE : ℕ := 2 ^ 32 - 1

/-- `struct gho_ntfs_block`. -/
structure GhoNtfsBlock where
  phys : ℕ
  logical : ℕ
  len : ℕ
  deriving DecidableEq, Repr, Inhabited

/-- `struct gho_ntfs_extent`. -/
structure GhoNtfsExtent where
  disk : ℕ
  stream : ℕ
  len : ℕ
  deriving DecidableEq, Repr, Inhabited

/-- `gho_decode_block`: the length and the bytes that the block at a place decodes to, the calls that
fail, and what the destination holds after one that did. -/
structure GhoDecodeBlock where
  outlen : ℕ → ℕ
  out : ℕ → Buf
  fault : ℕ → ℕ → Option GrubError
  torn : ℕ → ℕ → Buf → Buf

/-- The blocks follow each other from `lo` to `hi`. -/
def GhoBlocksFrom (lo hi : ℕ) : List GhoNtfsBlock → Prop
  | [] => lo = hi
  | b :: bs => b.logical = lo ∧ 0 < b.len ∧ GhoBlocksFrom (lo + b.len) hi bs

/-- `struct gho_image` with its block index. A block decodes to 64 KiB at most, so the stream is far
shorter than the bound. -/
structure GhoImage where
  dec : GhoDecodeBlock
  blocks : List GhoNtfsBlock
  streamSize : ℕ
  contiguous : GhoBlocksFrom 0 streamSize blocks
  streamSize_lt : streamSize < 2 ^ 63
  count_le : blocks.length ≤ GHO_MAX_BLOCKS

/-- The cache of `struct gho_image`; `calls` counts the blocks decoded. -/
structure GhoCache where
  cachedNr : ℕ
  blkBuf : Buf
  calls : ℕ

variable (img : GhoImage)

/-! ### Reading the stream -/

/-- `gho_load_ntfs_block`. -/
def ghoLoadNtfsBlock (s : GhoCache) (nr : ℕ) : Except GrubError Unit × GhoCache :=
  if s.cachedNr = nr then (.ok (), s)
  else
    let block := img.blocks.getD nr default
    match img.dec.fault s.calls block.phys with
    | some e =>
      (.error e, ⟨GHO_CACHE_NONE, img.dec.torn s.calls block.phys s.blkBuf, s.calls + 1⟩)
    | none =>
      let blkBuf := s.blkBuf.splice 0 (img.dec.outlen block.phys) (img.dec.out block.phys)
      if img.dec.outlen block.phys ≠ block.len then
        (.error ⟨.badCompressedData, "Ghost NTFS block size changed"⟩,
          ⟨GHO_CACHE_NONE, blkBuf, s.calls + 1⟩)
      else (.ok (), ⟨nr, blkBuf, s.calls + 1⟩)

/-- The copy loop of `gho_ntfs_pread`, from block number `nr` on. -/
def ghoNtfsCopy : List GhoNtfsBlock → ℕ → GhoCache → ℕ → ℕ → Except GrubError (List UInt8) × GhoCache
  | [], _, s, _, len =>
    if len = 0 then (.ok [], s)
    else (.error ⟨.badDevice, "Ghost NTFS stream truncated"⟩, s)
  | block :: blocks, nr, s, off, len =>
    if len = 0 then (.ok [], s)
    else if off < block.logical ∨ block.logical + block.len ≤ off then
      (.error ⟨.badDevice, "gap in Ghost NTFS stream"⟩, s)
    else
      match ghoLoadNtfsBlock img s nr with
      | (.error e, s) => (.error e, s)
      | (.ok (), s) =>
        let n := min len (block.len - (off - block.logical))
        match ghoNtfsCopy blocks (nr + 1) s (off + n) (len - n) with
        | (.error e, s') => (.error e, s')
        | (.ok bs, s') => (.ok (History.slice s.blkBuf (off - block.logical) n ++ bs), s')

/-- `gho_ntfs_pread`. -/
def ghoNtfsPread (s : GhoCache) (off len : ℕ) : Except GrubError (List UInt8) × GhoCache :=
  if img.streamSize < off ∨ img.streamSize - off < len then
    (.error ⟨.badDevice, "Ghost NTFS stream truncated"⟩, s)
  else
    let lo := Bisect.search (fun i => decide ((img.blocks.getD i default).logical ≤ off))
      img.blocks.length
    if lo = 0 ∧ len ≠ 0 then (.error ⟨.badDevice, "bad Ghost NTFS stream offset"⟩, s)
    else ghoNtfsCopy img (img.blocks.drop (lo - 1)) (lo - 1) s off len

/-! ### Reading the volume -/

/-- The extent of the table that `gho_read_ntfs` finds, and the number behind it. -/
def ghoFindExtent (table : List GhoNtfsExtent) (off : ℕ) : Option GhoNtfsExtent × ℕ :=
  let lo := Bisect.search (fun i => decide ((table.getD i default).disk ≤ off)) table.length
  let e := table.getD (lo - 1) default
  (if lo ≠ 0 ∧ off < e.disk + e.len then some e else none, lo)

/-- `gho_read_ntfs`. -/
def ghoReadNtfs (table : List GhoNtfsExtent) (s : GhoCache) (off len : ℕ) :
    Except GrubError (List UInt8) × GhoCache :=
  match ghoFindExtent table off with
  | (some extent, _) =>
    let inExtent := off - extent.disk
    ghoNtfsPread img s (extent.stream + inExtent) (min len (extent.len - inExtent))
  | (none, lo) =>
    let n := if lo < table.length then min len ((table.getD lo default).disk - off) else len
    (.ok (List.replicate n 0), s)

/-! ### Packets -/

/-- The state of `gho_build_ntfs_extents`. -/
structure GhoBuild where
  cache : GhoCache
  pos : ℕ
  clusterSize : ℕ
  totalBytes : ℕ
  extents : List GhoNtfsExtent

/-- A read of the stream while the extents are built, into a buffer. -/
def ghoRead (b : GhoBuild) (off len : ℕ) : Except GrubError (Buf × GhoBuild) :=
  match ghoNtfsPread img b.cache off len with
  | (.error e, _) => .error e
  | (.ok bs, cache) => .ok (fun i => bs.getD i 0, { b with cache })

/-- `gho_ntfs_id_packet`. -/
def ghoNtfsIdPacket (p : Buf) : Option (ℕ × ℕ) :=
  if byteAt p 0 ≠ 0x0e ∨ byteAt p 15 ≠ 0x0f then none
  else if ¬ zerosAt p 3 4 then none
  else some (lostLe16 p 1, lostLe64 p 7)

/-- `gho_ntfs_read_id`. -/
def ghoNtfsReadId (b : GhoBuild) : Except GrubError ((ℕ × ℕ) × GhoBuild) := do
  let (packet, b) ← ghoRead img b b.pos 16
  let id ← require (ghoNtfsIdPacket packet) ⟨.badCompressedData, "bad Ghost NTFS id packet"⟩
  .ok (id, { b with pos := b.pos + 16 })

/-- `gho_ntfs_read_data_packet`. -/
def ghoNtfsReadDataPacket (b : GhoBuild) : Except GrubError (ℕ × GhoBuild) := do
  let (packet, b) ← ghoRead img b b.pos 10
  refuseIf (byteAt packet 0 ≠ 0x0f ∨ byteAt packet 9 ≠ 0x0e ∨ ¬ zerosAt packet 5 4)
    ⟨.badCompressedData, "bad Ghost NTFS data packet"⟩
  .ok (lostLe32 packet 1, { b with pos := b.pos + 10 })

/-- `gho_ntfs_skip_crc`. -/
def ghoNtfsSkipCrc (b : GhoBuild) : Except GrubError GhoBuild :=
  if img.streamSize ≤ b.pos then .ok b
  else do
    let (first, b) ← ghoRead img b b.pos 1
    if byteAt first 0 ≠ 0x0a then .ok b
    else if img.streamSize - b.pos < 10 then
      .error ⟨.badCompressedData, "truncated Ghost NTFS checksum"⟩
    else do
      let (packet, b) ← ghoRead img b b.pos 10
      if byteAt packet 9 ≠ 0x0b then .ok b else .ok { b with pos := b.pos + 10 }

/-- `gho_ntfs_boundary`: a packet starts at `pos`, behind a checksum or not. Reads that fail do not
count. -/
def ghoNtfsBoundary (s : GhoCache) (pos : ℕ) : Bool × GhoCache :=
  if pos = img.streamSize then (true, s)
  else
    let (pos, s) :=
      if 10 ≤ sub64 img.streamSize pos then
        match ghoNtfsPread img s pos 10 with
        | (.ok bs, s) => (if bs.getD 0 0 = 0x0a ∧ bs.getD 9 0 = 0x0b then pos + 10 else pos, s)
        | (.error _, s) => (pos, s)
      else (pos, s)
    if sub64 img.streamSize pos < 16 then (false, s)
    else
      match ghoNtfsPread img s pos 16 with
      | (.ok bs, s) => ((ghoNtfsIdPacket fun i => bs.getD i 0).isSome, s)
      | (.error _, s) => (false, s)

/-- The loop of `gho_ntfs_infer_cluster_size` over the candidates. -/
def ghoNtfsInferLoop (pos clusters : ℕ) :
    List ℕ → ℕ → GhoCache → Except GrubError (ℕ × GhoCache)
  | [], found, s => .ok (found, s)
  | candidate :: candidates, found, s =>
    if (2 ^ 64 - 1) / candidate < clusters then ghoNtfsInferLoop pos clusters candidates found s
    else if sub64 img.streamSize pos < clusters * candidate then
      ghoNtfsInferLoop pos clusters candidates found s
    else
      match ghoNtfsBoundary img s (pos + clusters * candidate) with
      | (false, s) => ghoNtfsInferLoop pos clusters candidates found s
      | (true, s) =>
        if found ≠ 0 then .error ⟨.badCompressedData, "ambiguous Ghost NTFS cluster size"⟩
        else ghoNtfsInferLoop pos clusters candidates candidate s

/-- `gho_ntfs_infer_cluster_size`. -/
def ghoNtfsInferClusterSize (b : GhoBuild) (clusters : ℕ) : Except GrubError GhoBuild := do
  let (found, cache) ← ghoNtfsInferLoop img b.pos clusters
    [512, 1024, 2048, 4096, 8192, 16384, 32768, 65536] 0 b.cache
  refuseIf (found = 0) ⟨.badCompressedData, "cannot determine Ghost NTFS cluster size"⟩
  .ok { b with cache, clusterSize := found }

/-- `gho_ntfs_check_boot`. -/
def ghoNtfsCheckBoot (b : GhoBuild) : Except GrubError GhoBuild := do
  let (boot, b) ← ghoRead img b b.pos 512
  refuseIf (¬ bytesAt boot 3 [0x4e, 0x54, 0x46, 0x53, 0x20, 0x20, 0x20, 0x20])  -- "NTFS    "
    ⟨.badFs, "bad NTFS boot sector in Ghost image"⟩
  let bytesPerSector := lostLe16 boot 0x0b
  refuseIf (bytesPerSector < 512 ∨ 4096 < bytesPerSector
      ∨ bytesPerSector &&& (bytesPerSector - 1) ≠ 0 ∨ byteAt boot 0x0d = 0)
    ⟨.badFs, "bad NTFS geometry in Ghost image"⟩
  refuseIf (bytesPerSector * byteAt boot 0x0d ≠ b.clusterSize)
    ⟨.badFs, "Ghost NTFS cluster size mismatch"⟩
  let sectors := lostLe64 boot 0x28
  refuseIf (sectors = 0 ∨ (2 ^ 64 - 1) / bytesPerSector < sectors)
    ⟨.badFs, "bad NTFS size in Ghost image"⟩
  .ok { b with totalBytes := sectors * bytesPerSector }

/-- `gho_add_ntfs_extent`; the array doubles from 4096 entries up to its limit. -/
def ghoAddNtfsExtent (b : GhoBuild) (disk stream len : ℕ) : Except GrubError GhoBuild := do
  refuseIf (b.extents.length = GHO_MAX_EXTENTS) ⟨.outOfRange, "too many Ghost NTFS extents"⟩
  .ok { b with extents := b.extents ++ [⟨disk, stream, len⟩] }

/-! ### Attributes -/

/-- The fragments of a run: `left` bytes from `disk` on. The fuel is the number of fragments. -/
def ghoNtfsFragments : ℕ → GhoBuild → ℕ → ℕ → Except GrubError GhoBuild
  | 0, b, _, _ => .ok b
  | fuel + 1, b, disk, left =>
    if left = 0 then .ok b
    else do
      let take := min left GHO_NTFS_FRAGMENT
      let b ← ghoAddNtfsExtent b disk b.pos take
      let b ← if disk = 0 ∧ b.totalBytes = 0 then ghoNtfsCheckBoot img b else .ok b
      let b ← ghoNtfsSkipCrc img { b with pos := b.pos + take }
      ghoNtfsFragments fuel b (disk + take) (left - take)

/-- A little endian field of `size` bytes. -/
def ghoLe (p : Buf) (i : ℕ) : ℕ → ℕ
  | 0 => 0
  | size + 1 => byteAt p i + 2 ^ 8 * ghoLe p (i + 1) size

/-- `gho_ntfs_signed`. -/
def ghoNtfsSigned (p : Buf) (i size : ℕ) : ℤ :=
  (ghoLe p i size : ℤ).bmod (2 ^ (8 * size))

/-- The stored part of a run of `clusters` clusters at `lcn`. -/
def ghoNtfsMapRun (b : GhoBuild) (lcn : ℤ) (clusters : ℕ) : Except GrubError GhoBuild := do
  refuseIf (lcn < 0 ∨ clusters = 0) ⟨.badFs, "bad NTFS run in Ghost image"⟩
  let (stored, b) ← ghoNtfsReadDataPacket img b
  refuseIf (stored ≠ clusters) ⟨.badCompressedData, "Ghost NTFS run length mismatch"⟩
  let b ← if b.clusterSize = 0 then ghoNtfsInferClusterSize img b clusters else .ok b
  refuseIf ((2 ^ 64 - 1) / b.clusterSize < clusters) ⟨.outOfRange, "Ghost NTFS run too large"⟩
  let bytes := clusters * b.clusterSize
  refuseIf (sub64 img.streamSize b.pos < bytes ∨ (2 ^ 64 - 1) / b.clusterSize < lcn.toNat)
    ⟨.badCompressedData, "truncated Ghost NTFS run"⟩
  let diskBase := lcn.toNat * b.clusterSize
  refuseIf (2 ^ 64 - 1 - bytes < diskBase) ⟨.outOfRange, "Ghost NTFS run too large"⟩
  ghoNtfsFragments img (bytes / GHO_NTFS_FRAGMENT + 1) b diskBase bytes

/-- The run loop of `gho_ntfs_map_attribute`. A run takes at least two bytes, so the length of the
attribute bounds the rounds. -/
def ghoNtfsRuns (record : Buf) (endAt : ℕ) :
    ℕ → GhoBuild → ℕ → ℤ → ℕ → Except GrubError GhoBuild
  | 0, b, _, _, _ => .ok b
  | fuel + 1, b, run, lcn, runIndex =>
    if endAt ≤ run ∨ byteAt record run = 0 then .ok b
    else do
      let lenSize := byteAt record run % 16
      let offSize := byteAt record run / 16
      refuseIf (lenSize = 0 ∨ 8 < lenSize ∨ 8 < offSize ∨ endAt < run + 1 + lenSize + offSize)
        ⟨.badFs, "bad NTFS runlist in Ghost image"⟩
      let clusters := ghoLe record (run + 1) lenSize
      let delta := if offSize ≠ 0 then ghoNtfsSigned record (run + 1 + lenSize) offSize else 0
      refuseIf (lcn + delta < -2 ^ 63 ∨ 2 ^ 63 ≤ lcn + delta) ⟨.outOfRange, "NTFS run overflow"⟩
      let ((id, value), b) ← ghoNtfsReadId img b
      refuseIf (id ≠ 0x0002 ∨ value ≠ runIndex)
        ⟨.badCompressedData, "bad Ghost NTFS run packet"⟩
      let b ← if offSize = 0 then .ok b else ghoNtfsMapRun img b (lcn + delta) clusters
      ghoNtfsRuns record endAt fuel b (run + 1 + lenSize + offSize) (lcn + delta) (runIndex + 1)

/-- `gho_ntfs_map_attribute`. -/
def ghoNtfsMapAttribute (record : Buf) (attr : ℕ) (b : GhoBuild) : Except GrubError GhoBuild := do
  let attrLen := lostLe32 record (attr + 4)
  let run := attr + lostLe16 record (attr + 0x20)
  let ((id, _), b) ← ghoNtfsReadId img b
  if id = 0x8040 then ghoNtfsSkipCrc img b
  else do
    refuseIf (id ≠ 0x8020 ∨ attr + attrLen ≤ run)
      ⟨.badCompressedData, "bad Ghost NTFS attribute packet"⟩
    ghoNtfsRuns img record (attr + attrLen) attrLen b run 0 0

/-! ### Records -/

/-- The replacement of one sector end of a record. -/
def ghoNtfsFixupSector (usa sectorSize marker : ℕ) (record : Buf) (i : ℕ) :
    Except GrubError Buf := do
  let at_ := i * sectorSize - 2
  let from_ := usa + i * 2
  if lostLe16 record at_ = lostLe16 record from_ then .ok record
  else do
    refuseIf (lostLe16 record at_ ≠ marker) ⟨.badFs, "bad NTFS fixup in Ghost image"⟩
    let record := record.put at_ [record from_]
    .ok (record.put (at_ + 1) [record (from_ + 1)])

/-- `gho_ntfs_fixup`. -/
def ghoNtfsFixup (record : Buf) (size : ℕ) : Except GrubError Buf :=
  if size < 0x30 ∨ ¬ bytesAt record 0 [0x46, 0x49, 0x4c, 0x45] then .ok record  -- "FILE"
  else do
    let usa := lostLe16 record 4
    let count := lostLe16 record 6
    refuseIf (count < 2 ∨ size < usa ∨ size - usa < count * 2 ∨ size % (count - 1) ≠ 0)
      ⟨.badFs, "bad NTFS fixup in Ghost image"⟩
    (List.range' 1 (count - 1)).foldlM
      (ghoNtfsFixupSector usa (size / (count - 1)) (lostLe16 record usa)) record

/-- The attribute loop of a record with `used` bytes. An attribute has at least 16, so `used` bounds
the rounds. -/
def ghoNtfsAttributes (record : Buf) (used : ℕ) : ℕ → GhoBuild → ℕ → Except GrubError GhoBuild
  | 0, b, _ => .ok b
  | fuel + 1, b, attr =>
    if used < attr + 16 ∨ lostLe32 record attr = 0xffffffff then .ok b
    else do
      let attrLen := lostLe32 record (attr + 4)
      refuseIf (attrLen < 16 ∨ used - attr < attrLen)
        ⟨.badFs, "bad NTFS attribute in Ghost image"⟩
      refuseIf (byteAt record (attr + 8) ≠ 0 ∧ attrLen < 0x40)
        ⟨.badFs, "short NTFS runlist in Ghost image"⟩
      let b ← if byteAt record (attr + 8) ≠ 0 then ghoNtfsMapAttribute img record attr b else .ok b
      ghoNtfsAttributes record used fuel b (attr + attrLen)

/-- A record behind its id packet. -/
def ghoNtfsRecord (id : ℕ) (b : GhoBuild) : Except GrubError GhoBuild := do
  refuseIf (id ≠ 0x8004 ∧ id ≠ 0x8008 ∧ id ≠ 0x8010 ∧ id ≠ 0x8080)
    ⟨.badCompressedData,
      s!"unsupported Ghost NTFS record 0x{String.ofList (Nat.toDigits 16 id)}"⟩
  let (recordSize, b) ← ghoNtfsReadDataPacket img { b with pos := b.pos + 16 }
  refuseIf (recordSize < 0x30 ∨ GHO_NTFS_RECORD_MAX < recordSize
      ∨ sub64 img.streamSize b.pos < recordSize)
    ⟨.badCompressedData, "bad Ghost NTFS record size"⟩
  let (record, b) ← ghoRead img b b.pos recordSize
  let b : GhoBuild := { b with pos := b.pos + recordSize }
  let b ←
    if (id = 0x8004 ∨ id = 0x8080) ∧ bytesAt record 0 [0x46, 0x49, 0x4c, 0x45] then do
      let record ← ghoNtfsFixup record recordSize
      let used := min (lostLe32 record 0x18) recordSize
      ghoNtfsAttributes img record used used b (lostLe16 record 0x14)
    else .ok b
  ghoNtfsSkipCrc img b

/-- The record loop of `gho_build_ntfs_extents`; it counts the records. A record takes more than one
byte of the stream, so its size bounds the rounds. -/
def ghoNtfsRecords : ℕ → GhoBuild → ℕ → Except GrubError (ℕ × GhoBuild)
  | 0, b, records => .ok (records, b)
  | fuel + 1, b, records =>
    if sub64 img.streamSize b.pos < 16 then .ok (records, b)
    else do
      let (packet, b) ← ghoRead img b b.pos 16
      match ghoNtfsIdPacket packet with
      | none => .ok (records, b)
      | some (id, _) => do
        let b ← ghoNtfsRecord img id b
        ghoNtfsRecords fuel b (records + 1)

/-- The part of `gho_build_ntfs_extents` that records the extents. -/
def ghoRecordExtents (cache : GhoCache) : Except GrubError GhoBuild := do
  let (records, b) ← ghoNtfsRecords img (img.streamSize + 1) ⟨cache, 0, 0, 0, []⟩ 0
  refuseIf (records = 0 ∨ b.extents.length = 0 ∨ b.totalBytes = 0)
    ⟨.badCompressedData, "incomplete Ghost NTFS stream"⟩
  .ok b

/-! ### The table -/

/-- The order of `gho_ntfs_extent_before`: by disk offset, then the extent stored later first. -/
abbrev GhoNtfsExtent.rank : GhoNtfsExtent → ℕ ×ₗ ℕᵒᵈ :=
  Overlay.rank GhoNtfsExtent.disk GhoNtfsExtent.stream

/-- `gho_ntfs_sort_extents`: heapsort. -/
def ghoNtfsSortExtents (ext : List GhoNtfsExtent) : List GhoNtfsExtent :=
  (List.range ext.length).map
    (Heap.sort GhoNtfsExtent.rank ext.length fun i => ext.getD i default)

/-- The extent without its first `skip` bytes. -/
def GhoNtfsExtent.cut (e : GhoNtfsExtent) (skip : ℕ) : GhoNtfsExtent :=
  ⟨e.disk + skip, e.stream + skip, e.len - skip⟩

/-- `gho_ntfs_drop_overlaps`. -/
def ghoNtfsDropOverlaps (ext : List GhoNtfsExtent) : List GhoNtfsExtent :=
  Overlay.trim GhoNtfsExtent.disk GhoNtfsExtent.len .cut 0 ext

/-- `gho_build_ntfs_extents`, which sorts what was recorded and makes it disjoint. -/
def ghoBuildNtfsExtents (cache : GhoCache) : Except GrubError GhoBuild := do
  let b ← ghoRecordExtents img cache
  .ok { b with extents := ghoNtfsDropOverlaps (ghoNtfsSortExtents b.extents) }

/-! ### What a table should hold -/

/-- The place in the stream of byte `x` of the volume, as the extent has it. -/
def GhoNtfsExtent.at (e : GhoNtfsExtent) (x : ℕ) : ℕ := e.stream + (x - e.disk)

/-- The byte at `x` of the stream. -/
def ghoStreamByte (x : ℕ) : Option UInt8 :=
  (Overlay.find GhoNtfsBlock.logical GhoNtfsBlock.len img.blocks x).map fun b =>
    img.dec.out b.phys (x - b.logical)

/-- The byte at `x` of the volume: that of the stream where an extent covers it, or zero. -/
def ghoVolumeByte (table : List GhoNtfsExtent) (x : ℕ) : Option UInt8 :=
  match Overlay.find GhoNtfsExtent.disk GhoNtfsExtent.len table x with
  | some e => ghoStreamByte img (e.at x)
  | none => some 0

/-- The buffer holds the block that the cache says. -/
def GhoCached (s : GhoCache) : Prop :=
  ∀ block, img.blocks[s.cachedNr]? = some block →
    img.dec.outlen block.phys = block.len ∧ ∀ i < block.len, s.blkBuf i = img.dec.out block.phys i

/-- No block fails to decode, and each has the length that the index has for it. -/
def GhoSound : Prop :=
  (∀ call phys, img.dec.fault call phys = none)
    ∧ ∀ block ∈ img.blocks, img.dec.outlen block.phys = block.len

/-- A read keeps the cache right, returns bytes of the volume, at least one if any are asked for, and
fails only if the stream cannot be decoded. -/
def GhoReadsExact (table : List GhoNtfsExtent) : Prop :=
  ∀ s, GhoCached img s → ∀ off len,
    GhoCached img (ghoReadNtfs img table s off len).2
      ∧ (∀ bs, (ghoReadNtfs img table s off len).1 = .ok bs →
        bs.length ≤ len ∧ (0 < len → 0 < bs.length)
          ∧ History.Agrees (fun x byte => ghoVolumeByte img table x = some byte) off bs)
      ∧ (GhoSound img → ∃ bs, (ghoReadNtfs img table s off len).1 = .ok bs)

/-- The table made of the recorded extents is sorted and disjoint, covers what they cover, has
everywhere the copy that lies furthest on in the stream, and is what reads return. -/
def GhoExact (ext : List GhoNtfsExtent) : Prop :=
  let table := ghoNtfsDropOverlaps (ghoNtfsSortExtents ext)
  (∃ hi, Extents.Ascending GhoNtfsExtent.disk GhoNtfsExtent.len 0 hi table)
    ∧ (∀ x, (∃ e ∈ table, Extents.Covers GhoNtfsExtent.disk GhoNtfsExtent.len e x)
      ↔ ∃ e ∈ ext, Extents.Covers GhoNtfsExtent.disk GhoNtfsExtent.len e x)
    ∧ (∀ x p, (Overlay.find GhoNtfsExtent.disk GhoNtfsExtent.len table x).map (GhoNtfsExtent.at · x)
        = some p ↔ Overlay.Latest GhoNtfsExtent.disk GhoNtfsExtent.len GhoNtfsExtent.stream
          GhoNtfsExtent.at ext x p)
    ∧ GhoReadsExact img table

end FsRover
