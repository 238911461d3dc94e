import FsRover.Io.Carrier
import FsRover.Lib.Crc32
import FsRover.Lib.Guards
import FsRover.Lib.Rank

/-!
# Partclone images

`partclone.c` reads images of the formats 0001 and 0002: a bitmap of the used blocks, then the used
blocks in order, with a checksum after every strip of them. The checksum of a strip starts anew, or
goes on from the strip before.

XXH64 is the digest of all bytes fed since the reset, and stands as a parameter.

## Main definitions

* `FsRover.PartcloneImage`, `FsRover.partcloneOpenImage` : the geometry, and opening.
* `FsRover.PartcloneState` : which strips were verified, and the running checksum.
-/

namespace FsRover

open Guards

def PARTCLONE_MAGIC : List UInt8 :=
  [0x70, 0x61, 0x72, 0x74, 0x63, 0x6c, 0x6f, 0x6e, 0x65, 0x2d, 0x69, 0x6d, 0x61, 0x67, 0x65]
def PARTCLONE_BITMAP_MAGIC : List UInt8 := [0x42, 0x69, 0x54, 0x6d, 0x41, 0x67, 0x49, 0x63]
def PARTCLONE_BITMAP_MAGIC_SIZE : ℕ := 8
def PARTCLONE_VERSION_OFFSET : ℕ := 30
def PARTCLONE_HEADER_V1_SIZE : ℕ := 4160
def PARTCLONE_HEADER_V2_SIZE : ℕ := 110
def PARTCLONE_HEADER_V2_CRC_OFFSET : ℕ := 106
def PARTCLONE_FEATURE_V2_SIZE : ℕ := 18
def PARTCLONE_ENDIAN_LITTLE : ℕ := 0xc0de
def PARTCLONE_BITMAP_BIT : ℕ := 1
def PARTCLONE_BLOCK_SIZE_MAX : ℕ := 64 * 2 ^ 20
def PARTCLONE_BITMAP_SIZE_MAX : ℕ := 256 * 2 ^ 20
def PARTCLONE_RANK_BLOCKS : ℕ := 4096
def PARTCLONE_BITMAP_V1_BUFFER_SIZE : ℕ := 16 * 2 ^ 10
def PARTCLONE_VERIFY_BUFFER_SIZE : ℕ := 64 * 2 ^ 10

/-- `version`. -/
inductive PartcloneVersion
  | v1 | v2
  deriving DecidableEq, Repr

/-- `checksum_mode`: `PARTCLONE_CHECKSUM_NONE` (0x00), `_CRC32` (0x20), `_XXH64` (0x30) and `_V1`.
-/
inductive PartcloneChecksum
  | none | crc32 | xxh64 | v1
  deriving DecidableEq, Repr

/-- `struct partclone_image` without what reading changes. -/
structure PartcloneImage where
  carrier : GrubFile
  version : PartcloneVersion
  totalBytes : ℕ
  totalBlocks : ℕ
  usedBlocks : ℕ
  blockSize : ℕ
  bitmap : Buf
  rank : ℕ → ℕ
  dataOffset : ℕ
  checksumMode : PartcloneChecksum
  checksumSize : ℕ
  blocksPerChecksum : ℕ
  reseedChecksum : Bool
  v1ChecksumStride : ℕ
  stripCount : ℕ

/-- `partclone_pread`. -/
def partclonePread (carrier : GrubFile) (call off len : ℕ) : Except GrubError Buf :=
  (carrier.pread call off len ⟨.badDevice, "partclone image truncated"⟩).mapError Prod.fst

/-! ### Checksums -/

/-- `partclone_crc_table`, as `partclone_crc_init` fills it. -/
def partcloneCrcTable (i : UInt32) : UInt32 := Crc32.shift 8 i

/-- One round of `partclone_crc32`. -/
def partcloneCrcByte (crc : UInt32) (byte : UInt8) : UInt32 :=
  (crc >>> 8) ^^^ partcloneCrcTable ((crc ^^^ byte.toUInt32) &&& 0xff)

/-- `partclone_crc32`. -/
def partcloneCrc32 (crc : UInt32) (data : List UInt8) : UInt32 := data.foldl partcloneCrcByte crc

/-- `partclone_crc32_v1`: every round takes the first byte of the block. -/
def partcloneCrc32V1 (crc : UInt32) (byte : UInt8) : ℕ → UInt32
  | 0 => crc
  | len + 1 => partcloneCrc32V1 (partcloneCrcByte crc byte) byte len

/-- `running_crc`, and for `running_xxh64` the bytes it was fed. -/
structure PartcloneRunning where
  crc : UInt32
  fed : List UInt8
  deriving DecidableEq

/-- A checksum before the first byte. -/
def PartcloneRunning.start : PartcloneRunning := ⟨0xffffffff, []⟩

/-- `partclone_crc32` or `XXH64_update`. -/
def PartcloneRunning.feed (mode : PartcloneChecksum) (run : PartcloneRunning) (data : List UInt8) :
    PartcloneRunning :=
  if mode = .crc32 then { run with crc := partcloneCrc32 run.crc data }
  else { run with fed := run.fed ++ data }

/-! ### Opening -/

/-- `partclone_block_used`. -/
def partcloneBlockUsed (bitmap : Buf) (block : ℕ) : Bool := Rank.bit bitmap block

/-- `partclone_popcount8` and the loop of `partclone_rank`. -/
def partcloneRank (img : PartcloneImage) (block : ℕ) : ℕ :=
  Rank.lookup img.bitmap (PARTCLONE_RANK_BLOCKS / 8) img.rank block

/-- `partclone_build_rank`. -/
def partcloneBuildRank (bitmap : Buf) (totalBlocks usedBlocks : ℕ) : Except GrubError (ℕ → ℕ) := do
  let groups := totalBlocks / PARTCLONE_RANK_BLOCKS
    + if totalBlocks % PARTCLONE_RANK_BLOCKS ≠ 0 then 1 else 0
  refuseIf (groups = 0 ∨ (2 ^ 64 - 1) / 8 < groups) ⟨.outOfRange, "partclone rank index too large"⟩
  let (used, rank) := Rank.sampleBits bitmap PARTCLONE_RANK_BLOCKS totalBlocks 0 0 fun _ => 0
  refuseIf (used ≠ usedBlocks) ⟨.badDevice, "partclone bitmap block count mismatch"⟩
  .ok rank

/-- `partclone_expected_size`. -/
def partcloneExpectedSize (usedBlocks blockSize stripCount checksumSize dataOffset : ℕ) :
    Except GrubError ℕ := do
  let dataBytes ← require (grubMul usedBlocks blockSize)
    ⟨.outOfRange, "partclone data size overflow"⟩
  let overflow : GrubError := ⟨.outOfRange, "partclone image size overflow"⟩
  let checksumBytes ← require (grubMul stripCount checksumSize) overflow
  let total ← require (grubAdd dataOffset dataBytes) overflow
  require (grubAdd total checksumBytes) overflow

/-- The inner loop of `partclone_load_bitmap_v1` over the bytes `[i, i + n)` of a buffer. -/
def partcloneSetBits (buf : Buf) (done : ℕ) : ℕ → ℕ → Buf → Buf
  | 0, _, bitmap => bitmap
  | n + 1, i, bitmap =>
    partcloneSetBits buf done n (i + 1)
      (if buf i = 1 then Rank.setBit bitmap (done + i) else bitmap)

/-- The loop of `partclone_load_bitmap_v1`; each round reads at least one byte. -/
def partcloneLoadBytesV1 (carrier : GrubFile) (totalBlocks : ℕ) :
    ℕ → ℕ → Buf → Except GrubError Buf
  | 0, _, bitmap => .ok bitmap
  | fuel + 1, done, bitmap =>
    if done < totalBlocks then do
      let want := min PARTCLONE_BITMAP_V1_BUFFER_SIZE (totalBlocks - done)
      let buf ← partclonePread carrier 0 (PARTCLONE_HEADER_V1_SIZE + done) want
      partcloneLoadBytesV1 carrier totalBlocks fuel (done + want)
        (partcloneSetBits buf done want 0 bitmap)
    else .ok bitmap

/-- `partclone_load_bitmap_v1`. -/
def partcloneLoadBitmapV1 (carrier : GrubFile) (totalBlocks : ℕ) : Except GrubError Buf := do
  let bitmap ← partcloneLoadBytesV1 carrier totalBlocks totalBlocks 0 fun _ => 0
  let magic ← partclonePread carrier 0 (PARTCLONE_HEADER_V1_SIZE + totalBlocks)
    PARTCLONE_BITMAP_MAGIC_SIZE
  refuseIf (bytesAt magic 0 PARTCLONE_BITMAP_MAGIC = false)
    ⟨.badSignature, "bad partclone 0001 bitmap signature"⟩
  .ok bitmap

/-- `partclone_load_bitmap_v2`. -/
def partcloneLoadBitmapV2 (carrier : GrubFile) (bitmapSize : ℕ) : Except GrubError Buf := do
  let bitmap ← partclonePread carrier 0 PARTCLONE_HEADER_V2_SIZE bitmapSize
  let rawCrc ← partclonePread carrier 0 (PARTCLONE_HEADER_V2_SIZE + bitmapSize) 4
  refuseIf ((partcloneCrc32 0xffffffff (bitmap.take bitmapSize)).toNat ≠ lostLe32 rawCrc 0)
    ⟨.badSignature, "bad partclone 0002 bitmap checksum"⟩
  .ok bitmap

/-- The checks on the geometry that `partclone_open_v1` and `partclone_open_v2` make alike. -/
def partcloneCheckGeometry (version : String) (bad : Prop) [Decidable bad]
    (blockSize totalBytes totalBlocks usedBlocks : ℕ) : Except GrubError Unit := do
  refuseIf (blockSize = 0 ∨ PARTCLONE_BLOCK_SIZE_MAX < blockSize ∨ totalBlocks = 0
    ∨ totalBlocks < usedBlocks ∨ bad) ⟨.badDevice, s!"bad partclone {version} geometry"⟩
  refuseIf ((grubMul totalBlocks blockSize).all (totalBytes < ·))
    ⟨.badDevice, s!"bad partclone {version} device size"⟩
  refuseIf (PARTCLONE_BITMAP_SIZE_MAX * 8 < totalBlocks)
    ⟨.outOfRange, s!"partclone {version} bitmap is too large"⟩

/-- `partclone_open_v1`. -/
def partcloneOpenV1 (carrier : GrubFile) (header : Buf) : Except GrubError PartcloneImage := do
  let blockSize := lostLe32 header 36
  let totalBytes := lostLe64 header 40
  let totalBlocks := lostLe64 header 48
  let usedBlocks := lostLe64 header 56
  partcloneCheckGeometry "0001" False blockSize totalBytes totalBlocks usedBlocks
  let bitmap ← partcloneLoadBitmapV1 carrier totalBlocks
  let rank ← partcloneBuildRank bitmap totalBlocks usedBlocks
  let dataOffset := PARTCLONE_HEADER_V1_SIZE + totalBlocks + PARTCLONE_BITMAP_MAGIC_SIZE
  let expected4 ← partcloneExpectedSize usedBlocks blockSize usedBlocks 4 dataOffset
  let expected8 ← partcloneExpectedSize usedBlocks blockSize usedBlocks 8 dataOffset
  -- some 64-bit builds wrote the checksum in eight bytes
  let stride := if carrier.size = expected4 then 4 else 8
  refuseIf (carrier.size ≠ expected4 ∧ carrier.size ≠ expected8)
    ⟨.badDevice, "partclone 0001 data stream has the wrong size"⟩
  .ok { carrier, version := .v1, totalBytes, totalBlocks, usedBlocks, blockSize, bitmap, rank,
        dataOffset, checksumMode := .v1, checksumSize := stride, blocksPerChecksum := 1,
        reseedChecksum := false, v1ChecksumStride := stride, stripCount := usedBlocks }

/-- The `switch` of `partclone_open_v2` on the checksum mode. -/
def partcloneChecksumOptions (mode checksumSize blocksPerChecksum : ℕ) (reseed : Bool) :
    Except GrubError PartcloneChecksum :=
  if mode = 0x00 then do
    refuseIf (checksumSize ≠ 0 ∨ blocksPerChecksum ≠ 0 ∨ reseed = false)
      ⟨.badDevice, "bad checksum-free partclone options"⟩
    .ok .none
  else if mode = 0x20 then do
    refuseIf (checksumSize ≠ 4 ∨ blocksPerChecksum = 0)
      ⟨.badDevice, "bad partclone CRC32 options"⟩
    .ok .crc32
  else if mode = 0x30 then do
    refuseIf (checksumSize ≠ 8 ∨ blocksPerChecksum = 0)
      ⟨.badDevice, "bad partclone XXH64 options"⟩
    .ok .xxh64
  else
    .error ⟨.notImplementedYet,
      "unsupported partclone checksum mode 0x" ++ String.ofList (Nat.toDigits 16 mode)⟩

/-- `partclone_open_v2`. -/
def partcloneOpenV2 (carrier : GrubFile) (header : Buf) : Except GrubError PartcloneImage := do
  refuseIf ((partcloneCrc32 0xffffffff (header.take PARTCLONE_HEADER_V2_CRC_OFFSET)).toNat
      ≠ lostLe32 header PARTCLONE_HEADER_V2_CRC_OFFSET)
    ⟨.badSignature, "bad partclone 0002 header checksum"⟩
  refuseIf (lostLe16 header 34 ≠ PARTCLONE_ENDIAN_LITTLE)
    ⟨.notImplementedYet, "big-endian partclone images are not supported"⟩
  refuseIf (lostLe32 header 88 ≠ PARTCLONE_FEATURE_V2_SIZE ∨ lostLe16 header 92 ≠ 2
      ∨ (lostLe16 header 94 ≠ 32 ∧ lostLe16 header 94 ≠ 64)
      ∨ byteAt header 105 ≠ PARTCLONE_BITMAP_BIT)
    ⟨.notImplementedYet, "unsupported partclone 0002 feature layout"⟩
  let totalBytes := lostLe64 header 52
  let totalBlocks := lostLe64 header 60
  let usedBlocks := lostLe64 header 76
  let blockSize := lostLe32 header 84
  let checksumSize := lostLe16 header 98
  let blocksPerChecksum := lostLe32 header 100
  let reseed := byteAt header 104
  partcloneCheckGeometry "0002" (1 < reseed) blockSize totalBytes totalBlocks usedBlocks
  let mode ← partcloneChecksumOptions (lostLe16 header 96) checksumSize blocksPerChecksum
    (reseed = 1)
  let bitmapSize := (totalBlocks + 7) / 8
  let bitmap ← partcloneLoadBitmapV2 carrier bitmapSize
  let rank ← partcloneBuildRank bitmap totalBlocks usedBlocks
  let dataOffset := PARTCLONE_HEADER_V2_SIZE + bitmapSize + 4
  let stripCount := if mode = .none then 0 else
    usedBlocks / blocksPerChecksum + if usedBlocks % blocksPerChecksum ≠ 0 then 1 else 0
  let expected ← partcloneExpectedSize usedBlocks blockSize stripCount checksumSize dataOffset
  refuseIf (carrier.size ≠ expected)
    ⟨.badDevice, "partclone 0002 data stream has the wrong size"⟩
  .ok { carrier, version := .v2, totalBytes, totalBlocks, usedBlocks, blockSize, bitmap, rank,
        dataOffset, checksumMode := mode, checksumSize, blocksPerChecksum,
        reseedChecksum := reseed = 1, v1ChecksumStride := 0, stripCount }

/-- `partclone_open_image`. The version decides how much of the header is read. -/
def partcloneOpenImage (carrier : GrubFile) : Except GrubError PartcloneImage := do
  let header ← partclonePread carrier 0 0 PARTCLONE_HEADER_V2_SIZE
  refuseIf (bytesAt header 0 PARTCLONE_MAGIC = false) ⟨.badSignature, "not a partclone image"⟩
  if bytesAt header PARTCLONE_VERSION_OFFSET [0x30, 0x30, 0x30, 0x31] then do
    let _ ← partclonePread carrier 0 PARTCLONE_HEADER_V2_SIZE
      (PARTCLONE_HEADER_V1_SIZE - PARTCLONE_HEADER_V2_SIZE)
    partcloneOpenV1 carrier header
  else if bytesAt header PARTCLONE_VERSION_OFFSET [0x30, 0x30, 0x30, 0x32] then
    partcloneOpenV2 carrier header
  else .error ⟨.notImplementedYet, "unsupported partclone image version"⟩

/-! ### Verification -/

/-- What reading changes in `struct partclone_image`; `calls` numbers the reads of the carrier,
those of one strip together, since they are at different offsets. -/
structure PartcloneState where
  verified : ℕ → Bool
  verifiedThrough : ℕ
  running : PartcloneRunning
  calls : ℕ

/-- The state after opening. -/
def PartcloneState.init (calls : ℕ) : PartcloneState where
  verified := fun _ => false
  verifiedThrough := 0
  running := .start
  calls

/-- `partclone_stored_offset`. -/
def partcloneStoredOffset (img : PartcloneImage) (storedBlock : ℕ) : ℕ :=
  match img.version with
  | .v1 => u64 (img.dataOffset + storedBlock * (img.blockSize + img.v1ChecksumStride))
  | .v2 =>
    if img.checksumMode = .none then u64 (img.dataOffset + storedBlock * img.blockSize)
    else u64 (img.dataOffset + storedBlock * img.blockSize
      + storedBlock / img.blocksPerChecksum * img.checksumSize)

/-- The loop of `partclone_verify_strip`; each round feeds at least one byte. -/
def partcloneFeedStrip (img : PartcloneImage) (call dataOff dataBytes : ℕ) :
    ℕ → ℕ → PartcloneRunning → Except GrubError PartcloneRunning
  | 0, _, run => .ok run
  | fuel + 1, done, run =>
    if done < dataBytes then do
      let want := min PARTCLONE_VERIFY_BUFFER_SIZE (dataBytes - done)
      let buf ← partclonePread img.carrier call (u64 (dataOff + done)) want
      partcloneFeedStrip img call dataOff dataBytes fuel (done + want)
        (run.feed img.checksumMode (buf.take want))
    else .ok run

section Reading

variable (xxh64 : List UInt8 → ℕ)

/-- The end of `partclone_verify_strip`. -/
def partcloneCheckStrip (img : PartcloneImage) (run : PartcloneRunning) (stored : Buf) :
    Except GrubError Unit :=
  if img.checksumMode = .crc32 then
    refuseIf (run.crc.toNat ≠ lostLe32 stored 0) ⟨.badSignature, "bad partclone CRC32 block strip"⟩
  else
    refuseIf (xxh64 run.fed ≠ lostLe64 stored 0) ⟨.badSignature, "bad partclone XXH64 block strip"⟩

/-- `partclone_verify_strip` for a strip whose checksum goes on from `run`: the checksum after it.
-/
def partcloneVerifyStrip (img : PartcloneImage) (call : ℕ) (run : PartcloneRunning) (strip : ℕ) :
    Except GrubError PartcloneRunning :=
  match img.version with
  | .v1 => do
    let dataOff := partcloneStoredOffset img strip
    let firstByte ← partclonePread img.carrier call dataOff 1
    let crc := partcloneCrc32V1 run.crc (firstByte 0) img.blockSize
    let stored ← partclonePread img.carrier call (u64 (dataOff + img.blockSize))
      img.v1ChecksumStride
    refuseIf (crc.toNat ≠ lostLe32 stored 0) ⟨.badSignature, "bad partclone 0001 block checksum"⟩
    .ok { run with crc }
  | .v2 => do
    let first := u64 (strip * img.blocksPerChecksum)
    let count := min (sub64 img.usedBlocks first) img.blocksPerChecksum
    let dataOff := partcloneStoredOffset img first
    let dataBytes ← require (grubMul count img.blockSize)
      ⟨.outOfRange, "partclone checksum strip too large"⟩
    let run ← partcloneFeedStrip img call dataOff dataBytes dataBytes 0 run
    let stored ← partclonePread img.carrier call (u64 (dataOff + dataBytes)) img.checksumSize
    partcloneCheckStrip xxh64 img run stored
    .ok run

/-- The loop of `partclone_verify_block` where checksums are cumulative. -/
def partcloneVerifyThrough (img : PartcloneImage) (strip : ℕ) :
    ℕ → PartcloneState → Except GrubError Unit × PartcloneState
  | 0, s => (.ok (), s)
  | fuel + 1, s =>
    if s.verifiedThrough ≤ strip then
      match partcloneVerifyStrip xxh64 img s.calls s.running s.verifiedThrough with
      | .error e => (.error e, { s with calls := s.calls + 1 })
      | .ok run =>
        partcloneVerifyThrough img strip fuel
          { s with verifiedThrough := s.verifiedThrough + 1, running := run, calls := s.calls + 1 }
    else (.ok (), s)

/-- The strip that holds a stored block. -/
def partcloneStripOf (img : PartcloneImage) (storedBlock : ℕ) : ℕ :=
  match img.version with
  | .v1 => storedBlock
  | .v2 => storedBlock / img.blocksPerChecksum

/-- `partclone_verify_block`. -/
def partcloneVerifyBlock (img : PartcloneImage) (s : PartcloneState) (storedBlock : ℕ) :
    Except GrubError Unit × PartcloneState :=
  if img.checksumMode = .none then (.ok (), s)
  else
    let strip := partcloneStripOf img storedBlock
    if img.reseedChecksum then
      if s.verified strip then (.ok (), s)
      else
        match partcloneVerifyStrip xxh64 img s.calls .start strip with
        | .error e => (.error e, { s with calls := s.calls + 1 })
        | .ok _ =>
          (.ok (), { s with
            verified := fun k => if k = strip then true else s.verified k
            calls := s.calls + 1 })
    else partcloneVerifyThrough xxh64 img strip (strip + 1) s

/-- `partclone_read`. -/
def partcloneRead (img : PartcloneImage) (s : PartcloneState) (off len : ℕ) :
    Except GrubError (List UInt8) × PartcloneState :=
  if img.totalBytes < off ∨ img.totalBytes - off < len then
    (.error ⟨.outOfRange, "read past end of partclone image"⟩, s)
  else if len = 0 then (.ok [], s)
  else if u64 (img.totalBlocks * img.blockSize) ≤ off then
    (.ok (List.replicate (min len (img.totalBytes - off)) 0), s)
  else
    let block := off / img.blockSize
    let inBlock := off % img.blockSize
    let want := min len (img.blockSize - inBlock)
    if partcloneBlockUsed img.bitmap block = false then (.ok (List.replicate want 0), s)
    else
      let storedBlock := partcloneRank img block
      match partcloneVerifyBlock xxh64 img s storedBlock with
      | (.error e, s) => (.error e, s)
      | (.ok (), s) =>
        match partclonePread img.carrier s.calls
          (u64 (partcloneStoredOffset img storedBlock + inBlock)) want with
        | .error e => (.error e, { s with calls := s.calls + 1 })
        | .ok buf => (.ok (buf.take want), { s with calls := s.calls + 1 })

/-- `grub_partclone_read`. -/
def grubPartcloneRead (img : PartcloneImage) (s : PartcloneState) (off len : ℕ) :
    Except GrubError (List UInt8) × PartcloneState :=
  filterRead ⟨.fileReadError, "partclone read made no progress"⟩ (partcloneRead xxh64 img) s off len

end Reading

end FsRover
