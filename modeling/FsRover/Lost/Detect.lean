import FsRover.Bytes

/-!
# Boot sector and superblock tests

The tests of `lostfs.c`, on byte buffers only. Each returns what the source writes through its
result pointers, or `none` where the source returns zero or a null pointer. Sizes are computed in
64 bits, as there.

## Main definitions

* `FsRover.LostType` : the type names of `struct rover_lost_part`.
* `FsRover.lostCrc32`, `FsRover.grubGetcrc32c` : the two checksums.
-/

namespace FsRover

/-- The `type` of a result: a filesystem, or `partition` for a table entry with none at its
start. -/
inductive LostType
  | ntfs | fat12 | fat16 | fat32 | exfat | ext2 | ext3 | ext4 | xfs | btrfs | hfs | hfsplus | hfsx
  | apfs | refs | f2fs | ufs | ufs2 | jfs | reiserfs | iso9660 | udf | partition
  deriving DecidableEq, Repr

/-! ### Constants of `lostint.h` -/

def LOST_MIB : ℕ := 2 ^ 20
def LOST_TRACK : ℕ := 63 * 512
def LOST_CYLINDER : ℕ := 255 * LOST_TRACK
def LOST_WINDOW : ℕ := 65536 + 4096
def LOST_TAIL : ℕ := 4096
def LOST_SB_1K : ℕ := 1024
def LOST_EXT_SB_SIZE : ℕ := 1024
def LOST_BTRFS_SB : ℕ := 65536
def LOST_BTRFS_SB_SIZE : ℕ := 4096
def LOST_GPT_MAX_ENTRIES : ℕ := 4096
def LOST_UFS1_SB : ℕ := 8192
def LOST_UFS2_SB : ℕ := 65536
def LOST_JFS_SB : ℕ := 0x8000
def LOST_JFS_SB2 : ℕ := 0xf000
def LOST_JFS_SB_SIZE : ℕ := 4096
def LOST_REISERFS_SB : ℕ := 65536
def LOST_VRS : ℕ := 32768
def LOST_AUX : ℕ := 65536
def LOST_DEEP_CHUNK : ℕ := 4 * 2 ^ 20

/-! ### Checksums -/

/-- Eight rounds of the reflected CRC-32 polynomial. -/
def lostCrc32Byte (crc : ℕ) : ℕ → ℕ
  | 0 => crc
  | k + 1 => lostCrc32Byte ((crc >>> 1) ^^^ (if crc % 2 = 1 then 0xedb88320 else 0)) k

/-- The loop of `lost_crc32`, over the `len` bytes from `i` on. -/
def lostCrc32From (p : Buf) (crc i : ℕ) : ℕ → ℕ
  | 0 => crc
  | len + 1 => lostCrc32From p (lostCrc32Byte (crc ^^^ byteAt p i) 8) (i + 1) len

/-- `lost_crc32`. -/
def lostCrc32 (p : Buf) (len : ℕ) : ℕ := lostCrc32From p 0xffffffff 0 len ^^^ 0xffffffff

/-- `reflect` of `crc.c`: the low `len` bits of `ref` in reverse order. -/
def reflect (ref : ℕ) : ℕ → ℕ
  | 0 => 0
  | len + 1 => (if ref % 2 = 1 then 2 ^ len else 0) ||| reflect (ref >>> 1) len

/-- Eight rounds of `init_crc32c_table` for one entry. -/
def crc32cRounds (c : ℕ) : ℕ → ℕ
  | 0 => c
  | j + 1 =>
    crc32cRounds ((c <<< 1) % 2 ^ 32 ^^^ (if c &&& 2 ^ 31 ≠ 0 then 0x1edc6f41 else 0)) j

/-- `crc32c_table[i]`. -/
def crc32cTable (i : ℕ) : ℕ := reflect (crc32cRounds (reflect i 8 <<< 24) 8) 32

/-- The loop of `grub_getcrc32c`. -/
def grubGetcrc32cFrom (p : Buf) (crc i : ℕ) : ℕ → ℕ
  | 0 => crc
  | size + 1 =>
    grubGetcrc32cFrom p ((crc >>> 8) ^^^ crc32cTable ((crc &&& 0xff) ^^^ byteAt p i)) (i + 1) size

/-- `grub_getcrc32c`. -/
def grubGetcrc32c (crc : ℕ) (p : Buf) (size : ℕ) : ℕ :=
  grubGetcrc32cFrom p (crc ^^^ 0xffffffff) 0 size ^^^ 0xffffffff

/-! ### Boot sectors -/

/-- `lost_ntfs`: the size is the volume plus the backup boot sector that follows it, with the
bytes per sector. -/
def lostNtfs (bs : Buf) : Option (ℕ × ℕ) :=
  let bps := lostLe16 bs 0x0b
  let spc := byteAt bs 0x0d
  let sectors := lostLe64 bs 0x28
  if lostLe16 bs 0x1fe ≠ 0xaa55
      ∨ ¬ bytesAt bs 3 [0x4e, 0x54, 0x46, 0x53]  -- "NTFS"
      ∨ lostLe16 bs 0x0e ≠ 0 ∨ byteAt bs 0x10 ≠ 0 ∨ lostLe16 bs 0x11 ≠ 0
      ∨ lostLe16 bs 0x13 ≠ 0 ∨ lostLe16 bs 0x16 ≠ 0 ∨ lostLe32 bs 0x20 ≠ 0 then none
  else if bps < 256 ∨ 4096 < bps ∨ ¬ lostIsPow2 bps then none
  else if ¬ (spc ≤ 0x80 ∧ lostIsPow2 spc) ∧ ¬ (0xf4 ≤ spc ∧ spc ≤ 0xf8) then none
  else if sectors = 0 ∨ 2 ^ 52 ≤ sectors then none
  else some (u64 ((sectors + 1) * bps), bps)

/-- `lost_fat` for a device of `sectorSize`-byte sectors. -/
def lostFat (bs : Buf) (sectorSize : ℕ) : Option (LostType × ℕ) :=
  let spc := byteAt bs 0x0d
  let fats := byteAt bs 0x10
  let fatLength := if lostLe16 bs 0x16 ≠ 0 then lostLe16 bs 0x16 else lostLe32 bs 0x24
  let total := if lostLe16 bs 0x13 ≠ 0 then lostLe16 bs 0x13 else lostLe32 bs 0x20
  let reserved := lostLe16 bs 0x0e
  let dirEntries := lostLe16 bs 0x11
  let startData := reserved + fats * fatLength + (dirEntries * 32 + sectorSize - 1) / sectorSize
  let clusters := (total - startData) / spc
  if lostLe16 bs 0x1fe ≠ 0xaa55
      ∨ ¬ ((byteAt bs 0 = 0xeb ∧ byteAt bs 2 = 0x90) ∨ byteAt bs 0 = 0xe9) then none
  else if 128 < spc ∨ ¬ lostIsPow2 spc ∨ (fats ≠ 1 ∧ fats ≠ 2) ∨ lostLe16 bs 0x0b ≠ sectorSize
      ∨ (byteAt bs 0x15 ≠ 0xf0 ∧ byteAt bs 0x15 < 0xf8) then none
  else if reserved = 0 ∨ fatLength = 0 then none
  else if total ≤ startData then none
  else
    let found : Option (LostType × ℕ) :=
      if clusters < 4085 then
        if dirEntries = 0 ∨ dirEntries % 16 ≠ 0 ∨ 256 < lostLe16 bs 0x16 then none
        else some (.fat12, (clusters + 2 + sectorSize * 2 / 3 - 1) * 3 / 2 / sectorSize)
      else if clusters < 65525 then
        if lostLe16 bs 0x16 = 0 ∨ dirEntries = 0 ∨ dirEntries % 16 ≠ 0 then none
        else some (.fat16, (clusters + 2 + sectorSize / 2 - 1) * 2 / sectorSize)
      else if lostLe16 bs 0x13 ≠ 0 ∨ dirEntries ≠ 0 ∨ lostLe32 bs 0x2c < 2
          ∨ 2 + clusters ≤ lostLe32 bs 0x2c then none
      else some (.fat32, (clusters + 2 + sectorSize / 4 - 1) * 4 / sectorSize)
    match found with
    | none => none
    | some (type, need) => if fatLength < need then none else some (type, total * sectorSize)

/-- `lost_exfat`: the sector shift and the size. -/
def lostExfat (bs : Buf) : Option (ℕ × ℕ) :=
  let shift := byteAt bs 0x6c
  let sectors := lostLe64 bs 0x48
  if lostLe16 bs 0x1fe ≠ 0xaa55
      ∨ ¬ bytesAt bs 3 [0x45, 0x58, 0x46, 0x41, 0x54, 0x20, 0x20, 0x20]  -- "EXFAT   "
      ∨ ¬ zerosAt bs 0x0b (0x40 - 0x0b) then none
  else if shift < 9 ∨ 12 < shift ∨ 25 - shift < byteAt bs 0x6d
      ∨ (byteAt bs 0x6e ≠ 1 ∧ byteAt bs 0x6e ≠ 2) then none
  else if sectors = 0 ∨ 2 ^ (64 - shift) ≤ sectors then none
  else some (shift, u64 (sectors * 2 ^ shift))

/-! ### Superblocks -/

/-- The block count of an ext superblock, with the high half under INCOMPAT_64BIT. -/
def lostExtBlocks (sb : Buf) : ℕ :=
  lostLe32 sb 0x04 + if lostLe32 sb 0x60 &&& 0x80 ≠ 0 then 2 ^ 32 * lostLe32 sb 0x150 else 0

/-- `lost_ext`: the type, the size and where this superblock copy lies from the start of the
filesystem. -/
def lostExt (sb : Buf) : Option (LostType × ℕ × ℕ) :=
  let compat := lostLe32 sb 0x5c
  let incompat := lostLe32 sb 0x60
  let roCompat := lostLe32 sb 0x64
  let blocks := lostExtBlocks sb
  let freeBlocks := lostLe32 sb 0x0c + if incompat &&& 0x80 ≠ 0 then 2 ^ 32 * lostLe32 sb
    0x158 else 0
  let logBs := lostLe32 sb 0x18
  let bpg := lostLe32 sb 0x20
  let group := lostLe16 sb 0x5a
  if lostLe16 sb 0x38 ≠ 0xef53 then none
  else if blocks < freeBlocks ∨ lostLe32 sb 0x00 < lostLe32 sb 0x10 ∨ 3 < lostLe16 sb 0x3c
      ∨ 4 ≤ lostLe16 sb 0x3a ∨ blocks = 0 ∨ 6 < logBs ∨ bpg = 0 ∨ 2 ^ (54 - logBs)
        ≤ blocks then none
  else
    let sbOffset :=
      if group ≠ 0 then u64 ((lostLe32 sb 0x14 + group * bpg) * 2 ^ (10 + logBs)) else LOST_SB_1K
    let type :=
      if roCompat &&& 0x78 ≠ 0 ∨ incompat &&& 0x180 ≠ 0 then LostType.ext4
      else if compat &&& 0x04 ≠ 0 then .ext3 else .ext2
    some (type, u64 (blocks * 2 ^ (10 + logBs)), sbOffset)

/-- `lost_xfs`: the size, the byte size of an allocation group and the sector size. -/
def lostXfs (sb : Buf) : Option (ℕ × ℕ × ℕ) :=
  let dblocks := lostBe64 sb 8
  let agblocks := lostBe32 sb 84
  let agcount := lostBe32 sb 88
  let version := lostBe16 sb 100 &&& 0xf
  let blocklog := byteAt sb 120
  let sectlog := byteAt sb 121
  let inodelog := byteAt sb 122
  if lostBe32 sb 0 ≠ 0x58465342 ∨ blocklog < 9 ∨ 16 < blocklog ∨ sectlog < 9 ∨ blocklog < sectlog
      ∨ inodelog < 8 ∨ 11 < inodelog ∨ lostBe32 sb 4 ≠ 2 ^ blocklog
      ∨ lostBe16 sb 102 ≠ 2 ^ sectlog ∨ lostBe16 sb 104 ≠ 2 ^ inodelog ∨ version < 1 ∨ 5 < version
      ∨ dblocks = 0 ∨ agblocks = 0 ∨ agcount = 0 ∨ agcount * agblocks < dblocks then none
  else some (u64 (dblocks * 2 ^ blocklog), u64 (agblocks * 2 ^ blocklog), 2 ^ sectlog)

/-- `lost_btrfs`: the size and where this copy lies from the start of the device. -/
def lostBtrfs (sb : Buf) : Option (ℕ × ℕ) :=
  let sectorsize := lostLe32 sb 144
  let nodesize := lostLe32 sb 148
  let bytenr := lostLe64 sb 48
  let size := lostLe64 sb (201 + 8)
  if ¬ bytesAt sb 64 [0x5f, 0x42, 0x48, 0x52, 0x66, 0x53, 0x5f, 0x4d] then none  -- "_BHRfS_M"
  else if (bytenr ≠ LOST_BTRFS_SB ∧ bytenr ≠ 64 * 2 ^ 20 ∧ bytenr ≠ 256 * 2 ^ 30)
      ∨ lostLe64 sb 136 ≠ 1 ∨ sectorsize < 4096 ∨ 65536 < sectorsize ∨ ¬ lostIsPow2 sectorsize
      ∨ nodesize < sectorsize ∨ 65536 < nodesize ∨ ¬ lostIsPow2 nodesize
      ∨ lostLe32 sb (201 + 32) = 0 then none
  else if lostLe16 sb 196 = 0
      ∧ lostLe32 sb 0 ≠ grubGetcrc32c 0 (sb.from 32) (LOST_BTRFS_SB_SIZE - 32) then none
  else if size = 0 then none
  else some (size, bytenr)

/-- `lost_hfs`, on a master directory block or volume header. -/
def lostHfs (b : Buf) : Option (LostType × ℕ) :=
  let sig := lostBe16 b 0
  if sig = 0x4244 then
    let blocks := lostBe16 b 0x12
    let blockSize := lostBe32 b 0x14
    let size := blocks * blockSize + lostBe16 b 0x1c * 512 + 0x400
    if blockSize < 512 ∨ ¬ lostIsPow2 blockSize ∨ blocks = 0 ∨ blocks < lostBe16 b 0x22
        ∨ lostBe16 b 0x0e ≠ 3 ∨ lostBe16 b 0x1c ≤ 3 ∨ 27 < byteAt b 0x24
        ∨ lostBe32 b 0x18 % blockSize ≠ 0 then none
    else if 2049 * 2 ^ 30 < size then none
    else some (.hfs, size)
  else if ¬ (sig = 0x482b ∧ lostBe16 b 2 = 4) ∧ ¬ (sig = 0x4858 ∧ lostBe16 b 2 = 5) then none
  else
    let blockSize := lostBe32 b 0x28
    let total := lostBe32 b 0x2c
    if total < lostBe32 b 0x30 ∨ total = 0 ∨ blockSize < 512 ∨ ¬ lostIsPow2 blockSize then none
    else some (if sig = 0x482b then .hfsplus else .hfsx, total * blockSize)

/-- The Fletcher-64 sums of `lost_apfs`: `n` words from `i` on, wrapping at the block size. -/
def lostApfsSum (b : Buf) (blockSize i sum1 sum2 : ℕ) : ℕ → ℕ × ℕ
  | 0 => (sum1, sum2)
  | n + 1 =>
    let sum1 := (sum1 + lostLe32 b (if i < blockSize then i else i - blockSize)) % 0xffffffff
    lostApfsSum b blockSize (i + 4) sum1 ((sum2 + sum1) % 0xffffffff) n

/-- `lost_apfs`, with `avail` bytes of the buffer on the device. -/
def lostApfs (b : Buf) (avail : ℕ) : Option ℕ :=
  let blockSize := lostLe32 b 36
  let blocks := lostLe64 b 40
  if lostLe32 b 32 ≠ 0x4253584e ∨ lostLe32 b 24 &&& 0xffff ≠ 1 ∨ blockSize < 4096
      ∨ 65536 < blockSize ∨ ¬ lostIsPow2 blockSize ∨ avail < blockSize ∨ blocks = 0
      ∨ 2 ^ 48 ≤ blocks ∨ blocks < lostLe32 b 104 + lostLe32 b 108 then none
  else if lostApfsSum b blockSize 8 0 0 (blockSize / 4) ≠ (0, 0) then none
  else some (u64 (blocks * blockSize))

/-- `lost_refs`. -/
def lostRefs (bs : Buf) : Option ℕ :=
  let sectors := lostLe64 bs 0x18
  let bps := lostLe32 bs 0x20
  let cluster := bps * lostLe32 bs 0x24
  if ¬ bytesAt bs 3 [0x52, 0x65, 0x46, 0x53] ∨ ¬ bytesAt bs 0x10 [0x46, 0x53, 0x52, 0x53]
      ∨ bps < 512 ∨ 4096 < bps ∨ ¬ lostIsPow2 bps ∨ cluster < 4096 ∨ 65536 < cluster
      ∨ ¬ lostIsPow2 cluster ∨ (byteAt bs 0x28 ≠ 1 ∧ byteAt bs 0x28 ≠ 3)
      ∨ sectors = 0 ∨ 2 ^ 52 ≤ sectors then none
  else some (u64 (sectors * bps))

/-- `lost_f2fs`. -/
def lostF2fs (sb : Buf) : Option ℕ :=
  let logSector := lostLe32 sb 8
  let blocks := lostLe64 sb 36
  if lostLe32 sb 0 ≠ 0xf2f52010 ∨ lostLe32 sb 16 ≠ 12 ∨ logSector < 9 ∨ 12 < logSector
      ∨ (logSector + lostLe32 sb 12) % 2 ^ 32 ≠ 12 ∨ blocks = 0 ∨ 2 ^ 52 ≤ blocks then none
  else some (u64 (blocks * 2 ^ 12))

/-- `lost_ufs`, on a superblock found `place` bytes into the filesystem. -/
def lostUfs (sb : Buf) (place : ℕ) : Option (LostType × ℕ) :=
  let magicLe := lostLe32 sb 1372
  let magicBe := lostBe32 sb 1372
  let found : Option (Bool × Bool) :=
    if magicLe = 0x00011954 ∨ magicLe = 0x19540119 then some (false, magicLe = 0x19540119)
    else if magicBe = 0x00011954 ∨ magicBe = 0x19540119 then some (true, magicBe = 0x19540119)
    else none
  match found with
  | none => none
  | some (be, ufs2) =>
    let word i := if be then lostBe32 sb i else lostLe32 sb i
    let long i := if be then lostBe64 sb i else lostLe64 sb i
    let fsize := word 52
    let bsize := word 48
    let blocks := if ufs2 then long 1080 else word 36
    let location := long 1000
    if (if location = LOST_UFS1_SB ∨ location = LOST_UFS2_SB then location ≠ place
        else place ≠ (if ufs2 then LOST_UFS2_SB else LOST_UFS1_SB)) then none
    else if fsize < 512 ∨ 4096 < fsize ∨ ¬ lostIsPow2 fsize ∨ bsize < fsize ∨ 65536 < bsize
        ∨ ¬ lostIsPow2 bsize ∨ 8 < bsize / fsize ∨ word 44 = 0 ∨ blocks = 0 ∨ 2 ^ 52
          ≤ blocks then none
    else some (if ufs2 then .ufs2 else .ufs, u64 (blocks * fsize))

/-- `lost_jfs`: the aggregate, the inline log and the fsck work area. -/
def lostJfs (sb : Buf) : Option ℕ :=
  let bsize := lostLe32 sb 16
  let pbsize := lostLe32 sb 24
  let blocks := lostLe64 sb 8
  if ¬ bytesAt sb 0 [0x4a, 0x46, 0x53, 0x31] ∨ bsize < 512 ∨ 4096 < bsize ∨ ¬ lostIsPow2 bsize
      ∨ pbsize < 512 ∨ 4096 < pbsize ∨ ¬ lostIsPow2 pbsize ∨ blocks = 0 ∨ 2 ^ 50 ≤ blocks then none
  else some (u64 (blocks * pbsize
    + bsize * ((lostLe32 sb 72 &&& 0xffffff) + (lostLe32 sb 80 &&& 0xffffff))))

/-- `lost_reiserfs`. -/
def lostReiserfs (sb : Buf) : Option ℕ :=
  let blocks := lostLe32 sb 0
  let blockSize := lostLe16 sb 0x2c
  let oidMax := lostLe16 sb 0x2e
  let state := lostLe16 sb 0x32
  if (¬ bytesAt sb 0x34 [0x52, 0x65, 0x49, 0x73, 0x45, 0x72, 0x46, 0x73, 0]  -- "ReIsErFs"
        ∧ ¬ bytesAt sb 0x34 [0x52, 0x65, 0x49, 0x73, 0x45, 0x72, 0x32, 0x46, 0x73, 0]
        ∧ ¬ bytesAt sb 0x34 [0x52, 0x65, 0x49, 0x73, 0x45, 0x72, 0x33, 0x46, 0x73, 0])
      ∨ blocks < lostLe32 sb 4 ∨ blocks < 100 ∨ (state ≠ 1 ∧ state ≠ 2) ∨ oidMax % 2 ≠ 0
      ∨ oidMax < lostLe16 sb 0x30 ∨ (blockSize ≠ 4096 ∧ blockSize ≠ 8192) then none
  else some (blocks * blockSize)

/-- `lost_iso`, on a primary volume descriptor. -/
def lostIso (pvd : Buf) : Option ℕ :=
  let blocks := lostLe32 pvd 80
  let blockSize := lostLe16 pvd 128
  if ¬ bytesAt pvd 0 [1, 0x43, 0x44, 0x30, 0x30, 0x31, 1]  -- 1, "CD001", 1
      ∨ blocks ≠ lostBe32 pvd 84 ∨ blockSize ≠ lostBe16 pvd 130 ∨ blockSize < 512
      ∨ 2048 < blockSize ∨ ¬ lostIsPow2 blockSize ∨ blocks ≤ 16 then none
  else some (blocks * blockSize)

/-- The loop of `lost_udf_vrs`: the descriptors from `place` on, `step` bytes apart. -/
def lostUdfVrsFrom (buf : Buf) (step place : ℕ) (extended : Bool) : ℕ → Bool
  | 0 => false
  | n + 1 =>
    if LOST_WINDOW < place + 6 then false
    else if bytesAt buf (place + 1) [0x42, 0x45, 0x41, 0x30, 0x31] then  -- "BEA01"
      lostUdfVrsFrom buf step (place + step) true n
    else if extended ∧ (bytesAt buf (place + 1) [0x4e, 0x53, 0x52, 0x30, 0x32]
        ∨ bytesAt buf (place + 1) [0x4e, 0x53, 0x52, 0x30, 0x33]) then true  -- "NSR02", "NSR03"
    else if ¬ bytesAt buf (place + 1) [0x43, 0x44, 0x30, 0x30, 0x31]
        ∧ ¬ bytesAt buf (place + 1) [0x42, 0x4f, 0x4f, 0x54, 0x32] then false  -- "CD001", "BOOT2"
    else lostUdfVrsFrom buf step (place + step) extended n

/-- `lost_udf_vrs`: at most `LOST_WINDOW / step` descriptors lie in the window. -/
def lostUdfVrs (buf : Buf) (sectorSize : ℕ) : Bool :=
  lostUdfVrsFrom buf (max sectorSize 2048) LOST_VRS false (LOST_WINDOW / 2048)

/-- The checksum of `lost_udf_tag`: `n` tag bytes from `i` on, without the checksum itself. -/
def lostUdfTagSum (tag : Buf) (i : ℕ) : ℕ → ℕ
  | 0 => 0
  | n + 1 => (if i ≠ 4 then byteAt tag i else 0) + lostUdfTagSum tag (i + 1) n

/-- `lost_udf_tag`. -/
def lostUdfTag (tag : Buf) (ident location : ℕ) : Bool :=
  lostUdfTagSum tag 0 16 % 2 ^ 8 = byteAt tag 4 ∧ lostLe16 tag 0 = ident
    ∧ lostLe32 tag 12 = location % 2 ^ 32

/-- `lost_ebr`: the relative start and the sector count of the logical partition. -/
def lostEbr (b : Buf) : Option (ℕ × ℕ) :=
  let e0 := 0x1be
  let e1 := e0 + 16
  let type0 := byteAt b (e0 + 4)
  let type1 := byteAt b (e1 + 4)
  let start := lostLe32 b (e0 + 8)
  let count := lostLe32 b (e0 + 12)
  if lostLe16 b 0x1fe ≠ 0xaa55 ∨ byteAt b e0 &&& 0x7f ≠ 0 ∨ byteAt b e1 &&& 0x7f ≠ 0 then none
  else if ¬ zerosAt b (e0 + 32) 32 then none
  else if type0 = 0 ∨ type0 = 0x05 ∨ type0 = 0x0f ∨ type0 = 0x85 ∨ type0 = 0xee
      ∨ (type1 ≠ 0 ∧ type1 ≠ 0x05 ∧ type1 ≠ 0x0f ∧ type1 ≠ 0x85) then none
  else if start = 0 ∨ count = 0 then none
  else some (start, count)

end FsRover
