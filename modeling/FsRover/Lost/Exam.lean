import FsRover.Lost.Table

/-!
# What lies at one offset

`lostexam.c`: a filesystem that starts at an offset, or one found there through a backup boot
sector or superblock copy. `lost_examine` either finds at most one hit, which depends on the
device alone, or an extended boot record, whose entry joins the tables; `lostDetect` is the first
part and `lostExamine` adds the second.
-/

namespace FsRover

variable (env : LostSearch)

/-- The descriptor loop of `lost_udf`: `n` descriptors from number `i` on, and the end of the
last partition so far, in blocks. -/
def lostUdfDescs (aux : Buf) (bs location endB i : ℕ) : ℕ → ℕ
  | 0 => endB
  | n + 1 =>
    let desc := aux.from (i * bs)
    if lostUdfTag desc 8 (location + i) then endB
    else if lostUdfTag desc 5 (location + i) then
      lostUdfDescs aux bs location (max endB (lostLe32 desc 188 + lostLe32 desc 192)) (i + 1) n
    else lostUdfDescs aux bs location endB (i + 1) n

/-- One block size of `lost_udf`. -/
def lostUdfBlock (s bs : ℕ) : Option ℕ :=
  if env.size < u64 (s + 257 * bs) then none
  else
    match lostRead env (u64 (s + 256 * bs)) 512 with
    | none => none
    | some anchor =>
      if ¬ lostUdfTag anchor 2 256 then none
      else
        let location := lostLe32 anchor 20
        let length := min (lostLe32 anchor 16) LOST_AUX
        let length := length - length % bs
        if length = 0 ∨ env.size < u64 (s + (location + 1) * bs + length) then none
        else
          match lostRead env (u64 (s + location * bs)) length with
          | none => none
          | some aux => some (lostUdfDescs aux bs location 257 0 (length / bs) * bs)

/-- `lost_udf`: block sizes from the sector size up to 4 KiB. -/
def lostUdf (s : ℕ) : Option ℕ :=
  (((List.range 4).map fun k => env.sectorSize * 2 ^ k).filter (· ≤ 4096)).findSome?
    (lostUdfBlock env s)

/-- `lost_primary_ok`: is the primary of a filesystem found through a backup intact after all,
and the same filesystem? -/
def lostPrimaryOk (hit : LostHit) : Bool :=
  let len := min (env.size - hit.start) LOST_WINDOW
  match lostRead env hit.start len with
  | none => false
  | some raw =>
    let buf : Buf := fun i => if i < len then raw i else 0
    match hit.type with
    | .ntfs => (lostNtfs buf).any fun r => r.1 == hit.size
    | .exfat => (lostExfat buf).any fun r => r.2 == hit.size
    | .xfs => (lostXfs buf).any fun r => r.1 == hit.size
        && (lostBe32 buf r.2.2 ≠ 0x58414746 || lostBe32 buf (r.2.2 + 8) = 0)
    | .btrfs => (lostBtrfs (buf.from LOST_BTRFS_SB)).any fun r =>
        r.2 == LOST_BTRFS_SB && r.1 == hit.size
    | .jfs => (lostJfs (buf.from LOST_JFS_SB)).any (· == hit.size)
    | _ =>
      match lostExt (buf.from LOST_SB_1K), lostHfs (buf.from LOST_SB_1K) with
      | some (type, size, sbOffset), _ =>
        sbOffset == LOST_SB_1K && size == hit.size && type == hit.type
      | none, some (type, size) => size == hit.size && type == hit.type
      | none, none =>
        (lostFat buf env.sectorSize).any fun r => r.2 == hit.size && r.1 == hit.type

/-- `lost_set_hit`. -/
def lostSetHit (start size : ℕ) (type : LostType) (backup : Bool) : LostHit :=
  ⟨start, size, type, backup, []⟩

/-- `lost_remap`. -/
def lostRemap (hit : LostHit) (target source length : ℕ) : LostHit :=
  if hit.remap.length < ROVER_LOST_REMAP_MAX then
    { hit with remap := hit.remap ++ [⟨target, source, length⟩] }
  else hit

/-- The group descriptor table of `lost_ext_remap`, in bytes, or `none` where it returns before
the second remap: with META_BG, a descriptor size out of range or no blocks. -/
def lostExtTable (sb : Buf) : Option ℕ :=
  let incompat := lostLe32 sb 0x60
  let bs := 1024 * 2 ^ lostLe32 sb 0x18
  let first := lostLe32 sb 0x14
  let perGroup := lostLe32 sb 0x20
  let blocks := lostExtBlocks sb
  let desc := if incompat &&& 0x80 ≠ 0 then lostLe16 sb 0xfe else 32
  if incompat &&& 0x10 ≠ 0 then none
  else if desc < 32 ∨ bs < desc ∨ ¬ lostIsPow2 desc ∨ blocks ≤ first then none
  else
    let table := lostRoundUp (u64 ((blocks - first + perGroup - 1) / perGroup * desc)) bs
    if table < perGroup * bs then some table else none

/-- `lost_ext_remap`. -/
def lostExtRemap (hit : LostHit) (sb : Buf) (sbOffset : ℕ) : LostHit :=
  let bs := 1024 * 2 ^ lostLe32 sb 0x18
  let hit := lostRemap hit LOST_SB_1K sbOffset LOST_EXT_SB_SIZE
  match lostExtTable sb with
  | none => hit
  | some table =>
    lostRemap hit ((lostLe32 sb 0x14 + 1) * bs) (u64 ((sbOffset / bs + 1) * bs)) table

/-- `lost_tail_len`. -/
def lostTailLen : ℕ := max env.sectorSize LOST_SB_1K

/-- `lost_examine_end`, where `tail` holds the `lost_tail_len` bytes before `s`. -/
def lostExamineEnd (s : ℕ) (tail : Buf) : List LostHit :=
  let ss := env.sectorSize
  let len := lostTailLen env
  let ntfs :=
    match lostNtfs (tail.from (len - ss)) with
    | some (size, bps) =>
      if bps = ss ∧ size ≤ s then
        [lostRemap (lostSetHit (s - size) size .ntfs true) 0 (sub64 size bps) bps]
      else []
    | none => []
  let hfs :=
    match lostHfs (tail.from (len - LOST_SB_1K)) with
    | some (type, size) =>
      if size ≤ s ∧ (s - size) % ss = 0 then
        [lostRemap (lostSetHit (s - size) size type true) LOST_SB_1K (sub64 size LOST_SB_1K) 512]
      else []
    | none => []
  ntfs ++ hfs

/-- What `lost_examine` finds: a hit, or an extended boot record. -/
inductive LostVerdict
  | hit (h : LostHit)
  | ebr (start count : ℕ)
  deriving DecidableEq, Repr

/-- An ext superblock copy at `place` that lies `sbOffset` into its filesystem: the hit it
gives, when the filesystem would start on a sector of the device. -/
def lostExtCopy (place : ℕ) (sb : Buf) (type : LostType) (size sbOffset : ℕ) : Option LostVerdict :=
  if sbOffset ≤ place ∧ (place - sbOffset) % env.sectorSize = 0 then
    some (.hit (lostExtRemap (lostSetHit (place - sbOffset) size type true) sb sbOffset))
  else none

/-- A filesystem of that type and size starts at `s`. -/
def lostPlain (s : ℕ) (type : LostType) (size : ℕ) : LostVerdict :=
  .hit (lostSetHit s size type false)

/-- An ext superblock at 1 KiB: the primary, or the copy of a later group. -/
def lostDetectExt1K (s : ℕ) (buf : Buf) : Option LostVerdict :=
  match lostExt (buf.from LOST_SB_1K) with
  | some (type, size, sbOffset) =>
    if sbOffset = LOST_SB_1K then some (lostPlain s type size)
    else lostExtCopy env (u64 (s + LOST_SB_1K)) (buf.from LOST_SB_1K) type size sbOffset
  | none => none

/-- An ext superblock copy at the start of a group of blocks above 1 KiB. -/
def lostDetectExtGroup (s : ℕ) (buf : Buf) : Option LostVerdict :=
  match lostExt buf with
  | some (type, size, sbOffset) =>
    if 0 < lostLe32 buf 0x18 ∧ lostLe16 buf 0x5a ≠ 0 then lostExtCopy env s buf type size sbOffset
    else none
  | none => none

/-- XFS; the group header after a superblock copy numbers the allocation group. -/
def lostDetectXfs (s : ℕ) (buf : Buf) : Option LostVerdict :=
  match lostXfs buf with
  | some (size, agSize, xfsSector) =>
    let group := if lostBe32 buf xfsSector = 0x58414746 then lostBe32 buf (xfsSector + 8) else 0
    if group ≤ s / agSize ∧ (s - group * agSize) % env.sectorSize = 0 then
      let hit := lostSetHit (s - group * agSize) size .xfs (group ≠ 0)
      some (.hit (if group ≠ 0 then lostRemap hit 0 (group * agSize) xfsSector else hit))
    else none
  | none => none

/-- Btrfs at 64 KiB or one of its mirrors at the offset itself. A mirror found where the primary
belongs hides the mirror at the offset. -/
def lostDetectBtrfs (s : ℕ) (buf : Buf) : Option LostVerdict :=
  match lostBtrfs (buf.from LOST_BTRFS_SB), lostBtrfs buf with
  | some (size, sbOffset), _ =>
    if sbOffset = LOST_BTRFS_SB then some (lostPlain s .btrfs size) else none
  | none, some (size, sbOffset) =>
    if sbOffset ≤ s ∧ (s - sbOffset) % env.sectorSize = 0 then
      let hit := lostSetHit (s - sbOffset) size .btrfs (sbOffset ≠ LOST_BTRFS_SB)
      some (.hit (if sbOffset ≠ LOST_BTRFS_SB then
        lostRemap hit LOST_BTRFS_SB sbOffset LOST_BTRFS_SB_SIZE else hit))
    else none
  | none, none => none

/-- UDF, also on a bridge disc. -/
def lostDetectUdf (s : ℕ) (buf : Buf) : Option LostVerdict :=
  if lostUdfVrs buf env.sectorSize then (lostUdf env s).map (lostPlain s .udf) else none

/-- The superblocks at 1 KiB and ext copies at a group start. -/
def lostDetectAt1K (s : ℕ) (buf : Buf) : Option LostVerdict :=
  lostDetectExt1K env s buf
  <|> lostDetectExtGroup env s buf
  <|> (lostHfs (buf.from LOST_SB_1K)).map (fun r => lostPlain s r.1 r.2)
  <|> (lostF2fs (buf.from LOST_SB_1K)).map (lostPlain s .f2fs)

/-- The boot sectors and superblocks at 0, with the XFS allocation group copies. -/
def lostDetectAt0 (s : ℕ) (buf : Buf) (len : ℕ) : Option LostVerdict :=
  (lostApfs buf len).map (lostPlain s .apfs)
  <|> (lostFat buf env.sectorSize).map (fun r => lostPlain s r.1 r.2)
  <|> (lostExfat buf).map (fun r => lostPlain s .exfat r.2)
  <|> (lostNtfs buf).map (fun r => lostPlain s .ntfs r.1)
  <|> (lostRefs buf).map (lostPlain s .refs)
  <|> lostDetectXfs env s buf

/-- Btrfs, then UFS at 8 and 64 KiB, JFS, ReiserFS and the volume descriptors. -/
def lostDetectLater (s : ℕ) (buf : Buf) : Option LostVerdict :=
  lostDetectBtrfs env s buf
  <|> (lostUfs (buf.from LOST_UFS1_SB) LOST_UFS1_SB).map (fun r => lostPlain s r.1 r.2)
  <|> (lostUfs (buf.from LOST_UFS2_SB) LOST_UFS2_SB).map (fun r => lostPlain s r.1 r.2)
  <|> (lostJfs (buf.from LOST_JFS_SB)).map (lostPlain s .jfs)
  <|> (lostReiserfs (buf.from LOST_REISERFS_SB)).map (lostPlain s .reiserfs)
  <|> lostDetectUdf env s buf
  <|> (lostIso (buf.from LOST_VRS)).map (lostPlain s .iso9660)

/-- The ext superblock copy of block group 3 for one block size. -/
def lostDetectGroup3 (s logBs : ℕ) : Option LostVerdict :=
  let bs := 1024 * 2 ^ logBs
  let place := u64 (s + 3 * bs * 8 * bs + if logBs = 0 then LOST_SB_1K else 0)
  if env.size < u64 (place + LOST_EXT_SB_SIZE) then none
  else
    match lostRead env place LOST_EXT_SB_SIZE with
    | none => none
    | some aux =>
      match lostExt aux with
      | some (type, size, sbOffset) =>
        if lostLe16 aux 0x5a ≠ 0 then lostExtCopy env place aux type size sbOffset else none
      | none => none

/-- A hit at `s` found through a backup `source` bytes into it. -/
def lostBackup (s : ℕ) (type : LostType) (size target source length : ℕ) : LostVerdict :=
  .hit (lostRemap (lostSetHit s size type true) target source length)

/-- The FAT32 backup boot sector, with the two sectors after it. -/
def lostDetectFatCopy (s : ℕ) (buf : Buf) : Option LostVerdict :=
  let ss := env.sectorSize
  match lostFat (buf.from (6 * ss)) ss with
  | some (type, size) =>
    if type = .fat32 ∧ lostLe16 buf (6 * ss + 0x32) = 6 then
      some (lostBackup s type size 0 (6 * ss) (3 * ss))
    else none
  | none => none

/-- The exFAT boot region copy for one sector shift. -/
def lostDetectExfatCopy (s : ℕ) (buf : Buf) (shift : ℕ) : Option LostVerdict :=
  match lostExfat (buf.from (12 * 2 ^ shift)) with
  | some (got, size) =>
    if env.sectorSize ≤ 2 ^ shift ∧ got = shift then
      some (lostBackup s .exfat size 0 (12 * 2 ^ shift) (12 * 2 ^ shift))
    else none
  | none => none

/-- The ext superblock copies that the quick search looks for on demand. -/
def lostDetectGroups3 (s : ℕ) : Option LostVerdict :=
  if env.extBackup ∧ ¬ env.deep then [0, 1, 2].findSome? (lostDetectGroup3 env s) else none

/-- The backups found by their distance from the start. The second F2FS superblock opens as it
is. -/
def lostDetectPositional (s : ℕ) (buf : Buf) : Option LostVerdict :=
  lostDetectFatCopy env s buf
  <|> [9, 10, 11, 12].findSome? (lostDetectExfatCopy env s buf)
  <|> (lostF2fs (buf.from (4096 + LOST_SB_1K))).map (fun size =>
    .hit (lostSetHit s size .f2fs true))
  <|> (lostJfs (buf.from LOST_JFS_SB2)).map (fun size =>
    lostBackup s .jfs size LOST_JFS_SB LOST_JFS_SB2 LOST_JFS_SB_SIZE)
  <|> lostDetectGroups3 env s

/-- An extended boot record hides what is tested after it. -/
def lostDetectEbr (s : ℕ) (buf : Buf) (positional : Bool) : Option LostVerdict :=
  match lostEbr buf with
  | some (start, count) => some (.ebr start count)
  | none => if positional then lostDetectPositional env s buf else none

/-- What `lost_examine` finds at `s`, in the order of its tests; `buf` holds the `LOST_WINDOW`
bytes from `s`, of which `len` are on the device and the rest zeros. -/
def lostDetect (s : ℕ) (buf : Buf) (len : ℕ) (positional : Bool) : Option LostVerdict :=
  lostDetectAt1K env s buf
  <|> lostDetectAt0 env s buf len
  <|> lostDetectLater env s buf
  <|> lostDetectEbr env s buf positional

/-- `lost_examine`. -/
def lostExamine (scan : LostScan) (s : ℕ) (buf : Buf) (len : ℕ) (positional : Bool) :
    LostScan × List LostHit :=
  match lostDetect env s buf len positional with
  | some (.hit h) => (scan, [h])
  | some (.ebr start count) =>
    (lostAddTable env scan (u64 (s + start * env.sectorSize)) (count * env.sectorSize), [])
  | none => (scan, [])

end FsRover
