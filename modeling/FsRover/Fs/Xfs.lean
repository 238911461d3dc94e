import FsRover.Fs.BlockMap
import FsRover.Lib.KeyIndex

/-!
# Files of XFS

The data fork of an inode lists extents, or is the root of a B-tree whose leaves do. A read searches it
for each block, a map walks through it once.

## Main definitions

* `FsRover.XfsFile` : the file, and what the volume holds.
-/

namespace FsRover

def XFS_INODE_FORMAT_EXT : ℕ := 2
def XFS_INODE_FORMAT_BTREE : ℕ := 3

/-- An opened file: fields of the superblock, fields of the inode, its data fork, and the volume.
`nextents` is what `grub_xfs_get_inode_nextents` returns. The last three are about memory: the size of
`struct grub_xfs_data`, and how many bytes there are from the keys of the root, and in the search for a
block from those of a node in the buffer `leaf`, to the end of that structure; the buffer is an
allocation of its own, so that may be negative. -/
structure XfsFile where
  log2Bsize : ℕ
  log2Agblk : ℕ
  agsize : ℕ
  hascrc : Bool
  log2Inode : ℕ
  version : ℕ
  format : ℕ
  flags : ℕ
  forkOffset : ℕ
  nextents : ℕ
  size : ℕ
  fork : Buf
  volume : Buf
  maxRead : ℕ
  dataSize : ℕ
  rootRoom : ℤ
  leafRoom : ℕ → ℤ

namespace XfsFile

variable (f : XfsFile)

/-- The block size. -/
def bsize : ℕ := 2 ^ (f.log2Bsize - 9) * 512

/-- `GRUB_XFS_FSB_TO_BLOCK`. -/
def fsbToBlock (fsb : ℕ) : ℕ := u64 (fsb / 2 ^ f.log2Agblk * f.agsize + fsb % 2 ^ f.log2Agblk)

/-- `~0ULL >> shift`: the last block with a 64-bit address. -/
def lastBlock : ℕ := 0xffffffffffffffff / f.bsize

/-- What a block of the volume holds, the block given as in the file system. -/
def node (fsb : ℕ) : Buf := f.volume.from (u64 (f.fsbToBlock fsb * 2 ^ (f.log2Bsize - 9)) * 512)

/-- Where the keys of a `struct grub_xfs_btree_node` are. -/
def header : ℕ := if f.hascrc then 72 else 24

/-- The data fork in the inode. -/
def forkStart : ℕ := if f.version ≤ 2 then 100 else 176

/-- `recoffset` of the root. -/
def rootRecoffset : ℕ :=
  if f.forkOffset ≠ 0 then (f.forkOffset - 1) / 2 else (2 ^ f.log2Inode - (f.forkStart + 4)) / 16

/-- `recoffset` of a node. -/
def nodeRecoffset : ℕ := (f.bsize - f.header) / 16

end XfsFile

/-! ### Records -/

/-- `get_fsb`. -/
def xfsFsb (keys : Buf) (i : ℕ) : ℕ := lostBe64 keys (8 * i)

/-- `GRUB_XFS_EXTENT_OFFSET`: the shift is one of 32 bits. -/
def xfsExtentOffset (exts : Buf) (i : ℕ) : ℕ :=
  lostBe32 exts (16 * i) % 2 ^ 31 * 2 ^ 23 % 2 ^ 32 + lostBe32 exts (16 * i + 4) / 2 ^ 9

/-- The offset as `grub_xfs_map_records` takes it, with a shift of 64 bits. -/
def xfsMapOffset (exts : Buf) (i : ℕ) : ℕ :=
  lostBe32 exts (16 * i) % 2 ^ 31 * 2 ^ 23 + lostBe32 exts (16 * i + 4) / 2 ^ 9

/-- `GRUB_XFS_EXTENT_BLOCK`. -/
def xfsExtentBlock (exts : Buf) (i : ℕ) : ℕ :=
  lostBe32 exts (16 * i + 4) % 2 ^ 9 * 2 ^ 43 + lostBe32 exts (16 * i + 8) * 2 ^ 11
    + lostBe32 exts (16 * i + 12) / 2 ^ 21

/-- `GRUB_XFS_EXTENT_SIZE`. -/
def xfsExtentSize (exts : Buf) (i : ℕ) : ℕ := lostBe32 exts (16 * i + 12) % 2 ^ 21

/-- The flag of an unwritten extent. -/
def xfsUnwritten (exts : Buf) (i : ℕ) : Bool := 2 ^ 31 ≤ lostBe32 exts (16 * i)

/-! ### Reading -/

/-- The loop over the keys of a node: the first of `n` from `i` on that is behind the block. -/
def xfsFind (keys : Buf) (fileblock n i : ℕ) : ℕ := KeyIndex.firstAbove (xfsFsb keys) fileblock n i

/-- The magic number of a node is right. -/
def xfsMagic (f : XfsFile) (node : Buf) : Bool :=
  bytesAt node 0 (if f.hascrc then [0x42, 0x4d, 0x41, 0x33] else [0x42, 0x4d, 0x41, 0x50])

/-- The loop of `grub_xfs_read_block` through the nodes of a tree: the records of the leaf and how many
they are, if there is one. -/
def xfsFindLeaf (f : XfsFile) (fileblock : ℕ) :
    ℕ → Buf → ℕ → ℕ → ℤ → Option (Except GrubError (Option (Buf × ℕ)))
  | 0, _, _, _, _ => none
  | rounds + 1, keys, nrec, recoffset, room =>
    if room < 8 * nrec then some (.error ⟨.badFs, "invalid number of XFS root keys"⟩)
    else
      match xfsFind keys fileblock nrec 0 with
      | 0 => some (.ok none)
      | i + 1 =>
        let leaf := f.node (xfsFsb keys (i + recoffset))
        if xfsMagic f leaf = false then some (.error ⟨.badFs, "not a correct XFS BMAP node"⟩)
        else if lostBe16 leaf 4 = 0 then
          some (.ok (some (leaf.from f.header, lostBe16 leaf 6)))
        else xfsFindLeaf f fileblock rounds (leaf.from f.header) (lostBe16 leaf 6) f.nodeRecoffset
          (f.leafRoom fileblock)

/-- The loop of `grub_xfs_read_block` over the records. -/
def xfsFindRecord (exts : Buf) (fileblock : ℕ) : ℕ → ℕ → ℕ
  | 0, _ => 0
  | n + 1, i =>
    if fileblock < xfsExtentOffset exts i then 0
    else if fileblock < xfsExtentOffset exts i + xfsExtentSize exts i then
      fileblock - xfsExtentOffset exts i + xfsExtentBlock exts i
    else xfsFindRecord exts fileblock n (i + 1)

/-- `grub_xfs_read_block`. -/
def grubXfsReadBlock (f : XfsFile) (rounds fileblock : ℕ) : Option (Except GrubError ℕ) :=
  if f.format = XFS_INODE_FORMAT_BTREE then
    match xfsFindLeaf f fileblock rounds (f.fork.from 4) (lostBe16 f.fork 2) f.rootRecoffset f.rootRoom
      with
    | none => none
    | some (.error e) => some (.error e)
    | some (.ok none) => some (.ok 0)
    | some (.ok (some (exts, nrec))) => some (.ok (f.fsbToBlock (xfsFindRecord exts fileblock nrec 0)))
  else if f.format = XFS_INODE_FORMAT_EXT then
    if f.dataSize < 16 * f.nextents then some (.error ⟨.badFs, "invalid number of XFS extents"⟩)
    else some (.ok (f.fsbToBlock (xfsFindRecord f.fork fileblock f.nextents 0)))
  else some (.error ⟨.notImplementedYet,
    "XFS does not support inode format " ++ toString f.format ++ " yet"⟩)

/-- `grub_xfs_read_file` without a header. -/
def grubXfsReadFile (f : XfsFile) (rounds pos len : ℕ) : Option (Except GrubError (List UInt8)) :=
  grubFshelpReadFile f.volume (grubXfsReadBlock f rounds) f.maxRead f.size (f.log2Bsize - 9) pos len

/-! ### Mapping -/

/-- The body of the loop of `grub_xfs_map_records`: record `i` is handed over. -/
def xfsMapRecord (f : XfsFile) (exts : Buf) (i : ℕ) (ctx : FileMapContext) (pos : ℕ) :
    Except GrubError (FileMapContext × ℕ) :=
  let start := xfsMapOffset exts i
  let len := xfsExtentSize exts i
  let physical := f.fsbToBlock (xfsExtentBlock exts i)
  if len = 0 ∨ f.lastBlock < start ∨ f.lastBlock - start < len ∨ f.lastBlock < physical then
    .error ⟨.badFs, "invalid XFS map extent"⟩
  else if start * f.bsize < pos then .error ⟨.badFs, "overlapping XFS extents"⟩
  else
    match (if pos < start * f.bsize then grubFileMapSimple ctx pos (start * f.bsize - pos)
        (GRUB_FILE_MAP_ZERO + GRUB_FILE_MAP_HOLE) 0
      else .ok ctx) with
    | .error e => .error e
    | .ok ctx =>
      match grubFileMapSimple ctx (start * f.bsize) (len * f.bsize)
        (if xfsUnwritten exts i then GRUB_FILE_MAP_ZERO + GRUB_FILE_MAP_UNWRITTEN
          else GRUB_FILE_MAP_DIRECT) (physical * f.bsize) with
      | .error e => .error e
      | .ok ctx => .ok (ctx, start * f.bsize + len * f.bsize)

/-- The loop of `grub_xfs_map_records` over `n` records from record `i` on. -/
def grubXfsMapRecords (f : XfsFile) (exts : Buf) :
    ℕ → ℕ → FileMapContext → ℕ → Except GrubError (FileMapContext × ℕ)
  | 0, _, ctx, pos => .ok (ctx, pos)
  | n + 1, i, ctx, pos =>
    if ctx.stop ≤ pos then .ok (ctx, pos)
    else
      match xfsMapRecord f exts i ctx pos with
      | .error e => .error e
      | .ok (ctx, pos) => grubXfsMapRecords f exts n (i + 1) ctx pos

/-- The loop of `grub_xfs_map_node` over `n` children from child `i` on; `child` maps what is below. -/
def xfsMapChildren (f : XfsFile) (keys : Buf) (capacity level : ℕ)
    (child : Buf → ℕ → FileMapContext → ℕ → Except GrubError (FileMapContext × ℕ)) :
    ℕ → ℕ → FileMapContext → ℕ → Except GrubError (FileMapContext × ℕ)
  | 0, _, ctx, pos => .ok (ctx, pos)
  | n + 1, i, ctx, pos =>
    if ctx.stop ≤ pos then .ok (ctx, pos)
    else
      let block := xfsFsb keys (capacity + i)
      if f.lastBlock < f.fsbToBlock block then .error ⟨.badFs, "invalid XFS map child"⟩
      else
        let node := f.node block
        if xfsMagic f node = false ∨ lostBe16 node 4 ≠ level then
          .error ⟨.badFs, "invalid XFS map child"⟩
        else
          match child (node.from f.header) (lostBe16 node 6) ctx pos with
          | .error e => .error e
          | .ok (ctx, pos) => xfsMapChildren f keys capacity level child n (i + 1) ctx pos

/-- `grub_xfs_map_node`. -/
def grubXfsMapNode (f : XfsFile) : ℕ → ℕ → Buf → ℕ → FileMapContext → ℕ →
    Except GrubError (FileMapContext × ℕ)
  | 0, bytes, keys, n, ctx, pos =>
    if n = 0 ∨ bytes / 16 < n then .error ⟨.badFs, "invalid XFS map tree"⟩
    else grubXfsMapRecords f keys n 0 ctx pos
  | level + 1, bytes, keys, n, ctx, pos =>
    if 16 < level + 1 ∨ n = 0 ∨ bytes / 16 < n then .error ⟨.badFs, "invalid XFS map tree"⟩
    else xfsMapChildren f keys (bytes / 16) level (grubXfsMapNode f level (f.bsize - f.header)) n 0 ctx
      pos

/-- The bytes of the data fork. -/
def xfsForkBytes (f : XfsFile) : ℕ :=
  if f.forkOffset ≠ 0 then f.forkOffset * 8 else sub64 (2 ^ f.log2Inode) f.forkStart

/-- `grub_xfs_map`. -/
def grubXfsMap (f : XfsFile) (ctx : FileMapContext) : Except GrubError FileMapContext :=
  if f.flags % 2 = 1 then grubFileMapSimple ctx 0 f.size GRUB_FILE_MAP_UNKNOWN 0
  else if f.forkOffset ≠ 0 ∧ sub64 (2 ^ f.log2Inode) f.forkStart < f.forkOffset * 8 then
    .error ⟨.badFs, "invalid XFS fork size"⟩
  else
    let finish := fun (r : FileMapContext × ℕ) =>
      if r.2 < r.1.stop then
        grubFileMapSimple r.1 r.2 (r.1.stop - r.2) (GRUB_FILE_MAP_ZERO + GRUB_FILE_MAP_HOLE) 0
      else .ok r.1
    if f.format = XFS_INODE_FORMAT_EXT then
      if xfsForkBytes f / 16 < f.nextents then .error ⟨.badFs, "invalid XFS extent count"⟩
      else
        match grubXfsMapRecords f f.fork f.nextents 0 ctx 0 with
        | .error e => .error e
        | .ok r => finish r
    else if f.format = XFS_INODE_FORMAT_BTREE then
      if xfsForkBytes f < 4 then .error ⟨.badFs, "short XFS root"⟩
      else
        match grubXfsMapNode f (lostBe16 f.fork 0) (xfsForkBytes f - 4) (f.fork.from 4)
          (lostBe16 f.fork 2) ctx 0 with
        | .error e => .error e
        | .ok r => finish r
    else grubFileMapSimple ctx 0 f.size GRUB_FILE_MAP_UNKNOWN 0

end FsRover
