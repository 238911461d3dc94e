import FsRover.Fs.FileMap
import FsRover.Fs.FshelpRead
import FsRover.Lib.KeyIndex

/-!
# Files of ext2, ext3 and ext4

Where the blocks of a file are, looked up one by one for a read, and walked through once for a map of
the file: by the pointers of the inode and of up to three levels of blocks, or by a tree of extents.

## Main definitions

* `FsRover.Ext2File` : the file, and what the volume holds.
-/

namespace FsRover

def EXT4_EXT_MAGIC : ℕ := 0xf30a
def EXT4_ENCRYPT_FLAG : ℕ := 0x800
def EXT4_EXTENTS_FLAG : ℕ := 0x80000
def EXT2_INDIRECT_BLOCKS : ℕ := 12

/-- An opened file: `log2_block_size` of the superblock, the flags, the size and the area of the
block pointers in the inode, and the volume. -/
structure Ext2File where
  log2BlockSize : ℕ
  flags : ℕ
  size : ℕ
  blocks : Buf
  volume : Buf
  maxRead : ℕ

namespace Ext2File

variable (f : Ext2File)

/-- `EXT2_BLOCK_SIZE`. -/
def blockSize : ℕ := 2 ^ (f.log2BlockSize + 1) * 512

/-- What a block of the volume holds. -/
def block (n : ℕ) : Buf := f.volume.from (u64 (n * 2 ^ (f.log2BlockSize + 1)) * 512)

/-- The file has the flag. -/
def has (flag : ℕ) : Bool := f.flags &&& flag ≠ 0

end Ext2File

/-! ### Extents -/

/-- `entries` of a `struct grub_ext4_extent_header`. -/
def extEntries (node : Buf) : ℕ := lostLe16 node 2

/-- `block` of an index or an extent. -/
def extKey (node : Buf) (i : ℕ) : ℕ := lostLe32 node (12 + 12 * i)

/-- The block that an index points at. -/
def extChild (node : Buf) (i : ℕ) : ℕ :=
  lostLe16 node (12 + 12 * i + 8) * 2 ^ 32 + lostLe32 node (12 + 12 * i + 4)

/-- `len` of an extent. -/
def extRaw (node : Buf) (i : ℕ) : ℕ := lostLe16 node (12 + 12 * i + 4)

/-- The first block of an extent on the volume. -/
def extStart (node : Buf) (i : ℕ) : ℕ :=
  lostLe16 node (12 + 12 * i + 6) * 2 ^ 32 + lostLe32 node (12 + 12 * i + 8)

/-- The loops over the entries of a node: the first of `n` entries from `i` on that is behind the
block. -/
def extFind (node : Buf) (fileblock n i : ℕ) : ℕ := KeyIndex.firstAbove (extKey node) fileblock n i

/-- `grub_ext4_find_leaf` from a node on: the leaf, if there is one, and whether it is the root. -/
def grubExt4FindLeaf (f : Ext2File) (fileblock : ℕ) :
    ℕ → Buf → Bool → Option (Except Unit (Option (Buf × Bool)))
  | 0, _, _ => none
  | rounds + 1, node, inline =>
    if lostLe16 node 0 ≠ EXT4_EXT_MAGIC then some (.error ())
    else if lostLe16 node 6 = 0 then some (.ok (some (node, inline)))
    else
      match extFind node fileblock (extEntries node) 0 with
      | 0 => some (.ok none)
      | i + 1 => grubExt4FindLeaf f fileblock rounds (f.block (extChild node i)) false

/-- `max_inline_ext` or `max_external_ext`. -/
def extLimit (f : Ext2File) (inline : Bool) : ℕ :=
  if inline then 60 / 12 - 1 else (f.blockSize / 12 - 1) % 2 ^ 16

/-- The block that a leaf gives. -/
def extLeafBlock (f : Ext2File) (leaf : Buf) (inline : Bool) (fileblock : ℕ) : ℕ :=
  match extFind leaf fileblock (min (extEntries leaf) (extLimit f inline)) 0 with
  | 0 => 0
  | i + 1 =>
    if extRaw leaf i ≤ fileblock - extKey leaf i then 0
    else fileblock - extKey leaf i + extStart leaf i

/-! ### Pointers -/

/-- The loop of `grub_ext2_read_block` through blocks of pointers. -/
def ext2Indirect (f : Ext2File) (fileblock : ℕ) : ℕ → ℕ → ℕ
  | 0, indir =>
    if indir = 0 then 0
    else lostLe32 (f.block indir) (fileblock % 2 ^ (f.log2BlockSize + 8) * 4)
  | shift + 1, indir =>
    if indir = 0 then 0
    else ext2Indirect f fileblock shift (lostLe32 (f.block indir)
      (fileblock / 2 ^ ((f.log2BlockSize + 8) * (shift + 1)) % 2 ^ (f.log2BlockSize + 8) * 4))

/-- `grub_ext2_read_block`. -/
def grubExt2ReadBlock (f : Ext2File) (rounds fileblock : ℕ) : Option (Except GrubError ℕ) :=
  if f.has EXT4_EXTENTS_FLAG then
    match grubExt4FindLeaf f (fileblock % 2 ^ 32) rounds f.blocks true with
    | none => none
    | some (.error _) => some (.error ⟨.badFs, "invalid extent"⟩)
    | some (.ok none) => some (.ok 0)
    | some (.ok (some (leaf, inline))) => some (.ok (extLeafBlock f leaf inline fileblock))
  else
    let quarter := f.blockSize / 4
    if fileblock < EXT2_INDIRECT_BLOCKS then some (.ok (lostLe32 f.blocks (4 * fileblock)))
    else
      let fileblock := fileblock - EXT2_INDIRECT_BLOCKS
      if fileblock < quarter then some (.ok (ext2Indirect f fileblock 0 (lostLe32 f.blocks 48)))
      else
        let fileblock := fileblock - quarter
        if fileblock < quarter * quarter then
          some (.ok (ext2Indirect f fileblock 1 (lostLe32 f.blocks 52)))
        else
          let fileblock := fileblock - quarter * quarter
          if fileblock < u64 (quarter * quarter * (quarter + 1)) then
            some (.ok (ext2Indirect f fileblock 2 (lostLe32 f.blocks 56)))
          else some (.error ⟨.badFs, "ext2fs doesn't support quadruple indirect blocks"⟩)

/-- `grub_ext2_read_file`. -/
def grubExt2ReadFile (f : Ext2File) (rounds pos len : ℕ) :
    Option (Except GrubError (List UInt8)) :=
  grubFshelpReadFile f.volume (grubExt2ReadBlock f rounds) f.maxRead f.size (f.log2BlockSize + 1) pos
    len

/-! ### Mapping -/

/-- The loop of `grub_ext_map_tree` over `k` entries of a leaf of `n` from entry `i` on. -/
def extMapLeaf (f : Ext2File) (node : Buf) :
    ℕ → ℕ → ℕ → FileMapContext → ℕ → Except GrubError (FileMapContext × ℕ)
  | 0, _, _, ctx, last => .ok (ctx, last)
  | k + 1, i, prev, ctx, last =>
    if ctx.stop ≤ last then .ok (ctx, last)
    else
      let start := extKey node i * f.blockSize
      if i ≠ 0 ∧ start ≤ prev then .error ⟨.badFs, "unordered ext extent keys"⟩
      else
        let raw := extRaw node i
        let flags := if 32768 < raw then GRUB_FILE_MAP_ZERO + GRUB_FILE_MAP_UNWRITTEN
          else GRUB_FILE_MAP_DIRECT
        let length := (if 32768 < raw then raw - 32768 else raw) * f.blockSize
        if length = 0 ∨ start < last then .error ⟨.badFs, "invalid ext extent"⟩
        else
          match (if last < start then
              grubFileMapSimple ctx last (start - last) (GRUB_FILE_MAP_ZERO + GRUB_FILE_MAP_HOLE) 0
            else .ok ctx) with
          | .error e => .error e
          | .ok ctx =>
            match grubFileMapSimple ctx start length flags
              (u64 (extStart node i * f.blockSize)) with
            | .error e => .error e
            | .ok ctx => extMapLeaf f node k (i + 1) start ctx (start + length)

/-- The loop of `grub_ext_map_tree` over `k` entries of an index of `n` from entry `i` on; `child`
maps what is below. -/
def extMapIndex (f : Ext2File) (node : Buf)
    (child : Buf → FileMapContext → ℕ → Except GrubError (FileMapContext × ℕ)) :
    ℕ → ℕ → ℕ → FileMapContext → ℕ → Except GrubError (FileMapContext × ℕ)
  | 0, _, _, ctx, last => .ok (ctx, last)
  | k + 1, i, prev, ctx, last =>
    if ctx.stop ≤ last then .ok (ctx, last)
    else
      let start := extKey node i * f.blockSize
      if i ≠ 0 ∧ start ≤ prev then .error ⟨.badFs, "unordered ext extent keys"⟩
      else if k ≠ 0 ∧ extKey node (i + 1) * f.blockSize ≤ ctx.start then
        extMapIndex f node child k (i + 1) start ctx last
      else if extChild node i = 0 then .error ⟨.badFs, "null ext tree block"⟩
      else
        match child (f.block (extChild node i)) ctx last with
        | .error e => .error e
        | .ok (ctx, last) => extMapIndex f node child k (i + 1) start ctx last

/-- The check of a node in `grub_ext_map_tree`. -/
def extNodeBad (node : Buf) (bytes depth : ℕ) : Bool :=
  5 < depth ∨ lostLe16 node 6 ≠ depth ∨ lostLe16 node 0 ≠ EXT4_EXT_MAGIC ∨ bytes < 12
    ∨ (bytes - 12) / 12 < extEntries node ∨ lostLe16 node 4 < extEntries node

/-- `grub_ext_map_tree`. -/
def grubExtMapTree (f : Ext2File) :
    ℕ → ℕ → Buf → FileMapContext → ℕ → Except GrubError (FileMapContext × ℕ)
  | 0, bytes, node, ctx, last =>
    if extNodeBad node bytes 0 then .error ⟨.badFs, "invalid ext extent node"⟩
    else extMapLeaf f node (extEntries node) 0 0 ctx last
  | depth + 1, bytes, node, ctx, last =>
    if extNodeBad node bytes (depth + 1) then .error ⟨.badFs, "invalid ext extent node"⟩
    else extMapIndex f node (grubExtMapTree f depth f.blockSize) (extEntries node) 0 0 ctx last

/-- The loop of `grub_ext_map_indirect` over `k` pointers of a block from pointer `i` on. -/
def extMapPointers (node : Buf) (step : ℕ)
    (child : FileMapContext → ℕ → ℕ → Except GrubError FileMapContext) :
    ℕ → ℕ → FileMapContext → ℕ → Except GrubError FileMapContext
  | 0, _, ctx, _ => .ok ctx
  | k + 1, i, ctx, pos =>
    if ctx.stop ≤ pos then .ok ctx
    else
      match child ctx (lostLe32 node (4 * i)) pos with
      | .error e => .error e
      | .ok ctx => extMapPointers node step child k (i + 1) ctx (u64 (pos + step))

/-- `grub_ext_map_indirect`. -/
def grubExtMapIndirect (f : Ext2File) :
    ℕ → ℕ → FileMapContext → ℕ → ℕ → Except GrubError FileMapContext
  | 0, span, ctx, block, pos =>
    if ctx.stop ≤ pos ∨ u64 (pos + span) ≤ ctx.start then .ok ctx
    else grubFileMapSimple ctx pos span (if block ≠ 0 then GRUB_FILE_MAP_DIRECT
      else GRUB_FILE_MAP_ZERO + GRUB_FILE_MAP_HOLE) (block * f.blockSize)
  | depth + 1, span, ctx, block, pos =>
    if ctx.stop ≤ pos ∨ u64 (pos + span) ≤ ctx.start then .ok ctx
    else if block = 0 then
      grubFileMapSimple ctx pos span (GRUB_FILE_MAP_ZERO + GRUB_FILE_MAP_HOLE) 0
    else
      let step := span / (f.blockSize / 4)
      extMapPointers (f.block block) step (grubExtMapIndirect f depth step) (f.blockSize / 4) 0 ctx
        pos

/-- The loop of `grub_ext2_map` over `k` levels of indirection from level `i` on. -/
def ext2MapLevels (f : Ext2File) : ℕ → ℕ → ℕ → FileMapContext → ℕ → Except GrubError FileMapContext
  | 0, _, _, ctx, _ => .ok ctx
  | k + 1, i, span, ctx, pos =>
    if ctx.stop ≤ pos then .ok ctx
    else
      let span := u64 (span * (f.blockSize / 4))
      match grubExtMapIndirect f i span ctx (lostLe32 f.blocks (44 + 4 * i)) pos with
      | .error e => .error e
      | .ok ctx => ext2MapLevels f k (i + 1) span ctx (u64 (pos + span))

/-- The loop of `grub_ext2_map` over `k` of the direct blocks from block `i` on. -/
def ext2MapDirect (f : Ext2File) : ℕ → ℕ → FileMapContext → ℕ → Except GrubError (FileMapContext × ℕ)
  | 0, _, ctx, pos => .ok (ctx, pos)
  | k + 1, i, ctx, pos =>
    if ctx.stop ≤ pos then .ok (ctx, pos)
    else
      match grubExtMapIndirect f 0 f.blockSize ctx (lostLe32 f.blocks (4 * i)) pos with
      | .error e => .error e
      | .ok ctx => ext2MapDirect f k (i + 1) ctx (pos + f.blockSize)

/-- `grub_ext2_map`. -/
def grubExt2Map (f : Ext2File) (ctx : FileMapContext) : Except GrubError FileMapContext :=
  if f.has 0x10000000 then grubFileMapSimple ctx 0 f.size GRUB_FILE_MAP_INLINE 0
  else if f.has (EXT4_ENCRYPT_FLAG + 4) then
    grubFileMapSimple ctx 0 f.size (GRUB_FILE_MAP_UNKNOWN + GRUB_FILE_MAP_TRANSFORMED
      + if f.has 4 then GRUB_FILE_MAP_COMPRESSED else 0) 0
  else if f.has EXT4_EXTENTS_FLAG then
    match grubExtMapTree f (lostLe16 f.blocks 6) 60 f.blocks ctx 0 with
    | .error e => .error e
    | .ok (ctx, pos) =>
      if pos < ctx.stop then
        grubFileMapSimple ctx pos (ctx.stop - pos) (GRUB_FILE_MAP_ZERO + GRUB_FILE_MAP_HOLE) 0
      else .ok ctx
  else
    match ext2MapDirect f EXT2_INDIRECT_BLOCKS 0 ctx 0 with
    | .error e => .error e
    | .ok (ctx, pos) => ext2MapLevels f 3 1 f.blockSize ctx pos

end FsRover
