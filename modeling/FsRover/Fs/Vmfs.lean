import FsRover.Grub
import FsRover.Lib.Outcome

/-!
# Reads of VMFS

Blocks of a file are named by the slots of its inode, by pointer blocks, or lie in sub-blocks. The
pointer blocks and the sub-blocks are items of meta files that are read in the same way, so a read
calls itself; here the depth of the calls is bounded by a number. The volume is what
`grub_vmfs_dev_read` returns.

## Main definitions

* `FsRover.vmfsItemPos`, `FsRover.vmfsGetItem` : items of a meta file.
* `FsRover.vmfsBitmapOpen`, `FsRover.VmfsMounting` : the header of a meta file, and the states in
  the course of a mount.
-/

namespace FsRover

open Outcome

/-! ### Data -/

/-- The fields of `struct grub_vmfs_layout` that the reads use. -/
structure VmfsLayout where
  v6 : Bool
  hbEnd : ℕ
  bmeSize : ℕ
  mdhSize : ℕ
  inodeSize : ℕ
  unionOfs : ℕ
  unionLen : ℕ
  blkOfs : ℕ
  blkCount : ℕ
  blkBytes : ℕ

/-- `grub_vmfs_layout_v5`. -/
def vmfsLayoutV5 : VmfsLayout where
  v6 := false
  hbEnd := 0x400000
  bmeSize := 0x400
  mdhSize := 512
  inodeSize := 0x800
  unionOfs := 1024
  unionLen := 1024
  blkOfs := 0
  blkCount := 256
  blkBytes := 4

/-- `grub_vmfs_layout_v6`. -/
def vmfsLayoutV6 : VmfsLayout where
  v6 := true
  hbEnd := 0x700000
  bmeSize := 0x2000
  mdhSize := 4096
  inodeSize := 0x2000
  unionOfs := 4608
  unionLen := 3584
  blkOfs := 1024
  blkCount := 320
  blkBytes := 8

/-- `VMFS_INODE_UNION_MAX`, the size of the array `blocks` of a node. -/
def VMFS_INODE_UNION_MAX : ℕ := 3584

/-- `struct grub_fshelp_node`. -/
structure VmfsNode where
  id : ℕ
  type : ℕ
  mode : ℕ
  zla : ℕ
  size : ℕ
  blkSize : ℕ
  blocks : Buf

/-- `zla` without the bias of VMFS5. -/
def VmfsNode.layoutType (node : VmfsNode) : ℕ :=
  if 4301 ≤ node.zla then node.zla - 4301 else node.zla

/-- `struct grub_vmfs_bitmap`. -/
structure VmfsBitmap where
  inode : VmfsNode
  itemsPerEntry : ℕ
  entriesPerArea : ℕ
  hdrSize : ℕ
  dataSize : ℕ
  areaSize : ℕ
  totalItems : ℕ
  areaCount : ℕ

/-- `struct grub_vmfs_data`; the three bitmaps after the first are there once they are opened. -/
structure VmfsData where
  layout : VmfsLayout
  blocksize : ℕ
  volume : ℕ → ℕ → Except GrubError Buf
  fdc : VmfsBitmap
  pbc : Option VmfsBitmap
  sbc : Option VmfsBitmap
  pb2 : Option VmfsBitmap

abbrev VmfsRead := Outcome GrubError (List UInt8)

/-- `grub_vmfs_dev_read`. -/
def vmfsDevRead (data : VmfsData) (pos len : ℕ) : VmfsRead :=
  ofExcept ((data.volume pos len).map fun p => p.list 0 len)

def vmfsBad (message : String) : GrubError := ⟨.badFs, "vmfs: " ++ message⟩

/-! ### Block identifiers -/

/-- `VMFS_BLK_TYPE`. -/
def vmfsBlkType (id : ℕ) : ℕ := id % 8

/-- `vmfs_blk_fb_item`. -/
def vmfsFbItem (layout : VmfsLayout) (id : ℕ) : ℕ :=
  if layout.v6 then id / 2 ^ 51 % 2 ^ 9 + 2 ^ 9 * (id / 2 ^ 15 % 2 ^ 17)
  else id % 2 ^ 32 / 2 ^ 6

/-- `vmfs_blk_sb_entry`. -/
def vmfsSbEntry (layout : VmfsLayout) (id : ℕ) : ℕ :=
  if layout.v6 then id / 2 ^ 6 % 2 ^ 8 else id % 2 ^ 28 / 2 ^ 6

/-- `vmfs_blk_sb_item`. -/
def vmfsSbItem (layout : VmfsLayout) (id : ℕ) : ℕ :=
  if layout.v6 then id / 2 ^ 56 % 2 ^ 8 + 2 ^ 8 * (id / 2 ^ 14 % 2 ^ 4)
  else id / 2 ^ 28 % 2 ^ 4 + 2 ^ 4 * (id / 2 ^ 3 % 2 ^ 2)

/-- `vmfs_get_blk`, at an index inside the buffer. -/
def vmfsGetBlk (layout : VmfsLayout) (buf : List UInt8) (index : ℕ) : Outcome GrubError ℕ :=
  let p : Buf := fun i => buf.getD i 0
  inside (layout.blkBytes * (index + 1) ≤ buf.length)
    (if layout.blkBytes = 8 then lostLe64 p (8 * index) else lostLe32 p (4 * index))

/-- `vmfs_get64`, at an index inside the buffer. -/
def vmfsGet64 (buf : List UInt8) (off : ℕ) : Outcome GrubError ℕ :=
  inside (off + 8 ≤ buf.length) (lostLe64 (fun i => buf.getD i 0) off)

/-- A block slot of an inode. -/
def vmfsSlot (layout : VmfsLayout) (node : VmfsNode) (index : ℕ) : Outcome GrubError ℕ :=
  inside (index < layout.blkCount
      ∧ layout.blkOfs + layout.blkBytes * (index + 1) ≤ VMFS_INODE_UNION_MAX)
    (if layout.blkBytes = 8 then lostLe64 node.blocks (layout.blkOfs + 8 * index)
      else lostLe32 node.blocks (layout.blkOfs + 4 * index))

/-! ### Items -/

/-- `grub_vmfs_item_pos`. The division is a fault if there are no items. -/
def vmfsItemPos (layout : VmfsLayout) (bmp : VmfsBitmap) (entry item : ℕ) :
    Outcome GrubError ℕ := do
  let itemsPerArea := bmp.entriesPerArea * bmp.itemsPerEntry
  let addr := entry * bmp.itemsPerEntry + item
  let area ← inside (0 < itemsPerArea) (addr / itemsPerArea)
  if bmp.totalItems ≤ addr ∨ bmp.areaCount ≤ area then
    failed (vmfsBad "bitmap item is out of range")
  else
    done (u64 (bmp.hdrSize + area * bmp.areaSize + bmp.entriesPerArea * layout.bmeSize
      + addr % itemsPerArea * bmp.dataSize))

/-- How the blocks of an inode are found: `zla` without the bias of VMFS5, with the bitmap of the
pointer blocks. -/
inductive VmfsPath
  | direct
  | pointer (pbc : VmfsBitmap)
  | subPointer (sbc : VmfsBitmap)
  | double (sbc : VmfsBitmap)
  | second (pb2 : VmfsBitmap)
  | inline

/-- How `grub_vmfs_read_file` finds the blocks of an inode, if the meta file for it is opened. -/
def vmfsPath (data : VmfsData) (node : VmfsNode) : Except GrubError VmfsPath :=
  match node.layoutType with
  | 1 => .ok .direct
  | 2 =>
    match data.sbc with
    | none => .error (vmfsBad "sub-block bitmap is unavailable")
    | some _ => .ok .direct
  | 3 =>
    match (if data.layout.v6 then data.sbc else data.pbc) with
    | none => .error (vmfsBad "pointer block bitmap is unavailable")
    | some bmp =>
      if data.layout.v6 then .ok (if 4301 ≤ node.zla then .double bmp else .subPointer bmp)
      else .ok (.pointer bmp)
  | 5 =>
    match data.pb2 with
    | none => .error (vmfsBad "2nd level pointer block bitmap is unavailable")
    | some bmp => .ok (.second bmp)
  | type =>
    if type = 4 ∧ 4301 ≤ node.zla then .ok .inline
    else .error (vmfsBad ("unsupported inode layout " ++ toString node.zla))

/-- The type of a block in `grub_vmfs_read_file`. -/
def vmfsLeafType (path : VmfsPath) (id : ℕ) : ℕ :=
  match path with
  | .inline => 4
  | _ => if vmfsBlkType id = 1 ∧ id.testBit 5 then 0 else vmfsBlkType id

/-- The branch of `grub_vmfs_read_file` for data in the inode itself. -/
def vmfsReadInline (layout : VmfsLayout) (path : VmfsPath) (node : VmfsNode) (pos len : ℕ) :
    VmfsRead :=
  match path with
  | .inline =>
    if layout.unionLen ≤ pos then failed (vmfsBad "unexpected file descriptor")
    else
      let take := min (layout.unionLen - pos) len
      inside (pos + take ≤ VMFS_INODE_UNION_MAX) (node.blocks.list pos take)
  | _ => failed (vmfsBad "unexpected file descriptor")

section Read

variable (read : VmfsNode → ℕ → ℕ → VmfsRead) (data : VmfsData)

/-- `grub_vmfs_get_item` into a buffer of `room` bytes. -/
def vmfsGetItem (bmp : VmfsBitmap) (entry item room : ℕ) : VmfsRead := do
  let pos ← vmfsItemPos data.layout bmp entry item
  let _ ← inside (bmp.dataSize ≤ room) ()
  read bmp.inode pos bmp.dataSize

/-- The sub-block with that identifier. -/
def vmfsGetSub (sbc : VmfsBitmap) (id room : ℕ) : VmfsRead :=
  vmfsGetItem read data sbc (vmfsSbEntry data.layout id) (vmfsSbItem data.layout id) room

/-- `grub_vmfs_get_block_2`. -/
def vmfsGetBlock2 (sbc : VmfsBitmap) (node : VmfsNode) (blkIndex room : ℕ) :
    Outcome GrubError ℕ := do
  let perPb := sbc.dataSize / 8
  let primary ← inside (0 < perPb) (blkIndex / (perPb * perPb))
  let rest := blkIndex % (perPb * perPb)
  if data.layout.blkCount ≤ primary then failed (vmfsBad "pointer block index out of range")
  else
    let id ← vmfsSlot data.layout node primary
    if id = 0 then done 0
    else
      let pb ← vmfsGetSub read data sbc id room
      let id ← vmfsGet64 pb (8 * (rest / perPb))
      if id = 0 then done 0
      else
        let pb ← vmfsGetSub read data sbc id room
        vmfsGet64 pb (8 * (rest % perPb))

/-- The part of `grub_vmfs_get_block` for one level of pointer blocks, which are items of `bmp`;
`item` fetches one by its identifier. -/
def vmfsGetPointer (bmp : VmfsBitmap) (item : ℕ → VmfsRead) (node : VmfsNode) (blkIndex : ℕ) :
    Outcome GrubError ℕ := do
  let perPb := bmp.dataSize / data.layout.blkBytes
  let pbIndex ← inside (0 < perPb) (blkIndex / perPb)
  if data.layout.blkCount ≤ pbIndex then failed (vmfsBad "pointer block index out of range")
  else
    let id ← vmfsSlot data.layout node pbIndex
    if id = 0 then done 0
    else
      let pb ← item id
      vmfsGetBlk data.layout pb (blkIndex % perPb)

/-- `grub_vmfs_get_block`, with a buffer as large as the pointer blocks. -/
def vmfsGetBlock (path : VmfsPath) (node : VmfsNode) (pos : ℕ) : Outcome GrubError ℕ := do
  let blkIndex ← inside (0 < node.blkSize) (pos / node.blkSize)
  match path with
  | .direct =>
    if data.layout.blkCount ≤ blkIndex then failed (vmfsBad "block index out of range")
    else vmfsSlot data.layout node blkIndex
  | .double sbc => vmfsGetBlock2 read data sbc node blkIndex sbc.dataSize
  | .subPointer sbc =>
    vmfsGetPointer data sbc (fun id => vmfsGetSub read data sbc id sbc.dataSize) node blkIndex
  | .pointer pbc =>
    vmfsGetPointer data pbc (fun id =>
      if vmfsBlkType id ≠ 3 then failed (vmfsBad "bad pointer block")
      else vmfsGetItem read data pbc (id / 2 ^ 6 % 2 ^ 22) (id / 2 ^ 28 % 2 ^ 4) pbc.dataSize)
      node blkIndex
  | .second pb2 =>
    vmfsGetPointer data pb2 (fun id =>
      vmfsGetItem read data pb2 (id / 2 ^ 6 % 2 ^ 21) (id / 2 ^ 27 % 2 ^ 5) pb2.dataSize)
      node blkIndex
  | .inline => done node.id

/-- One round of the loop of `grub_vmfs_read_file`: the bytes from `pos` on that one block has. -/
def vmfsReadBlock (path : VmfsPath) (node : VmfsNode) (pos len : ℕ) : VmfsRead := do
  let id ← vmfsGetBlock read data path node pos
  let fileBlock (size : ℕ) : VmfsRead :=
    vmfsDevRead data (u64 (vmfsFbItem data.layout id * data.blocksize + pos % size))
      (min (size - pos % size) len)
  match vmfsLeafType path id with
  | 0 => done (List.replicate (min (node.blkSize - pos % node.blkSize) len) 0)
  | 1 => fileBlock data.blocksize
  | 5 => fileBlock data.blocksize
  | 7 => fileBlock (2 ^ 29)
  | 2 =>
    match data.sbc with
    | none => failed (vmfsBad "unexpected sub-block")
    | some sbc => do
      let off ← inside (0 < sbc.dataSize) (pos % sbc.dataSize)
      let sb ← vmfsGetSub read data sbc id sbc.dataSize
      let take := min (sbc.dataSize - off) len
      inside (off + take ≤ sb.length) ((sb.drop off).take take)
  | 4 => vmfsReadInline data.layout path node pos len
  | type => failed (vmfsBad ("unknown block type " ++ toString type))

/-- The loop of `grub_vmfs_read_file`. Each round reads a byte at least, so there are no more than
`len` of them. -/
def vmfsReadLoop (path : VmfsPath) (node : VmfsNode) : ℕ → ℕ → ℕ → VmfsRead
  | 0, _, _ => done []
  | rounds + 1, pos, len =>
    if len = 0 then done []
    else do
      let bytes ← vmfsReadBlock read data path node pos len
      let rest ← vmfsReadLoop path node rounds (pos + bytes.length) (len - bytes.length)
      done (bytes ++ rest)

/-- `grub_vmfs_read_file`, whose calls of itself are `read`. -/
def vmfsReadStep (node : VmfsNode) (pos len : ℕ) : VmfsRead :=
  if node.type = 6 then
    failed ⟨.notImplementedYet, "vmfs: raw device mappings are not supported"⟩
  else if node.blkSize = 0 then failed (vmfsBad "inode has no block size")
  else if node.size < pos ∨ node.size - pos < len then
    failed ⟨.outOfRange, "read past end of file"⟩
  else if len = 0 then done []
  else do
    let path ← ofExcept (vmfsPath data node)
    vmfsReadLoop read data path node len pos len

end Read

/-- `grub_vmfs_read_file` with calls of itself to a depth below `depth`. -/
def vmfsReadFile (data : VmfsData) : ℕ → VmfsNode → ℕ → ℕ → VmfsRead
  | 0 => fun _ _ _ => deep
  | depth + 1 => vmfsReadStep (vmfsReadFile data depth) data

/-- The node that `grub_vmfs_read_inode` fills from the bytes of an inode. -/
def vmfsInode (layout : VmfsLayout) (p : Buf) : VmfsNode where
  id := lostLe32 p layout.mdhSize
  type := lostLe32 p (layout.mdhSize + 12)
  mode := lostLe32 p (layout.mdhSize + 64)
  zla := lostLe32 p (layout.mdhSize + 68)
  size := lostLe64 p (layout.mdhSize + 20)
  blkSize := lostLe64 p (layout.mdhSize + 28)
  blocks := fun i => if i < layout.unionLen then p (layout.unionOfs + i) else 0

/-- `grub_vmfs_read_inode`. -/
def vmfsReadInode (data : VmfsData) (depth blkId : ℕ) : Outcome GrubError VmfsNode :=
  let l := data.layout
  if vmfsBlkType blkId ≠ 4 then failed (vmfsBad "not a file descriptor")
  else if data.fdc.dataSize < l.inodeSize then failed (vmfsBad "file descriptors are too small")
  else do
    let pos ← vmfsItemPos l data.fdc (blkId / 2 ^ 6 % 2 ^ 16) (blkId / 2 ^ 22 % 2 ^ 10)
    let raw ← vmfsReadFile data depth data.fdc.inode pos l.inodeSize
    let p : Buf := fun i => raw.getD i 0
    let _ ← inside (l.mdhSize + 72 ≤ raw.length ∧ l.unionOfs + l.unionLen ≤ raw.length
      ∧ l.unionLen ≤ VMFS_INODE_UNION_MAX) ()
    if lostLe32 p 0 ≠ 0x10c00001 then failed (vmfsBad "bad inode magic")
    else done (vmfsInode l p)

/-! ### Mounting -/

/-- `grub_vmfs_bitmap_open`. -/
def vmfsBitmapOpen (data : VmfsData) (depth : ℕ) (inode : VmfsNode) :
    Outcome GrubError VmfsBitmap := do
  let hdr ← vmfsReadFile data depth inode 0 512
  let p : Buf := fun i => hdr.getD i 0
  let bmp : VmfsBitmap := {
    inode
    itemsPerEntry := lostLe32 p 0
    entriesPerArea := lostLe32 p 4
    hdrSize := lostLe32 p 8
    dataSize := lostLe32 p 12
    areaSize := lostLe32 p 16
    totalItems := lostLe32 p 20
    areaCount := lostLe32 p 24 }
  if bmp.itemsPerEntry = 0 ∨ bmp.entriesPerArea = 0 ∨ bmp.dataSize < data.layout.blkBytes then
    failed (vmfsBad "bad bitmap header")
  else done bmp

/-- The synthetic inode of `.fdc.sf` in `grub_vmfs_mount`. -/
def vmfsBootInode (layout : VmfsLayout) (blocksize : ℕ) : VmfsNode where
  id := 0
  type := 5
  mode := 0
  zla := 1
  size := blocksize
  blkSize := blocksize
  blocks :=
    let base := max 1 (layout.hbEnd / blocksize)
    let slot :=
      if layout.v6 then base % 2 ^ 9 * 2 ^ 51 + base / 2 ^ 9 % 2 ^ 17 * 2 ^ 15 + 1
      else base * 2 ^ 6 % 2 ^ 32 + 1
    fun i =>
      if layout.blkOfs ≤ i ∧ i < layout.blkOfs + layout.blkBytes then
        UInt8.ofNat (slot / 2 ^ (8 * (i - layout.blkOfs)))
      else 0

/-- The states in the course of `grub_vmfs_mount`, and after it. The identifiers that
`grub_vmfs_lookup_meta` finds for the names of the meta files can be any. -/
inductive VmfsMounting : VmfsData → Prop
  | boot {layout : VmfsLayout} {blocksize : ℕ} {volume : ℕ → ℕ → Except GrubError Buf}
      (hlayout : layout = vmfsLayoutV5 ∨ layout = vmfsLayoutV6)
      (hblocksize : 0x10000 ≤ blocksize ∧ blocksize ≤ 0x4000000
        ∧ blocksize &&& (blocksize - 1) = 0) :
      VmfsMounting ⟨layout, blocksize, volume,
        ⟨vmfsBootInode layout blocksize, 0, 0, 0, 0, 0, 0, 0⟩, none, none, none⟩
  | fdc {data : VmfsData} {depth : ℕ} {inode : VmfsNode} {fdc : VmfsBitmap}
      (h : VmfsMounting data) (hfirst : data.sbc = none)
      (hinode : inode = data.fdc.inode ∨ ∃ blkId, vmfsReadInode data depth blkId = .done inode)
      (hopen : vmfsBitmapOpen data depth inode = .done fdc) :
      VmfsMounting { data with fdc }
  | pbc {data : VmfsData} {depth blkId : ℕ} {inode : VmfsNode} {pbc : VmfsBitmap}
      (h : VmfsMounting data) (hv5 : data.layout.v6 = false)
      (hfirst : data.pbc = none ∧ data.sbc = none)
      (hinode : vmfsReadInode data depth blkId = .done inode)
      (hopen : vmfsBitmapOpen data depth inode = .done pbc) :
      VmfsMounting { data with pbc := some pbc }
  | pb2 {data : VmfsData} {depth blkId : ℕ} {inode : VmfsNode} {pb2 : VmfsBitmap}
      (h : VmfsMounting data) (hv6 : data.layout.v6 = true)
      (hfirst : data.pb2 = none ∧ data.sbc = none)
      (hinode : vmfsReadInode data depth blkId = .done inode)
      (hopen : vmfsBitmapOpen data depth inode = .done pb2) :
      VmfsMounting { data with pb2 := some pb2 }
  | sbc {data : VmfsData} {depth blkId : ℕ} {inode : VmfsNode} {sbc : VmfsBitmap}
      (h : VmfsMounting data) (hfirst : data.sbc = none)
      (hinode : vmfsReadInode data depth blkId = .done inode)
      (hopen : vmfsBitmapOpen data depth inode = .done sbc) :
      VmfsMounting { data with sbc := some sbc }

end FsRover
