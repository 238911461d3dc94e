import FsRover.Grub
import FsRover.Lib.Scarce
import Mathlib.Data.Nat.Log

/-!
# The mount of a ReFS volume

The superblock of a ReFS volume names two checkpoints that are written in turn. `grub_refs_mount` tries
the newer one first: it loads the container table, the object table and the container index that the
checkpoint refers to, and where that fails it clears what was loaded and tries the other one.

## Main definitions

* `FsRover.RefsData` : a mounted volume.
* `FsRover.grubRefsReadNode`, `FsRover.grubRefsWalkTree` : nodes and trees of nodes.
-/

namespace FsRover

open Scarce

def REFS_OID_OBJECT_TABLE : ℕ := 0x2
def REFS_OID_CONTAINERS : ℕ := 0xB
def REFS_OID_CONTAINER_INDEX : ℕ := 0xE
def REFS_COMPRESSION_LZ4 : ℕ := 1
def REFS_COMPRESSION_ZSTD : ℕ := 2
def REFS_COMPRESSION_LZ4QAT : ℕ := 3
def REFS_CONTAINER_INDEX_COMPRESSION : ℕ := 7
def REFS_CONTAINER_INDEX_COMPACT_MAP : ℕ := 3
def REFS_SUPERBLOCK_BLOCK : ℕ := 30
def REFS_NODE_HEADER_SIZE : ℕ := 0x50
def REFS_NODE_SELF_BLOCKS : ℕ := 0x20
def REFS_NODE_OBJECT_ID : ℕ := 0x48
def REFS_V1_NODE_HEADER_SIZE : ℕ := 0x30
def REFS_V1_NODE_OBJECT_ID : ℕ := 0x18
def REFS_V1_BLOCK_SHIFT : ℕ := 14
def REFS_MAX_WALK_NODES : ℕ := 2 ^ 20

/-- The signatures of nodes. -/
def REFS_SIG_MSB : List UInt8 := [0x4d, 0x53, 0x42, 0x2b]
def REFS_SIG_CHKP : List UInt8 := [0x43, 0x48, 0x4b, 0x50]
def REFS_SIG_SUPB : List UInt8 := [0x53, 0x55, 0x50, 0x42]

/-- `struct grub_refs_map_entry`. -/
structure RefsMapEntry where
  id : ℕ
  start : ℕ
  count : ℕ
  flags : ℕ
  compactBitmap : Option (List UInt8)
  compactRank : Option (List ℕ)

/-- `struct grub_refs_compression_range`. -/
structure RefsCompressionRange where
  containerId : ℕ
  plainStart : ℕ
  plainSize : ℕ
  storedStart : ℕ
  storedSize : ℕ
  flags : ℕ
  unitCount : ℕ
  ends : List ℕ
  checksums : Option (List ℕ)

/-- `struct grub_refs_data`. Of the two buffers of the cache there is the size; the cache is not valid
before a file is read. -/
structure RefsData where
  versionMajor : ℕ := 0
  versionMinor : ℕ := 0
  v1 : Bool := false
  headerSize : ℕ := 0
  tableMin : ℕ := 0
  refSize : ℕ := 0
  extentSize : ℕ := 0
  clusterSize : ℕ := 0
  clusterShift : ℕ := 0
  blockSize : ℕ := 0
  chunkCount : ℕ := 0
  serial : ℕ := 0
  linearLimit : ℕ := 0
  bpcShift : ℕ := 0
  bpcMask : ℕ := 0
  map : List RefsMapEntry := []
  compressionFormat : ℕ := 0
  compressionUnitSize : ℕ := 0
  compression : List RefsCompressionRange := []
  compressedBuf : Option ℕ := none
  plainBuf : Option ℕ := none
  cacheRange : ℕ := 0
  cacheUnit : ℕ := 0
  cacheValid : Bool := false
  objTable : List ℕ := [0, 0, 0, 0]

/-- `grub_disk_read` on the disk of the volume, as it goes while there is memory. -/
structure RefsDisk where
  read : ℕ → ℕ → Except GrubError Buf
  code_ne : ∀ {pos len : ℕ} {e : GrubError}, read pos len = .error e → e.code ≠ .outOfMemory

/-- What a mount does, over the structure it fills. -/
abbrev RefsM := Scarce GrubError RefsData

/-- The error of an allocation. -/
def refsOutOfMemory : GrubError := ⟨.outOfMemory, "out of memory"⟩

def refsIsOom (e : GrubError) : Bool := e.code = .outOfMemory

/-! ### Nodes -/

section Node

variable (disk : RefsDisk)

/-- A read, for which the disk cache may need memory. -/
def refsDiskRead (pos len : ℕ) : RefsM Buf := do
  alloc refsOutOfMemory
  match disk.read pos len with
  | .error e => throw e
  | .ok p => pure p

/-- `grub_refs_lookup_map`: the entry, if it takes one, and the physical cluster. -/
def grubRefsLookupMap (data : RefsData) (block : ℕ) : Option (Option RefsMapEntry × ℕ) :=
  if block < data.linearLimit then some (none, block)
  else if block.testBit data.bpcShift then none
  else
    match data.map.find? fun e => block >>> (data.bpcShift + 1) = e.id with
    | none => none
    | some e => some (some e, e.start ||| (block &&& data.bpcMask))

/-- `grub_refs_map_block`. -/
def grubRefsMapBlock (data : RefsData) (block : ℕ) : ℕ :=
  match grubRefsLookupMap data block with
  | none => 0
  | some (_, physical) => physical

/-- The `left` clusters of a node from cluster `i` on; the buffer holds those in front of it. -/
def refsReadChunks (blocks : List ℕ) (identity : Bool) : ℕ → ℕ → Buf → RefsM Buf
  | 0, _, buf => pure buf
  | left + 1, i, buf => do
    let data ← look
    let b := if i ≠ 0 ∧ blocks.getD i 0 = 0 then lostLe64 buf (REFS_NODE_SELF_BLOCKS + 8 * i)
      else blocks.getD i 0
    let phys := if identity then b else grubRefsMapBlock data b
    if phys = 0 then throw ⟨.badFs, "refs: unmapped metadata block"⟩
    else do
      let p ← refsDiskRead disk (u64 (phys * 2 ^ data.clusterShift)) data.clusterSize
      refsReadChunks blocks identity left (i + 1) fun k =>
        if i * data.clusterSize ≤ k then p (k - i * data.clusterSize) else buf k

/-- `grub_refs_read_node`. What the buffer held before is not read. -/
def grubRefsReadNode (blocks : List ℕ) (identity : Bool) (sig : List UInt8) : RefsM Buf := do
  if blocks.getD 0 0 = 0 then throw ⟨.badFs, "refs: null node reference"⟩
  else do
    let data ← look
    let buf ← refsReadChunks disk blocks identity data.chunkCount 0 fun _ => 0
    if (if data.v1 then lostLe64 buf 0 ≠ blocks.getD 0 0
      else bytesAt buf 0 sig = false ∨ lostLe64 buf REFS_NODE_SELF_BLOCKS ≠ blocks.getD 0 0) then
      throw ⟨.badFs, "refs: bad metadata node"⟩
    else pure buf

/-- `grub_refs_get_ref`. -/
def grubRefsGetRef (data : RefsData) (value : Buf) (valueSize : ℕ) : Option (List ℕ) :=
  if valueSize < data.refSize then none
  else
    let b0 := lostLe64 value 0
    let b := if data.v1 then [b0, 0, 0, 0]
      else [b0, lostLe64 value 8, lostLe64 value 16, lostLe64 value 24]
    if b0 = 0 then none else some b

/-! ### Trees -/

/-- An entry of a node table; a key or value of size zero is not there. -/
structure RefsEntry where
  isIndex : Bool
  key : Buf
  keySize : ℕ
  value : Buf
  valueSize : ℕ

/-- Entry `i` of a table, unless it is skipped. -/
def refsTableEntry (table : Buf) (asize voStart i : ℕ) : Option RefsEntry :=
  let off := lostLe16 table (voStart + 4 * i)
  if off < asize then none
  else if voStart < off + 0x10 then none
  else
    let entry := table.from off
    let esize := lostLe32 entry 0
    if esize < 0x10 ∨ voStart - off < esize then none
    else
      let keyOff := lostLe16 entry 0x4
      let keySize := lostLe16 entry 0x6
      let valOff := lostLe16 entry 0xA
      let valSize := lostLe16 entry 0xC
      if keySize ≠ 0 ∧ (keyOff < 0x10 ∨ esize < keyOff + keySize) then none
      else if valSize ≠ 0 ∧ (valOff < 0x10 ∨ esize < valOff + valSize) then none
      else some ⟨byteAt table 0xD % 2 = 1, entry.from keyOff, keySize, entry.from valOff, valSize⟩

/-- The entries that `grub_refs_iter_table` hands to its hook. -/
def refsTableEntries (data : RefsData) (table : Buf) (avail : ℕ) : Except GrubError (List RefsEntry) :=
  let asize := lostLe32 table 0
  let voStart := lostLe32 table 0x10
  let count := lostLe32 table 0x14
  let voEnd := lostLe32 table (if data.v1 then 0x18 else 0x20)
  if avail < data.tableMin + 4 ∨ asize < data.tableMin ∨ avail < asize ∨ voStart < asize
      ∨ voEnd < voStart ∨ avail < voEnd ∨ (voEnd - voStart) / 4 < count then
    .error ⟨.badFs, "refs: corrupt node table"⟩
  else .ok ((List.range count).filterMap (refsTableEntry table asize voStart))

/-- `struct grub_refs_walk_ctx`: the nodes that are still to be read, and how many have been queued in
room for how many. -/
structure RefsQueue where
  pending : List (List ℕ)
  len : ℕ
  cap : ℕ

/-- `grub_refs_walk_push`. -/
def grubRefsWalkPush (w : RefsQueue) (b : List ℕ) : RefsM RefsQueue :=
  if w.len = w.cap then do
    alloc refsOutOfMemory
    pure ⟨w.pending ++ [b], w.len + 1, if w.cap = 0 then 16 else w.cap * 2⟩
  else pure { w with pending := w.pending ++ [b], len := w.len + 1 }

variable (hook : RefsEntry → RefsM Bool)

/-- `grub_refs_walk_entry`; the result says whether the hook stops the walk. -/
def grubRefsWalkEntry (w : RefsQueue) (entry : RefsEntry) : RefsM (RefsQueue × Bool) :=
  if entry.isIndex then do
    let data ← look
    match grubRefsGetRef data entry.value entry.valueSize with
    | none => pure (w, false)
    | some b => do
      let w ← grubRefsWalkPush w b
      pure (w, false)
  else do
    let stop ← hook entry
    pure (w, stop)

/-- The loop of `grub_refs_iter_table`. -/
def refsWalkEntries : List RefsEntry → RefsQueue → RefsM (RefsQueue × Bool)
  | [], w => pure (w, false)
  | entry :: entries, w => do
    let r ← grubRefsWalkEntry hook w entry
    if r.2 then pure r else refsWalkEntries entries r.1

/-- The loop of `grub_refs_walk_tree`, which still reads as many nodes. -/
def refsWalkLoop : ℕ → RefsQueue → RefsM Bool
  | _, ⟨[], _, _⟩ => pure false
  | 0, ⟨_ :: _, _, _⟩ => throw ⟨.badFs, "refs: tree loop"⟩
  | nodes + 1, ⟨b :: pending, len, cap⟩ => do
    let buf ← grubRefsReadNode disk b false REFS_SIG_MSB
    let data ← look
    let hsize := lostLe32 buf data.headerSize
    if hsize < 4 ∨ data.blockSize - data.headerSize - data.tableMin - 4 < hsize then
      throw ⟨.badFs, "refs: corrupt node"⟩
    else
      match refsTableEntries data (buf.from (data.headerSize + hsize))
        (data.blockSize - data.headerSize - hsize) with
      | .error e => throw e
      | .ok entries => do
        let r ← refsWalkEntries hook entries ⟨pending, len, cap⟩
        if r.2 then pure true else refsWalkLoop nodes r.1

/-- `grub_refs_walk_tree`, for trees without raw leaves. -/
def grubRefsWalkTree (root : List ℕ) : RefsM Bool := do
  alloc refsOutOfMemory
  let w ← grubRefsWalkPush ⟨[], 0, 0⟩ root
  refsWalkLoop disk hook REFS_MAX_WALK_NODES w

end Node

/-! ### Containers -/

/-- `grub_refs_map_hook`. -/
def grubRefsMapHook (entry : RefsEntry) : RefsM Bool :=
  if entry.valueSize ≤ 0x60 then pure false
  else
    let start := lostLe64 entry.value (entry.valueSize - 0x10)
    let count := lostLe64 entry.value (entry.valueSize - 0x8)
    if count = 0 then pure false
    else do
      alloc refsOutOfMemory
      update fun data => { data with
        map := data.map ++ [⟨if 8 ≤ entry.keySize then lostLe64 entry.key 0 else data.map.length, start,
          count, lostLe32 entry.value 0x14, none, none⟩] }
      pure false

/-- `grub_refs_popcount8`. -/
def grubRefsPopcount8 (value : UInt8) : UInt8 :=
  let pairs := value - ((value >>> 1) &&& (0x55 : UInt8))
  let nibbles := (pairs &&& (0x33 : UInt8)) + ((pairs >>> 2) &&& (0x33 : UInt8))
  (nibbles + (nibbles >>> 4)) &&& (0x0F : UInt8)

def refsCorruptCompression : GrubError := ⟨.badFs, "refs: corrupt compression header"⟩

/-- The clusters of a container, and its bytes. -/
def refsBitmapBytes (data : RefsData) : ℕ := (data.bpcMask + 1) / 8
def refsContainerSize (data : RefsData) : ℕ := (data.bpcMask + 1) * 2 ^ data.clusterShift

/-- The counts of `compact_rank`, in 16 bits. -/
def refsCompactRank (bitmap : List UInt8) : List ℕ :=
  bitmap.scanl (fun rank b => (rank + (grubRefsPopcount8 b).toNat) % 2 ^ 16) 0

/-- Change the entry at `i` of the container table. -/
def refsSetEntry (i : ℕ) (f : RefsMapEntry → RefsMapEntry) (data : RefsData) : RefsData :=
  { data with map := data.map.modify i f }

/-- What `grub_refs_compression_hook` does with a compact map for the container at `i` of the table.
Fresh memory is taken to be zero; it is not read before it is filled. -/
def refsCompactMap (i : ℕ) (entry : RefsMapEntry) (value : Buf) (valueSize : ℕ) : RefsM Bool := do
  let data ← look
  let bitmapBytes := refsBitmapBytes data
  if entry.compactBitmap.isSome ∨ entry.compactRank.isSome ∨ valueSize < 0x30 + bitmapBytes
      ∨ lostLe64 value 0x18 ≠ u64 (entry.id * 2 ^ (data.bpcShift + 1))
      ∨ lostLe64 value 0x20 ≠ data.bpcMask + 1 then throw refsCorruptCompression
  else do
    allocBoth refsOutOfMemory
      (refsSetEntry i fun e => { e with compactBitmap := some (List.replicate bitmapBytes 0) })
      (refsSetEntry i fun e => { e with compactRank := some (List.replicate (bitmapBytes + 1) 0) })
    let bitmap := value.list 0x30 bitmapBytes
    update (refsSetEntry i fun e => { e with
      compactBitmap := some bitmap, compactRank := some (refsCompactRank bitmap) })
    pure false

/-- A compression header. -/
def refsRangeHeader (value : Buf) : RefsCompressionRange where
  containerId := lostLe64 value 0
  plainStart := lostLe64 value 0x10
  plainSize := lostLe64 value 0x18
  storedStart := lostLe64 value 0x20
  storedSize := lostLe64 value 0x28
  flags := lostLe32 value 0x30
  unitCount := lostLe32 value 0x34
  ends := []
  checksums := none

/-- Whether it has `REFS_COMPRESSION_CHECKSUMS`. -/
def RefsCompressionRange.checked (range : RefsCompressionRange) : Bool := range.flags / 2 % 2 = 1

/-- The checks of a compression header before its arrays are read. -/
def refsRangeOk (data : RefsData) (entry : RefsMapEntry) (value : Buf) (valueSize : ℕ) : Bool :=
  let range := refsRangeHeader value
  let unit := data.compressionUnitSize
  let arrayOffset := lostLe32 value 0x38
  let checksumType := lostLe16 value 0x3C
  let storedCapacity := u64 (entry.count * 2 ^ data.clusterShift)
  decide (unit ≠ 0 ∧ range.plainSize ≠ 0 ∧ range.storedSize ≠ 0 ∧ range.flags / 4 = 0
    ∧ range.unitCount ≠ 0 ∧ range.unitCount ≤ 0x10000 ∧ range.plainStart ≤ refsContainerSize data
    ∧ range.plainSize ≤ refsContainerSize data - range.plainStart ∧ range.plainStart % unit = 0
    ∧ range.unitCount = (range.plainSize + unit - 1) / unit ∧ 0x40 ≤ arrayOffset
    ∧ arrayOffset ≤ valueSize ∧ range.unitCount ≤ (valueSize - arrayOffset) / 4
    ∧ range.storedStart ≤ storedCapacity ∧ range.storedSize ≤ storedCapacity - range.storedStart
    ∧ if range.checked then checksumType = 1 ∧ range.unitCount ≤ (valueSize - arrayOffset) / 8
      else checksumType = 0)

/-- The ends of the units grow up to the end of the range. -/
def refsEndsOk (range : RefsCompressionRange) : Bool :=
  decide ((∀ e ∈ range.ends, e ≠ 0 ∧ e ≤ range.storedSize) ∧ range.ends.Pairwise (· < ·)
    ∧ range.ends.getD (range.unitCount - 1) 0 = range.storedSize)

/-- The range with its arrays. -/
def refsRange (value : Buf) : RefsCompressionRange :=
  let range := refsRangeHeader value
  let arrayOffset := lostLe32 value 0x38
  { range with
    ends := (List.range range.unitCount).map fun i => lostLe32 value (arrayOffset + 4 * i)
    checksums := if range.checked then
        some ((List.range range.unitCount).map fun i =>
          lostLe32 value (arrayOffset + 4 * range.unitCount + 4 * i))
      else none }

/-- The array for the checksums. -/
def refsAllocChecksums (range : RefsCompressionRange) : RefsM Unit :=
  if range.checked then alloc refsOutOfMemory else pure ()

/-- What `grub_refs_compression_hook` does with a compression header. -/
def refsCompressionRange (entry : RefsMapEntry) (value : Buf) (valueSize : ℕ) : RefsM Bool := do
  let data ← look
  if valueSize < 0x40 then throw refsCorruptCompression
  else if refsRangeOk data entry value valueSize = false then throw refsCorruptCompression
  else do
    let range := refsRange value
    alloc refsOutOfMemory
    refsAllocChecksums range
    if refsEndsOk range = false then throw refsCorruptCompression
    else do
      alloc refsOutOfMemory
      update fun data => { data with compression := data.compression ++ [range] }
      pure false

/-- `grub_refs_compression_hook`. -/
def grubRefsCompressionHook (entry : RefsEntry) : RefsM Bool := do
  let data ← look
  if entry.keySize < 0x10 then pure false
  else
    let kind := lostLe32 entry.key 0x0C
    if kind ≠ REFS_CONTAINER_INDEX_COMPACT_MAP ∧ kind ≠ REFS_CONTAINER_INDEX_COMPRESSION then pure false
    else if entry.valueSize < 0x30 ∨ lostLe64 entry.value 0 ≠ lostLe64 entry.key 0
        ∨ lostLe32 entry.value 0x0C ≠ kind then throw refsCorruptCompression
    else
      match (data.map.zipIdx).find? fun m => m.1.id = lostLe64 entry.value 0 with
      | none => throw refsCorruptCompression
      | some (m, i) =>
        if kind = REFS_CONTAINER_INDEX_COMPACT_MAP then
          refsCompactMap i m entry.value entry.valueSize
        else refsCompressionRange m entry.value entry.valueSize

/-! ### Checkpoints -/

/-- `grub_refs_reset_checkpoint`. -/
def grubRefsResetCheckpoint (data : RefsData) : RefsData :=
  { data with
    plainBuf := none
    compressedBuf := none
    compression := []
    map := []
    compressionFormat := 0
    compressionUnitSize := 0
    cacheValid := false
    objTable := [0, 0, 0, 0] }

/-- `grub_refs_container_is_compressed`. -/
def grubRefsContainerIsCompressed (data : RefsData) (containerId : ℕ) : Bool :=
  data.compression.any fun range => range.containerId = containerId

/-- Whether the ranges of a container fill the clusters of its compact map, without overlaps. -/
def refsPacked (data : RefsData) (entry : RefsMapEntry) : Bool :=
  match entry.compactBitmap, entry.compactRank with
  | some _, some rank =>
    let packedSize := rank.getD (refsBitmapBytes data) 0 * 2 ^ data.clusterShift
    let ranges := data.compression.filter fun range => range.containerId = entry.id
    ranges.all (fun a => a.plainStart ≤ packedSize && a.plainSize ≤ packedSize - a.plainStart)
      && decide (ranges.Pairwise fun a b : RefsCompressionRange =>
        ¬ (a.plainStart < b.plainStart + b.plainSize ∧ b.plainStart < a.plainStart + a.plainSize))
      && u64 (ranges.map RefsCompressionRange.plainSize).sum = packedSize
  | _, _ => false

/-- Whether the compression policy is one the driver can read. -/
def refsPolicyOk (data : RefsData) : Bool :=
  decide ((data.compressionFormat = REFS_COMPRESSION_LZ4 ∨ data.compressionFormat = REFS_COMPRESSION_ZSTD
      ∨ data.compressionFormat = REFS_COMPRESSION_LZ4QAT)
    ∧ data.clusterSize ≤ data.compressionUnitSize ∧ data.compressionUnitSize ≤ refsContainerSize data
    ∧ data.compressionUnitSize &&& (data.compressionUnitSize - 1) = 0)

/-- The last checks of a load, and the buffers for compressed units. -/
def refsLoadCompression : RefsM Unit := do
  let data ← look
  if data.compression = [] then pure ()
  else if refsPolicyOk data = false then throw ⟨.badFs, "refs: invalid compression policy"⟩
  else if data.map.all (fun e => !grubRefsContainerIsCompressed data e.id || refsPacked data e) = false then
    throw ⟨.badFs, "refs: corrupt compacted cluster map"⟩
  else
    allocBoth refsOutOfMemory (fun data => { data with compressedBuf := some data.compressionUnitSize })
      fun data => { data with plainBuf := some data.compressionUnitSize }

section Load

variable (disk : RefsDisk) (node : Buf) (refBase : ℕ)

/-- The reference of root `i` of a checkpoint and its node; there is none if the root is skipped. -/
def refsRootAt (i : ℕ) : RefsM (Option (List ℕ × Buf)) := do
  let data ← look
  let roff := lostLe32 node (refBase + 4 * i)
  if data.blockSize < roff ∨ data.blockSize - roff < data.refSize then pure none
  else
    match grubRefsGetRef data (node.from roff) data.refSize with
    | none => pure none
    | some b =>
      recover refsIsOom (do
        let tmp ← grubRefsReadNode disk b false REFS_SIG_MSB
        pure (some (b, tmp))) fun _ => pure none

/-- The object id of a node. -/
def refsNodeOid (data : RefsData) (tmp : Buf) : ℕ :=
  lostLe64 tmp (if data.v1 then REFS_V1_NODE_OBJECT_ID else REFS_NODE_OBJECT_ID)

/-- The compression policy in the root of the container table. -/
def refsSetPolicy (data : RefsData) (tmp : Buf) : RefsM Unit :=
  if 0xAC ≤ data.blockSize ∧ lostLe32 tmp 0xA0 = 0x0F then
    update fun data => { data with
      compressionFormat := lostLe16 tmp 0xA4, compressionUnitSize := lostLe32 tmp 0xA8 }
  else pure ()

/-- The first pass of `grub_refs_load_checkpoint`: the container table, with the compression policy. -/
def refsFindContainers : List ℕ → RefsM (Option (List ℕ))
  | [] => pure none
  | i :: l => do
    let root ← refsRootAt disk node refBase i
    let data ← look
    match root with
    | none => refsFindContainers l
    | some (b, tmp) =>
      if refsNodeOid data tmp = REFS_OID_CONTAINERS then do
        refsSetPolicy data tmp
        pure (some b)
      else refsFindContainers l

/-- The second pass: the object table and the container index, which is the result. -/
def refsFindTables : List ℕ → Option (List ℕ) → RefsM (Option (List ℕ))
  | [], index => pure index
  | i :: l, index => do
    let root ← refsRootAt disk node refBase i
    let data ← look
    match root with
    | none => refsFindTables l index
    | some (b, tmp) =>
      if refsNodeOid data tmp = REFS_OID_OBJECT_TABLE then do
        update fun data => { data with objTable := b }
        refsFindTables l index
      else if refsNodeOid data tmp = REFS_OID_CONTAINER_INDEX then refsFindTables l (some b)
      else refsFindTables l index

/-- A walk from a root that may not be there. -/
def refsWalkRoot (hook : RefsEntry → RefsM Bool) : Option (List ℕ) → RefsM Unit
  | none => pure ()
  | some b => do
    let _ ← grubRefsWalkTree disk hook b
    pure ()

/-- The containers of a volume that is not of version 1. -/
def refsLoadContainers (l : List ℕ) : RefsM Unit := do
  let data ← look
  if data.v1 then pure ()
  else do
    let containers ← refsFindContainers disk node refBase l
    refsWalkRoot disk grubRefsMapHook containers

end Load

/-- `grub_refs_load_checkpoint`. -/
def grubRefsLoadCheckpoint (disk : RefsDisk) (node : Buf) (v312 : Bool) : RefsM Unit := do
  let data ← look
  let refCount := lostLe32 node (if data.v1 then 0x58 else 0x90)
  let refFirst := if data.v1 then 0x5C else 0x94
  let refBase := if v312 ∧ lostLe32 node refFirst ≠ 0 then lostLe32 node refFirst else refFirst
  if 64 < refCount ∨ data.blockSize < refBase ∨ (data.blockSize - refBase) / 4 < refCount then
    throw ⟨.badFs, "refs: corrupt checkpoint"⟩
  else do
    alloc refsOutOfMemory
    refsLoadContainers disk node refBase (List.range refCount)
    let index ← refsFindTables disk node refBase (List.range refCount) none
    refsWalkRoot disk grubRefsCompressionHook index
    refsLoadCompression
    let data ← look
    if data.objTable.getD 0 0 = 0 then throw ⟨.badFs, "refs: object table not found"⟩ else pure ()

/-! ### The mount -/

/-- The structure before a checkpoint is loaded, from the boot sector. -/
def refsFresh (bs : Buf) : RefsData :=
  let major := byteAt bs 0x28
  let v1 : Bool := major = 1
  let cs := lostLe32 bs 0x20 * lostLe32 bs 0x24
  let data : RefsData := {
    versionMajor := major
    versionMinor := byteAt bs 0x29
    v1 := v1
    headerSize := if v1 then REFS_V1_NODE_HEADER_SIZE else REFS_NODE_HEADER_SIZE
    tableMin := if v1 then 0x1C else 0x24
    refSize := if v1 then 0x18 else 0x20
    extentSize := if v1 then 48 else 24
    serial := lostLe64 bs 0x38 }
  if v1 then
    { data with
      clusterShift := REFS_V1_BLOCK_SHIFT
      clusterSize := 2 ^ REFS_V1_BLOCK_SHIFT
      blockSize := 2 ^ REFS_V1_BLOCK_SHIFT
      chunkCount := 1
      linearLimit := 2 ^ 64 - 1 }
  else
    { data with
      clusterSize := cs
      clusterShift := Nat.clog 2 cs
      blockSize := max cs 16384
      chunkCount := max cs 16384 / cs
      linearLimit := if cs = 4096 then 0x10000 else 0x1000
      bpcShift := if cs = 4096 then 14 else 10
      bpcMask := (if cs = 4096 then 2 ^ 14 else 2 ^ 10) - 1 }

/-- The clusters of a node that are one behind the other. -/
def refsConsecutive (block : ℕ) : List ℕ := (List.range 4).map fun j => u64 (block + j)

def refsNotRefs : GrubError := ⟨.badFs, "not a ReFS filesystem"⟩

section Mount

variable (disk : RefsDisk)

/-- The first half of `grub_refs_mount`: the structure, whether the version is 3.12 or newer, and where
the superblock says that the two checkpoints are. -/
def refsSuperblock : RefsM (Bool × ℕ × ℕ) := do
  let bs ← refsDiskRead disk 0 512
  let bps := lostLe32 bs 0x20
  let spc := lostLe32 bs 0x24
  let cs := bps * spc
  if bytesAt bs 0x3 [0x52, 0x65, 0x46, 0x53] = false ∨ bytesAt bs 0x10 [0x46, 0x53, 0x52, 0x53] = false
      ∨ bps < 512 ∨ 65536 < bps ∨ bps &&& (bps - 1) ≠ 0 ∨ spc = 0 ∨ cs < 4096 ∨ 65536 < cs
      ∨ cs &&& (cs - 1) ≠ 0 then throw refsNotRefs
  else if byteAt bs 0x28 ≠ 1 ∧ byteAt bs 0x28 ≠ 3 then
    throw ⟨.badFs, s!"unsupported ReFS version {byteAt bs 0x28}.{byteAt bs 0x29}"⟩
  else do
    alloc refsOutOfMemory
    update fun _ => refsFresh bs
    let data ← look
    alloc refsOutOfMemory
    let node ← grubRefsReadNode disk (refsConsecutive REFS_SUPERBLOCK_BLOCK) true REFS_SIG_SUPB
    let l1Off := lostLe32 node (data.headerSize + 0x20)
    let l1Count := lostLe32 node (data.headerSize + 0x24)
    if l1Count = 0 ∨ data.blockSize < l1Off ∨ (data.blockSize - l1Off) / 8 < l1Count then
      throw ⟨.badFs, "refs: corrupt superblock"⟩
    else
      pure (3 < data.versionMajor ∨ data.versionMajor = 3 ∧ 12 ≤ data.versionMinor, lostLe64 node l1Off,
        if 2 ≤ l1Count then lostLe64 node (l1Off + 8) else 0)

/-- The number of a checkpoint, if it can be read. -/
def refsCheckpointSeq (block : ℕ) : RefsM (Option ℕ) :=
  if block = 0 then pure none
  else
    recover refsIsOom (do
      let node ← grubRefsReadNode disk (refsConsecutive block) true REFS_SIG_CHKP
      let data ← look
      pure (some (lostLe64 node (data.headerSize + 0x10)))) fun _ => pure none

/-- The checkpoints that can be read, in the order of `order`. -/
def refsOrder (first second : ℕ × Option ℕ) : List ℕ :=
  match first.2, second.2 with
  | none, none => []
  | some _, none => [first.1]
  | none, some _ => [second.1]
  | some a, some b => if a < b then [second.1, first.1] else [first.1, second.1]

/-- Read a checkpoint and load its trees. -/
def refsLoad (v312 : Bool) (block : ℕ) : RefsM Unit := do
  let node ← grubRefsReadNode disk (refsConsecutive block) true REFS_SIG_CHKP
  grubRefsLoadCheckpoint disk node v312

/-- The loop of `grub_refs_mount` over the checkpoints. -/
def refsFallback (v312 : Bool) : List ℕ → RefsM Unit
  | [] => throw ⟨.badFs, "refs: no valid checkpoint"⟩
  | block :: blocks => do
    let loaded ← recover refsIsOom (do
      refsLoad disk v312 block
      pure true) fun _ => do
        update grubRefsResetCheckpoint
        pure false
    if loaded then pure () else refsFallback v312 blocks

/-- `grub_refs_mount`. -/
def grubRefsMount : RefsM RefsData := do
  let (v312, l1, l1') ← refsSuperblock disk
  let seq ← refsCheckpointSeq disk l1
  let seq' ← refsCheckpointSeq disk l1'
  refsFallback disk v312 (refsOrder (l1, seq) (l1', seq'))
  look

end Mount

end FsRover
