import FsRover.Bytes
import FsRover.Grub
import FsRover.Lib.Guards
import FsRover.Lib.Heap
import FsRover.Lib.Rank
import Mathlib.Logic.Function.Basic

/-!
# VMA archives

`vma.c` exposes the disks of a backup. A header names the configurations and the devices; extents
follow it, each with 59 descriptors of clusters and the blocks that the masks of the clusters have
set. The clusters of all devices come in any order and are sorted when the archive is mounted.

## Main definitions

* `FsRover.VmaData` : a mounted archive.
-/

namespace FsRover

open Guards

def VMA_VERSION : ℕ := 1
def VMA_HEADER_MIN_SIZE : ℕ := 3 * 4096
def VMA_HEADER_MAX_SIZE : ℕ := 1024 * 4096
def VMA_EXTENT_HEADER_SIZE : ℕ := 512
def VMA_BLOCK_SIZE : ℕ := 4096
def VMA_CLUSTERS_PER_EXTENT : ℕ := 59
def VMA_MAX_BLOCK_COUNT : ℕ := 16 * 59
def VMA_MAX_CONFIGS : ℕ := 256
def VMA_NAME_MAX : ℕ := 4096

/-- `VMA_MAGIC` and `VMA_EXTENT_MAGIC`. -/
def vmaMagic : List UInt8 := [0x56, 0x4d, 0x41, 0]
def vmaExtentMagic : List UInt8 := [0x56, 0x4d, 0x41, 0x45]

/-- `struct vma_cluster`. -/
structure VmaCluster where
  dataPos : ℕ
  number : ℕ
  mask : ℕ
  deriving DecidableEq, Inhabited

/-- `struct vma_stream`; a device that the header does not list has no name. -/
structure VmaStream where
  name : Option (List UInt8)
  size : ℕ
  expectedClusters : ℕ
  clusters : List VmaCluster
  deriving Inhabited

inductive VmaItemType
  | config | device
  deriving DecidableEq

/-- `struct vma_item`. -/
structure VmaItem where
  name : List UInt8
  size : ℕ
  dataOffset : ℕ
  devId : ℕ
  type : VmaItemType

/-- `struct grub_vma_data`. -/
structure VmaData where
  disk : SizedDisk
  diskSize : ℕ
  ctime : ℕ
  uuid : List UInt8
  header : Buf
  headerSize : ℕ
  streams : ℕ → VmaStream
  items : List VmaItem

def vmaBadFs (message : String) : GrubError := ⟨.badFs, message⟩

/-- `grub_memset` of `n` bytes at `i` to zero. -/
def Buf.clear (p : Buf) (i n : ℕ) : Buf := fun k => if i ≤ k ∧ k < i + n then 0 else p k

/-- `vma_popcount16`; sixteen rounds clear sixteen bits. -/
def vmaPopcount16 (value : ℕ) : ℕ := Rank.clearing 16 value

/-! ### The header -/

/-- `vma_blob`: where the bytes of a blob are in the header, and how many. -/
def vmaBlob (header : Buf) (blobOffset blobSize pointer : ℕ) : Option (ℕ × ℕ) :=
  if pointer = 0 ∨ blobSize < pointer ∨ blobSize - pointer < 2 then none
  else
    let absolute := (blobOffset + pointer) % 2 ^ 32
    let size := lostLe16 header absolute
    if blobSize - pointer - 2 < size then none else some (absolute + 2, size)

/-- `vma_copy_name`. -/
def vmaCopyName (header : Buf) (raw size : ℕ) : Option (List UInt8) :=
  let size := if size ≠ 0 ∧ header (raw + size - 1) = 0 then size - 1 else size
  let name := header.list raw size
  if size = 0 ∨ VMA_NAME_MAX < size then none
  else if name = [0x2e] ∨ name = [0x2e, 0x2e] then none
  else if ∃ b ∈ name, b = 0 ∨ b = 0x2f ∨ b = 0x5c then none
  else some name

/-- `vma_add_item`. -/
def vmaAddItem (data : VmaData) (item : VmaItem) : Option VmaData :=
  if ∃ other ∈ data.items, other.name = item.name then none
  else some { data with items := data.items ++ [item] }

/-- One round of the first loop of `vma_parse_header`. -/
def vmaParseConfig (blobOffset blobSize : ℕ) (data : VmaData) (i : ℕ) :
    Except GrubError VmaData := do
  let namePtr := lostBe32 data.header (2044 + i * 4)
  let valuePtr := lostBe32 data.header (3068 + i * 4)
  if namePtr = 0 ∧ valuePtr = 0 then .ok data
  else
    let invalid := vmaBadFs "invalid vma config blob"
    refuseIf (namePtr = 0 ∨ valuePtr = 0) invalid
    let (nameBlob, nameSize) ← require (vmaBlob data.header blobOffset blobSize namePtr) invalid
    let (valueBlob, valueSize) ← require (vmaBlob data.header blobOffset blobSize valuePtr) invalid
    let duplicate := vmaBadFs "invalid or duplicate vma file name"
    let name ← require (vmaCopyName data.header nameBlob nameSize) duplicate
    require (vmaAddItem data ⟨name, valueSize, valueBlob, 0, .config⟩) duplicate

/-- The number of clusters of a device. -/
def vmaExpectedClusters (size : ℕ) : ℕ := size / 2 ^ 16 + if size % 2 ^ 16 ≠ 0 then 1 else 0

/-- The file name of a device: `vmstate.bin`, or `disk-` and `.raw` around the name. -/
def vmaDevicePath (name : List UInt8) : List UInt8 :=
  if name = [0x76, 0x6d, 0x73, 0x74, 0x61, 0x74, 0x65] then name ++ [0x2e, 0x62, 0x69, 0x6e]
  else [0x64, 0x69, 0x73, 0x6b, 0x2d] ++ name ++ [0x2e, 0x72, 0x61, 0x77]

/-- One round of the second loop of `vma_parse_header`. -/
def vmaParseDevice (blobOffset blobSize : ℕ) (data : VmaData) (i : ℕ) :
    Except GrubError VmaData := do
  let entry := 4096 + i * 32
  let namePtr := lostBe32 data.header entry
  let size := lostBe64 data.header (entry + 8)
  if namePtr = 0 ∧ size = 0 then .ok data
  else
    let invalid := vmaBadFs "invalid vma device entry"
    refuseIf (namePtr = 0 ∨ size = 0) invalid
    let (nameBlob, nameSize) ← require (vmaBlob data.header blobOffset blobSize namePtr) invalid
    let name ← require (vmaCopyName data.header nameBlob nameSize)
      (vmaBadFs "invalid vma device name")
    let stream := { data.streams i with
      name := some name, size := size, expectedClusters := vmaExpectedClusters size }
    require
      (vmaAddItem { data with streams := Function.update data.streams i stream }
        ⟨vmaDevicePath name, size, 0, i, .device⟩)
      (vmaBadFs "invalid or duplicate vma file name")

/-- `vma_parse_header`; `md5` is the hash of the first bytes of a buffer. -/
def vmaParseHeader (md5 : Buf → ℕ → List UInt8) (data : VmaData) : Except GrubError VmaData := do
  refuseIf (bytesAt data.header 0 vmaMagic = false) (vmaBadFs "not a vma archive")
  refuseIf (lostBe32 data.header 4 ≠ VMA_VERSION) (vmaBadFs "unsupported vma version")
  let blobOffset := lostBe32 data.header 48
  let blobSize := lostBe32 data.header 52
  refuseIf (blobOffset < VMA_HEADER_MIN_SIZE ∨ data.headerSize < blobOffset
    ∨ data.headerSize - blobOffset < blobSize) (vmaBadFs "invalid vma blob buffer")
  refuseIf (data.header.list 32 16 ≠ md5 (data.header.clear 32 16) data.headerSize)
    (vmaBadFs "vma header checksum mismatch")
  let data := { data with uuid := data.header.list 8 16, ctime := lostBe64 data.header 24 }
  let data ← (List.range VMA_MAX_CONFIGS).foldlM (vmaParseConfig blobOffset blobSize) data
  (List.range' 1 254).foldlM (vmaParseDevice blobOffset blobSize) data

/-! ### The extents -/

/-- Block descriptor `i` of an extent header and its fields. -/
def vmaInfo (head : Buf) (i : ℕ) : ℕ := lostBe64 head (40 + i * 8)
def vmaMask (head : Buf) (i : ℕ) : ℕ := vmaInfo head i / 2 ^ 48
def vmaReserved (head : Buf) (i : ℕ) : ℕ := vmaInfo head i / 2 ^ 40 % 2 ^ 8
def vmaDevId (head : Buf) (i : ℕ) : ℕ := vmaInfo head i / 2 ^ 32 % 2 ^ 8
def vmaClusterNum (head : Buf) (i : ℕ) : ℕ := vmaInfo head i % 2 ^ 32

/-- The number of blocks of an extent. -/
def vmaBlockCount (head : Buf) : ℕ := lostBe16 head 6

/-- `vma_add_cluster`. -/
def vmaAddCluster (stream : VmaStream) (cluster : VmaCluster) : VmaStream :=
  { stream with clusters := stream.clusters ++ [cluster] }

/-- What the loop over the descriptors of an extent changes. -/
structure VmaExtentScan where
  streams : ℕ → VmaStream
  actualBlocks : ℕ
  payloadPos : ℕ

/-- One round of the loop over the descriptors. -/
def vmaScanDescriptor (head : Buf) (s : VmaExtentScan) (i : ℕ) :
    Except GrubError VmaExtentScan := do
  let devId := vmaDevId head i
  let blocks := vmaPopcount16 (vmaMask head i)
  if devId = 0 then
    refuseIf (vmaInfo head i ≠ 0) (vmaBadFs "invalid unused vma block descriptor")
    .ok s
  else
    refuseIf (vmaReserved head i ≠ 0 ∨ (s.streams devId).name = none
      ∨ (s.streams devId).expectedClusters ≤ vmaClusterNum head i)
      (vmaBadFs "invalid vma block descriptor")
    let stream := vmaAddCluster (s.streams devId)
      ⟨s.payloadPos, vmaClusterNum head i, vmaMask head i⟩
    .ok
      { streams := Function.update s.streams devId stream
        actualBlocks := s.actualBlocks + blocks
        payloadPos := s.payloadPos + blocks * VMA_BLOCK_SIZE }

/-- One round of the loop over the extents: the size of the payload, and the streams. -/
def vmaScanExtent (md5 : Buf → ℕ → List UInt8) (data : VmaData) (pos : ℕ)
    (streams : ℕ → VmaStream) : Except GrubError (ℕ × (ℕ → VmaStream)) := do
  refuseIf (data.diskSize - pos < VMA_EXTENT_HEADER_SIZE) (vmaBadFs "truncated vma extent header")
  let head ← data.disk.read pos VMA_EXTENT_HEADER_SIZE
  refuseIf (bytesAt head 0 vmaExtentMagic = false ∨ lostBe16 head 4 ≠ 0)
    (vmaBadFs "invalid vma extent header")
  refuseIf (head.list 8 16 ≠ data.uuid) (vmaBadFs "vma extent uuid mismatch")
  refuseIf (head.list 24 16 ≠ md5 (head.clear 24 16) VMA_EXTENT_HEADER_SIZE)
    (vmaBadFs "vma extent header checksum mismatch")
  refuseIf (VMA_MAX_BLOCK_COUNT < vmaBlockCount head)
    (vmaBadFs "invalid vma extent block count")
  let payload := vmaBlockCount head * VMA_BLOCK_SIZE
  refuseIf (data.diskSize - pos < VMA_EXTENT_HEADER_SIZE + payload)
    (vmaBadFs "truncated vma extent data")
  let scan ← (List.range VMA_CLUSTERS_PER_EXTENT).foldlM (vmaScanDescriptor head)
    ⟨streams, 0, pos + VMA_EXTENT_HEADER_SIZE⟩
  refuseIf (scan.actualBlocks ≠ vmaBlockCount head
    ∨ scan.payloadPos ≠ pos + (VMA_EXTENT_HEADER_SIZE + payload))
    (vmaBadFs "vma extent payload size mismatch")
  .ok (payload, scan.streams)

/-- The loop of `vma_scan_extents` over the extents. -/
def vmaScanExtents (md5 : Buf → ℕ → List UInt8) (data : VmaData) (pos : ℕ)
    (streams : ℕ → VmaStream) : Except GrubError (ℕ → VmaStream) :=
  if pos < data.diskSize then
    match vmaScanExtent md5 data pos streams with
    | .error e => .error e
    | .ok (payload, streams) =>
      vmaScanExtents md5 data (pos + (VMA_EXTENT_HEADER_SIZE + payload)) streams
  else .ok streams
termination_by data.diskSize - pos
decreasing_by simp only [VMA_EXTENT_HEADER_SIZE]; omega

/-- `vma_sort_clusters`: a heap sort by number; `vma_sift_clusters (…, end)` is a sift in the heap
of the first `end + 1` clusters. -/
def vmaSortClusters (clusters : List VmaCluster) : List VmaCluster :=
  (List.range clusters.length).map
    (Heap.sort VmaCluster.number clusters.length fun i => clusters.getD i default)

/-- One round of the last loop of `vma_scan_extents`. -/
def vmaCheckStream (streams : ℕ → VmaStream) (i : ℕ) : Except GrubError (ℕ → VmaStream) := do
  let stream := streams i
  if stream.name = none then .ok streams
  else
    refuseIf (stream.expectedClusters ≠ stream.clusters.length)
      (vmaBadFs "incomplete vma device stream")
    let clusters := vmaSortClusters stream.clusters
    refuseIf (clusters.map VmaCluster.number ≠ List.range clusters.length)
      (vmaBadFs "duplicate or missing vma device cluster")
    .ok (Function.update streams i { stream with clusters := clusters })

/-- `grub_vma_mount`; no disk has `~0 >> 9` sectors or more. -/
def grubVmaMount (md5 : Buf → ℕ → List UInt8) (disk : SizedDisk) : Except GrubError VmaData := do
  let probe ← disk.read 0 60
  refuseIf (bytesAt probe 0 vmaMagic = false) (vmaBadFs "not a vma archive")
  let headerSize := lostBe32 probe 56
  refuseIf (headerSize < VMA_HEADER_MIN_SIZE ∨ VMA_HEADER_MAX_SIZE < headerSize
    ∨ headerSize % 512 ≠ 0) (vmaBadFs "invalid vma header size")
  let sectors ← require disk.sectors (vmaBadFs "unknown vma archive size")
  refuseIf (2 ^ 55 ≤ sectors) (vmaBadFs "unknown vma archive size")
  refuseIf (512 * sectors < headerSize) (vmaBadFs "truncated vma header")
  let header ← disk.read 0 headerSize
  let data ← vmaParseHeader md5
    { disk, diskSize := 512 * sectors, ctime := 0, uuid := [], header, headerSize,
      streams := fun _ => ⟨none, 0, 0, []⟩, items := [] }
  let streams ← vmaScanExtents md5 data data.headerSize data.streams
  let streams ← (List.range' 1 254).foldlM vmaCheckStream streams
  .ok { data with streams := streams }

/-! ### Reads -/

/-- One round of the loop of `grub_vma_read`. There is no result where the source returns `-1`, and
none where it would read past the table of clusters. -/
def vmaReadBlock (data : VmaData) (item : VmaItem) (pos count : ℕ) : Option (List UInt8) := do
  let blockNum := pos / 2 ^ 12 % 16
  let inBlock := pos % VMA_BLOCK_SIZE
  let cluster ← (data.streams item.devId).clusters[pos / 2 ^ 16]?
  if cluster.mask.testBit blockNum then
    let before := cluster.mask &&& (1 <<< blockNum - 1)
    let dataPos := cluster.dataPos + vmaPopcount16 before * VMA_BLOCK_SIZE + inBlock
    let buf ← (data.disk.read dataPos count).toOption
    some (buf.list 0 count)
  else some (List.replicate count 0)

/-- The loop of `grub_vma_read`. -/
def vmaReadBlocks (data : VmaData) (item : VmaItem) (pos left : ℕ) : Option (List UInt8) :=
  if left = 0 then some []
  else
    let count := min (VMA_BLOCK_SIZE - pos % VMA_BLOCK_SIZE) left
    match vmaReadBlock data item pos count with
    | none => none
    | some bytes =>
      (vmaReadBlocks data item (pos + count) (left - count)).map fun rest => bytes ++ rest
termination_by left
decreasing_by
  have hlt : pos % 4096 < 4096 := Nat.mod_lt _ (by decide)
  simp only [VMA_BLOCK_SIZE]
  omega

/-- `grub_vma_read`; a configuration is copied out of the header, and there is no result where that
would be read past its end. -/
def grubVmaRead (data : VmaData) (item : VmaItem) (pos len : ℕ) : Option (List UInt8) :=
  if item.size < pos ∨ item.size - pos < len then none
  else
    match item.type with
    | .config =>
      if data.headerSize < item.dataOffset + pos + len then none
      else some (data.header.list (item.dataOffset + pos) len)
    | .device => vmaReadBlocks data item pos len

end FsRover
