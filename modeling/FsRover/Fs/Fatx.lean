import FsRover.Grub
import FsRover.Lib.Cycle
import FsRover.Lib.History
import Mathlib.Order.Interval.Finset.Nat

/-!
# Files of a FATX partition

The clusters of a FATX file are a chain in a FAT. A partition takes its geometry from a header; opening
a file walks its chain with a tortoise and a hare, and reading keeps the cluster it got to.

## Main definitions

* `FsRover.fatxPrepareFile`, `FsRover.grubFatxRead` : opening and reading.
* `FsRover.FatxEnds` : chains of clusters inside the file area that come to an end mark.

## Main results

* `FsRover.FatxPartition.Fits` : what the three roundings of the geometry come to.
* `FsRover.fatxReadPiece_spec` : what a piece of a read is, wherever the cursor was left.
-/

namespace FsRover

/-! ### The device -/

/-- A device of known size. -/
structure FatxDevice where
  bytes : Buf
  size : ℕ
  size_lt : size < 2 ^ 64

/-- The reads of the device that fail, by offset and length. -/
abbrev FatxFaults := ℕ → ℕ → Option GrubError

/-- No read fails. -/
def fatxCalm : FatxFaults := fun _ _ => none

/-- `struct grub_fatx_partition`. -/
structure FatxPartition where
  offset : ℕ
  length : ℕ
  bytesPerCluster : ℕ
  fileAreaOffset : ℕ
  rootCluster : ℕ
  fatEntries : ℕ
  clusterCount : ℕ
  fatEntrySize : ℕ
  bigEndian : Bool
  deriving DecidableEq

def FATX_FAT16_RESERVED : ℕ := 0xfff0
def FATX_FAT32_RESERVED : ℕ := 0xfffffff0

/-- `fatx_get_u32`. -/
def fatxGetU32 (p : Buf) (i : ℕ) (bigEndian : Bool) : ℕ :=
  if bigEndian then lostBe32 p i else lostLe32 p i

/-- `fatx_get_u16`. -/
def fatxGetU16 (p : Buf) (i : ℕ) (bigEndian : Bool) : ℕ :=
  if bigEndian then lostBe16 p i else lostLe16 p i

/-- `fatx_disk_read`. -/
def fatxDiskRead (dev : FatxDevice) (faults : FatxFaults) (offset length : ℕ) :
    Except GrubError Buf :=
  if dev.size < offset ∨ dev.size - offset < length then
    .error ⟨.badFs, "FATX read outside device"⟩
  else
    match faults offset length with
    | some e => .error e
    | none => .ok (dev.bytes.from offset)

/-- `fatx_partition_read`. -/
def fatxPartitionRead (dev : FatxDevice) (faults : FatxFaults) (partition : FatxPartition)
    (offset length : ℕ) : Except GrubError Buf :=
  if partition.length < offset ∨ partition.length - offset < length then
    .error ⟨.badFs, "FATX read outside partition"⟩
  else
    match grubAdd partition.offset offset with
    | none => .error ⟨.badFs, "FATX read outside partition"⟩
    | some absolute => fatxDiskRead dev faults absolute length

/-- `fatx_parse_partition` from the size of a cluster on. -/
def fatxGeometry (offset length sectorsPerCluster rootCluster : ℕ) (bigEndian : Bool) :
    Option FatxPartition :=
  let bytesPerCluster := sectorsPerCluster * 512
  let fatEntries := length / bytesPerCluster + 1
  let entrySize := if fatEntries < FATX_FAT16_RESERVED then 2 else 4
  if 0xffffffff < fatEntries then none
  else
    match grubMul fatEntries entrySize with
    | none => none
    | some rawFatBytes =>
      match grubAdd rawFatBytes 4095 with
      | none => none
      | some sum =>
        match grubAdd 4096 (sum / 4096 * 4096) with
        | none => none
        | some fileAreaOffset =>
          if length ≤ fileAreaOffset then none
          else
            let clusterCount := (length - fileAreaOffset) / bytesPerCluster
            if clusterCount = 0 ∨ 0xffffffff < clusterCount ∨ clusterCount < rootCluster then none
            else
              some {
                offset, length, bytesPerCluster, fileAreaOffset, rootCluster, fatEntries, clusterCount
                fatEntrySize := entrySize
                bigEndian }

/-- `fatx_parse_partition`. -/
def fatxParsePartition (dev : FatxDevice) (faults : FatxFaults) (offset length : ℕ) :
    Option FatxPartition :=
  if length < 4096 ∨ dev.size < offset ∨ dev.size - offset < length then none
  else
    match fatxDiskRead dev faults offset 16 with
    | .error _ => none
    | .ok header =>
      let bigEndian := bytesAt header 0 [0x58, 0x54, 0x41, 0x46]
      if ¬ bytesAt header 0 [0x46, 0x41, 0x54, 0x58] ∧ ¬ bigEndian then none
      else
        let sectorsPerCluster := fatxGetU32 header 8 bigEndian
        let rootCluster := fatxGetU32 header 12 bigEndian
        if ¬ lostIsPow2 sectorsPerCluster ∨ 0x400 < sectorsPerCluster ∨ rootCluster = 0 then none
        else fatxGeometry offset length sectorsPerCluster rootCluster bigEndian

/-! ### Chains -/

/-- `fatx_read_fat`. -/
def fatxReadFat (dev : FatxDevice) (faults : FatxFaults) (partition : FatxPartition) (cluster : ℕ) :
    Except GrubError ℕ :=
  if cluster = 0 ∨ partition.fatEntries ≤ cluster then .error ⟨.badFs, "FATX cluster outside FAT"⟩
  else
    match fatxPartitionRead dev faults partition (4096 + cluster * partition.fatEntrySize)
      partition.fatEntrySize with
    | .error e => .error e
    | .ok raw =>
      .ok (if partition.fatEntrySize = 2 then fatxGetU16 raw 0 partition.bigEndian
        else fatxGetU32 raw 0 partition.bigEndian)

/-- The first of the end marks. -/
def FatxPartition.reserved (partition : FatxPartition) : ℕ :=
  if partition.fatEntrySize = 2 then FATX_FAT16_RESERVED else FATX_FAT32_RESERVED

/-- `fatx_advance_cluster`; there is no next cluster at the end. -/
def fatxAdvanceCluster (dev : FatxDevice) (faults : FatxFaults) (partition : FatxPartition)
    (cluster : ℕ) : Except GrubError (Option ℕ) :=
  if cluster = 0 ∨ partition.clusterCount < cluster then
    .error ⟨.badFs, "FATX cluster outside file area"⟩
  else
    match fatxReadFat dev faults partition cluster with
    | .error e => .error e
    | .ok value =>
      if partition.reserved ≤ value then .ok none
      else if value = 0 then .error ⟨.badFs, "FATX chain reaches a free cluster"⟩
      else if partition.clusterCount < value then .error ⟨.badFs, "FATX chain leaves file area"⟩
      else .ok (some value)

/-- `fatx_validate_chain`. -/
def fatxValidateChain (dev : FatxDevice) (faults : FatxFaults) (partition : FatxPartition)
    (first : ℕ) : Except GrubError Unit :=
  if first = 0 ∨ partition.clusterCount < first then .error ⟨.badFs, "invalid FATX first cluster"⟩
  else
    Cycle.validate (fatxAdvanceCluster dev faults partition)
      ⟨.badFs, "cyclic FATX cluster chain"⟩ ⟨.badFs, "FATX cluster chain is too long"⟩
      partition.clusterCount first first

/-- The loop of `fatx_require_clusters`. -/
def fatxRequireLoop (dev : FatxDevice) (faults : FatxFaults) (partition : FatxPartition) :
    ℕ → ℕ → Except GrubError Unit
  | 0, _ => .ok ()
  | n + 1, current =>
    match fatxAdvanceCluster dev faults partition current with
    | .error e => .error e
    | .ok none => .error ⟨.badFs, "truncated FATX file chain"⟩
    | .ok (some next) => fatxRequireLoop dev faults partition n next

/-- `fatx_require_clusters`. -/
def fatxRequireClusters (dev : FatxDevice) (faults : FatxFaults) (partition : FatxPartition)
    (first required : ℕ) : Except GrubError Unit :=
  if required = 0 then .ok ()
  else if partition.clusterCount < required then .error ⟨.badFs, "FATX file exceeds file area"⟩
  else fatxRequireLoop dev faults partition (required - 1) first

/-- `fatx_cluster_offset`. -/
def fatxClusterOffset (partition : FatxPartition) (cluster : ℕ) : Except GrubError ℕ :=
  if cluster = 0 ∨ partition.clusterCount < cluster then
    .error ⟨.badFs, "FATX cluster outside partition"⟩
  else
    match grubMul (cluster - 1) partition.bytesPerCluster with
    | none => .error ⟨.badFs, "FATX cluster outside partition"⟩
    | some relative =>
      match grubAdd partition.fileAreaOffset relative with
      | none => .error ⟨.badFs, "FATX cluster outside partition"⟩
      | some relative =>
        match grubAdd partition.offset relative with
        | none => .error ⟨.badFs, "FATX cluster outside partition"⟩
        | some offset =>
          if sub64 partition.length relative < partition.bytesPerCluster then
            .error ⟨.badFs, "FATX cluster outside partition"⟩
          else .ok offset

/-! ### Files -/

/-- The part of `struct grub_fshelp_node` that a read does not change. -/
structure FatxNode where
  firstCluster : ℕ
  size : ℕ
  size_lt : size < 2 ^ 32

/-- `map_cluster`, `map_index` and `map_valid`. -/
structure FatxCursor where
  mapCluster : ℕ
  mapIndex : ℕ
  mapValid : Bool
  deriving DecidableEq

/-- The clusters that a file takes. -/
def fatxRequired (partition : FatxPartition) (node : FatxNode) : ℕ :=
  (node.size + partition.bytesPerCluster - 1) / partition.bytesPerCluster

/-- `fatx_prepare_file`: the cursor of a file that is opened. -/
def fatxPrepareFile (dev : FatxDevice) (faults : FatxFaults) (partition : FatxPartition)
    (node : FatxNode) : Except GrubError FatxCursor :=
  if node.size = 0 then .ok ⟨0, 0, false⟩
  else
    match fatxValidateChain dev faults partition node.firstCluster with
    | .error e => .error e
    | .ok () =>
      match fatxRequireClusters dev faults partition node.firstCluster (fatxRequired partition node) with
      | .error e => .error e
      | .ok () => .ok ⟨node.firstCluster, 0, true⟩

/-- The loop of `fatx_map_file_cluster`, `n` clusters ahead. -/
def fatxMapLoop (dev : FatxDevice) (faults : FatxFaults) (partition : FatxPartition) :
    ℕ → FatxCursor → Except GrubError ℕ × FatxCursor
  | 0, s => (.ok s.mapCluster, s)
  | n + 1, s =>
    match fatxAdvanceCluster dev faults partition s.mapCluster with
    | .error e => (.error e, s)
    | .ok none => (.error ⟨.badFs, "truncated FATX file chain"⟩, s)
    | .ok (some next) =>
      fatxMapLoop dev faults partition n { s with mapCluster := next, mapIndex := s.mapIndex + 1 }

/-- `fatx_map_file_cluster`. -/
def fatxMapFileCluster (dev : FatxDevice) (faults : FatxFaults) (partition : FatxPartition)
    (node : FatxNode) (s : FatxCursor) (index : ℕ) : Except GrubError ℕ × FatxCursor :=
  let s := if ¬ s.mapValid ∨ index < s.mapIndex then ⟨node.firstCluster, 0, true⟩ else s
  fatxMapLoop dev faults partition (index - s.mapIndex) s

/-- One round of the loop of `grub_fatx_read`. -/
def fatxReadPiece (dev : FatxDevice) (faults : FatxFaults) (partition : FatxPartition)
    (node : FatxNode) (s : FatxCursor) (offset len : ℕ) :
    Except GrubError (List UInt8) × FatxCursor :=
  let index := u32 (offset / partition.bytesPerCluster)
  let inCluster := offset % partition.bytesPerCluster
  let chunk := min len (partition.bytesPerCluster - inCluster)
  match fatxMapFileCluster dev faults partition node s index with
  | (.error e, s) => (.error e, s)
  | (.ok cluster, s) =>
    match fatxClusterOffset partition cluster with
    | .error e => (.error e, s)
    | .ok physical =>
      match fatxDiskRead dev faults (physical + inCluster) chunk with
      | .error e => (.error e, s)
      | .ok buffer => (.ok (buffer.list 0 chunk), s)

/-- The loop makes progress in each round, so this error does not come up. -/
def fatxStuck : GrubError := ⟨.fileReadError, ""⟩

/-- `grub_fatx_read` of `length` bytes at `offset`. -/
def grubFatxRead (dev : FatxDevice) (faults : FatxFaults) (partition : FatxPartition)
    (node : FatxNode) (s : FatxCursor) (offset length : ℕ) :
    Except GrubError (List UInt8) × FatxCursor :=
  if node.size < offset then
    (.error ⟨.outOfRange, "attempt to read past end of FATX file"⟩, s)
  else
    let length := min length (node.size - offset)
    History.readAll fatxStuck (fatxReadPiece dev faults partition node) length s offset length

/-- A read on an open file: the reads of the device that fail meanwhile, and what is asked for. -/
structure FatxRequest where
  faults : FatxFaults
  offset : ℕ
  length : ℕ

/-- The answer to a read, and the cursor then. -/
def fatxAnswer (dev : FatxDevice) (partition : FatxPartition) (node : FatxNode) (s : FatxCursor)
    (r : FatxRequest) : Except GrubError (List UInt8) × FatxCursor :=
  grubFatxRead dev r.faults partition node s r.offset r.length

/-! ### What a chain is -/

/-- The entry of a cluster in the FAT. -/
def fatxEntry (dev : FatxDevice) (partition : FatxPartition) (cluster : ℕ) : ℕ :=
  let raw := dev.bytes.from (partition.offset + (4096 + cluster * partition.fatEntrySize))
  if partition.fatEntrySize = 2 then fatxGetU16 raw 0 partition.bigEndian
  else fatxGetU32 raw 0 partition.bigEndian

/-- A cluster of the file area. -/
def FatxPartition.InArea (partition : FatxPartition) (cluster : ℕ) : Prop :=
  1 ≤ cluster ∧ cluster ≤ partition.clusterCount

/-- From a cluster of the file area the entries lead to an end mark, through clusters of the file
area. -/
inductive FatxEnds (dev : FatxDevice) (partition : FatxPartition) : ℕ → Prop
  | mark {cluster : ℕ} (harea : partition.InArea cluster)
    (hmark : partition.reserved ≤ fatxEntry dev partition cluster) : FatxEnds dev partition cluster
  | link {cluster : ℕ} (harea : partition.InArea cluster)
    (hnext : partition.InArea (fatxEntry dev partition cluster))
    (hends : FatxEnds dev partition (fatxEntry dev partition cluster)) :
    FatxEnds dev partition cluster

/-- The `k`-th cluster of the chain. -/
def fatxNth (dev : FatxDevice) (partition : FatxPartition) (k first : ℕ) : Option ℕ :=
  Cycle.nth (fatxAdvanceCluster dev fatxCalm partition) k first

/-- Where the byte at `i` of a file is in its partition, given its cluster. -/
def fatxPlace (partition : FatxPartition) (cluster i : ℕ) : ℕ :=
  partition.fileAreaOffset + (cluster - 1) * partition.bytesPerCluster + i % partition.bytesPerCluster

/-- The byte at `i` of a file, from the clusters of its chain. -/
def fatxByte (dev : FatxDevice) (partition : FatxPartition) (first : ℕ) : Buf := fun i =>
  match fatxNth dev partition (i / partition.bytesPerCluster) first with
  | some cluster => dev.bytes (partition.offset + fatxPlace partition cluster i)
  | none => 0

/-! ### The geometry -/

variable {dev : FatxDevice} {faults : FatxFaults} {partition : FatxPartition}

/-- How the cluster numbers, the FAT and the file area fit together. -/
structure FatxPartition.Fits (dev : FatxDevice) (partition : FatxPartition) : Prop where
  cluster_pos : 0 < partition.bytesPerCluster
  inside : partition.offset + partition.length ≤ dev.size
  area_le : partition.fileAreaOffset + partition.clusterCount * partition.bytesPerCluster
    ≤ partition.length
  entry_lt : partition.clusterCount < partition.fatEntries
  fat_le : 4096 + (partition.clusterCount + 1) * partition.fatEntrySize ≤ partition.fileAreaOffset
  reserved : partition.clusterCount < partition.reserved

theorem fatxGeometry_fits {offset length sectorsPerCluster rootCluster : ℕ} {bigEndian : Bool}
    (hpos : 0 < sectorsPerCluster) (hle : sectorsPerCluster ≤ 0x400)
    (hin : offset + length ≤ dev.size)
    (h : fatxGeometry offset length sectorsPerCluster rootCluster bigEndian = some partition) :
    partition.Fits dev := by
  rw [fatxGeometry] at h
  obtain ⟨B, hB⟩ : ∃ B, B = sectorsPerCluster * 512 := ⟨_, rfl⟩
  obtain ⟨E, hE⟩ : ∃ E, E = length / B + 1 := ⟨_, rfl⟩
  obtain ⟨w, hw⟩ : ∃ w, w = if E < FATX_FAT16_RESERVED then 2 else 4 := ⟨_, rfl⟩
  dsimp only at h
  rw [← hB, ← hE, ← hw] at h
  split_ifs at h with hmany
  cases hraw : grubMul E w with
  | none =>
    rw [hraw] at h
    cases h
  | some raw =>
  rw [hraw] at h
  dsimp only at h
  cases hsum : grubAdd raw 4095 with
  | none =>
    rw [hsum] at h
    cases h
  | some sum =>
  rw [hsum] at h
  dsimp only at h
  cases harea : grubAdd 4096 (sum / 4096 * 4096) with
  | none =>
    rw [harea] at h
    cases h
  | some area =>
  rw [harea] at h
  dsimp only at h
  split_ifs at h with hlong hcount
  obtain ⟨-, rfl⟩ := grubMul_eq_some.mp hraw
  obtain ⟨-, rfl⟩ := grubAdd_eq_some.mp hsum
  obtain ⟨-, harea⟩ := grubAdd_eq_some.mp harea
  obtain ⟨n, hn⟩ : ∃ n, n = (length - area) / B := ⟨_, rfl⟩
  rw [← hn] at h hcount
  have hBpos : 0 < B := by omega
  have hmul : n * B ≤ length - area := by
    rw [hn]
    exact Nat.div_mul_le_self _ _
  have hlt : n < E := by
    have hdiv : (length - area) / B ≤ length / B := Nat.div_le_div_right (Nat.sub_le _ _)
    omega
  have hround : E * w ≤ (E * w + 4095) / 4096 * 4096 := by omega
  have hfat : (n + 1) * w ≤ E * w := Nat.mul_le_mul_right w hlt
  have hreserved : n < if w = 2 then FATX_FAT16_RESERVED else FATX_FAT32_RESERVED := by
    by_cases hsmall : E < FATX_FAT16_RESERVED
    · rw [if_pos hsmall] at hw
      rw [if_pos hw]
      exact Nat.lt_trans hlt hsmall
    · rw [if_neg hsmall] at hw
      rw [if_neg (by omega)]
      by_contra hge
      rw [FATX_FAT32_RESERVED] at hge
      -- the FAT alone takes more bytes than fifteen clusters
      obtain ⟨d, hd⟩ : ∃ d, E = n + d := ⟨E - n, by omega⟩
      have hlength : length < E * B := by
        have hmod := Nat.div_add_mod length B
        have hrest := Nat.mod_lt length hBpos
        rw [hE, Nat.add_mul, Nat.one_mul, Nat.mul_comm]
        omega
      have hdB : d * B ≤ 15 * (0x400 * 512) := Nat.mul_le_mul (by omega) (by omega)
      have hwide : E * w = E * 4 := by rw [hw]
      rw [hd, Nat.add_mul] at hlength
      omega
  obtain rfl := Option.some.inj h
  exact ⟨hBpos, hin, by dsimp only; omega, hlt, by dsimp only; omega, hreserved⟩

theorem fatxParsePartition_fits {offset length : ℕ}
    (h : fatxParsePartition dev faults offset length = some partition) : partition.Fits dev := by
  rw [fatxParsePartition] at h
  split_ifs at h with hout
  cases hheader : fatxDiskRead dev faults offset 16 with
  | error e =>
    rw [hheader] at h
    cases h
  | ok header =>
    rw [hheader] at h
    dsimp only at h
    split_ifs at h with hmagic hspc
    obtain ⟨hpow, hle, -⟩ : lostIsPow2 (fatxGetU32 header 8 (bytesAt header 0 [0x58, 0x54, 0x41, 0x46])) = true
        ∧ fatxGetU32 header 8 (bytesAt header 0 [0x58, 0x54, 0x41, 0x46]) ≤ 0x400 ∧ True := by
      rw [not_or, not_or, not_not] at hspc
      exact ⟨hspc.1, Nat.not_lt.mp hspc.2.1, trivial⟩
    refine fatxGeometry_fits (Nat.pos_of_ne_zero fun hzero => ?_) hle (by omega) h
    rw [hzero] at hpow
    cases hpow

/-! ### Following a chain -/

theorem fatxDiskRead_calm {offset length : ℕ} (h : offset + length ≤ dev.size) :
    fatxDiskRead dev fatxCalm offset length = .ok (dev.bytes.from offset) := by
  rw [fatxDiskRead, if_neg (by omega)]
  rfl

theorem fatxDiskRead_ok {offset length : ℕ} {b : Buf}
    (h : fatxDiskRead dev faults offset length = .ok b) : b = dev.bytes.from offset := by
  rw [fatxDiskRead] at h
  split_ifs at h
  cases hfault : faults offset length with
  | some e =>
    rw [hfault] at h
    cases h
  | none =>
    rw [hfault] at h
    exact (Except.ok.inj h).symm

section Chain

variable (hfits : partition.Fits dev)

include hfits

theorem fatxReadFat_calm {cluster : ℕ} (h : partition.InArea cluster) :
    fatxReadFat dev fatxCalm partition cluster = .ok (fatxEntry dev partition cluster) := by
  have hin := hfits.inside
  have harea := hfits.area_le
  have hentry := hfits.entry_lt
  have hfat := hfits.fat_le
  have hlt := dev.size_lt
  obtain ⟨hlow, hhigh⟩ := h
  have hmul : (cluster + 1) * partition.fatEntrySize
      ≤ (partition.clusterCount + 1) * partition.fatEntrySize := Nat.mul_le_mul_right _ (by omega)
  rw [Nat.add_mul, Nat.one_mul] at hmul
  rw [fatxReadFat, if_neg (by omega), fatxPartitionRead, if_neg (by omega),
    grubAdd_eq_some.mpr ⟨by omega, rfl⟩]
  dsimp only
  rw [fatxDiskRead_calm (by omega)]
  rfl

theorem fatxReadFat_ok {cluster value : ℕ} (h : partition.InArea cluster)
    (hread : fatxReadFat dev faults partition cluster = .ok value) :
    value = fatxEntry dev partition cluster := by
  have hin := hfits.inside
  have harea := hfits.area_le
  have hentry := hfits.entry_lt
  have hfat := hfits.fat_le
  have hlt := dev.size_lt
  obtain ⟨hlow, hhigh⟩ := h
  have hmul : (cluster + 1) * partition.fatEntrySize
      ≤ (partition.clusterCount + 1) * partition.fatEntrySize := Nat.mul_le_mul_right _ (by omega)
  rw [Nat.add_mul, Nat.one_mul] at hmul
  rw [fatxReadFat, if_neg (by omega), fatxPartitionRead, if_neg (by omega),
    grubAdd_eq_some.mpr ⟨by omega, rfl⟩] at hread
  dsimp only at hread
  cases hdisk : fatxDiskRead dev faults (partition.offset + (4096 + cluster * partition.fatEntrySize))
      partition.fatEntrySize with
  | error e =>
    rw [hdisk] at hread
    cases hread
  | ok raw =>
    rw [hdisk] at hread
    obtain rfl := fatxDiskRead_ok hdisk
    exact (Except.ok.inj hread).symm

/-- A hop on a device that fails now and then is one on a device that does not. -/
theorem fatxAdvanceCluster_calm {cluster : ℕ} {r : Option ℕ}
    (h : fatxAdvanceCluster dev faults partition cluster = .ok r) :
    fatxAdvanceCluster dev fatxCalm partition cluster = .ok r := by
  rw [fatxAdvanceCluster] at h ⊢
  split_ifs at h ⊢ with hout
  have harea : partition.InArea cluster := ⟨by omega, by omega⟩
  cases hread : fatxReadFat dev faults partition cluster with
  | error e =>
    rw [hread] at h
    cases h
  | ok value =>
    rw [hread] at h
    rw [fatxReadFat_calm hfits harea, ← fatxReadFat_ok hfits harea hread]
    exact h

theorem fatxAdvanceCluster_none {cluster : ℕ} :
    fatxAdvanceCluster dev fatxCalm partition cluster = .ok none
      ↔ partition.InArea cluster ∧ partition.reserved ≤ fatxEntry dev partition cluster := by
  rw [fatxAdvanceCluster]
  by_cases hout : cluster = 0 ∨ partition.clusterCount < cluster
  · rw [if_pos hout]
    exact iff_of_false (fun h => by cases h) fun h => by
      obtain ⟨⟨hlow, hhigh⟩, -⟩ := h
      omega
  have harea : partition.InArea cluster := ⟨by omega, by omega⟩
  rw [if_neg hout, fatxReadFat_calm hfits harea]
  dsimp only
  by_cases hmark : partition.reserved ≤ fatxEntry dev partition cluster
  · rw [if_pos hmark]
    exact iff_of_true rfl ⟨harea, hmark⟩
  · rw [if_neg hmark]
    refine iff_of_false (fun h => ?_) fun h => hmark h.2
    split_ifs at h
    cases h

theorem fatxAdvanceCluster_some {cluster next : ℕ} :
    fatxAdvanceCluster dev fatxCalm partition cluster = .ok (some next)
      ↔ partition.InArea cluster ∧ next = fatxEntry dev partition cluster
        ∧ partition.InArea next := by
  have hreserved := hfits.reserved
  rw [fatxAdvanceCluster]
  by_cases hout : cluster = 0 ∨ partition.clusterCount < cluster
  · rw [if_pos hout]
    exact iff_of_false (fun h => by cases h) fun h => by
      obtain ⟨⟨hlow, hhigh⟩, -⟩ := h
      omega
  have harea : partition.InArea cluster := ⟨by omega, by omega⟩
  rw [if_neg hout, fatxReadFat_calm hfits harea]
  dsimp only
  obtain ⟨v, hv⟩ : ∃ v, v = fatxEntry dev partition cluster := ⟨_, rfl⟩
  rw [← hv]
  constructor
  · intro h
    split_ifs at h with hmark hzero hleaves
    · cases h
    · obtain rfl := Option.some.inj (Except.ok.inj h)
      exact ⟨harea, rfl, by omega, by omega⟩
  · rintro ⟨-, rfl, hlow, hhigh⟩
    rw [if_neg (by omega), if_neg (by omega), if_neg (by omega)]

theorem fatxEnds_iff {cluster : ℕ} :
    (∃ n, Cycle.EndsAfter (fatxAdvanceCluster dev fatxCalm partition) n cluster)
      ↔ FatxEnds dev partition cluster := by
  constructor
  · rintro ⟨n, hn⟩
    induction n generalizing cluster with
    | zero =>
      obtain ⟨harea, hmark⟩ := (fatxAdvanceCluster_none hfits).mp hn
      exact .mark harea hmark
    | succ n ih =>
      obtain ⟨next, hnext, hrest⟩ := hn
      obtain ⟨harea, rfl, hin⟩ := (fatxAdvanceCluster_some hfits).mp hnext
      exact .link harea hin (ih hrest)
  · intro h
    induction h with
    | mark harea hmark => exact ⟨0, (fatxAdvanceCluster_none hfits).mpr ⟨harea, hmark⟩⟩
    | link harea hnext _ ih =>
      obtain ⟨n, hn⟩ := ih
      exact ⟨n + 1, _, (fatxAdvanceCluster_some hfits).mpr ⟨harea, rfl, hnext⟩, hn⟩

/-- Exactly the chains that come to an end mark inside the file area are valid. -/
theorem fatxValidateChain_iff {first : ℕ} :
    fatxValidateChain dev fatxCalm partition first = .ok () ↔ FatxEnds dev partition first := by
  rw [fatxValidateChain]
  by_cases hout : first = 0 ∨ partition.clusterCount < first
  · rw [if_pos hout]
    refine iff_of_false (fun h => by cases h) fun h => ?_
    have harea : partition.InArea first := by cases h <;> assumption
    obtain ⟨hlow, hhigh⟩ := harea
    omega
  rw [if_neg hout, ← fatxEnds_iff hfits]
  refine @Cycle.validate_eq_ok_iff _ _ _ _ _ _ _ _ (Finset.Icc 1 partition.clusterCount)
    (fun a b hab => ?_) (Finset.mem_Icc.mpr ⟨by omega, by omega⟩) ?_
  · exact Finset.mem_Icc.mpr ((fatxAdvanceCluster_some hfits).mp hab).2.2
  · rw [Nat.card_Icc, Nat.add_sub_cancel]

theorem fatxNth_inArea {k first cluster : ℕ} (hfirst : partition.InArea first)
    (h : fatxNth dev partition k first = some cluster) : partition.InArea cluster :=
  Cycle.nth_mem (S := {c | partition.InArea c})
    (fun _ _ hab => ((fatxAdvanceCluster_some hfits).mp hab).2.2) hfirst h

theorem fatxClusterOffset_eq {cluster : ℕ} (h : partition.InArea cluster) :
    partition.fileAreaOffset + (cluster - 1) * partition.bytesPerCluster + partition.bytesPerCluster
        ≤ partition.length
      ∧ fatxClusterOffset partition cluster = .ok (partition.offset + (partition.fileAreaOffset
        + (cluster - 1) * partition.bytesPerCluster)) := by
  have hin := hfits.inside
  have harea := hfits.area_le
  have hlt := dev.size_lt
  obtain ⟨hlow, hhigh⟩ := h
  have hmul : (cluster - 1 + 1) * partition.bytesPerCluster
      ≤ partition.clusterCount * partition.bytesPerCluster := Nat.mul_le_mul_right _ (by omega)
  rw [Nat.add_mul, Nat.one_mul] at hmul
  refine ⟨by omega, ?_⟩
  rw [fatxClusterOffset, if_neg (by omega), grubMul_eq_some.mpr ⟨by omega, rfl⟩]
  dsimp only
  rw [grubAdd_eq_some.mpr ⟨by omega, rfl⟩]
  dsimp only
  rw [grubAdd_eq_some.mpr ⟨by omega, rfl⟩]
  dsimp only
  rw [sub64_of_le (by omega) (by omega), if_neg (by omega)]

/-! ### Opening -/

theorem fatxRequireLoop_ok {n current : ℕ}
    (h : fatxRequireLoop dev faults partition n current = .ok ()) :
    ∀ k ≤ n, ∃ cluster, fatxNth dev partition k current = some cluster := by
  induction n generalizing current with
  | zero =>
    intro k hk
    obtain rfl := Nat.le_zero.mp hk
    exact ⟨current, rfl⟩
  | succ n ih =>
    intro k hk
    rw [fatxRequireLoop] at h
    cases hhop : fatxAdvanceCluster dev faults partition current with
    | error e =>
      rw [hhop] at h
      cases h
    | ok next =>
    cases next with
    | none =>
      rw [hhop] at h
      cases h
    | some next =>
    rw [hhop] at h
    cases k with
    | zero => exact ⟨current, rfl⟩
    | succ k =>
      obtain ⟨cluster, hcluster⟩ := ih h k (by omega)
      exact ⟨cluster, Cycle.nth_succ_eq_some.mpr ⟨next, fatxAdvanceCluster_calm hfits hhop, hcluster⟩⟩

end Chain

/-- Every byte of the file has a cluster in the file area. -/
def FatxOpened (dev : FatxDevice) (partition : FatxPartition) (node : FatxNode) : Prop :=
  ∀ i < node.size, ∃ cluster, partition.InArea cluster
    ∧ fatxNth dev partition (i / partition.bytesPerCluster) node.firstCluster = some cluster

/-- The cursor is on the cluster it has the index of. -/
def FatxCursor.Sound (dev : FatxDevice) (partition : FatxPartition) (node : FatxNode)
    (s : FatxCursor) : Prop :=
  s.mapValid = true → fatxNth dev partition s.mapIndex node.firstCluster = some s.mapCluster

variable {node : FatxNode} {s : FatxCursor}

theorem fatxRequired_lt (hpos : 0 < partition.bytesPerCluster) {i : ℕ} (hi : i < node.size) :
    i / partition.bytesPerCluster < fatxRequired partition node := by
  rw [fatxRequired, ← Nat.succ_le_iff, Nat.le_div_iff_mul_le hpos, Nat.succ_mul]
  have hdiv := Nat.div_mul_le_self i partition.bytesPerCluster
  omega

theorem fatxPrepareFile_ok (hfits : partition.Fits dev)
    (h : fatxPrepareFile dev faults partition node = .ok s) :
    FatxOpened dev partition node ∧ s.Sound dev partition node := by
  rw [fatxPrepareFile] at h
  split_ifs at h with hempty
  · obtain rfl := Except.ok.inj h
    exact ⟨fun i hi => by omega, fun hvalid => by cases hvalid⟩
  cases hvalidate : fatxValidateChain dev faults partition node.firstCluster with
  | error e =>
    rw [hvalidate] at h
    cases h
  | ok u =>
  rw [hvalidate] at h
  dsimp only at h
  cases hrequire : fatxRequireClusters dev faults partition node.firstCluster
      (fatxRequired partition node) with
  | error e =>
    rw [hrequire] at h
    cases h
  | ok u =>
  rw [hrequire] at h
  obtain rfl := Except.ok.inj h
  refine ⟨fun i hi => ?_, fun _ => rfl⟩
  have hfirst : partition.InArea node.firstCluster := by
    rw [fatxValidateChain] at hvalidate
    split_ifs at hvalidate with hout
    exact ⟨by omega, by omega⟩
  have hlt := fatxRequired_lt hfits.cluster_pos hi
  rw [fatxRequireClusters] at hrequire
  split_ifs at hrequire with hnone hmany
  · rw [hnone] at hlt
    exact absurd hlt (Nat.not_lt_zero _)
  obtain ⟨cluster, hcluster⟩ := fatxRequireLoop_ok hfits hrequire
    (i / partition.bytesPerCluster) (by omega)
  exact ⟨cluster, fatxNth_inArea hfits hfirst hcluster, hcluster⟩

/-! ### Reading -/

/-- The hops of the loop are hops of the chain, whatever fails on the way. -/
theorem fatxMapLoop_ok (hfits : partition.Fits dev) {n cluster : ℕ}
    (h : (fatxMapLoop dev faults partition n s).1 = .ok cluster) :
    fatxNth dev partition n s.mapCluster = some cluster := by
  induction n generalizing s with
  | zero => exact congrArg some (Except.ok.inj h)
  | succ n ih =>
    rw [fatxMapLoop] at h
    cases hhop : fatxAdvanceCluster dev faults partition s.mapCluster with
    | error e =>
      rw [hhop] at h
      cases h
    | ok next =>
    cases next with
    | none =>
      rw [hhop] at h
      cases h
    | some next =>
      rw [hhop] at h
      exact Cycle.nth_succ_eq_some.mpr ⟨next, fatxAdvanceCluster_calm hfits hhop, ih h⟩

theorem fatxMapLoop_calm {n cluster : ℕ}
    (h : fatxNth dev partition n s.mapCluster = some cluster) :
    (fatxMapLoop dev fatxCalm partition n s).1 = .ok cluster := by
  induction n generalizing s with
  | zero => exact congrArg Except.ok (Option.some.inj h)
  | succ n ih =>
    obtain ⟨next, hnext, hrest⟩ := Cycle.nth_succ_eq_some.mp h
    rw [fatxMapLoop, hnext]
    exact ih hrest

theorem fatxMapLoop_sound (hfits : partition.Fits dev) {n : ℕ} (hs : s.Sound dev partition node) :
    (fatxMapLoop dev faults partition n s).2.Sound dev partition node := by
  induction n generalizing s with
  | zero => exact hs
  | succ n ih =>
    rw [fatxMapLoop]
    cases hhop : fatxAdvanceCluster dev faults partition s.mapCluster with
    | error e => exact hs
    | ok next =>
    cases next with
    | none => exact hs
    | some next =>
      refine ih fun hvalid => ?_
      rw [fatxNth, Cycle.nth_add, ← fatxNth, hs hvalid]
      exact Cycle.nth_succ_eq_some.mpr ⟨next, fatxAdvanceCluster_calm hfits hhop, rfl⟩

/-- The cursor that the loop starts from is valid and not ahead. -/
theorem fatxMapFileCluster_start {index : ℕ} (hs : s.Sound dev partition node) :
    ∃ t : FatxCursor, t.Sound dev partition node ∧ t.mapValid = true ∧ t.mapIndex ≤ index
      ∧ ∀ faults, fatxMapFileCluster dev faults partition node s index
        = fatxMapLoop dev faults partition (index - t.mapIndex) t := by
  by_cases hback : ¬ s.mapValid ∨ index < s.mapIndex
  · refine ⟨⟨node.firstCluster, 0, true⟩, fun _ => rfl, rfl, Nat.zero_le _, fun faults => ?_⟩
    rw [fatxMapFileCluster, if_pos hback]
  · rw [not_or, not_not] at hback
    refine ⟨s, hs, hback.1, Nat.not_lt.mp hback.2, fun faults => ?_⟩
    rw [fatxMapFileCluster, if_neg (by rw [not_or, not_not]; exact hback)]

/-- Wherever the cursor was left, it gets to the cluster at an index of the chain. -/
theorem fatxMapFileCluster_spec (hfits : partition.Fits dev) {index : ℕ}
    (hs : s.Sound dev partition node) :
    (fatxMapFileCluster dev faults partition node s index).2.Sound dev partition node
      ∧ (∀ cluster, (fatxMapFileCluster dev faults partition node s index).1 = .ok cluster
        → fatxNth dev partition index node.firstCluster = some cluster)
      ∧ ∀ cluster, fatxNth dev partition index node.firstCluster = some cluster
        → (fatxMapFileCluster dev fatxCalm partition node s index).1 = .ok cluster := by
  obtain ⟨t, ht, hvalid, hle, hmap⟩ := @fatxMapFileCluster_start dev partition node s index hs
  have hsplit : fatxNth dev partition index node.firstCluster
      = fatxNth dev partition (index - t.mapIndex) t.mapCluster := by
    conv_lhs => rw [← Nat.add_sub_cancel' hle]
    rw [fatxNth, Cycle.nth_add, ← fatxNth, ht hvalid]
    rfl
  rw [hmap, hmap, hsplit]
  exact ⟨fatxMapLoop_sound hfits ht, fun _ => fatxMapLoop_ok hfits, fun _ => fatxMapLoop_calm⟩

/-- Inside a cluster the places of a file follow each other. -/
theorem fatxByte_add {offset cluster i : ℕ} (hpos : 0 < partition.bytesPerCluster)
    (hcluster : fatxNth dev partition (offset / partition.bytesPerCluster) node.firstCluster
      = some cluster)
    (hi : offset % partition.bytesPerCluster + i < partition.bytesPerCluster) :
    fatxByte dev partition node.firstCluster (offset + i)
      = dev.bytes (partition.offset + (partition.fileAreaOffset
        + (cluster - 1) * partition.bytesPerCluster) + offset % partition.bytesPerCluster + i) := by
  have hsplit := Nat.div_add_mod offset partition.bytesPerCluster
  have hplace : offset + i = offset % partition.bytesPerCluster + i
      + offset / partition.bytesPerCluster * partition.bytesPerCluster := by
    rw [Nat.mul_comm]
    omega
  have hdiv : (offset + i) / partition.bytesPerCluster = offset / partition.bytesPerCluster := by
    rw [hplace, Nat.add_mul_div_right _ _ hpos, Nat.div_eq_of_lt hi, Nat.zero_add]
  have hmod : (offset + i) % partition.bytesPerCluster = offset % partition.bytesPerCluster + i := by
    rw [hplace, Nat.add_mul_mod_self_right, Nat.mod_eq_of_lt hi]
  rw [fatxByte, hdiv, hcluster]
  dsimp only
  rw [fatxPlace, hmod]
  congr 1
  omega

theorem fatxReadPiece_sound (hfits : partition.Fits dev) {offset len : ℕ}
    (hs : s.Sound dev partition node) :
    (fatxReadPiece dev faults partition node s offset len).2.Sound dev partition node := by
  have hsound := (@fatxMapFileCluster_spec dev faults partition node s hfits
    (u32 (offset / partition.bytesPerCluster)) hs).1
  rw [fatxReadPiece]
  cases hmap : fatxMapFileCluster dev faults partition node s
      (u32 (offset / partition.bytesPerCluster)) with
  | mk r t =>
  rw [hmap] at hsound
  cases r with
  | error e => exact hsound
  | ok cluster =>
  dsimp only
  cases fatxClusterOffset partition cluster with
  | error e => exact hsound
  | ok physical =>
  dsimp only
  cases fatxDiskRead dev faults (physical + offset % partition.bytesPerCluster)
      (min len (partition.bytesPerCluster - offset % partition.bytesPerCluster)) <;> exact hsound

/-- A round of the loop reads from the cluster of its place, wherever the cursor was left. -/
theorem fatxReadPiece_spec (hfits : partition.Fits dev) (hopen : FatxOpened dev partition node)
    {offset len : ℕ} (hs : s.Sound dev partition node) (hlen : 0 < len)
    (hin : offset + len ≤ node.size) :
    (∀ bs, (fatxReadPiece dev faults partition node s offset len).1 = .ok bs → 0 < bs.length
        ∧ bs.length ≤ len
        ∧ bs = History.slice (fatxByte dev partition node.firstCluster) offset bs.length)
      ∧ (faults = fatxCalm →
        ∃ bs, (fatxReadPiece dev faults partition node s offset len).1 = .ok bs) := by
  have hpos := hfits.cluster_pos
  have hinside := hfits.inside
  have hmod := Nat.mod_lt offset hpos
  obtain ⟨cluster, harea, hcluster⟩ := hopen offset (by omega)
  obtain ⟨hroom, hoffset⟩ := fatxClusterOffset_eq hfits harea
  have hindex : u32 (offset / partition.bytesPerCluster) = offset / partition.bytesPerCluster :=
    u32_of_lt (Nat.lt_of_le_of_lt (Nat.div_le_self _ _) (by have := node.size_lt; omega))
  obtain ⟨-, hok, hcalm⟩ := @fatxMapFileCluster_spec dev faults partition node s hfits
    (offset / partition.bytesPerCluster) hs
  rw [fatxReadPiece, hindex]
  cases hmap : fatxMapFileCluster dev faults partition node s (offset / partition.bytesPerCluster) with
  | mk r t =>
  rw [hmap] at hok
  cases r with
  | error e =>
    refine ⟨(fun bs h => by cases h), fun hfaults => ?_⟩
    have hread := hcalm cluster hcluster
    rw [← hfaults, hmap] at hread
    cases hread
  | ok c =>
  obtain rfl : cluster = c := Option.some.inj (hcluster.symm.trans (hok c rfl))
  dsimp only
  rw [hoffset]
  dsimp only
  obtain ⟨chunk, hchunk⟩ : ∃ chunk, chunk
      = min len (partition.bytesPerCluster - offset % partition.bytesPerCluster) := ⟨_, rfl⟩
  rw [← hchunk]
  have hbounds : 0 < chunk ∧ chunk ≤ len
      ∧ offset % partition.bytesPerCluster + chunk ≤ partition.bytesPerCluster := by omega
  have hlist : (dev.bytes.from (partition.offset + (partition.fileAreaOffset
      + (cluster - 1) * partition.bytesPerCluster) + offset % partition.bytesPerCluster)).list 0 chunk
      = History.slice (fatxByte dev partition node.firstCluster) offset chunk := by
    refine List.ext_getElem (by simp) fun i hi _ => ?_
    rw [Buf.length_list] at hi
    rw [Buf.getElem_list, History.getElem_slice, Nat.zero_add,
      fatxByte_add hpos hcluster (by omega)]
    rfl
  cases hdisk : fatxDiskRead dev faults (partition.offset + (partition.fileAreaOffset
      + (cluster - 1) * partition.bytesPerCluster) + offset % partition.bytesPerCluster) chunk with
  | error e =>
    refine ⟨(fun bs h => by cases h), fun hfaults => ?_⟩
    rw [hfaults, fatxDiskRead_calm (by omega)] at hdisk
    cases hdisk
  | ok buffer =>
    obtain rfl := fatxDiskRead_ok hdisk
    refine ⟨fun bs h => ?_, fun _ => ⟨_, rfl⟩⟩
    obtain rfl := Except.ok.inj h
    rw [Buf.length_list]
    exact ⟨hbounds.1, hbounds.2.1, hlist⟩

/-- What a request is answered with, and what it leaves the cursor like. -/
theorem fatxAnswer_spec (hfits : partition.Fits dev) (hopen : FatxOpened dev partition node)
    (hs : s.Sound dev partition node) (r : FatxRequest) :
    (fatxAnswer dev partition node s r).2.Sound dev partition node
      ∧ (∀ bs, (fatxAnswer dev partition node s r).1 = .ok bs → r.offset ≤ node.size
        ∧ bs = History.slice (fatxByte dev partition node.firstCluster) r.offset
          (min r.length (node.size - r.offset)))
      ∧ (r.faults = fatxCalm → r.offset ≤ node.size →
        ∃ bs, (fatxAnswer dev partition node s r).1 = .ok bs) := by
  obtain ⟨faults, offset, length⟩ := r
  have hok : ∀ off len n, off + len ≤ node.size → n ≤ len → off + n + (len - n) ≤ node.size := by
    intro off len n hin hn
    omega
  rw [fatxAnswer, grubFatxRead]
  dsimp only
  by_cases hout : node.size < offset
  · rw [if_pos hout]
    exact ⟨hs, (fun bs h => by cases h), fun _ hin => by omega⟩
  rw [if_neg hout]
  have hin : offset + min length (node.size - offset) ≤ node.size := by omega
  refine ⟨?_, fun bs h => ?_, fun hfaults _ => ?_⟩
  · exact History.readAll_inv (fun t off len ht => fatxReadPiece_sound hfits ht) _ _ _ _ hs
  · have hall := @History.readAll_agrees_within _ _ _ fatxStuck _
      (fun t => t.Sound dev partition node)
      (fun x b => b = fatxByte dev partition node.firstCluster x) (fun off len => off + len ≤ node.size)
      hok (fun t off len cs ht hin hlen hread => ?_) _ _ _ _ _ hs hin h
    · obtain ⟨hlen, hagrees⟩ := hall
      exact ⟨Nat.not_lt.mp hout, hlen ▸ hagrees.eq_slice⟩
    · obtain ⟨-, hle, hslice⟩ := (fatxReadPiece_spec hfits hopen ht hlen hin).1 cs hread
      exact ⟨fatxReadPiece_sound hfits ht, hle, .of_eq_slice hslice⟩
  · refine @History.readAll_succeeds _ _ _ fatxStuck _ (fun t => t.Sound dev partition node)
      (fun off len => off + len ≤ node.size) hok (fun t off len ht hin hlen => ?_) _ _ _ _ hs hin
      (Nat.le_refl _)
    obtain ⟨hread, hcalm⟩ := @fatxReadPiece_spec dev faults partition node t hfits hopen _ _ ht hlen hin
    obtain ⟨cs, hcs⟩ := hcalm hfaults
    obtain ⟨hpos, hle, -⟩ := hread cs hcs
    exact ⟨cs, hcs, hpos, hle, fatxReadPiece_sound hfits ht⟩

/-- **FATX validation is exact.** On a partition that is accepted, the chains that come to an end mark
inside the file area are the valid ones. Every byte of a file that is opened is in a cluster of its
chain, inside the partition; and whatever was read before, and whether or not it failed, a read gives
the bytes of these clusters, and succeeds when the reads of the device do. -/
theorem fatx_chains_exact {offset length : ℕ}
    (hparse : fatxParsePartition dev faults offset length = some partition) :
    (∀ first, fatxValidateChain dev fatxCalm partition first = .ok () ↔ FatxEnds dev partition first)
    ∧ ∀ (node : FatxNode) (faults : FatxFaults) (s₀ : FatxCursor),
      fatxPrepareFile dev faults partition node = .ok s₀ →
      (∀ i < node.size, ∃ cluster, partition.InArea cluster
        ∧ fatxNth dev partition (i / partition.bytesPerCluster) node.firstCluster = some cluster
        ∧ fatxPlace partition cluster i < partition.length)
      ∧ ∀ (requests : List FatxRequest) (r : FatxRequest),
        let s := History.after (fatxAnswer dev partition node) s₀ requests
        (∀ bs, (fatxAnswer dev partition node s r).1 = .ok bs → r.offset ≤ node.size
          ∧ bs = History.slice (fatxByte dev partition node.firstCluster) r.offset
            (min r.length (node.size - r.offset)))
        ∧ (r.faults = fatxCalm → r.offset ≤ node.size →
          ∃ bs, (fatxAnswer dev partition node s r).1 = .ok bs) := by
  have hfits := fatxParsePartition_fits hparse
  refine ⟨fun first => fatxValidateChain_iff hfits, fun node faults s₀ hprepare => ?_⟩
  obtain ⟨hopen, hsound⟩ := fatxPrepareFile_ok hfits hprepare
  refine ⟨fun i hi => ?_, fun requests r => ?_⟩
  · obtain ⟨cluster, harea, hcluster⟩ := hopen i hi
    refine ⟨cluster, harea, hcluster, ?_⟩
    have hroom := (fatxClusterOffset_eq hfits harea).1
    have hmod := Nat.mod_lt i hfits.cluster_pos
    rw [fatxPlace]
    omega
  · have hafter : (History.after (fatxAnswer dev partition node) s₀ requests).Sound dev partition node :=
      @History.after_inv _ _ _ (fatxAnswer dev partition node)
        (fun t => t.Sound dev partition node) (fun t r ht => (fatxAnswer_spec hfits hopen ht r).1) _
        hsound requests
    exact (fatxAnswer_spec hfits hopen hafter r).2

/-- Clusters of one sector; the file of the root starts in its second cluster and ends in the
third. -/
def smallFatx : FatxDevice where
  bytes := Buf.ofFields [(0, [0x46, 0x41, 0x54, 0x58, 0, 0, 0, 0, 1, 0, 0, 0, 1, 0, 0, 0]),
    (4096, [0, 0, 0xff, 0xff, 3, 0, 0xff, 0xff])]
  size := 12288
  size_lt := by decide

def smallFatxPartition : FatxPartition := ⟨0, 12288, 512, 8192, 1, 25, 8, 2, false⟩

def smallFatxNode : FatxNode := ⟨2, 600, by decide⟩

theorem fatx_chains_exact_small : FatxEnds smallFatx smallFatxPartition 2
    ∧ ∃ bs, (fatxAnswer smallFatx smallFatxPartition smallFatxNode
      (History.after (fatxAnswer smallFatx smallFatxPartition smallFatxNode) ⟨2, 0, true⟩
        [⟨fatxCalm, 599, 1⟩]) ⟨fatxCalm, 0, 8⟩).1 = .ok bs := by
  obtain ⟨hvalid, hfile⟩ := @fatx_chains_exact smallFatx fatxCalm smallFatxPartition 0 12288
    (by decide +kernel)
  refine ⟨(hvalid 2).mp (by decide +kernel), ?_⟩
  exact (((hfile smallFatxNode fatxCalm ⟨2, 0, true⟩ rfl).2 [⟨fatxCalm, 599, 1⟩]
    ⟨fatxCalm, 0, 8⟩).2 rfl (Nat.zero_le _))

end FsRover
