import FsRover.Io.Carrier
import FsRover.Lib.Guards
import FsRover.Lib.Heap
import FsRover.Lib.Overlay

/-!
# The cluster map of an ntfsclone image

`ntfsclone.c`: the stream is a sequence of records, each a gap or the next cluster. The walk records
the stored clusters as runs. A stream that moves back is sorted and made disjoint when its walk
finishes, so that of two copies the one that a restore would leave stands.

The window of `ntfsclone_peek` returns the bytes of the file and is left out; so is memory that runs
out.

## Main definitions

* `FsRover.ntfscloneOpen` : the header.
* `FsRover.ntfscloneStep` : one round of `ntfsclone_scan`.
* `FsRover.NtfscloneWalk` : the states of a scan, with the clusters stored so far.
-/

namespace FsRover

open Guards

def NTFSCLONE_HEADER_SIZE_OLD : ℕ := 46
def NTFSCLONE_HEADER_SIZE : ℕ := 50
def NTFSCLONE_VER_SAFE : ℕ := 10
def NTFSCLONE_VER_MAJOR : ℕ := 10
def NTFSCLONE_CMD_GAP : ℕ := 0
def NTFSCLONE_CMD_NEXT : ℕ := 1
def NTFSCLONE_GAP_SIZE : ℕ := 9
def NTFSCLONE_CLUSTER_SIZE_MAX : ℕ := 64 * 2 ^ 20
def NTFSCLONE_EXTENTS_MAX : ℕ := 8 * 2 ^ 20

/-- The value of a 64-bit word as `grub_int64_t`. -/
def int64 (n : ℤ) : ℤ := n.bmod (2 ^ 64)

/-- `struct ntfsclone_extent`: clusters from `lcn` on, stored one after the other from `off` on, each
after a byte of its own. -/
structure NtfscloneExtent where
  lcn : ℕ
  off : ℕ
  count : ℕ
  deriving DecidableEq, Repr, Inhabited

/-- `struct ntfsclone_image` as the header gives it; the stream begins at `dataOff`. -/
structure NtfscloneImage where
  file : GrubFile
  totalBytes : ℕ
  clusterSize : ℕ
  nrClusters : ℕ
  dataOff : ℕ

/-- The scan state of `struct ntfsclone_image`. -/
structure NtfscloneScan where
  scanOff : ℕ
  scanLcn : ℕ
  scanDone : Bool
  ordered : Bool
  extend : Bool
  extents : List NtfscloneExtent
  deriving DecidableEq, Repr

/-- The distance between two clusters of a run. -/
def NtfscloneImage.stride (img : NtfscloneImage) : ℕ := img.clusterSize + 1

/-- Where the data of cluster `c` of the run lies in the file. -/
def NtfscloneExtent.dataOff (stride : ℕ) (e : NtfscloneExtent) (c : ℕ) : ℕ :=
  e.off + (c - e.lcn) * stride + 1

def ntfsclonePread (file : GrubFile) (call off len : ℕ) : Except GrubError Buf :=
  (file.pread call off len ⟨.badDevice, "ntfsclone image truncated"⟩).mapError Prod.fst

/-- Where the stream begins; the header of an old version ends before this field. -/
def ntfscloneDataOff (file : GrubFile) (hdr : Buf) : Except GrubError ℕ :=
  if byteAt hdr 16 < NTFSCLONE_VER_SAFE then .ok NTFSCLONE_HEADER_SIZE_OLD
  else do
    refuseIf (NTFSCLONE_VER_MAJOR < byteAt hdr 16)
      ⟨.notImplementedYet, s!"unsupported ntfsclone v{byteAt hdr 16}.{byteAt hdr 17}"⟩
    let raw ← ntfsclonePread file 1 NTFSCLONE_HEADER_SIZE_OLD 4
    .ok (max (lostLe32 raw 0) NTFSCLONE_HEADER_SIZE)

/-- The header part of `ntfsclone_open_image`; the scan of cluster 0 follows it. -/
def ntfscloneOpen (file : GrubFile) : Except GrubError NtfscloneImage := do
  let hdr ← ntfsclonePread file 0 0 NTFSCLONE_HEADER_SIZE_OLD
  refuseIf (¬ bytesAt hdr 0
      [0, 0x6e, 0x74, 0x66, 0x73, 0x63, 0x6c, 0x6f, 0x6e, 0x65, 0x2d, 0x69, 0x6d, 0x61, 0x67, 0x65])
    ⟨.badSignature, "not an ntfsclone image"⟩
  let dataOff ← ntfscloneDataOff file hdr
  let csize := lostLe32 hdr 18
  let total := lostLe64 hdr 22
  let nrClusters := int64 (lostLe64 hdr 30)
  refuseIf (csize < 512 ∨ NTFSCLONE_CLUSTER_SIZE_MAX < csize ∨ csize &&& (csize - 1) ≠ 0)
    ⟨.badDevice, s!"bad ntfsclone cluster size {csize}"⟩
  refuseIf (nrClusters ≤ 0) ⟨.badDevice, "bad ntfsclone cluster count"⟩
  let endAt ← require (grubMul (nrClusters.toNat + 1) csize)
    ⟨.badDevice, "ntfsclone image too large"⟩
  refuseIf (total < sub64 endAt csize) ⟨.badDevice, "ntfsclone device smaller than the volume"⟩
  .ok ⟨file, total, csize, nrClusters.toNat, dataOff⟩

variable (img : NtfscloneImage)

/-! ### Sorting -/

/-- The order of `ntfsclone_before`: cluster ascending, then the run written later first. -/
abbrev NtfscloneExtent.rank : NtfscloneExtent → ℕ ×ₗ ℕᵒᵈ :=
  Overlay.rank NtfscloneExtent.lcn NtfscloneExtent.off

/-- `ntfsclone_sort_extents`: heapsort. -/
def ntfscloneSortExtents (ext : List NtfscloneExtent) : List NtfscloneExtent :=
  (List.range ext.length).map
    (Heap.sort NtfscloneExtent.rank ext.length fun i => ext.getD i default)

/-- The run without its first `skip` clusters. -/
def NtfscloneExtent.cut (stride : ℕ) (e : NtfscloneExtent) (skip : ℕ) : NtfscloneExtent :=
  ⟨e.lcn + skip, e.off + skip * stride, e.count - skip⟩

/-- `ntfsclone_drop_overlaps`. -/
def ntfscloneDropOverlaps (ext : List NtfscloneExtent) : List NtfscloneExtent :=
  Overlay.trim NtfscloneExtent.lcn NtfscloneExtent.count (.cut img.stride) 0 ext

/-- `ntfsclone_finish_scan`. -/
def ntfscloneFinishScan (s : NtfscloneScan) : NtfscloneScan :=
  { s with
    scanDone := true
    extents :=
      if s.ordered then s.extents else ntfscloneDropOverlaps img (ntfscloneSortExtents s.extents) }

/-! ### The walk -/

/-- `ntfsclone_peek`: `len` bytes at `off`, or nothing where the stream ends there. -/
def ntfsclonePeek (call off len : ℕ) : Except GrubError (Option Buf) :=
  if img.file.size ≤ off then .ok none
  else (ntfsclonePread img.file call off len).map some

/-- One more cluster for the last run. -/
def ntfscloneExtendLast : List NtfscloneExtent → List NtfscloneExtent
  | [] => []
  | [e] => [{ e with count := e.count + 1 }]
  | e :: e' :: es => e :: ntfscloneExtendLast (e' :: es)

/-- `ntfsclone_add_extent`; the array doubles from 256 entries up to its limit. -/
def ntfscloneAddExtent (ext : List NtfscloneExtent) (lcn off : ℕ) :
    Except GrubError (List NtfscloneExtent) := do
  refuseIf (ext.length = NTFSCLONE_EXTENTS_MAX) ⟨.outOfRange, "too many ntfsclone image extents"⟩
  .ok (ext ++ [⟨lcn, off, 1⟩])

/-- A gap record with this count. -/
def ntfscloneGap (s : NtfscloneScan) (count : ℤ) : Except GrubError NtfscloneScan := do
  refuseIf (count = 0) ⟨.badDevice, "empty ntfsclone gap"⟩
  let next := int64 (s.scanLcn + count)
  refuseIf (¬ (0 < count ↔ s.scanLcn < next)) ⟨.badDevice, "bad ntfsclone gap"⟩
  refuseIf (next < 0 ∨ img.nrClusters + 1 < next) ⟨.badDevice, "ntfsclone gap out of range"⟩
  .ok { s with
    ordered := s.ordered && !decide (next < s.scanLcn)
    scanLcn := next.toNat
    scanOff := s.scanOff + NTFSCLONE_GAP_SIZE
    extend := false }

/-- A cluster record. The cluster at the end of the device may be short, which ends its run. -/
def ntfscloneNext (s : NtfscloneScan) : Except GrubError NtfscloneScan := do
  let vaddr ← require (grubMul s.scanLcn img.clusterSize)
    ⟨.badDevice, "ntfsclone cluster past the device"⟩
  refuseIf (img.totalBytes ≤ vaddr) ⟨.badDevice, "ntfsclone cluster past the device"⟩
  let dataLen := min (img.totalBytes - vaddr) img.clusterSize
  let endAt ← require (grubAdd s.scanOff (1 + dataLen)) ⟨.badDevice, "ntfsclone image truncated"⟩
  refuseIf (img.file.size < endAt) ⟨.badDevice, "ntfsclone image truncated"⟩
  let extents ←
    if s.extend then .ok (ntfscloneExtendLast s.extents)
    else ntfscloneAddExtent s.extents s.scanLcn s.scanOff
  .ok { s with
    extents
    extend := dataLen = img.clusterSize
    scanOff := endAt
    scanLcn := s.scanLcn + 1 }

/-- One round of `ntfsclone_scan`, with the cluster that it mapped. -/
def ntfscloneStep (call : ℕ) (s : NtfscloneScan) : Except GrubError (NtfscloneScan × Option ℕ) :=
  if img.nrClusters < s.scanLcn then .ok (ntfscloneFinishScan img s, none)
  else
    match ntfsclonePeek img call s.scanOff 1 with
    | .error e => .error e
    | .ok none => .ok (ntfscloneFinishScan img s, none)
    | .ok (some record) =>
      if byteAt record 0 = NTFSCLONE_CMD_GAP then
        match ntfsclonePeek img (call + 1) s.scanOff NTFSCLONE_GAP_SIZE with
        | .error e => .error e
        | .ok none => .ok (ntfscloneFinishScan img s, none)
        | .ok (some record) => (ntfscloneGap img s (int64 (lostLe64 record 1))).map (·, none)
      else if byteAt record 0 ≠ NTFSCLONE_CMD_NEXT then
        .error ⟨.badDevice,
          s!"unknown ntfsclone command 0x{String.ofList (Nat.toDigits 16 (byteAt record 0))}"⟩
      else (ntfscloneNext img s).map (·, some s.scanLcn)

/-- `ntfsclone_scan` for the cluster `want`, where the rounds suffice. -/
def ntfscloneScan (want : ℕ) : ℕ → ℕ → NtfscloneScan → Option (Except GrubError Unit × NtfscloneScan)
  | 0, _, _ => none
  | fuel + 1, call, s =>
    if s.scanDone then some (.ok (), s)
    else
      match ntfscloneStep img call s with
      | .error e => some (.error e, s)
      | .ok (s', mapped) =>
        if s'.ordered ∧ mapped = some want then some (.ok (), s')
        else ntfscloneScan want fuel (call + 2) s'

/-- The scan before its first round. -/
def ntfscloneBegin : NtfscloneScan where
  scanOff := img.dataOff
  scanLcn := 0
  scanDone := false
  ordered := true
  extend := false
  extents := []

/-- The states that rounds of the scan reach before it is done, with the clusters that the stream has
stored so far and where their data lies. -/
inductive NtfscloneWalk : NtfscloneScan → List (ℕ × ℕ) → Prop
  | begin : NtfscloneWalk (ntfscloneBegin img) []
  | gap {s s' : NtfscloneScan} {log : List (ℕ × ℕ)} {call : ℕ} (h : NtfscloneWalk s log)
      (hstep : ntfscloneStep img call s = .ok (s', none)) (hdone : s'.scanDone = false) :
      NtfscloneWalk s' log
  | stored {s s' : NtfscloneScan} {log : List (ℕ × ℕ)} {call c : ℕ} (h : NtfscloneWalk s log)
      (hstep : ntfscloneStep img call s = .ok (s', some c)) :
      NtfscloneWalk s' (log ++ [(c, s.scanOff + 1)])

/-- What a restore of the stored clusters leaves at cluster `c`: the data of its last copy. -/
def ntfscloneRestored (log : List (ℕ × ℕ)) (c : ℕ) : Option ℕ :=
  ((log.filter fun w => w.1 = c).getLast?).map Prod.snd

/-- The data that the extent table gives for cluster `c`. -/
def ntfscloneLookup (table : List NtfscloneExtent) (c : ℕ) : Option ℕ :=
  (Overlay.find NtfscloneExtent.lcn NtfscloneExtent.count table c).map fun e =>
    e.dataOff img.stride c

/-- The table is sorted and disjoint, and has what a restore leaves at every cluster. -/
def NtfscloneMapOk (table : List NtfscloneExtent) (log : List (ℕ × ℕ)) : Prop :=
  (∃ hi, Extents.Ascending NtfscloneExtent.lcn NtfscloneExtent.count 0 hi table)
    ∧ ∀ c, ntfscloneLookup img table c = ntfscloneRestored log c

end FsRover
