import FsRover.Lost.Detect
import FsRover.Lib.Search

/-!
# The state of a lost partition search

The structures of `lostint.h` and of the public interface in `rover.h`. What a scan fixes when it
begins (the device, the flags and the partitions with their readability) is `LostSearch`; what a
step changes is `LostScan`. Array growth is left out: an allocation that fails ends the scan with
an error, and a scan that completes has met none.

The filesystem drivers are not part of the model. Whether GRUB reads a partition, and what it
makes of a window, are data of the search.

## Main definitions

* `FsRover.LostSearch` : device, flags, partitions; with `LostSearch.size`,
  `LostSearch.sectorSize` and `LostSearch.ranges` as `rover_lost_scan_begin` computes them.
* `FsRover.LostScan` : the running search, with the calls and reports it has made so far.
* `FsRover.LostEvent` : what the statements about a search talk about.
-/

namespace FsRover

/-- `struct lost_range`: a partition of the scanned device, in bytes. -/
structure LostRange where
  start : ℕ
  endAt : ℕ
  readable : Bool
  deriving DecidableEq, Repr

/-- `struct lost_found`: a result that was reported. -/
structure LostFound where
  start : ℕ
  size : ℕ
  type : LostType
  deriving DecidableEq, Repr

/-- `struct lost_table`: a partition table entry GRUB does not use. -/
structure LostTable where
  start : ℕ
  size : ℕ
  claimed : Bool
  deriving DecidableEq, Repr

/-- `enum lost_skip_state`. -/
inductive LostSkipState
  | passed | queued | done
  deriving DecidableEq, Repr

/-- `struct lost_skip`: a range the quick search stepped over. -/
structure LostSkip where
  fromOff : ℕ
  toOff : ℕ
  state : LostSkipState
  deriving DecidableEq, Repr

/-- `struct rover_lost_remap`. -/
structure LostRemap where
  target : ℕ
  source : ℕ
  length : ℕ
  deriving DecidableEq, Repr

def ROVER_LOST_REMAP_MAX : ℕ := 2

/-- `struct lost_hit`. -/
structure LostHit where
  start : ℕ
  size : ℕ
  type : LostType
  backup : Bool
  remap : List LostRemap
  deriving DecidableEq, Repr

/-- What the GRUB drivers say about a window they read. -/
structure LostProbe where
  fs : String
  label : Option String
  fsUuid : Option String
  deriving DecidableEq, Repr

/-- The `ROVER_LOST_*` flags of a result. -/
structure LostFlags where
  verified : Bool
  backup : Bool
  existing : Bool
  overlap : Bool
  truncated : Bool
  table : Bool
  deriving DecidableEq, Repr

/-- `struct rover_lost_part`: a result as the callback receives it. -/
structure RoverLostPart where
  offset : ℕ
  size : ℕ
  type : LostType
  probe : Option LostProbe
  flags : LostFlags
  window : ℕ
  remap : List LostRemap
  deriving DecidableEq, Repr

/-- A partition that `grub_partition_iterate` visits, in 512-byte sectors, and whether GRUB reads
a filesystem on it. -/
structure LostPartition where
  start : ℕ
  len : ℕ
  readable : Bool
  deriving DecidableEq, Repr

/-- What stays fixed during one search. `readOk offset len` says whether `grub_disk_read`
succeeds; the bytes it delivers are those of the device. A device of unknown size and a logical
sector size that `grub_disk_open` refuses are excluded by the last three fields. -/
structure LostSearch where
  /-- `grub_disk_native_sectors`. -/
  sectors : ℕ
  logSectorSize : ℕ
  byte : Buf
  readOk : ℕ → ℕ → Bool
  /-- Start of the device itself on its disk, in sectors. -/
  base : ℕ
  partitions : List LostPartition
  /-- GRUB reads a filesystem on the device itself. -/
  baseReadable : Bool
  /-- `grub_lostdisk_probe` on a window given in sectors. -/
  probe : ℕ → ℕ → List LostRemap → Option LostProbe
  /-- `ROVER_LOST_SCAN_DEEP`. -/
  deep : Bool
  /-- `ROVER_LOST_SCAN_EXT_BACKUP`. -/
  extBackup : Bool
  sectors_lt : sectors < 2 ^ 64 - 1
  log_ge : 9 ≤ logSectorSize
  log_le : logSectorSize ≤ 15

namespace LostSearch

variable (env : LostSearch)

/-- `scan->size`. -/
def size : ℕ := u64 (env.sectors * 512)

/-- `scan->sector_size`. -/
def sectorSize : ℕ := 2 ^ env.logSectorSize

/-- `scan->ranges`, as `lost_collect_part` fills it. -/
def ranges : List LostRange :=
  env.partitions.map fun p =>
    let start := u64 (sub64 p.start env.base * 512)
    ⟨start, u64 (start + u64 (p.len * 512)), p.readable⟩

/-- Where the search begins: a filesystem on the device itself is not lost. -/
def origin : ℕ := if env.baseReadable then env.sectorSize else 0

theorem size_lt : env.size < 2 ^ 64 := u64_lt _

theorem sectorSize_pos : 0 < env.sectorSize := Nat.two_pow_pos _

theorem sectorSize_le : env.sectorSize ≤ 2 ^ 15 := Nat.pow_le_pow_right (by decide) env.log_le

theorem origin_le : env.origin ≤ 2 ^ 15 := by
  unfold origin
  split_ifs
  · exact env.sectorSize_le
  · exact Nat.zero_le _

theorem sectorSize_dvd {k : ℕ} (hk : 15 ≤ k) : env.sectorSize ∣ 2 ^ k :=
  Nat.pow_dvd_pow 2 (env.log_le.trans hk)

theorem size_mod : env.size % 512 = 0 := by
  unfold size u64
  omega

/-- The largest device ends one 512-byte sector before the 64-bit range does. -/
theorem size_le : env.size ≤ 2 ^ 64 - 512 := by
  have hlt := env.size_lt
  have hmod := env.size_mod
  omega

end LostSearch

instance neZero_u64 : NeZero (2 ^ 64 - 1) := ⟨by decide⟩

instance neZero_logSizes : NeZero 7 := ⟨by decide⟩

/-- A disk in memory: every read on it succeeds, and no driver reads what is found. -/
def LostSearch.ofImage (sectors : Fin (2 ^ 64 - 1)) (logSectorSize : Fin 7) (byte : Buf)
    (partitions : List LostPartition) (deep : Bool) : LostSearch where
  sectors := sectors
  logSectorSize := 9 + logSectorSize
  byte := byte
  readOk := fun _ _ => true
  base := 0
  partitions := partitions
  baseReadable := false
  probe := fun _ _ _ => none
  deep := deep
  extBackup := false
  sectors_lt := sectors.isLt
  log_ge := Nat.le_add_right _ _
  log_le := by omega

/-- What a search does besides changing its state, for the statements about it. -/
inductive LostEvent
  /-- `lost_add_hint` inserted `offset`; position, limit, skips and whether the search was
  finishing. -/
  | hint (offset pos limit : ℕ) (skips : List LostSkip) (finishing : Bool)
  /-- `lost_add_table` remembered an entry; the starts of the results reported before. -/
  | table (start size : ℕ) (foundStarts : List ℕ)
  /-- `lost_quick_candidate` was called. -/
  | candidate (s : ℕ)
  /-- `lost_examine` was called by the deep search with these bytes. -/
  | sector (s : ℕ) (buf : Buf)
  /-- `lost_examine_end` was called by the deep search with the bytes before `s`. -/
  | tail (s : ℕ) (buf : Buf)

/-- The candidate that an event of the quick search examines. -/
def LostEvent.candidate? : LostEvent → Option ℕ
  | .candidate s => some s
  | _ => none

/-- `struct rover_lost_scan`, the part that steps change. `reports` are the results passed to the
callback, in order; `trace` is what happened so far, the latest first. -/
structure LostScan where
  pos : ℕ
  limit : ℕ
  done : Bool
  rescanning : Bool
  finishing : Bool
  hints : List ℕ
  found : List LostFound
  tables : List LostTable
  nextTable : ℕ
  skips : List LostSkip
  pending : List LostHit
  nextPending : ℕ
  reports : List RoverLostPart
  trace : List LostEvent

/-- The scan as `grub_zalloc` and the first assignments leave it. -/
def LostScan.empty : LostScan where
  pos := 0
  limit := 2 ^ 64 - 1
  done := false
  rescanning := false
  finishing := false
  hints := []
  found := []
  tables := []
  nextTable := 0
  skips := []
  pending := []
  nextPending := 0
  reports := []
  trace := []

/-- `lost_read`: the bytes from `offset` on, when the device can be read there. -/
def lostRead (env : LostSearch) (offset len : ℕ) : Option Buf :=
  if env.readOk offset len then some (env.byte.from offset) else none

/-- `lost_read_fill`: `len` bytes at `offset` in one read, else piece by piece with zeros for
what cannot be read. -/
def lostReadFill (env : LostSearch) (offset len : ℕ) : Buf := fun k =>
  if env.readOk offset len then env.byte (offset + k)
  else
    let done := k / LOST_AUX * LOST_AUX
    if env.readOk (offset + done) (min (len - done) LOST_AUX) then env.byte (offset + k) else 0

/-- `lost_range_at`: the first partition of that readability that contains `offset`. -/
def lostRangeAt (env : LostSearch) (offset : ℕ) (readable : Bool) : Option LostRange :=
  env.ranges.find? fun r => r.readable == readable && r.start ≤ offset && offset < r.endAt

theorem lostRangeAt_spec {env : LostSearch} {x : ℕ} {b : Bool} {r : LostRange}
  (h : lostRangeAt env x b = some r) :
    r ∈ env.ranges ∧ r.readable = b ∧ r.start ≤ x ∧ x < r.endAt := by
  have hmem := List.mem_of_find?_eq_some h
  have hp := List.find?_some h
  simp only [Bool.and_eq_true, beq_iff_eq, decide_eq_true_eq] at hp
  exact ⟨hmem, hp.1.1, hp.1.2, hp.2⟩

end FsRover
