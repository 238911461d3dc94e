import FsRover.Fs.FileMap

/-!
# The range check of the disk

A read on a disk is checked against the partitions around it and against the size of the disk by
`grub_disk_adjust_range`; a mapping of a file is checked by `grub_file_map_check_storage`, with other
arithmetic. They agree unless a sum of the former wraps to a range that fits.

## Main definitions

* `FsRover.FileMapDisk.Fits` : the range that the wrapped sums give lies in every partition and on
  the disk.
* `FsRover.FileMapDisk.Unwrapped` : no sum wraps.
-/

namespace FsRover

/-! ### The read path -/

/-- The loop of `grub_disk_adjust_range` over the partitions: `count` sectors from `sector` on. -/
def diskAdjustParts (count : ℕ) : List (ℕ × ℕ) → ℕ → Option ℕ
  | [], sector => some sector
  | (start, len) :: parts, sector =>
    if len ≤ sector ∨ len - sector < count then none
    else diskAdjustParts count parts (u64 (sector + start))

/-- `GRUB_DISK_SIZE_UNKNOWN`. -/
def GRUB_DISK_SIZE_UNKNOWN : ℕ := 2 ^ 64 - 1

/-- `total_sectors` in sectors of 512 bytes, clamped to `GRUB_DISK_MAX_SECTORS`. -/
def FileMapDisk.clamped (disk : FileMapDisk) : ℕ :=
  min (u64 (disk.totalSectors.getD GRUB_DISK_SIZE_UNKNOWN * 2 ^ (disk.logSectorSize - 9)))
    GRUB_DISK_MAX_SECTORS

/-- The sectors that `size` bytes take from `offset` on. -/
def diskCount (offset size : ℕ) : ℕ := u64 (offset + size + 511) / 512

/-- `grub_disk_adjust_range` on the disk called `name`: the sector on the disk and the offset in
it. -/
def grubDiskAdjustRange (name : String) (disk : FileMapDisk) (sector offset size : ℕ) :
    Except GrubError (ℕ × ℕ) :=
  match diskAdjustParts (diskCount (offset % 512) size) disk.partitions
    (u64 (sector + offset / 512)) with
  | none => .error ⟨.outOfRange, "attempt to read or write outside of partition"⟩
  | some sector =>
    if disk.clamped ≤ sector ∨ disk.clamped - sector < diskCount (offset % 512) size then
      .error ⟨.outOfRange, "attempt to read or write outside of disk `" ++ name ++ "'"⟩
    else .ok (sector, offset % 512)

/-! ### The two conditions -/

/-- The sector that the first one of the range has on the disk. -/
def diskSector : List (ℕ × ℕ) → ℕ → ℕ
  | [], sector => sector
  | (start, _) :: parts, sector => diskSector parts (u64 (sector + start))

/-- `count` sectors from `sector` on lie in each of the partitions. -/
def InParts (count : ℕ) : List (ℕ × ℕ) → ℕ → Prop
  | [], _ => True
  | (start, len) :: parts, sector =>
    sector < len ∧ count ≤ len - sector ∧ InParts count parts (u64 (sector + start))

/-- No sum of a sector and the start of a partition wraps. -/
def SumsFit : List (ℕ × ℕ) → ℕ → Prop
  | [], _ => True
  | (start, _) :: parts, sector => sector + start < 2 ^ 64 ∧ SumsFit parts (sector + start)

/-- The range that the wrapped sums give lies in every partition and on the disk. -/
def FileMapDisk.Fits (disk : FileMapDisk) (sector count : ℕ) : Prop :=
  InParts count disk.partitions sector ∧ diskSector disk.partitions sector < disk.clamped
    ∧ count ≤ disk.clamped - diskSector disk.partitions sector

/-- The number of sectors of the bytes from `a` to `b` does not wrap, and no sector does. -/
def FileMapDisk.Unwrapped (disk : FileMapDisk) (a b : ℕ) : Prop :=
  a % 512 + (b - a) + 511 < 2 ^ 64 ∧ SumsFit disk.partitions (a / 512)

/-- A disk as `grub_disk_open` leaves it: sectors of 512 to 4096 bytes, partitions in 64 bits, and a
size below 2^61 sectors if it is known. -/
structure FileMapDisk.Valid (disk : FileMapDisk) : Prop where
  log_ge : 9 ≤ disk.logSectorSize
  log_le : disk.logSectorSize ≤ 12
  parts : ∀ p ∈ disk.partitions, p.1 < 2 ^ 64 ∧ p.2 < 2 ^ 64
  total : ∀ total ∈ disk.totalSectors, total < 2 ^ 61

theorem diskAdjustParts_eq_some_iff {count : ℕ} {parts : List (ℕ × ℕ)} {sector s : ℕ} :
    diskAdjustParts count parts sector = some s
      ↔ InParts count parts sector ∧ diskSector parts sector = s := by
  induction parts generalizing sector with
  | nil => simp [diskAdjustParts, InParts, diskSector]
  | cons part parts ih =>
    obtain ⟨start, len⟩ := part
    rw [diskAdjustParts, InParts, diskSector]
    by_cases hout : len ≤ sector ∨ len - sector < count
    · rw [if_pos hout]
      exact iff_of_false (fun h => by cases h) fun h => by omega
    · rw [if_neg hout, ih]
      have hin : sector < len ∧ count ≤ len - sector := by omega
      simp only [hin, true_and]

/-- The read path accepts what fits after the sums have wrapped. -/
theorem grubDiskAdjustRange_eq_ok_iff {name : String} {disk : FileMapDisk}
    {sector offset size s o : ℕ} :
    grubDiskAdjustRange name disk sector offset size = .ok (s, o)
      ↔ disk.Fits (u64 (sector + offset / 512)) (diskCount (offset % 512) size)
        ∧ diskSector disk.partitions (u64 (sector + offset / 512)) = s ∧ offset % 512 = o := by
  rw [grubDiskAdjustRange, FileMapDisk.Fits]
  cases hparts : diskAdjustParts (diskCount (offset % 512) size) disk.partitions
      (u64 (sector + offset / 512)) with
  | none =>
    refine iff_of_false (fun h => by cases h) ?_
    rintro ⟨⟨hin, -⟩, -⟩
    rw [diskAdjustParts_eq_some_iff.mpr ⟨hin, rfl⟩] at hparts
    cases hparts
  | some t =>
    obtain ⟨hin, hsector⟩ := diskAdjustParts_eq_some_iff.mp hparts
    simp only [hsector, hin, true_and]
    by_cases hout : disk.clamped ≤ t ∨ disk.clamped - t < diskCount (offset % 512) size
    · rw [if_pos hout]
      exact iff_of_false (fun h => by cases h) fun h => by omega
    · rw [if_neg hout, Except.ok.injEq, Prod.mk.injEq]
      have hfits : t < disk.clamped ∧ diskCount (offset % 512) size ≤ disk.clamped - t := by omega
      simp only [hfits, true_and, and_true]

/-! ### The check of mappings -/

/-- Ranges that the check takes through the partitions have no sum that wraps. -/
theorem fileMapOnDisk_eq_some {parts : List (ℕ × ℕ)} {first last f l : ℕ} (hle : first ≤ last)
    (h : fileMapOnDisk parts first last = some (f, l)) :
    SumsFit parts first ∧ InParts (last + 1 - first) parts first ∧ diskSector parts first = f
      ∧ l + 1 - f = last + 1 - first ∧ f ≤ l ∧ last ≤ l := by
  induction parts generalizing first last with
  | nil =>
    obtain ⟨rfl, rfl⟩ := Prod.mk.inj (Option.some.inj h)
    exact ⟨trivial, trivial, rfl, rfl, hle, Nat.le_refl _⟩
  | cons part parts ih =>
    obtain ⟨start, len⟩ := part
    rw [fileMapOnDisk] at h
    split_ifs at h with hout
    cases hfirst : grubAdd first start with
    | none => simp [hfirst] at h
    | some first' =>
      cases hlast : grubAdd last start with
      | none => simp [hfirst, hlast] at h
      | some last' =>
        obtain ⟨hfirstLt, rfl⟩ := grubAdd_eq_some.mp hfirst
        obtain ⟨-, rfl⟩ := grubAdd_eq_some.mp hlast
        simp only [hfirst, hlast] at h
        obtain ⟨hsums, hin, hsector, hcount, hfl, hll⟩ := ih (by omega) h
        rw [show last + start + 1 - (first + start) = last + 1 - first by omega] at hin hcount
        rw [InParts, diskSector, SumsFit, u64_of_lt hfirstLt]
        exact ⟨⟨hfirstLt, hsums⟩, ⟨by omega, by omega, hin⟩, hsector, hcount, hfl, by omega⟩

/-- What lies in the partitions and below the end of the 64-bit range on the disk goes through the
check, if no first sector wraps. -/
theorem fileMapOnDisk_of_inParts {parts : List (ℕ × ℕ)} {first last : ℕ} (hle : first ≤ last)
    (hparts : ∀ p ∈ parts, p.1 < 2 ^ 64 ∧ p.2 < 2 ^ 64) (hsums : SumsFit parts first)
    (hin : InParts (last + 1 - first) parts first)
    (hend : diskSector parts first + (last + 1 - first) ≤ 2 ^ 64) :
    ∃ l, fileMapOnDisk parts first last = some (diskSector parts first, l) := by
  induction parts generalizing first last with
  | nil => exact ⟨last, rfl⟩
  | cons part parts ih =>
    obtain ⟨start, len⟩ := part
    obtain ⟨hlt, hsums⟩ := hsums
    obtain ⟨hfirst, hcount, hin⟩ := hin
    rw [diskSector, u64_of_lt hlt] at hend
    rw [u64_of_lt hlt] at hin
    -- the last sector stays in 64 bits since it lies in the next partition or on the disk
    have hlast : last + start < 2 ^ 64 := by
      cases parts with
      | nil =>
        rw [diskSector] at hend
        omega
      | cons next parts =>
        obtain ⟨start', len'⟩ := next
        have hlen := (hparts (start', len') (by simp)).2
        obtain ⟨hlow, hhigh, -⟩ := hin
        simp only at hlen
        omega
    have hcount' : last + start + 1 - (first + start) = last + 1 - first := by omega
    obtain ⟨l, hl⟩ := ih (Nat.add_le_add_right hle start)
      (fun p hp => hparts p (List.mem_cons_of_mem _ hp)) hsums (by rwa [hcount'])
      (by rwa [hcount'])
    refine ⟨l, ?_⟩
    rw [fileMapOnDisk, if_neg (by omega), grubAdd_eq_some.mpr ⟨hlt, rfl⟩,
      grubAdd_eq_some.mpr ⟨hlast, rfl⟩, diskSector, u64_of_lt hlt]
    exact hl

/-- The limit of `grub_file_map_check_storage` on a disk of unknown size, and of known size. -/
theorem FileMapDisk.Valid.clamped_of_none {disk : FileMapDisk} (h : disk.Valid)
    (htotal : disk.totalSectors = none) : disk.clamped = GRUB_DISK_MAX_SECTORS := by
  have hlow := h.log_ge
  have hhigh := h.log_le
  unfold FileMapDisk.clamped
  rw [htotal]
  obtain hk | hk | hk | hk : disk.logSectorSize - 9 = 0 ∨ disk.logSectorSize - 9 = 1
      ∨ disk.logSectorSize - 9 = 2 ∨ disk.logSectorSize - 9 = 3 := by omega
  all_goals
    rw [hk]
    rfl

theorem FileMapDisk.Valid.clamped_of_some {disk : FileMapDisk} (h : disk.Valid) {total : ℕ}
    (htotal : disk.totalSectors = some total) :
    disk.clamped = if total < GRUB_DISK_MAX_SECTORS / 2 ^ (disk.logSectorSize - 9) then
        total * 2 ^ (disk.logSectorSize - 9)
      else GRUB_DISK_MAX_SECTORS := by
  have hlow := h.log_ge
  have hhigh := h.log_le
  have hlt := h.total total htotal
  unfold FileMapDisk.clamped GRUB_DISK_MAX_SECTORS u64
  rw [htotal, Option.getD_some]
  obtain hk | hk | hk | hk : disk.logSectorSize - 9 = 0 ∨ disk.logSectorSize - 9 = 1
      ∨ disk.logSectorSize - 9 = 2 ∨ disk.logSectorSize - 9 = 3 := by omega
  all_goals
    rw [hk]
    split_ifs <;> omega

/-- A mapping on the volume goes through if it goes through the partitions and ends on the disk. -/
theorem FileMapDisk.Valid.check_iff {disk : FileMapDisk} (h : disk.Valid) (a length b : ℕ) :
    grubFileMapCheckStorage (some disk) ⟨a, length, GRUB_FILE_MAP_VOLUME⟩ b = none
      ↔ ∃ first last, fileMapOnDisk disk.partitions (a / 512) ((b - 1) / 512) = some (first, last)
        ∧ last < disk.clamped := by
  have hlog : ¬ (disk.logSectorSize < 9 ∨ 12 < disk.logSectorSize) := by
    have hlow := h.log_ge
    have hhigh := h.log_le
    omega
  have hvolume : GRUB_FILE_MAP_VOLUME ≠ GRUB_FILE_MAP_FS_LOGICAL := by decide
  rw [grubFileMapCheckStorage, if_neg hvolume]
  simp only [ne_eq, not_true_eq_false, if_false, if_neg hlog]
  cases hdisk : fileMapOnDisk disk.partitions (a / 512) ((b - 1) / 512) with
  | none => simp
  | some range =>
    obtain ⟨first, last⟩ := range
    cases htotal : disk.totalSectors with
    | none =>
      have hclamped := h.clamped_of_none htotal
      simp [hclamped]
    | some total =>
      have hclamped := h.clamped_of_some htotal
      simp only [← hclamped]
      simp

theorem FileMapDisk.clamped_le (disk : FileMapDisk) : disk.clamped ≤ 2 ^ 51 :=
  Nat.min_le_right _ _

theorem diskCount_eq {a b : ℕ} (hab : a < b) (hwrap : a % 512 + (b - a) + 511 < 2 ^ 64) :
    diskCount (a % 512) (b - a) = (b - 1) / 512 + 1 - a / 512 := by
  rw [diskCount, u64_of_lt hwrap]
  omega

/-- The check accepts what fits without a sum that wraps. -/
theorem grubFileMapCheckStorage_iff {disk : FileMapDisk} (h : disk.Valid) {a b : ℕ} (hab : a < b)
    (hb : b < 2 ^ 64) :
    grubFileMapCheckStorage (some disk) ⟨a, b - a, GRUB_FILE_MAP_VOLUME⟩ b = none
      ↔ disk.Unwrapped a b ∧ disk.Fits (a / 512) (diskCount (a % 512) (b - a)) := by
  have hclamped := disk.clamped_le
  have hle : a / 512 ≤ (b - 1) / 512 := Nat.div_le_div_right (by omega)
  rw [h.check_iff]
  constructor
  · rintro ⟨first, last, hdisk, hlast⟩
    obtain ⟨hsums, hin, hsector, hcount, hfl, hll⟩ := fileMapOnDisk_eq_some hle hdisk
    have hwrap : a % 512 + (b - a) + 511 < 2 ^ 64 := by omega
    rw [FileMapDisk.Unwrapped, FileMapDisk.Fits, diskCount_eq hab hwrap, hsector]
    exact ⟨⟨hwrap, hsums⟩, hin, by omega, by omega⟩
  · rintro ⟨⟨hwrap, hsums⟩, hin, hsector, hcount⟩
    rw [diskCount_eq hab hwrap] at hin hcount
    obtain ⟨last, hdisk⟩ := fileMapOnDisk_of_inParts hle h.parts hsums hin (by omega)
    obtain ⟨-, -, -, hlength, hfl, -⟩ := fileMapOnDisk_eq_some hle hdisk
    exact ⟨_, last, hdisk, by omega⟩

/-! ### Agreement -/

/-- The check accepts the bytes from `a` to `b` of a volume if and only if the read path accepts
them, and then both find the first one in the same sector of the disk. -/
def StorageAgrees (name : String) (disk : FileMapDisk) (a b : ℕ) : Prop :=
  (grubFileMapCheckStorage (some disk) ⟨a, b - a, GRUB_FILE_MAP_VOLUME⟩ b = none
      ↔ ∃ s o, grubDiskAdjustRange name disk (a / 512) (a % 512) (b - a) = .ok (s, o))
    ∧ ∀ s o, grubFileMapCheckStorage (some disk) ⟨a, b - a, GRUB_FILE_MAP_VOLUME⟩ b = none →
      grubDiskAdjustRange name disk (a / 512) (a % 512) (b - a) = .ok (s, o) →
        ∃ last, fileMapOnDisk disk.partitions (a / 512) ((b - 1) / 512) = some (s, last)

theorem adjustRange_byte_iff {name : String} {disk : FileMapDisk} {a b s o : ℕ} (hb : a < 2 ^ 64) :
    grubDiskAdjustRange name disk (a / 512) (a % 512) (b - a) = .ok (s, o)
      ↔ disk.Fits (a / 512) (diskCount (a % 512) (b - a))
        ∧ diskSector disk.partitions (a / 512) = s ∧ a % 512 = o := by
  have hsector : u64 (a / 512 + a % 512 / 512) = a / 512 := by
    unfold u64
    omega
  rw [grubDiskAdjustRange_eq_ok_iff, hsector, Nat.mod_mod]

/-- The two paths agree on a range of bytes exactly if no sum wraps or the range does not fit after
the sums have wrapped. -/
theorem storageAgrees_iff (name : String) {disk : FileMapDisk} (h : disk.Valid) {a b : ℕ}
    (hab : a < b) (hb : b < 2 ^ 64) :
    StorageAgrees name disk a b
      ↔ disk.Unwrapped a b ∨ ¬ disk.Fits (a / 512) (diskCount (a % 512) (b - a)) := by
  have hcheck := grubFileMapCheckStorage_iff h hab hb
  have hread : (∃ s o, grubDiskAdjustRange name disk (a / 512) (a % 512) (b - a) = .ok (s, o))
      ↔ disk.Fits (a / 512) (diskCount (a % 512) (b - a)) := by
    simp only [adjustRange_byte_iff (Nat.lt_trans hab hb)]
    exact ⟨fun ⟨_, _, hfits, _⟩ => hfits, fun hfits => ⟨_, _, hfits, rfl, rfl⟩⟩
  have hle : a / 512 ≤ (b - 1) / 512 := Nat.div_le_div_right (by omega)
  rw [StorageAgrees, hcheck, hread]
  constructor
  · rintro ⟨hiff, -⟩
    by_cases hfits : disk.Fits (a / 512) (diskCount (a % 512) (b - a))
    · exact .inl (hiff.mpr hfits).1
    · exact .inr hfits
  · intro hcond
    refine ⟨⟨fun hboth => hboth.2, fun hfits => ⟨hcond.resolve_right fun hnot => hnot hfits,
      hfits⟩⟩, fun s o hboth hok => ?_⟩
    obtain ⟨-, rfl, -⟩ := (adjustRange_byte_iff (Nat.lt_trans hab hb)).mp hok
    obtain ⟨⟨hwrap, hsums⟩, hin, hsector, hcount⟩ := hboth
    have hclamped := disk.clamped_le
    rw [diskCount_eq hab hwrap] at hin hcount
    exact fileMapOnDisk_of_inParts hle h.parts hsums hin (by omega)

/-- A disk of 2048 sectors with a partition of 1024 sectors. -/
def partedDisk : FileMapDisk := ⟨[(512, 1024)], 9, some 2048⟩

theorem partedDisk_valid : partedDisk.Valid where
  log_ge := by decide
  log_le := by decide
  parts := by decide
  total := by decide

theorem storageAgrees_partedDisk : StorageAgrees "hd0" partedDisk 100 1000 :=
  (storageAgrees_iff "hd0" partedDisk_valid (by decide) (by decide)).mpr
    (.inl ⟨by decide, by decide, trivial⟩)

/-- All bytes of the 64-bit range: the read path counts no sectors and accepts them. -/
theorem storageAgrees_whole :
    ¬ StorageAgrees "hd0" ⟨[], 9, some 2048⟩ 0 (2 ^ 64 - 1) := by
  rintro ⟨hiff, -⟩
  have hread : grubDiskAdjustRange "hd0" ⟨[], 9, some 2048⟩ (0 / 512) (0 % 512) (2 ^ 64 - 1 - 0)
      = .ok (0, 0) := by decide
  have hcheck := hiff.mpr ⟨0, 0, hread⟩
  revert hcheck
  decide

end FsRover
