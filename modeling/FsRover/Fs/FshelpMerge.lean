import FsRover.Fs.DiskRange
import FsRover.Fs.FshelpRead

/-!
# Merged reads of a file

`grub_fshelp_read_file` merges blocks of a file that follow each other on the disk into one read of
the disk. Here the disk may fail, and the loop is compared with the one that reads block by block.

## Main definitions

* `FsRover.FshelpDisk`, `FsRover.grubDiskRead` : a disk with sectors that cannot be read.
* `FsRover.fshelpMerge` : the inner loop, which merges blocks.
* `FsRover.fshelpBlocks` : the outer loop, with any way to extend a read.
* `FsRover.grubFshelpRead` : the function, with what it returns and the reads that it issues.

## Main results

* `FsRover.grubDiskRead_split` : a read is the read of its first block and of the rest.
* `FsRover.fshelpBlocks_merge_eq` : merging does not change what is returned.
* `FsRover.fshelp_merging` : when the reads that are issued are what they should be.
-/

namespace FsRover

/-! ### The disk -/

/-- A disk: its range check, its bytes, the sectors that its driver can read, and what the driver
reports of the others. -/
structure FshelpDisk where
  name : String
  range : FileMapDisk
  byte : Buf
  readable : ℕ → Bool
  failure : GrubError
  valid : range.Valid

/-- The driver delivers `count` sectors from `sector` on. -/
def FshelpDisk.delivers (disk : FshelpDisk) (sector count : ℕ) : Bool :=
  (List.range count).all fun k => sector + k < disk.range.clamped && disk.readable (sector + k)

/-- `grub_disk_read`. -/
def grubDiskRead (disk : FshelpDisk) (sector offset size : ℕ) : Except GrubError (List UInt8) :=
  match grubDiskAdjustRange disk.name disk.range sector offset size with
  | .error e => .error e
  | .ok (sector, offset) =>
    if disk.delivers sector ((offset + size + 511) / 512) then
      .ok (disk.byte.list (512 * sector + offset) size)
    else .error disk.failure

/-! ### The loops -/

/-- The inner loop of `grub_fshelp_read_file`: how many of the `n` blocks from `i + run` on follow
block `blknr` on the disk, and how many bytes are read with them. -/
def fshelpMerge (r : FshelpRequest) (getBlock : ℕ → Except GrubError ℕ) (i blknr : ℕ) :
    ℕ → ℕ → ℕ → Except GrubError (ℕ × ℕ)
  | 0, run, length => .ok (run, length)
  | n + 1, run, length =>
    if r.maxRead ≠ 0 ∧ r.maxRead < u64 (length + r.blockend (i + run)) then .ok (run, length)
    else
      match getBlock (i + run) with
      | .error e => .error e
      | .ok next =>
        if u64 (next * r.sectors) = 0
            ∨ u64 (next * r.sectors) ≠ u64 (blknr + run * r.sectors) then .ok (run, length)
        else
          fshelpMerge r getBlock i blknr n (run + 1) (u64 (length + r.blockend (i + run)))

/-- A read of the disk: the first block of the file and the number of blocks, and what is asked of
the disk. -/
structure FshelpIo where
  block : ℕ
  run : ℕ
  sector : ℕ
  offset : ℕ
  length : ℕ
  deriving DecidableEq, Repr

/-- How a read of one block is extended: from the block, where it is on the disk, and its bytes, to
the number of blocks and bytes. -/
abbrev FshelpExtend := ℕ → ℕ → ℕ → Except GrubError (ℕ × ℕ)

/-- The extension of `grub_fshelp_read_file`. -/
def fshelpMerged (r : FshelpRequest) (getBlock : ℕ → Except GrubError ℕ) : FshelpExtend :=
  fun i blknr length => fshelpMerge r getBlock i blknr (r.blockcnt - (i + 1)) 1 length

/-- One block at a time. -/
def fshelpSingly : FshelpExtend := fun _ _ length => .ok (1, length)

/-- The loop of `grub_fshelp_read_file` from block `i` on, over at most so many rounds: the bytes
read, and the reads of the disk. -/
def fshelpBlocks (disk : FshelpDisk) (r : FshelpRequest) (blocksStart : ℕ)
    (getBlock : ℕ → Except GrubError ℕ) (extend : FshelpExtend) :
    ℕ → ℕ → Except GrubError (List UInt8) × List FshelpIo
  | 0, _ => (.ok [], [])
  | rounds + 1, i =>
    if r.blockcnt ≤ i then (.ok [], [])
    else
      match getBlock i with
      | .error e => (.error e, [])
      | .ok blknr =>
        let blknr := u64 (blknr * r.sectors)
        let length := sub64 (r.blockend i) (r.skipfirst i)
        if blknr = 0 then
          let rest := fshelpBlocks disk r blocksStart getBlock extend rounds (i + 1)
          (rest.1.map (List.replicate length 0 ++ ·), rest.2)
        else
          match extend i blknr length with
          | .error e => (.error e, [])
          | .ok (run, length) =>
            let io : FshelpIo := ⟨i, run, u64 (blknr + blocksStart), r.skipfirst i, length⟩
            match grubDiskRead disk io.sector io.offset io.length with
            | .error e => (.error e, [io])
            | .ok bytes =>
              let rest := fshelpBlocks disk r blocksStart getBlock extend rounds (i + run)
              (rest.1.map (bytes ++ ·), io :: rest.2)

/-- `max_read`: the shift is one of an `unsigned int`. -/
def fshelpMaxRead (maxAgglomerate : ℕ) : ℕ := u32 (maxAgglomerate * 2 ^ 15)

/-- The request with its length cut at the end of the file. -/
def fshelpRequest (maxAgglomerate filesize log2 pos len : ℕ) : FshelpRequest where
  pos := pos
  len := if filesize < u64 (pos + len) then filesize - pos else len
  log2 := log2
  maxRead := fshelpMaxRead maxAgglomerate

/-- `grub_fshelp_read_file`, with `extend` for the way to merge blocks: the count with the bytes, and
the reads of the disk. -/
def grubFshelpRead (extend : FshelpRequest → FshelpExtend) (disk : FshelpDisk)
    (getBlock : ℕ → Except GrubError ℕ) (maxAgglomerate filesize log2 blocksStart pos len : ℕ) :
    Except GrubError (ℕ × List UInt8) × List FshelpIo :=
  if 31 ≤ log2 + 9 then (.error ⟨.outOfRange, "blocksize too large"⟩, [])
  else if filesize < pos then
    (.error ⟨.outOfRange, "attempt to read past the end of file"⟩, [])
  else
    let r := fshelpRequest maxAgglomerate filesize log2 pos len
    let read := fshelpBlocks disk r blocksStart getBlock (extend r)
      (r.blockcnt - pos / r.blocksize) (pos / r.blocksize)
    (read.1.map (r.len, ·), read.2)

/-! ### A read and its parts -/

section Disk

variable {disk : FshelpDisk}

theorem InParts.mono {m n : ℕ} (hle : m ≤ n) {parts : List (ℕ × ℕ)} {sector : ℕ}
    (h : InParts n parts sector) : InParts m parts sector := by
  induction parts generalizing sector with
  | nil => trivial
  | cons part parts ih => exact ⟨h.1, Nat.le_trans hle h.2.1, ih h.2.2⟩

theorem delivers_iff {sector count : ℕ} : disk.delivers sector count = true
    ↔ ∀ k < count, sector + k < disk.range.clamped ∧ disk.readable (sector + k) = true := by
  simp [FshelpDisk.delivers]

/-- A read of one sector or more succeeds if it lies in the partitions and the driver delivers its
sectors. -/
theorem grubDiskRead_eq_some_iff {sector offset size : ℕ} (hsize : 0 < size) {bytes : List UInt8} :
    (grubDiskRead disk sector offset size).toOption = some bytes
      ↔ InParts ((offset % 512 + size + 511) / 512) disk.range.partitions
          (u64 (sector + offset / 512))
        ∧ disk.delivers (diskSector disk.range.partitions (u64 (sector + offset / 512)))
            ((offset % 512 + size + 511) / 512) = true
        ∧ disk.byte.list (512 * diskSector disk.range.partitions (u64 (sector + offset / 512))
            + offset % 512) size = bytes := by
  have hclamped := disk.range.clamped_le
  have hpos : 0 < (offset % 512 + size + 511) / 512 := by omega
  rw [grubDiskRead]
  cases hadjust : grubDiskAdjustRange disk.name disk.range sector offset size with
  | error e =>
    refine iff_of_false (fun h => by cases h) ?_
    rintro ⟨hin, hdelivers, -⟩
    have hlast := (delivers_iff.mp hdelivers ((offset % 512 + size + 511) / 512 - 1) (by omega)).1
    have hcount : diskCount (offset % 512) size = (offset % 512 + size + 511) / 512 := by
      rw [diskCount, u64_of_lt (by omega)]
    have hok : grubDiskAdjustRange disk.name disk.range sector offset size
        = .ok (diskSector disk.range.partitions (u64 (sector + offset / 512)), offset % 512) :=
      grubDiskAdjustRange_eq_ok_iff.mpr
        ⟨⟨by rwa [hcount], by omega, by rw [hcount]; omega⟩, rfl, rfl⟩
    rw [hadjust] at hok
    cases hok
  | ok place =>
    obtain ⟨s, o⟩ := place
    obtain ⟨hfits, rfl, rfl⟩ := grubDiskAdjustRange_eq_ok_iff.mp hadjust
    simp only
    by_cases hdelivers : disk.delivers (diskSector disk.range.partitions
        (u64 (sector + offset / 512))) ((offset % 512 + size + 511) / 512) = true
    · have hlast := (delivers_iff.mp hdelivers ((offset % 512 + size + 511) / 512 - 1)
        (by omega)).1
      have hcount : diskCount (offset % 512) size = (offset % 512 + size + 511) / 512 := by
        rw [diskCount, u64_of_lt (by omega)]
      rw [if_pos hdelivers]
      have hin := hfits.1
      rw [hcount] at hin
      simp only [Except.toOption, Option.some.injEq, hin, hdelivers, true_and]
    · rw [if_neg hdelivers]
      simp [Except.toOption, hdelivers]

/-- Ranges in the partitions and on the disk stay there when they are shifted by whole sectors. -/
theorem inParts_shift {n m : ℕ} (hm : 0 < m) {parts : List (ℕ × ℕ)}
    (hparts : ∀ p ∈ parts, p.1 < 2 ^ 64 ∧ p.2 < 2 ^ 64) {sector : ℕ}
    (hin : InParts n parts sector) (hend : diskSector parts sector + n ≤ 2 ^ 51) :
    sector + n < 2 ^ 64 ∧ diskSector parts (sector + n) = diskSector parts sector + n
      ∧ (InParts (n + m) parts sector ↔ InParts m parts (sector + n)) := by
  induction parts generalizing sector with
  | nil =>
    rw [diskSector] at hend
    exact ⟨by omega, rfl, iff_of_true trivial trivial⟩
  | cons part parts ih =>
    obtain ⟨start, len⟩ := part
    obtain ⟨hlow, hhigh, hin⟩ := hin
    have hlen := (hparts (start, len) List.mem_cons_self).2
    simp only at hlen
    rw [diskSector] at hend
    obtain ⟨hlt, hsector, hiff⟩ := ih (fun p hp => hparts p (List.mem_cons_of_mem _ hp)) hin hend
    have hshift : u64 (sector + n + start) = u64 (sector + start) + n := by
      unfold u64 at hlt ⊢
      omega
    refine ⟨by omega, ?_, ?_⟩
    · rw [diskSector, diskSector, hshift, hsector]
    · rw [InParts, InParts, hshift, hiff]
      exact ⟨fun h => ⟨by omega, by omega, h.2.2⟩, fun h => ⟨hlow, by omega, h.2.2⟩⟩

theorem delivers_add {sector n m : ℕ} : disk.delivers sector (n + m) = true
    ↔ disk.delivers sector n = true ∧ disk.delivers (sector + n) m = true := by
  simp only [delivers_iff]
  constructor
  · intro h
    refine ⟨fun k hk => h k (by omega), fun k hk => ?_⟩
    have hnk := h (n + k) (by omega)
    rwa [← Nat.add_assoc] at hnk
  · rintro ⟨hn, hm⟩ k hk
    by_cases hkn : k < n
    · exact hn k hkn
    · have hmk := hm (k - n) (by omega)
      rwa [show sector + n + (k - n) = sector + k by omega] at hmk

theorem Buf.list_append (p : Buf) (i m n : ℕ) :
    p.list i m ++ p.list (i + m) n = p.list i (m + n) := by
  rw [Buf.list, Buf.list, Buf.list, ← List.map_append, List.range'_append_1]

/-- A read that goes on behind the end of a block is the read up to there, and the read of the
rest at the next block. -/
theorem grubDiskRead_split {sectors sector skip rest : ℕ} (hskip : skip < sectors * 512)
    (hrest : 0 < rest) :
    (grubDiskRead disk sector skip (sectors * 512 - skip + rest)).toOption
      = (grubDiskRead disk sector skip (sectors * 512 - skip)).toOption.bind fun first =>
          (grubDiskRead disk (u64 (sector + sectors)) 0 rest).toOption.map (first ++ ·) := by
  have hwhole : (skip % 512 + (sectors * 512 - skip) + 511) / 512 = sectors - skip / 512 := by omega
  have htotal : (skip % 512 + (sectors * 512 - skip + rest) + 511) / 512
      = sectors - skip / 512 + (rest + 511) / 512 := by omega
  have hnext : u64 (sector + skip / 512) + (sectors - skip / 512) < 2 ^ 64 →
      u64 (u64 (sector + sectors) + 0 / 512)
        = u64 (sector + skip / 512) + (sectors - skip / 512) := by
    unfold u64
    omega
  -- what is known of the second read once the first one is known to succeed
  have hshift : InParts (sectors - skip / 512) disk.range.partitions (u64 (sector + skip / 512)) →
      disk.delivers (diskSector disk.range.partitions (u64 (sector + skip / 512)))
        (sectors - skip / 512) = true →
      u64 (u64 (sector + sectors) + 0 / 512)
          = u64 (sector + skip / 512) + (sectors - skip / 512)
        ∧ diskSector disk.range.partitions (u64 (u64 (sector + sectors) + 0 / 512))
          = diskSector disk.range.partitions (u64 (sector + skip / 512)) + (sectors - skip / 512)
        ∧ (InParts (sectors - skip / 512 + (rest + 511) / 512) disk.range.partitions
            (u64 (sector + skip / 512))
          ↔ InParts ((rest + 511) / 512) disk.range.partitions
            (u64 (u64 (sector + sectors) + 0 / 512))) := by
    intro hin hdelivers
    have hclamped := disk.range.clamped_le
    have hlast := (delivers_iff.mp hdelivers (sectors - skip / 512 - 1) (by omega)).1
    obtain ⟨hlt, hsector, hiff⟩ := inParts_shift (m := (rest + 511) / 512) (by omega)
      disk.valid.parts hin (by omega)
    rw [hnext hlt]
    exact ⟨rfl, hsector, hiff⟩
  refine Option.ext fun bytes => ?_
  rw [Option.bind_eq_some_iff, grubDiskRead_eq_some_iff (by omega), htotal]
  constructor
  · rintro ⟨hin, hdelivers, hbytes⟩
    obtain ⟨hfirst, hsecond⟩ := delivers_add.mp hdelivers
    have hinfirst := hin.mono (Nat.le_add_right _ _)
    obtain ⟨-, hsector, hiff⟩ := hshift hinfirst hfirst
    refine ⟨_, (grubDiskRead_eq_some_iff (by omega)).mpr
      ⟨by rwa [hwhole], by rwa [hwhole], rfl⟩, ?_⟩
    refine Option.map_eq_some_iff.mpr ⟨_, (grubDiskRead_eq_some_iff hrest).mpr
      ⟨by simpa using hiff.mp hin, ?_, rfl⟩, ?_⟩
    · rw [hsector]
      simpa using hsecond
    · rw [hsector, ← hbytes, ← Buf.list_append]
      congr 2
      omega
  · rintro ⟨first, hfirst, hrestread⟩
    obtain ⟨hin, hdelivers, rfl⟩ := (grubDiskRead_eq_some_iff (by omega)).mp hfirst
    obtain ⟨second, hsecond, rfl⟩ := Option.map_eq_some_iff.mp hrestread
    obtain ⟨hin', hdelivers', rfl⟩ := (grubDiskRead_eq_some_iff hrest).mp hsecond
    rw [hwhole] at hin hdelivers
    obtain ⟨-, hsector, hiff⟩ := hshift hin hdelivers
    rw [hsector] at hdelivers' ⊢
    simp only [Nat.zero_mod, Nat.zero_add, Nat.add_zero] at hin' hdelivers' ⊢
    refine ⟨hiff.mpr (by simpa using hin'), delivers_add.mpr ⟨hdelivers, hdelivers'⟩, ?_⟩
    rw [← Buf.list_append]
    congr 2
    omega

end Disk

/-! ### The blocks of a request -/

theorem sub64_lt (a b : ℕ) : sub64 a b < 2 ^ 64 := by
  rw [sub64]
  exact u64_lt (a + 2 ^ 64 - b)

namespace FshelpRequest

variable {r : FshelpRequest}

/-- The bytes of `k` blocks from block `i` on. -/
def span (r : FshelpRequest) (i : ℕ) : ℕ → ℕ
  | 0 => 0
  | k + 1 => r.blockend i + r.span (i + 1) k

theorem blockend_pos (i : ℕ) : 0 < r.blockend i := by
  have hpos := r.blocksize_pos
  unfold blockend
  split_ifs <;> omega

theorem blockend_le (i : ℕ) : r.blockend i ≤ r.blocksize := by
  have hlt := Nat.mod_lt (r.len + r.pos) r.blocksize_pos
  unfold blockend
  split_ifs <;> omega

theorem blockend_of_lt {i : ℕ} (h : i + 1 < r.blockcnt) : r.blockend i = r.blocksize :=
  if_neg (by omega)

theorem skipfirst_lt (i : ℕ) : r.skipfirst i < r.blocksize := by
  unfold skipfirst
  split_ifs
  · exact Nat.mod_lt _ r.blocksize_pos
  · exact r.blocksize_pos

theorem skipfirst_of_lt {i : ℕ} (h : r.pos / r.blocksize < i) : r.skipfirst i = 0 :=
  if_neg (by omega)

theorem span_succ (i k : ℕ) : r.span i (k + 1) = r.span i k + r.blockend (i + k) := by
  induction k generalizing i with
  | zero => rw [span, span, span, Nat.add_zero, Nat.add_zero, Nat.zero_add]
  | succ k ih => rw [span, ih, span, ← Nat.add_assoc, Nat.add_right_comm i 1 k, Nat.add_assoc i k 1]

theorem blockcnt_mul_lt (r : FshelpRequest) : r.blockcnt * r.blocksize < 2 ^ 64 :=
  Nat.lt_of_le_of_lt (Nat.div_mul_le_self _ _) (Nat.mod_lt _ (by decide))

theorem blocksize_lt (r : FshelpRequest) (h : 0 < r.blockcnt) : r.blocksize < 2 ^ 64 := by
  have hcnt := r.blockcnt_mul_lt
  have hle := Nat.le_mul_of_pos_left r.blocksize h
  omega

/-- The bytes up to a block that is not the last one, or up to the end. -/
theorem mul_add_span (hend : r.pos + r.len + r.blocksize ≤ 2 ^ 64) {i k : ℕ} (hk : 0 < k)
    (hle : i + k ≤ r.blockcnt) :
    i * r.blocksize + r.span i k = min (r.pos + r.len) ((i + k) * r.blocksize) := by
  induction k with
  | zero => exact absurd hk (by decide)
  | succ k ih =>
    rw [span_succ, ← Nat.add_assoc i k 1, ← blockend_eq hend (by omega)]
    cases k with
    | zero => rw [span, Nat.zero_add, Nat.add_zero]
    | succ k =>
      have hin := (lt_blockcnt hend).mp (show i + (k + 1) < r.blockcnt by omega)
      have hbefore := ih (Nat.succ_pos k) (by omega)
      rw [Nat.min_eq_right (by omega)] at hbefore
      omega

end FshelpRequest

section Blocks

variable {disk : FshelpDisk} {r : FshelpRequest} {blocksStart : ℕ}
  {getBlock : ℕ → Except GrubError ℕ}

/-- Block `i` of the file is at sector `sector`, and no hole. -/
def StoredAt (r : FshelpRequest) (getBlock : ℕ → Except GrubError ℕ) (i sector : ℕ) : Prop :=
  ∃ v, getBlock i = .ok v ∧ u64 (v * r.sectors) = sector ∧ sector ≠ 0

/-- The merged read ends on blocks that follow each other, and within the limit; or the driver fails
on one of the blocks. -/
theorem fshelpMerge_spec {i blknr : ℕ} (hsectors : r.sectors ∣ 2 ^ 64) (hblknr : r.sectors ∣ blknr) :
    ∀ n run length, i + run + n = r.blockcnt → 0 < run →
      length + n * r.blocksize < 2 ^ 64 → blknr + (run - 1) * r.sectors < 2 ^ 64 →
      (∃ k ≤ n, fshelpMerge r getBlock i blknr n run length
          = .ok (run + k, length + r.span (i + run) k)
        ∧ (∀ j < k, StoredAt r getBlock (i + run + j) (blknr + (run + j) * r.sectors))
        ∧ (0 < k → r.maxRead ≠ 0 → length + r.span (i + run) k ≤ r.maxRead))
      ∨ ∃ e, fshelpMerge r getBlock i blknr n run length = .error e
        ∧ ∃ j < n, (getBlock (i + run + j)).toOption = none := by
  intro n
  induction n with
  | zero =>
    intro run length _ _ _ _
    exact .inl ⟨0, Nat.le_refl _, rfl, fun j hj => absurd hj (Nat.not_lt_zero j),
      fun h => absurd h (by decide)⟩
  | succ n ih =>
    intro run length hcnt hrun hlength hwrap
    have hstay : ∃ k ≤ n + 1, (.ok (run, length) : Except GrubError (ℕ × ℕ))
          = .ok (run + k, length + r.span (i + run) k)
        ∧ (∀ j < k, StoredAt r getBlock (i + run + j) (blknr + (run + j) * r.sectors))
        ∧ (0 < k → r.maxRead ≠ 0 → length + r.span (i + run) k ≤ r.maxRead) :=
      ⟨0, Nat.zero_le _, rfl, fun j hj => absurd hj (Nat.not_lt_zero j),
        fun h => absurd h (by decide)⟩
    have hblock := r.blockend_le (i + run)
    rw [Nat.succ_mul] at hlength
    rw [fshelpMerge, u64_of_lt (by omega)]
    by_cases hmax : r.maxRead ≠ 0 ∧ r.maxRead < length + r.blockend (i + run)
    · rw [if_pos hmax]
      exact .inl hstay
    rw [if_neg hmax]
    cases hget : getBlock (i + run) with
    | error e => exact .inr ⟨e, rfl, 0, Nat.succ_pos n, by rw [Nat.add_zero, hget]; rfl⟩
    | ok next =>
      simp only
      by_cases hnext : u64 (next * r.sectors) = 0
          ∨ u64 (next * r.sectors) ≠ u64 (blknr + run * r.sectors)
      · rw [if_pos hnext]
        exact .inl hstay
      rw [if_neg hnext]
      obtain ⟨hhole, hfollow⟩ := not_or.mp hnext
      -- the blocks are multiples of the block size, so that a sum that wraps is 0, a hole
      have hsum : blknr + run * r.sectors < 2 ^ 64 := by
        obtain ⟨run, rfl⟩ := Nat.exists_eq_succ_of_ne_zero (Nat.ne_of_gt hrun)
        rw [Nat.succ_sub_one] at hwrap
        rw [Nat.succ_mul, ← Nat.add_assoc]
        obtain ⟨q, hq⟩ := hsectors
        obtain ⟨b, rfl⟩ := hblknr
        rw [hq, Nat.mul_comm run, ← Nat.mul_add] at hwrap
        have hle : r.sectors * (b + run + 1) ≤ r.sectors * q :=
          Nat.mul_le_mul_left _ (Nat.lt_of_mul_lt_mul_left hwrap)
        rw [Nat.mul_comm run, ← Nat.mul_add]
        refine Nat.lt_of_le_of_ne (by rw [hq]; exact hle) fun heq => hhole ?_
        rw [not_not.mp hfollow, Nat.succ_mul, ← Nat.add_assoc, Nat.mul_comm run, ← Nat.mul_add,
          heq]
        rfl
      rw [not_not, u64_of_lt hsum] at hfollow
      have hstored : StoredAt r getBlock (i + run) (blknr + run * r.sectors) :=
        ⟨next, hget, hfollow, by rwa [← hfollow]⟩
      rcases ih (run + 1) (length + r.blockend (i + run)) (by omega) (Nat.succ_pos run)
          (by omega) hsum with ⟨k, hk, hmerge, hblocks, hlimit⟩ | ⟨e, hmerge, j, hj, hfail⟩
      · have hspan : length + r.blockend (i + run) + r.span (i + (run + 1)) k
            = length + r.span (i + run) (k + 1) := by
          rw [FshelpRequest.span, Nat.add_assoc, Nat.add_assoc i run 1]
        rw [hspan] at hmerge hlimit
        refine .inl ⟨k + 1, by omega, ?_, fun j hj => ?_, fun _ hne => ?_⟩
        · rw [hmerge, show run + 1 + k = run + (k + 1) by omega]
        · cases j with
          | zero => exact hstored
          | succ j =>
            have hstep := hblocks j (by omega)
            rwa [show i + (run + 1) + j = i + run + (j + 1) by omega,
              show run + 1 + j = run + (j + 1) by omega] at hstep
        · cases k with
          | zero =>
            have hin := not_and.mp hmax hne
            rw [FshelpRequest.span, FshelpRequest.span]
            omega
          | succ k => exact hlimit (Nat.succ_pos k) hne
      · exact .inr ⟨e, hmerge, j + 1, by omega,
          by rwa [show i + run + (j + 1) = i + (run + 1) + j by omega]⟩

theorem fshelpSingly_eq {i blknr length : ℕ} : fshelpSingly i blknr length = .ok (1, length) := rfl

theorem Except.toOption_map {ε α β : Type*} (f : α → β) (x : Except ε α) :
    (x.map f).toOption = x.toOption.map f := by
  cases x <;> rfl

theorem fshelpBlocks_stored {extend : FshelpExtend} {i sector run length n : ℕ}
    (hi : i < r.blockcnt) (h : StoredAt r getBlock i sector)
    (hextend : extend i sector (sub64 (r.blockend i) (r.skipfirst i)) = .ok (run, length)) :
    (fshelpBlocks disk r blocksStart getBlock extend (n + 1) i).1.toOption
      = (grubDiskRead disk (u64 (sector + blocksStart)) (r.skipfirst i) length).toOption.bind
          fun bytes => (fshelpBlocks disk r blocksStart getBlock extend n (i + run)).1.toOption.map
            (bytes ++ ·) := by
  obtain ⟨v, hget, rfl, hne⟩ := h
  rw [fshelpBlocks, if_neg (by omega), hget]
  simp only [if_neg hne, hextend]
  cases grubDiskRead disk (u64 (u64 (v * r.sectors) + blocksStart)) (r.skipfirst i) length with
  | error e => rfl
  | ok bytes => exact Except.toOption_map _ _

/-- Block by block, the read fails if the driver fails on one of the blocks. -/
theorem fshelpBlocks_singly_none {j : ℕ} : ∀ n i, i + j < r.blockcnt → j < n →
    (getBlock (i + j)).toOption = none →
    (fshelpBlocks disk r blocksStart getBlock fshelpSingly n i).1.toOption = none := by
  induction j with
  | zero =>
    intro n i hcnt hn hfail
    obtain ⟨n, rfl⟩ := Nat.exists_eq_succ_of_ne_zero (Nat.ne_of_gt hn)
    rw [fshelpBlocks, if_neg (by omega)]
    cases hget : getBlock i with
    | error e => rfl
    | ok v =>
      rw [Nat.add_zero, hget] at hfail
      cases hfail
  | succ j ih =>
    intro n i hcnt hn hfail
    obtain ⟨n, rfl⟩ := Nat.exists_eq_succ_of_ne_zero (show n ≠ 0 by omega)
    have hrest := ih n (i + 1) (by omega) (by omega)
      (by rwa [show i + 1 + j = i + (j + 1) by omega])
    cases hget : getBlock i with
    | error e =>
      rw [fshelpBlocks, if_neg (by omega), hget]
      rfl
    | ok v =>
      by_cases hhole : u64 (v * r.sectors) = 0
      · rw [fshelpBlocks, if_neg (by omega), hget]
        simp only [if_pos hhole, Except.toOption_map, hrest, Option.map_none]
      · rw [fshelpBlocks_stored (by omega) ⟨v, hget, rfl, hhole⟩ fshelpSingly_eq, hrest]
        cases (grubDiskRead disk _ _ _).toOption <;> rfl

/-- Block by block, blocks that follow each other on the disk are read as one read reads them. -/
theorem fshelpBlocks_singly_run (disk : FshelpDisk) (blocksStart : ℕ) {k : ℕ} : ∀ i sector n, r.pos / r.blocksize ≤ i →
    i + k < r.blockcnt →
    (∀ j ≤ k, StoredAt r getBlock (i + j) (sector + j * r.sectors)) →
    (fshelpBlocks disk r blocksStart getBlock fshelpSingly (n + k + 1) i).1.toOption
      = (grubDiskRead disk (u64 (sector + blocksStart)) (r.skipfirst i)
          (sub64 (r.blockend i) (r.skipfirst i) + r.span (i + 1) k)).toOption.bind
          fun bytes => (fshelpBlocks disk r blocksStart getBlock fshelpSingly n
            (i + k + 1)).1.toOption.map (bytes ++ ·) := by
  induction k with
  | zero =>
    intro i sector n _ hcnt hstored
    have hfirst := hstored 0 (Nat.le_refl 0)
    rw [Nat.zero_mul, Nat.add_zero, Nat.add_zero] at hfirst
    rw [Nat.add_zero] at hcnt
    rw [FshelpRequest.span, Nat.add_zero n, Nat.add_zero (sub64 _ _), Nat.add_zero i,
      fshelpBlocks_stored hcnt hfirst fshelpSingly_eq]
  | succ k ih =>
    intro i sector n hpos hcnt hstored
    have hfirst := hstored 0 (Nat.zero_le _)
    rw [Nat.zero_mul, Nat.add_zero, Nat.add_zero] at hfirst
    have hskip := r.skipfirst_lt i
    have hsize : r.blocksize = r.sectors * 512 := FshelpRequest.blocksize.eq_1 r
    have hbs64 := r.blocksize_lt (show 0 < r.blockcnt by omega)
    have hnext := ih (i + 1) (sector + r.sectors) n (by omega) (by omega) fun j hj => by
      have hblock := hstored (j + 1) (by omega)
      rwa [Nat.succ_mul, Nat.add_comm (j * r.sectors), ← Nat.add_assoc sector,
        show i + (j + 1) = i + 1 + j by omega] at hblock
    have hwhole : sub64 (r.blockend i) (r.skipfirst i) = r.sectors * 512 - r.skipfirst i := by
      rw [FshelpRequest.blockend_of_lt (by omega), sub64_of_le (Nat.le_of_lt hskip) hbs64, hsize]
    have hrest : 0 < r.span (i + 1) (k + 1) := by
      have hpos := r.blockend_pos (i + 1)
      rw [FshelpRequest.span]
      omega
    have hplace : u64 (sector + r.sectors + blocksStart)
        = u64 (u64 (sector + blocksStart) + r.sectors) := by
      unfold u64
      omega
    have hlast : sub64 (r.blockend (i + 1)) (r.skipfirst (i + 1)) + r.span (i + 1 + 1) k
        = r.span (i + 1) (k + 1) := by
      have hblock := r.blockend_le (i + 1)
      rw [FshelpRequest.skipfirst_of_lt (by omega), FshelpRequest.span,
        sub64_of_le (Nat.zero_le _) (by omega), Nat.sub_zero]
    rw [show n + (k + 1) + 1 = n + k + 1 + 1 by omega, fshelpBlocks_stored (by omega) hfirst fshelpSingly_eq,
      hnext, hlast, FshelpRequest.skipfirst_of_lt (show r.pos / r.blocksize < i + 1 by omega),
      hplace, hwhole, grubDiskRead_split (hsize ▸ hskip) hrest, show i + 1 + k + 1 = i + (k + 1) + 1 by omega]
    cases (grubDiskRead disk (u64 (sector + blocksStart)) (r.skipfirst i)
      (r.sectors * 512 - r.skipfirst i)).toOption with
    | none => rfl
    | some first =>
      cases (grubDiskRead disk (u64 (u64 (sector + blocksStart) + r.sectors)) 0
        (r.span (i + 1) (k + 1))).toOption with
      | none => rfl
      | some second =>
        simp only [Option.bind_some, Option.map_some, Option.map_map]
        congr 1
        funext bytes
        exact (List.append_assoc first second bytes).symm

/-- Before the last block, the rest of the block is read; of the last one, whatever the length comes
to after it has wrapped. -/
theorem FshelpRequest.first_add_lt {i : ℕ} (hi : i < r.blockcnt) :
    sub64 (r.blockend i) (r.skipfirst i) + (r.blockcnt - (i + 1)) * r.blocksize < 2 ^ 64 := by
  have hwrapped := sub64_lt (r.blockend i) (r.skipfirst i)
  have hskip := r.skipfirst_lt i
  by_cases hlast : i + 1 < r.blockcnt
  · have hend := blockend_of_lt hlast
    have hcnt := r.blockcnt_mul_lt
    generalize r.blockcnt = blockcnt at hi hlast hcnt ⊢
    generalize r.blocksize = blocksize at hskip hend hcnt ⊢
    obtain ⟨n, rfl⟩ := Nat.exists_eq_add_of_lt hlast
    have hle : n * blocksize + blocksize + blocksize ≤ (i + 1 + n + 1) * blocksize := by
      rw [← Nat.succ_mul n, ← Nat.succ_mul (n + 1)]
      exact Nat.mul_le_mul_right _ (by omega)
    rw [hend, sub64_of_le (Nat.le_of_lt hskip) (by omega),
      show i + 1 + n + 1 - (i + 1) = n + 1 by omega, Nat.succ_mul n]
    omega
  · rw [show r.blockcnt - (i + 1) = 0 by omega, Nat.zero_mul, Nat.add_zero]
    exact hwrapped

theorem fshelpMerged_spec (hsectors : r.sectors ∣ 2 ^ 64) {i sector : ℕ} (hi : i < r.blockcnt)
    (h : StoredAt r getBlock i sector) :
    (∃ k, i + k < r.blockcnt
        ∧ fshelpMerged r getBlock i sector (sub64 (r.blockend i) (r.skipfirst i))
          = .ok (k + 1, sub64 (r.blockend i) (r.skipfirst i) + r.span (i + 1) k)
        ∧ (∀ j ≤ k, StoredAt r getBlock (i + j) (sector + j * r.sectors))
        ∧ (0 < k → r.maxRead ≠ 0 →
          sub64 (r.blockend i) (r.skipfirst i) + r.span (i + 1) k ≤ r.maxRead))
      ∨ ∃ e, fshelpMerged r getBlock i sector (sub64 (r.blockend i) (r.skipfirst i)) = .error e
        ∧ ∃ j, i + j < r.blockcnt ∧ (getBlock (i + j)).toOption = none := by
  obtain ⟨v, -, hsector, -⟩ := id h
  have hlt : sector < 2 ^ 64 := hsector ▸ u64_lt _
  have hdvd : r.sectors ∣ sector := by
    rw [← hsector, u64, Nat.dvd_mod_iff hsectors]
    exact Nat.dvd_mul_left _ _
  rw [fshelpMerged]
  rcases fshelpMerge_spec (i := i) hsectors hdvd (r.blockcnt - (i + 1)) 1
      (sub64 (r.blockend i) (r.skipfirst i)) (by omega) Nat.one_pos
      (FshelpRequest.first_add_lt hi) (by rwa [Nat.sub_self, Nat.zero_mul, Nat.add_zero]) with
    ⟨k, hk, heq, hblocks, hlimit⟩ | ⟨e, heq, j, hj, hfail⟩
  · refine .inl ⟨k, by omega, by rw [heq, Nat.add_comm 1 k], fun j hj => ?_, hlimit⟩
    cases j with
    | zero => rwa [Nat.zero_mul, Nat.add_zero, Nat.add_zero]
    | succ j =>
      have hblock := hblocks j (by omega)
      rwa [Nat.add_assoc i 1, Nat.add_comm 1 j] at hblock
  · exact .inr ⟨e, heq, 1 + j, by omega, by rwa [← Nat.add_assoc i 1]⟩

/-- Merging does not change what is returned. -/
theorem fshelpBlocks_merge_eq (hsectors : r.sectors ∣ 2 ^ 64) (n : ℕ) :
    ∀ m i, r.pos / r.blocksize ≤ i → r.blockcnt - i ≤ n → r.blockcnt - i ≤ m →
      (fshelpBlocks disk r blocksStart getBlock (fshelpMerged r getBlock) n i).1.toOption
        = (fshelpBlocks disk r blocksStart getBlock fshelpSingly m i).1.toOption := by
  have hend : ∀ extend rounds i, r.blockcnt ≤ i →
      fshelpBlocks disk r blocksStart getBlock extend rounds i = (.ok [], []) := by
    intro extend rounds i hi
    cases rounds with
    | zero => rfl
    | succ rounds => rw [fshelpBlocks, if_pos hi]
  induction n with
  | zero =>
    intro m i _ hn _
    rw [hend _ _ _ (by omega), hend _ _ _ (by omega)]
  | succ n ih =>
    intro m i hpos hn hm
    by_cases hi : r.blockcnt ≤ i
    · rw [hend _ _ _ hi, hend _ _ _ hi]
    rw [Nat.not_le] at hi
    obtain ⟨m, rfl⟩ := Nat.exists_eq_succ_of_ne_zero (show m ≠ 0 by omega)
    cases hget : getBlock i with
    | error e =>
      rw [fshelpBlocks, fshelpBlocks, if_neg (by omega), if_neg (by omega), hget]
    | ok v =>
      by_cases hhole : u64 (v * r.sectors) = 0
      · rw [fshelpBlocks, fshelpBlocks, if_neg (by omega), if_neg (by omega), hget]
        simp only [if_pos hhole, Except.toOption_map]
        rw [ih m (i + 1) (by omega) (by omega) (by omega)]
      have hstored : StoredAt r getBlock i (u64 (v * r.sectors)) := ⟨v, hget, rfl, hhole⟩
      rcases fshelpMerged_spec hsectors hi hstored with
        ⟨k, hk, heq, hblocks, -⟩ | ⟨e, heq, j, hj, hfail⟩
      · have hrun := fshelpBlocks_singly_run disk blocksStart i
          (u64 (v * r.sectors)) (m - k) hpos hk hblocks
        rw [show m - k + k + 1 = m + 1 by omega] at hrun
        rw [fshelpBlocks_stored hi hstored heq, hrun,
          ih (m - k) (i + (k + 1)) (by omega) (by omega) (by omega), Nat.add_assoc i k 1]
      · rw [fshelpBlocks_singly_none (m + 1) i hj (by omega) hfail, fshelpBlocks,
          if_neg (by omega), hget]
        simp only [if_neg hhole, heq]
        rfl

/-! ### The reads that are issued -/

/-- A read of the disk that covers blocks that follow each other on the disk and, where there are
several, is not longer than the limit. -/
structure FshelpIo.Good (r : FshelpRequest) (getBlock : ℕ → Except GrubError ℕ)
    (blocksStart maxAgglomerate : ℕ) (io : FshelpIo) : Prop where
  run_pos : 0 < io.run
  blocks : ∃ sector, io.sector = u64 (sector + blocksStart)
    ∧ ∀ j < io.run, StoredAt r getBlock (io.block + j) (sector + j * r.sectors)
  covered : io.offset + io.length ≤ io.run * r.blocksize
  limit : 2 ≤ io.run → maxAgglomerate ≠ 0 → io.length ≤ maxAgglomerate * 2 ^ 15

/-- The read of `k + 1` blocks from block `i` on. -/
def fshelpIoOf (r : FshelpRequest) (blocksStart i sector k : ℕ) : FshelpIo :=
  ⟨i, k + 1, u64 (sector + blocksStart), r.skipfirst i,
    sub64 (r.blockend i) (r.skipfirst i) + r.span (i + 1) k⟩

/-- What is true of the merged read of each round is true of all reads. -/
theorem fshelpBlocks_reads (hsectors : r.sectors ∣ 2 ^ 64) {P : FshelpIo → Prop}
    (hround : ∀ i sector k, r.pos / r.blocksize ≤ i → i + k < r.blockcnt →
      (∀ j ≤ k, StoredAt r getBlock (i + j) (sector + j * r.sectors)) →
      (0 < k → r.maxRead ≠ 0 →
        sub64 (r.blockend i) (r.skipfirst i) + r.span (i + 1) k ≤ r.maxRead) →
      P (fshelpIoOf r blocksStart i sector k)) (n : ℕ) :
    ∀ i, r.pos / r.blocksize ≤ i →
      ∀ io ∈ (fshelpBlocks disk r blocksStart getBlock (fshelpMerged r getBlock) n i).2, P io := by
  induction n with
  | zero =>
    intro i _ io hio
    cases hio
  | succ n ih =>
    intro i hpos io hio
    rw [fshelpBlocks] at hio
    by_cases hi : r.blockcnt ≤ i
    · rw [if_pos hi] at hio
      cases hio
    rw [if_neg hi] at hio
    cases hget : getBlock i with
    | error e =>
      rw [hget] at hio
      cases hio
    | ok v =>
      rw [hget] at hio
      by_cases hhole : u64 (v * r.sectors) = 0
      · simp only [if_pos hhole] at hio
        exact ih (i + 1) (by omega) io hio
      simp only [if_neg hhole] at hio
      rcases fshelpMerged_spec hsectors (by omega) ⟨v, hget, rfl, hhole⟩ with
        ⟨k, hk, heq, hblocks, hlimit⟩ | ⟨e, heq, -⟩
      · have hthis := hround i (u64 (v * r.sectors)) k hpos hk hblocks hlimit
        simp only [heq] at hio
        cases hread : grubDiskRead disk (u64 (u64 (v * r.sectors) + blocksStart)) (r.skipfirst i)
            (sub64 (r.blockend i) (r.skipfirst i) + r.span (i + 1) k) with
        | error e =>
          simp only [hread, List.mem_singleton] at hio
          exact hio ▸ hthis
        | ok bytes =>
          simp only [hread] at hio
          rcases List.mem_cons.mp hio with rfl | hio
          · exact hthis
          · exact ih (i + (k + 1)) (by omega) io hio
      · simp only [heq] at hio
        cases hio

/-- The start of the request is not behind its end in a block. -/
theorem FshelpRequest.skipfirst_le (hend : r.pos + r.len + r.blocksize ≤ 2 ^ 64) {i : ℕ}
    (hi : i < r.blockcnt) : r.skipfirst i ≤ r.blockend i := by
  have hstop := blockend_eq hend hi
  have hpos := Nat.div_add_mod r.pos r.blocksize
  have hlt := Nat.mod_lt r.pos r.blocksize_pos
  rw [Nat.mul_comm] at hpos
  rw [Nat.succ_mul] at hstop
  rw [skipfirst]
  split_ifs with hfirst
  · rw [← hfirst] at hpos
    omega
  · exact Nat.zero_le _

/-- The bytes that a read asks for end where its last block ends, or where the request ends. -/
theorem fshelpIoOf_length (blocksStart sector : ℕ)
    (hend : r.pos + r.len + r.blocksize ≤ 2 ^ 64) {i k : ℕ}
    (hk : i + k < r.blockcnt) :
    i * r.blocksize + ((fshelpIoOf r blocksStart i sector k).offset
        + (fshelpIoOf r blocksStart i sector k).length)
      = min (r.pos + r.len) ((i + (k + 1)) * r.blocksize) := by
  have hskip := FshelpRequest.skipfirst_le hend (show i < r.blockcnt by omega)
  have hblock := r.blockend_le i
  have hbs := r.blocksize_lt (show 0 < r.blockcnt by omega)
  simp only [fshelpIoOf]
  rw [sub64_of_le hskip (by omega),
    ← FshelpRequest.mul_add_span hend (Nat.succ_pos k) (by omega), FshelpRequest.span]
  omega

theorem fshelpIoOf_good {maxAgglomerate : ℕ} (hend : r.pos + r.len + r.blocksize ≤ 2 ^ 64)
    (hmax : r.maxRead = fshelpMaxRead maxAgglomerate)
    (hwithin : maxAgglomerate = 0 ∨ maxAgglomerate % 2 ^ 17 ≠ 0
      ∨ r.len ≤ maxAgglomerate * 2 ^ 15) {i sector k : ℕ}
    (hpos : r.pos / r.blocksize ≤ i) (hk : i + k < r.blockcnt)
    (hblocks : ∀ j ≤ k, StoredAt r getBlock (i + j) (sector + j * r.sectors))
    (hlimit : 0 < k → r.maxRead ≠ 0 →
      sub64 (r.blockend i) (r.skipfirst i) + r.span (i + 1) k ≤ r.maxRead) :
    (fshelpIoOf r blocksStart i sector k).Good r getBlock blocksStart maxAgglomerate where
  run_pos := Nat.succ_pos k
  blocks := ⟨sector, rfl, fun j hj => hblocks j (Nat.le_of_lt_succ hj)⟩
  covered := by
    have hlength := fshelpIoOf_length blocksStart sector hend hk
    have hrun : (fshelpIoOf r blocksStart i sector k).run = k + 1 := rfl
    rw [Nat.add_mul] at hlength
    rw [hrun]
    omega
  limit := by
    intro hrun hne
    have hk0 : 0 < k := Nat.lt_of_succ_le (Nat.le_of_succ_le_succ hrun)
    have hlength := fshelpIoOf_length blocksStart sector hend hk
    have hstart := Nat.div_add_mod r.pos r.blocksize
    have hle : r.pos / r.blocksize * r.blocksize ≤ i * r.blocksize := Nat.mul_le_mul_right _ hpos
    rw [Nat.mul_comm] at hstart
    have hlen : (fshelpIoOf r blocksStart i sector k).length
        = sub64 (r.blockend i) (r.skipfirst i) + r.span (i + 1) k := rfl
    rcases hwithin with h | h | h
    · exact absurd h hne
    · have hne0 : r.maxRead ≠ 0 := by
        rw [hmax, fshelpMaxRead, u32]
        omega
      have hle32 : r.maxRead ≤ maxAgglomerate * 2 ^ 15 := hmax ▸ Nat.mod_le _ _
      rw [hlen]
      exact Nat.le_trans (hlimit hk0 hne0) hle32
    · refine Nat.le_trans ?_ h
      have hoffset : r.pos ≤ i * r.blocksize + (fshelpIoOf r blocksStart i sector k).offset := by
        have hskip : (fshelpIoOf r blocksStart i sector k).offset = r.skipfirst i := rfl
        rw [hskip, FshelpRequest.skipfirst]
        split_ifs with hfirst
        · rw [hfirst]
          omega
        · have hnext : (r.pos / r.blocksize + 1) * r.blocksize ≤ i * r.blocksize :=
            Nat.mul_le_mul_right _ (by omega)
          have hlt := Nat.mod_lt r.pos r.blocksize_pos
          rw [Nat.succ_mul] at hnext
          omega
      have hmin := Nat.min_le_left (r.pos + r.len) ((i + (k + 1)) * r.blocksize)
      rw [← hlength] at hmin
      omega

/-! ### Reads that are not good -/

/-- Without a limit, a merged read takes all blocks that follow each other. -/
theorem fshelpMerge_all (hmax : r.maxRead = 0) {i blknr : ℕ} :
    ∀ n run length, length + n * r.blocksize < 2 ^ 64 →
      (∀ j < n, blknr + (run + j) * r.sectors < 2 ^ 64
        ∧ StoredAt r getBlock (i + run + j) (blknr + (run + j) * r.sectors)) →
      fshelpMerge r getBlock i blknr n run length
        = .ok (run + n, length + r.span (i + run) n) := by
  intro n
  induction n with
  | zero => exact fun run length _ _ => rfl
  | succ n ih =>
    intro run length hlength hblocks
    have hblock := r.blockend_le (i + run)
    rw [Nat.succ_mul] at hlength
    obtain ⟨hlt, v, hget, hv, hne⟩ := hblocks 0 (Nat.succ_pos n)
    rw [Nat.add_zero] at hget hlt hv hne
    rw [fshelpMerge, if_neg (fun h => h.1 hmax), hget]
    simp only
    rw [hv, u64_of_lt hlt, if_neg (by rintro (h | h); exacts [hne h, h rfl]),
      u64_of_lt (by omega), ih (run + 1) (length + r.blockend (i + run)) (by omega)
        (fun j hj => by
          have hnext := hblocks (j + 1) (by omega)
          rwa [show run + (j + 1) = run + 1 + j by omega,
            show i + run + (j + 1) = i + (run + 1) + j by omega] at hnext),
      FshelpRequest.span, Nat.add_assoc length, Nat.add_assoc i run 1, Nat.add_assoc run 1 n,
      Nat.add_comm 1 n]

theorem fshelpBlocks_first {extend : FshelpExtend} {i sector run length n : ℕ}
    (hi : i < r.blockcnt) (h : StoredAt r getBlock i sector)
    (hextend : extend i sector (sub64 (r.blockend i) (r.skipfirst i)) = .ok (run, length)) :
    ⟨i, run, u64 (sector + blocksStart), r.skipfirst i, length⟩
      ∈ (fshelpBlocks disk r blocksStart getBlock extend (n + 1) i).2 := by
  obtain ⟨v, hget, rfl, hne⟩ := h
  rw [fshelpBlocks, if_neg (by omega), hget]
  simp only [if_neg hne, hextend]
  cases grubDiskRead disk (u64 (u64 (v * r.sectors) + blocksStart)) (r.skipfirst i) length with
  | error e => exact List.mem_singleton_self _
  | ok bytes => exact List.mem_cons_self

end Blocks

/-! ### Merging -/

/-- Where a request ends: at the end of the file at most, or before `pos` if the sum wraps. -/
def fshelpStop (filesize pos len : ℕ) : ℕ :=
  if pos + len < 2 ^ 64 then min (pos + len) filesize else pos + len - 2 ^ 64

/-- Nothing is read, or the end of the request does not wrap and the limit is none, or not lost in
the shift, or not below the length. -/
def MergingHolds (maxAgglomerate filesize log2 pos len : ℕ) : Prop :=
  22 ≤ log2 ∨ filesize < pos ∨ 2 ^ 64 < fshelpStop filesize pos len + 2 ^ (log2 + 9)
    ∨ fshelpStop filesize pos len ≤ pos / 2 ^ (log2 + 9) * 2 ^ (log2 + 9)
    ∨ pos + len < 2 ^ 64 ∧ (maxAgglomerate = 0 ∨ maxAgglomerate % 2 ^ 17 ≠ 0
      ∨ fshelpStop filesize pos len - pos ≤ maxAgglomerate * 2 ^ 15)

instance {maxAgglomerate filesize log2 pos len : ℕ} :
    Decidable (MergingHolds maxAgglomerate filesize log2 pos len) :=
  inferInstanceAs (Decidable (_ ∨ _ ∨ _ ∨ _ ∨ _ ∧ (_ ∨ _ ∨ _)))

section Merging

variable {maxAgglomerate filesize log2 pos len : ℕ}

theorem fshelpRequest_sectors_dvd (hlog2 : log2 < 22) :
    (fshelpRequest maxAgglomerate filesize log2 pos len).sectors ∣ 2 ^ 64 :=
  Nat.pow_dvd_pow 2 (show log2 ≤ 64 by omega)

theorem fshelpRequest_blocksize (maxAgglomerate filesize log2 pos len : ℕ) :
    (fshelpRequest maxAgglomerate filesize log2 pos len).blocksize = 2 ^ (log2 + 9) :=
  (Nat.pow_add 2 log2 9).symm

variable (hpos : pos ≤ filesize) (hfilesize : filesize < 2 ^ 64) (hlen : len < 2 ^ 64)
include hpos hfilesize hlen

theorem fshelpRequest_len (maxAgglomerate log2 : ℕ) :
    pos + len < 2 ^ 64 ∧ pos + (fshelpRequest maxAgglomerate filesize log2 pos len).len
        = fshelpStop filesize pos len
      ∨ 2 ^ 64 ≤ pos + len ∧ pos + (fshelpRequest maxAgglomerate filesize log2 pos len).len
        = fshelpStop filesize pos len + 2 ^ 64 ∧ fshelpStop filesize pos len < pos := by
  rw [fshelpRequest, fshelpStop]
  by_cases hwrap : pos + len < 2 ^ 64
  · refine .inl ⟨hwrap, ?_⟩
    rw [if_pos hwrap, u64_of_lt hwrap]
    by_cases hcut : filesize < pos + len
    · rw [if_pos hcut, Nat.min_eq_right (Nat.le_of_lt hcut), Nat.add_sub_cancel' hpos]
    · rw [if_neg hcut, Nat.min_eq_left (Nat.le_of_not_lt hcut)]
  · have hsum : u64 (pos + len) = pos + len - 2 ^ 64 := by
      unfold u64
      omega
    refine .inr ⟨Nat.le_of_not_lt hwrap, ?_, ?_⟩
    · rw [if_neg hwrap, hsum, if_neg (by omega)]
      exact (Nat.sub_add_cancel (Nat.le_of_not_lt hwrap)).symm
    · rw [if_neg hwrap]
      omega

theorem fshelpRequest_blockcnt_le_iff (maxAgglomerate : ℕ) (hlog2 : log2 < 22) :
    (fshelpRequest maxAgglomerate filesize log2 pos len).blockcnt
        ≤ pos / (fshelpRequest maxAgglomerate filesize log2 pos len).blocksize
      ↔ 2 ^ 64 < fshelpStop filesize pos len
          + (fshelpRequest maxAgglomerate filesize log2 pos len).blocksize
        ∨ fshelpStop filesize pos len
          ≤ pos / (fshelpRequest maxAgglomerate filesize log2 pos len).blocksize
            * (fshelpRequest maxAgglomerate filesize log2 pos len).blocksize := by
  have hrequest := fshelpRequest_len hpos hfilesize hlen maxAgglomerate log2
  have hposeq : (fshelpRequest maxAgglomerate filesize log2 pos len).pos = pos := rfl
  have hbs := (fshelpRequest maxAgglomerate filesize log2 pos len).blocksize_pos
  have hle : (fshelpRequest maxAgglomerate filesize log2 pos len).blocksize ≤ 2 ^ 31 := by
    rw [fshelpRequest_blocksize]
    exact Nat.pow_le_pow_right (by decide) (by omega)
  rw [FshelpRequest.blockcnt, hposeq]
  generalize (fshelpRequest maxAgglomerate filesize log2 pos len).len = cut at hrequest ⊢
  generalize (fshelpRequest maxAgglomerate filesize log2 pos len).blocksize = bs at hbs hle ⊢
  generalize hstop : fshelpStop filesize pos len = stop at hrequest ⊢
  have hlt : stop < 2 ^ 64 := by
    rw [fshelpStop] at hstop
    split_ifs at hstop
    · have hle := Nat.min_le_left (pos + len) filesize
      omega
    · omega
  by_cases hwrap : 2 ^ 64 < stop + bs
  · refine iff_of_true ?_ (.inl hwrap)
    have hsum : u64 (cut + pos + bs - 1) < bs := by
      unfold u64
      omega
    rw [Nat.div_eq_of_lt hsum]
    exact Nat.zero_le _
  · have hsum : u64 (cut + pos + bs - 1) = stop + bs - 1 := by
      unfold u64
      omega
    rw [hsum, ← Nat.lt_succ_iff, Nat.div_lt_iff_lt_mul hbs, Nat.succ_mul]
    omega

omit hfilesize hlen in
theorem grubFshelpRead_eq {extend : FshelpRequest → FshelpExtend} {disk : FshelpDisk}
    {getBlock : ℕ → Except GrubError ℕ} {blocksStart : ℕ} (hlog2 : log2 < 22) :
    grubFshelpRead extend disk getBlock maxAgglomerate filesize log2 blocksStart pos len
      = ((fshelpBlocks disk (fshelpRequest maxAgglomerate filesize log2 pos len) blocksStart getBlock
          (extend (fshelpRequest maxAgglomerate filesize log2 pos len))
          ((fshelpRequest maxAgglomerate filesize log2 pos len).blockcnt
            - pos / (fshelpRequest maxAgglomerate filesize log2 pos len).blocksize)
          (pos / (fshelpRequest maxAgglomerate filesize log2 pos len).blocksize)).1.map
            ((fshelpRequest maxAgglomerate filesize log2 pos len).len, ·),
        (fshelpBlocks disk (fshelpRequest maxAgglomerate filesize log2 pos len) blocksStart getBlock
          (extend (fshelpRequest maxAgglomerate filesize log2 pos len))
          ((fshelpRequest maxAgglomerate filesize log2 pos len).blockcnt
            - pos / (fshelpRequest maxAgglomerate filesize log2 pos len).blocksize)
          (pos / (fshelpRequest maxAgglomerate filesize log2 pos len).blocksize)).2) := by
  rw [grubFshelpRead, if_neg (by omega), if_neg (by omega)]

/-- Under the condition, all reads that are issued are good. -/
theorem fshelpReads_good {disk : FshelpDisk} {getBlock : ℕ → Except GrubError ℕ} {blocksStart : ℕ}
    (h : MergingHolds maxAgglomerate filesize log2 pos len) :
    ∀ io ∈ (grubFshelpRead (fun r => fshelpMerged r getBlock) disk getBlock maxAgglomerate filesize
        log2 blocksStart pos len).2,
      io.Good (fshelpRequest maxAgglomerate filesize log2 pos len) getBlock blocksStart
        maxAgglomerate := by
  intro io hio
  rcases Nat.lt_or_ge log2 22 with hlog2 | hlog2
  swap
  · rw [grubFshelpRead, if_pos (by omega)] at hio
    cases hio
  rw [grubFshelpRead_eq hpos hlog2] at hio
  have hcnt := fshelpRequest_blockcnt_le_iff hpos hfilesize hlen maxAgglomerate hlog2
  have hsize := fshelpRequest_blocksize maxAgglomerate filesize log2 pos len
  have hbs := (fshelpRequest maxAgglomerate filesize log2 pos len).blocksize_pos
  rw [MergingHolds, ← hsize] at h
  by_cases hnone : (fshelpRequest maxAgglomerate filesize log2 pos len).blockcnt
      ≤ pos / (fshelpRequest maxAgglomerate filesize log2 pos len).blocksize
  · rw [Nat.sub_eq_zero_of_le hnone] at hio
    cases hio
  have hsome := mt hcnt.mpr hnone
  rcases h with h | h | h | h | ⟨hwrap, hwithin⟩
  · omega
  · omega
  · exact absurd (.inl h) hsome
  · exact absurd (.inr h) hsome
  have hrequest : pos + (fshelpRequest maxAgglomerate filesize log2 pos len).len
      = fshelpStop filesize pos len := by
    rcases fshelpRequest_len hpos hfilesize hlen maxAgglomerate log2
      with ⟨-, h⟩ | ⟨h, -⟩
    · exact h
    · omega
  refine fshelpBlocks_reads (fshelpRequest_sectors_dvd hlog2) (fun i sector k hi hk hblocks hlimit =>
    fshelpIoOf_good ?_ rfl ?_ hi hk hblocks hlimit) _ _ (Nat.le_refl _) io hio
  · have hposeq : (fshelpRequest maxAgglomerate filesize log2 pos len).pos = pos := rfl
    rw [hposeq]
    omega
  · rcases hwithin with h | h | h
    · exact .inl h
    · exact .inr (.inl h)
    · exact .inr (.inr (by omega))

omit hpos hfilesize hlen in
theorem storedAt_succ {r : FshelpRequest} {j : ℕ} (hj : j < r.blockcnt) :
    (j + 1) * r.sectors < 2 ^ 64
      ∧ StoredAt r (fun j => .ok (j + 1)) j ((j + 1) * r.sectors) := by
  have hcnt := r.blockcnt_mul_lt
  have hle : (j + 1) * r.blocksize ≤ r.blockcnt * r.blocksize := Nat.mul_le_mul_right _ hj
  have hsize : r.blocksize = r.sectors * 512 := FshelpRequest.blocksize.eq_1 r
  have hpos : 0 < (j + 1) * r.sectors := Nat.mul_pos (Nat.succ_pos j) (Nat.two_pow_pos r.log2)
  rw [hsize, ← Nat.mul_assoc, ← Nat.mul_assoc] at hle
  rw [hsize, ← Nat.mul_assoc] at hcnt
  have hlt : (j + 1) * r.sectors < 2 ^ 64 := by omega
  exact ⟨hlt, j + 1, rfl, u64_of_lt hlt, Nat.ne_of_gt hpos⟩

/-- A request that wraps and does not end before its first block: the read of that block asks for
nearly 2^64 bytes. -/
theorem fshelpReads_wrapped (disk : FshelpDisk) (hlog2 : log2 < 22) (hwrap : 2 ^ 64 ≤ pos + len)
    (hsome : pos / (fshelpRequest maxAgglomerate filesize log2 pos len).blocksize
      < (fshelpRequest maxAgglomerate filesize log2 pos len).blockcnt) :
    ∃ io ∈ (grubFshelpRead (fun r => fshelpMerged r fun j => .ok (j + 1)) disk
        (fun j => .ok (j + 1)) maxAgglomerate filesize log2 0 pos len).2,
      io.run * (fshelpRequest maxAgglomerate filesize log2 pos len).blocksize
        < io.offset + io.length := by
  have hcnt := fshelpRequest_blockcnt_le_iff hpos hfilesize hlen maxAgglomerate hlog2
  have hsize := fshelpRequest_blocksize maxAgglomerate filesize log2 pos len
  have hle : (fshelpRequest maxAgglomerate filesize log2 pos len).blocksize ≤ 2 ^ 31 := by
    rw [hsize]
    exact Nat.pow_le_pow_right (by decide) (by omega)
  have hdvd : (fshelpRequest maxAgglomerate filesize log2 pos len).blocksize ∣ 2 ^ 64 := by
    rw [hsize]
    exact Nat.pow_dvd_pow 2 (by omega)
  obtain ⟨hsum, hbefore⟩ : pos + (fshelpRequest maxAgglomerate filesize log2 pos len).len
      = fshelpStop filesize pos len + 2 ^ 64 ∧ fshelpStop filesize pos len < pos := by
    rcases fshelpRequest_len hpos hfilesize hlen maxAgglomerate log2
      with ⟨h, -⟩ | ⟨-, h⟩
    · omega
    · exact h
  rw [grubFshelpRead_eq hpos hlog2]
  have hposeq : (fshelpRequest maxAgglomerate filesize log2 pos len).pos = pos := rfl
  generalize fshelpRequest maxAgglomerate filesize log2 pos len = r at *
  subst hposeq
  obtain ⟨hfits, hafter⟩ := not_or.mp (mt hcnt.mpr (Nat.not_le.mpr hsome))
  have hbs := r.blocksize_pos
  have hstart := Nat.div_add_mod r.pos r.blocksize
  have hlt := Nat.mod_lt r.pos hbs
  rw [Nat.mul_comm] at hstart
  have hlast : r.blockcnt = r.pos / r.blocksize + 1 := by
    have hend : r.blockcnt < r.pos / r.blocksize + 2 := by
      have hu : u64 (r.len + r.pos + r.blocksize - 1)
          = fshelpStop filesize r.pos len + r.blocksize - 1 := by
        unfold u64
        omega
      rw [FshelpRequest.blockcnt, hu, Nat.div_lt_iff_lt_mul hbs, Nat.succ_mul, Nat.succ_mul]
      omega
    omega
  have hskip : r.skipfirst (r.pos / r.blocksize) = r.pos % r.blocksize := if_pos rfl
  have hblockend : r.blockend (r.pos / r.blocksize)
      = fshelpStop filesize r.pos len - r.pos / r.blocksize * r.blocksize := by
    have hmod : (r.len + r.pos) % r.blocksize
        = fshelpStop filesize r.pos len - r.pos / r.blocksize * r.blocksize := by
      rw [Nat.add_comm, hsum, Nat.add_mod, Nat.mod_eq_zero_of_dvd hdvd, Nat.add_zero, Nat.mod_mod]
      have hsplit : fshelpStop filesize r.pos len
          = fshelpStop filesize r.pos len - r.pos / r.blocksize * r.blocksize
            + r.pos / r.blocksize * r.blocksize := by omega
      rw [hsplit, Nat.add_mul_mod_self_right, Nat.mod_eq_of_lt (by omega)]
      omega
    have hindex : r.pos / r.blocksize = r.blockcnt - 1 := by rw [hlast, Nat.add_sub_cancel]
    rw [FshelpRequest.blockend, if_pos hindex, hmod, if_neg (by omega)]
  have hfirst : sub64 (r.blockend (r.pos / r.blocksize)) (r.skipfirst (r.pos / r.blocksize))
      = fshelpStop filesize r.pos len + 2 ^ 64 - r.pos := by
    rw [hskip, hblockend, sub64]
    unfold u64
    omega
  have hmerged : fshelpMerged r (fun j => .ok (j + 1)) (r.pos / r.blocksize)
      ((r.pos / r.blocksize + 1) * r.sectors)
      (sub64 (r.blockend (r.pos / r.blocksize)) (r.skipfirst (r.pos / r.blocksize)))
        = .ok (1, sub64 (r.blockend (r.pos / r.blocksize)) (r.skipfirst (r.pos / r.blocksize))) := by
    rw [fshelpMerged, hlast, Nat.sub_self, fshelpMerge]
  rw [show r.blockcnt - r.pos / r.blocksize = 0 + 1 by omega]
  refine ⟨_, fshelpBlocks_first hsome (storedAt_succ hsome).2 hmerged, ?_⟩
  simp only
  rw [hfirst, hskip, Nat.one_mul]
  omega

/-- A request that is longer than a limit which the shift loses: a file whose blocks all follow each
other is read at once. -/
theorem fshelpReads_long (disk : FshelpDisk) (hlog2 : log2 < 22) (hwrap : pos + len < 2 ^ 64)
    (hsome : pos / (fshelpRequest maxAgglomerate filesize log2 pos len).blocksize
      < (fshelpRequest maxAgglomerate filesize log2 pos len).blockcnt)
    (hlost : maxAgglomerate % 2 ^ 17 = 0) :
    ∃ io ∈ (grubFshelpRead (fun r => fshelpMerged r fun j => .ok (j + 1)) disk
        (fun j => .ok (j + 1)) maxAgglomerate filesize log2 0 pos len).2,
      io.length = fshelpStop filesize pos len - pos := by
  have hcnt := fshelpRequest_blockcnt_le_iff hpos hfilesize hlen maxAgglomerate hlog2
  have hsum : pos + (fshelpRequest maxAgglomerate filesize log2 pos len).len
      = fshelpStop filesize pos len := by
    rcases fshelpRequest_len hpos hfilesize hlen maxAgglomerate log2
      with ⟨-, h⟩ | ⟨h, -⟩
    · exact h
    · omega
  have hmax : (fshelpRequest maxAgglomerate filesize log2 pos len).maxRead = 0 := by
    have hmod : u32 (maxAgglomerate * 2 ^ 15) = 0 := by
      unfold u32
      omega
    exact hmod
  rw [grubFshelpRead_eq hpos hlog2]
  have hposeq : (fshelpRequest maxAgglomerate filesize log2 pos len).pos = pos := rfl
  generalize fshelpRequest maxAgglomerate filesize log2 pos len = r at *
  subst hposeq
  obtain ⟨hfits, hafter⟩ := not_or.mp (mt hcnt.mpr (Nat.not_le.mpr hsome))
  have hend : r.pos + r.len + r.blocksize ≤ 2 ^ 64 := by omega
  obtain ⟨k, hk⟩ := Nat.exists_eq_add_of_lt hsome
  have hmerged : fshelpMerged r (fun j => .ok (j + 1)) (r.pos / r.blocksize)
      ((r.pos / r.blocksize + 1) * r.sectors)
      (sub64 (r.blockend (r.pos / r.blocksize)) (r.skipfirst (r.pos / r.blocksize)))
        = .ok (1 + k, sub64 (r.blockend (r.pos / r.blocksize)) (r.skipfirst (r.pos / r.blocksize))
          + r.span (r.pos / r.blocksize + 1) k) := by
    have hroom := FshelpRequest.first_add_lt hsome
    rw [show r.blockcnt - (r.pos / r.blocksize + 1) = k by omega] at hroom
    rw [fshelpMerged, show r.blockcnt - (r.pos / r.blocksize + 1) = k by omega]
    refine fshelpMerge_all hmax k 1 _ hroom fun j hj => ?_
    rw [← Nat.add_mul, show r.pos / r.blocksize + 1 + (1 + j) = r.pos / r.blocksize + 1 + j + 1
      by omega]
    exact storedAt_succ (by omega)
  rw [show r.blockcnt - r.pos / r.blocksize = k + 1 by omega]
  refine ⟨_, fshelpBlocks_first hsome (storedAt_succ hsome).2 hmerged, ?_⟩
  have hlength := fshelpIoOf_length 0 ((r.pos / r.blocksize + 1) * r.sectors) hend
    (show r.pos / r.blocksize + k < r.blockcnt by omega)
  have hlast := mt (FshelpRequest.lt_blockcnt hend (i := r.blockcnt)).mpr (Nat.lt_irrefl _)
  have hskip : r.skipfirst (r.pos / r.blocksize) = r.pos % r.blocksize := if_pos rfl
  have hstart := Nat.div_add_mod r.pos r.blocksize
  rw [Nat.mul_comm] at hstart
  rw [show r.pos / r.blocksize + (k + 1) = r.blockcnt by omega,
    Nat.min_eq_left (Nat.le_of_not_lt hlast)] at hlength
  simp only [fshelpIoOf] at hlength ⊢
  rw [hskip] at hlength ⊢
  omega

end Merging

section Invisible

variable {maxAgglomerate filesize log2 pos len : ℕ}

theorem grubFshelpRead_refused (maxAgglomerate len : ℕ) (h : 22 ≤ log2 ∨ filesize < pos) :
    ∃ e, ∀ extend disk getBlock blocksStart,
      grubFshelpRead extend disk getBlock maxAgglomerate filesize log2 blocksStart pos len
        = (.error e, []) := by
  by_cases hlog2 : 31 ≤ log2 + 9
  · exact ⟨_, fun extend disk getBlock blocksStart => by rw [grubFshelpRead, if_pos hlog2]⟩
  · exact ⟨_, fun extend disk getBlock blocksStart => by
      rw [grubFshelpRead, if_neg hlog2, if_pos (by omega)]⟩

/-- A disk that is never out of order. -/
def soundDisk : FshelpDisk where
  name := "hd0"
  range := partedDisk
  byte := fun _ => 0
  readable := fun _ => true
  failure := ⟨.fileReadError, "failure reading sector"⟩
  valid := partedDisk_valid

theorem fshelpReads_bad (hfilesize : filesize < 2 ^ 64) (hlen : len < 2 ^ 64)
    (h : ¬ MergingHolds maxAgglomerate filesize log2 pos len) :
    ∃ io ∈ (grubFshelpRead (fun r => fshelpMerged r fun j => .ok (j + 1)) soundDisk
        (fun j => .ok (j + 1)) maxAgglomerate filesize log2 0 pos len).2,
      ¬ io.Good (fshelpRequest maxAgglomerate filesize log2 pos len) (fun j => .ok (j + 1)) 0
        maxAgglomerate := by
  have hsize := fshelpRequest_blocksize maxAgglomerate filesize log2 pos len
  rw [MergingHolds, not_or, not_or, not_or, not_or, ← hsize] at h
  obtain ⟨hlog2, hpos, hfits, hafter, hcond⟩ := h
  rw [Nat.not_le] at hlog2
  rw [Nat.not_lt] at hpos
  have hsome := mt (fshelpRequest_blockcnt_le_iff hpos hfilesize hlen maxAgglomerate hlog2).mp
    (not_or.mpr ⟨hfits, hafter⟩)
  rw [Nat.not_le] at hsome
  by_cases hwrap : pos + len < 2 ^ 64
  · have hlost := not_or.mp (not_and.mp hcond hwrap)
    obtain ⟨hzero, hrest⟩ := hlost
    obtain ⟨hmod, hlong⟩ := not_or.mp hrest
    obtain ⟨io, hio, hlength⟩ := fshelpReads_long hpos hfilesize hlen soundDisk hlog2
      hwrap hsome (not_not.mp hmod)
    refine ⟨io, hio, fun hgood => hlong ?_⟩
    rw [← hlength]
    refine hgood.limit ?_ hzero
    -- one block is below any limit that the shift loses
    have hle : (fshelpRequest maxAgglomerate filesize log2 pos len).blocksize ≤ 2 ^ 31 := by
      rw [hsize]
      exact Nat.pow_le_pow_right (by decide) (by omega)
    have hrun := hgood.run_pos
    have hcovered := hgood.covered
    rcases Nat.eq_or_lt_of_le (Nat.succ_le_of_lt hrun) with hone | htwo
    · rw [← hone, Nat.succ_eq_add_one, Nat.zero_add, Nat.one_mul] at hcovered
      omega
    · exact htwo
  · obtain ⟨io, hio, hover⟩ := fshelpReads_wrapped hpos hfilesize hlen soundDisk hlog2
      (Nat.le_of_not_lt hwrap) hsome
    exact ⟨io, hio, fun hgood => Nat.not_le.mpr hover hgood.covered⟩

/-- Merging is invisible: what is returned is what the loop that reads block by block returns. The
reads that are issued cover blocks that follow each other and are within the limit if and only if the
end of the request does not wrap and the shift does not lose the limit. -/
theorem fshelp_merging (hfilesize : filesize < 2 ^ 64) (hlen : len < 2 ^ 64) :
    (∀ disk getBlock blocksStart,
      (grubFshelpRead (fun r => fshelpMerged r getBlock) disk getBlock maxAgglomerate filesize log2
          blocksStart pos len).1.toOption
        = (grubFshelpRead (fun _ => fshelpSingly) disk getBlock maxAgglomerate filesize log2
          blocksStart pos len).1.toOption)
      ∧ ((∀ disk getBlock blocksStart,
        ∀ io ∈ (grubFshelpRead (fun r => fshelpMerged r getBlock) disk getBlock maxAgglomerate
          filesize log2 blocksStart pos len).2,
        io.Good (fshelpRequest maxAgglomerate filesize log2 pos len) getBlock blocksStart
          maxAgglomerate)
      ↔ MergingHolds maxAgglomerate filesize log2 pos len) := by
  by_cases hrefused : 22 ≤ log2 ∨ filesize < pos
  · obtain ⟨e, hread⟩ := grubFshelpRead_refused maxAgglomerate len hrefused
    have hholds : MergingHolds maxAgglomerate filesize log2 pos len :=
      hrefused.elim .inl fun h => .inr (.inl h)
    simp only [hread, List.not_mem_nil, false_imp_iff, implies_true, true_and, hholds]
  obtain ⟨hlog2, hpos⟩ := not_or.mp hrefused
  rw [Nat.not_le] at hlog2
  rw [Nat.not_lt] at hpos
  refine ⟨fun disk getBlock blocksStart => ?_, fun h => ?_, fun h disk getBlock blocksStart =>
    fshelpReads_good hpos hfilesize hlen h⟩
  · rw [grubFshelpRead_eq hpos hlog2, grubFshelpRead_eq hpos hlog2, Except.toOption_map,
      Except.toOption_map]
    exact congrArg _ (fshelpBlocks_merge_eq (fshelpRequest_sectors_dvd hlog2) _ _ _
      (Nat.le_refl _) (Nat.le_refl _) (Nat.le_refl _))
  · by_contra hnot
    obtain ⟨io, hio, hbad⟩ := fshelpReads_bad hfilesize hlen hnot
    exact hbad (h soundDisk _ 0 io hio)

/-- A request of 1000 bytes at 100 of a file of 5000, with a limit of 32 units. -/
theorem fshelp_merging_small : MergingHolds 32 5000 1 100 1000 ∧
    ∀ io ∈ (grubFshelpRead (fun r => fshelpMerged r fun j => .ok (j + 1)) soundDisk
        (fun j => .ok (j + 1)) 32 5000 1 0 100 1000).2,
      io.Good (fshelpRequest 32 5000 1 100 1000) (fun j => .ok (j + 1)) 0 32 :=
  ⟨by decide, (fshelp_merging (by decide) (by decide)).2.mpr (by decide) soundDisk _ 0⟩

/-- A length of 2^64 - 50 at 100 of a file of 1000 bytes, and a limit of 2^17 units with a request of
5 GiB. -/
theorem fshelp_merging_fails :
    (¬ ∀ io ∈ (grubFshelpRead (fun r => fshelpMerged r fun j => .ok (j + 1)) soundDisk
        (fun j => .ok (j + 1)) 32 1000 0 0 100 (2 ^ 64 - 50)).2,
      io.Good (fshelpRequest 32 1000 0 100 (2 ^ 64 - 50)) (fun j => .ok (j + 1)) 0 32)
    ∧ ¬ ∀ io ∈ (grubFshelpRead (fun r => fshelpMerged r fun j => .ok (j + 1)) soundDisk
        (fun j => .ok (j + 1)) (2 ^ 17) (2 ^ 40) 21 0 0 (5 * 2 ^ 30)).2,
      io.Good (fshelpRequest (2 ^ 17) (2 ^ 40) 21 0 (5 * 2 ^ 30)) (fun j => .ok (j + 1)) 0
        (2 ^ 17) := by
  constructor <;> intro h
  · obtain ⟨io, hio, hbad⟩ := fshelpReads_bad (by decide) (by decide)
      (show ¬ MergingHolds 32 1000 0 100 (2 ^ 64 - 50) by decide)
    exact hbad (h io hio)
  · obtain ⟨io, hio, hbad⟩ := fshelpReads_bad (by decide) (by decide)
      (show ¬ MergingHolds (2 ^ 17) (2 ^ 40) 21 0 (5 * 2 ^ 30) by decide)
    exact hbad (h io hio)

end Invisible

end FsRover
