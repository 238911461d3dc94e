import Mathlib.Data.Nat.Bitwise
import FsRover.Grub
import FsRover.Lib.Guards
import FsRover.Lost.State

/-!
# Lost partition windows

`lostdisk.c`: a window of another disk becomes a device of its own. The list of these devices is
passed in and out; `grub_disk_open` is a parameter.

## Main definitions

* `FsRover.LostdiskList` : the devices that exist.

## Main results

* `FsRover.lostdiskCheckRemap_eq_ok_iff`, `FsRover.roverLostAddEx_eq_ok_iff` : when the arguments
  pass, and the device that is added.
-/

namespace FsRover

open Guards

/-- `LOSTDISK_PROBE_NAME`. -/
def LOSTDISK_PROBE_NAME : String := "lostprobe"

/-- `struct lostdisk`, in sectors of 512 bytes. -/
structure Lostdisk where
  devname : String
  parentName : String
  start : ℕ
  sectors : ℕ
  remap : List LostRemap
  id : ℕ
  deriving DecidableEq, Repr

/-- `lostdisk_list` and `lostdisk_last_id`. -/
structure LostdiskList where
  disks : List Lostdisk
  lastId : ℕ
  deriving DecidableEq, Repr

/-- `lostdisk_find`. -/
def lostdiskFind (list : LostdiskList) (devname : String) : Option Lostdisk :=
  list.disks.find? (·.devname == devname)

/-- A remap with something to move that lies inside a window of `size` bytes. -/
def LostRemap.Inside (r : LostRemap) (size : ℕ) : Prop :=
  r.length ≠ 0 ∧ r.length ≤ size ∧ r.target ≤ size - r.length ∧ r.source ≤ size - r.length

instance (r : LostRemap) (size : ℕ) : Decidable (r.Inside size) :=
  inferInstanceAs (Decidable (_ ∧ _ ∧ _ ∧ _))

/-- The loop of `lostdisk_check_remap`. -/
def lostdiskCheckRemaps (size : ℕ) : List LostRemap → Except GrubError Unit
  | [] => .ok ()
  | r :: remap =>
    if r.length = 0 ∨ size < r.length ∨ size - r.length < r.target ∨ size - r.length < r.source then
      .error ⟨.badArgument, "remap is outside the range"⟩
    else lostdiskCheckRemaps size remap

/-- `lostdisk_check_remap`. -/
def lostdiskCheckRemap (size : ℕ) (remap : List LostRemap) : Except GrubError Unit :=
  if ROVER_LOST_REMAP_MAX < remap.length then .error ⟨.badArgument, "too many remaps"⟩
  else lostdiskCheckRemaps size remap

/-- `rover_lost_add_ex`. -/
def roverLostAddEx (diskOpen : String → Except GrubError GrubDisk) (list : LostdiskList)
    (devname parent : String) (offset size : ℕ) (remap : List LostRemap) :
    Except GrubError LostdiskList := do
  refuseIf (devname = LOSTDISK_PROBE_NAME ∨ (lostdiskFind list devname).isSome)
    ⟨.badArgument, "device `" ++ devname ++ "' already exists"⟩
  lostdiskCheckRemap size remap
  let disk ← diskOpen parent
  let sectorSize := 2 ^ disk.logSectorSize
  refuseIf (size = 0 ∨ offset &&& (sectorSize - 1) ≠ 0 ∨ size &&& (sectorSize - 1) ≠ 0)
    ⟨.badArgument, "range is not a multiple of " ++ toString sectorSize ++ "-byte sectors"⟩
  refuseIf (disk.nativeSectors.any fun total =>
      total < offset / 512 ∨ total - offset / 512 < size / 512)
    ⟨.outOfRange, "range is beyond the end of `" ++ parent ++ "'"⟩
  .ok {
    disks := ⟨devname, parent, offset / 512, size / 512, remap, list.lastId⟩ :: list.disks
    lastId := list.lastId + 1 }

/-- `rover_lost_add`. -/
def roverLostAdd (diskOpen : String → Except GrubError GrubDisk) (list : LostdiskList)
    (devname parent : String) (offset size : ℕ) : Except GrubError LostdiskList :=
  roverLostAddEx diskOpen list devname parent offset size []

/-! ### When the arguments pass -/

theorem lostdiskCheckRemaps_eq_ok_iff {size : ℕ} {remap : List LostRemap} :
    lostdiskCheckRemaps size remap = .ok () ↔ ∀ r ∈ remap, r.Inside size := by
  induction remap with
  | nil => simp [lostdiskCheckRemaps]
  | cons r remap ih =>
    unfold lostdiskCheckRemaps
    split_ifs with hout
    · simp only [List.forall_mem_cons, false_iff, not_and]
      exact fun hin => absurd hin (by unfold LostRemap.Inside; omega)
    · rw [ih, List.forall_mem_cons]
      refine ⟨fun h => ⟨?_, h⟩, fun h => h.2⟩
      unfold LostRemap.Inside
      omega

/-- The remaps pass when there are at most two and each lies inside the window. -/
theorem lostdiskCheckRemap_eq_ok_iff {size : ℕ} {remap : List LostRemap} :
    lostdiskCheckRemap size remap = .ok () ↔
      remap.length ≤ ROVER_LOST_REMAP_MAX ∧ ∀ r ∈ remap, r.Inside size := by
  unfold lostdiskCheckRemap
  split_ifs with hcount
  · simp only [false_iff, not_and]
    exact fun h => absurd h (not_le.mpr hcount)
  · rw [lostdiskCheckRemaps_eq_ok_iff]
    exact ⟨fun h => ⟨not_lt.mp hcount, h⟩, fun h => h.2⟩

/-- A range that a disk can serve as a window: whole logical sectors inside it. -/
structure GrubDisk.Serves (disk : GrubDisk) (offset size : ℕ) : Prop where
  ne_zero : size ≠ 0
  offset_mod : offset % 2 ^ disk.logSectorSize = 0
  size_mod : size % 2 ^ disk.logSectorSize = 0
  inside : ∀ total, disk.nativeSectors = some total → offset / 512 + size / 512 ≤ total

/-- A window is added exactly when the name is free, the remaps pass, the parent opens and serves
the range; the new device is the first of the list. -/
theorem roverLostAddEx_eq_ok_iff {diskOpen : String → Except GrubError GrubDisk}
    {list list' : LostdiskList} {devname parent : String} {offset size : ℕ}
    {remap : List LostRemap} :
    roverLostAddEx diskOpen list devname parent offset size remap = .ok list' ↔
      (devname ≠ LOSTDISK_PROBE_NAME ∧ lostdiskFind list devname = none)
      ∧ lostdiskCheckRemap size remap = .ok ()
      ∧ ∃ disk, diskOpen parent = .ok disk ∧ disk.Serves offset size
        ∧ list' = {
          disks := ⟨devname, parent, offset / 512, size / 512, remap, list.lastId⟩ :: list.disks
          lastId := list.lastId + 1 } := by
  unfold roverLostAddEx
  rw [refuseIf_bind_eq_ok_iff, bind_eq_ok_iff]
  refine and_congr (by simp [Option.isSome_iff_ne_none]) ⟨?_, ?_⟩
  · rintro ⟨_, hremap, h⟩
    obtain ⟨disk, hopen, h⟩ := bind_eq_ok_iff.mp h
    obtain ⟨hrange, h⟩ := refuseIf_bind_eq_ok_iff.mp h
    obtain ⟨hend, h⟩ := refuseIf_bind_eq_ok_iff.mp h
    rw [Nat.and_two_pow_sub_one_eq_mod, Nat.and_two_pow_sub_one_eq_mod] at hrange
    refine ⟨hremap, disk, hopen, ⟨by omega, by omega, by omega, fun total htotal => ?_⟩,
      (Except.ok.inj h).symm⟩
    simp only [htotal, Option.any_some, decide_eq_true_eq] at hend
    omega
  · rintro ⟨hremap, disk, hopen, hserves, rfl⟩
    refine ⟨(), hremap, bind_eq_ok_iff.mpr ⟨disk, hopen, refuseIf_bind_eq_ok_iff.mpr ⟨?_,
      refuseIf_bind_eq_ok_iff.mpr ⟨?_, rfl⟩⟩⟩⟩
    · rw [Nat.and_two_pow_sub_one_eq_mod, Nat.and_two_pow_sub_one_eq_mod, hserves.offset_mod,
        hserves.size_mod]
      simpa using hserves.ne_zero
    · intro hout
      obtain ⟨total, htotal, hout⟩ := Option.any_eq_true _ _ |>.mp hout
      have hinside := hserves.inside total htotal
      simp only [decide_eq_true_eq] at hout
      omega

end FsRover
