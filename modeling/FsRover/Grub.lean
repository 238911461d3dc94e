import FsRover.Bytes

/-!
# Errors and disks of GRUB

What the functions above the GRUB core see of it: error codes with their messages, and an open
disk with its geometry.

## Main definitions

* `FsRover.grubAdd`, `FsRover.grubMul` : the checked arithmetic of `safemath.h`.
-/

namespace FsRover

/-- The codes of `grub_err_t` that the modelled functions return. -/
inductive GrubErr
  | badArgument | outOfRange | notImplementedYet | badFs | badDevice | badSignature
  | badCompressedData | badFileType | fileReadError | outOfMemory | badFilename | fileNotFound
  deriving DecidableEq, Repr

/-- `grub_errno` and `grub_errmsg`. -/
structure GrubError where
  code : GrubErr
  message : String
  deriving DecidableEq, Repr

/-- A disk that `grub_disk_open` returned. `nativeSectors` is `grub_disk_native_sectors`, or
`none` for a disk of unknown size. -/
structure GrubDisk where
  logSectorSize : ℕ
  nativeSectors : Option ℕ
  deriving DecidableEq, Repr

/-- The disk under a file system: its bytes, and `grub_disk_native_sectors` if it is known. -/
structure SizedDisk where
  bytes : Buf
  sectors : Option ℕ

/-- `grub_disk_read` of `len` bytes at `pos`: it fails past the end of a disk of known size. -/
def SizedDisk.read (disk : SizedDisk) (pos len : ℕ) : Except GrubError Buf :=
  match disk.sectors with
  | none => .ok (disk.bytes.from pos)
  | some sectors =>
    if pos + len ≤ 512 * sectors then .ok (disk.bytes.from pos)
    else .error ⟨.outOfRange, "attempt to read or write outside of disk"⟩

theorem SizedDisk.read_eq_ok {disk : SizedDisk} {pos len : ℕ} {p : Buf}
    (h : disk.read pos len = .ok p) : p = disk.bytes.from pos := by
  rw [SizedDisk.read] at h
  split at h
  · exact (Except.ok.inj h).symm
  · split_ifs at h
    exact (Except.ok.inj h).symm

/-- `grub_add`: the sum, unless it leaves 64 bits. -/
def grubAdd (a b : ℕ) : Option ℕ := if a + b < 2 ^ 64 then some (a + b) else none

/-- `grub_mul`. -/
def grubMul (a b : ℕ) : Option ℕ := if a * b < 2 ^ 64 then some (a * b) else none

theorem grubAdd_eq_some {a b c : ℕ} : grubAdd a b = some c ↔ a + b < 2 ^ 64 ∧ c = a + b := by
  unfold grubAdd
  split_ifs with h
  · exact ⟨fun heq => ⟨h, (Option.some.inj heq).symm⟩, fun heq => congrArg some heq.2.symm⟩
  · exact ⟨(fun heq => by cases heq), fun heq => absurd heq.1 h⟩

theorem grubMul_eq_some {a b c : ℕ} : grubMul a b = some c ↔ a * b < 2 ^ 64 ∧ c = a * b := by
  unfold grubMul
  split_ifs with h
  · exact ⟨fun heq => ⟨h, (Option.some.inj heq).symm⟩, fun heq => congrArg some heq.2.symm⟩
  · exact ⟨(fun heq => by cases heq), fun heq => absurd heq.1 h⟩

/-- `grub_tolower`. -/
def grubTolower (c : UInt8) : UInt8 := if 0x41 ≤ c ∧ c ≤ 0x5a then c + 0x20 else c

end FsRover
