import FsRover.Bytes
import FsRover.Grub
import FsRover.Lib.History

/-!
# Files under an image filter

An image filter reads the file that carries the image through `grub_file_read`. What the file
holds does not change; whether a read of it succeeds may differ from one call to the next.

## Main definitions

* `FsRover.GrubFile` : a file with the reads of it that fail.
* `FsRover.GrubFile.pread` : the `*_pread` helpers of the filters.
* `FsRover.filterRead` : the loop shared by the `fs_read` callbacks of the filters.
-/

namespace FsRover

def GRUB_FILE_SIZE_UNKNOWN : ℕ := 2 ^ 64 - 1

/-- An open file. Call number `call` at `off` (opening an image is call 0) fails if `fault call off`
is an error, given with what the buffer holds afterwards. -/
structure GrubFile where
  size : ℕ
  byte : Buf
  fault : ℕ → ℕ → Option (GrubError × Buf)
  size_lt : size < 2 ^ 64

/-- The file without the failures. -/
def GrubFile.calm (f : GrubFile) : GrubFile := { f with fault := fun _ _ => none }

/-- `grub_add (off, len)` as the filters check it: `len` bytes from `off` on lie in the file. -/
def GrubFile.Holds (f : GrubFile) (off len : ℕ) : Prop := off ≤ f.size ∧ len ≤ f.size - off

instance (f : GrubFile) (off len : ℕ) : Decidable (f.Holds off len) :=
  inferInstanceAs (Decidable (_ ∧ _))

/-- The `*_pread` helpers: refuse what is not in the file with `outside`, leaving the buffer alone,
else seek and read. A failed read gives the error with what it left in the buffer. -/
def GrubFile.pread (f : GrubFile) (call off len : ℕ) (outside : GrubError) :
    Except (GrubError × Option Buf) Buf :=
  if f.Holds off len then
    match f.fault call off with
    | some (e, left) => .error (e, some left)
    | none => .ok (f.byte.from off)
  else .error (outside, none)

theorem GrubFile.pread_eq_ok {f : GrubFile} {call off len : ℕ} {outside : GrubError} {b : Buf}
    (h : f.pread call off len outside = .ok b) : f.Holds off len ∧ b = f.byte.from off := by
  unfold GrubFile.pread at h
  split_ifs at h with hin
  cases hf : f.fault call off with
  | some e => simp [hf] at h
  | none =>
    rw [hf] at h
    exact ⟨hin, (Except.ok.inj h).symm⟩

/-- So it is where the caller drops what a failed read left in the buffer. -/
theorem GrubFile.pread_mapError_eq_ok {f : GrubFile} {call off len : ℕ} {outside : GrubError}
  {b : Buf}
    (h : (f.pread call off len outside).mapError Prod.fst = .ok b) :
    f.Holds off len ∧ b = f.byte.from off := by
  cases hread : f.pread call off len outside with
  | error e =>
    rw [hread] at h
    cases h
  | ok b' =>
    rw [hread] at h
    cases h
    exact GrubFile.pread_eq_ok hread

theorem GrubFile.pread_of_holds {f : GrubFile} {call off len : ℕ} {outside : GrubError}
    (h : f.Holds off len) (hcalm : f.fault call off = none) :
    f.pread call off len outside = .ok (f.byte.from off) := by
  rw [GrubFile.pread, if_pos h, hcalm]

/-- A read that succeeds does so on the file without failures. -/
theorem GrubFile.pread_calm {f : GrubFile} {call off len : ℕ} {outside : GrubError} {b : Buf}
    (h : f.pread call off len outside = .ok b) :
    ∀ call', f.calm.pread call' off len outside = .ok b := by
  obtain ⟨hin, rfl⟩ := GrubFile.pread_eq_ok h
  intro call'
  have hin' : f.calm.Holds off len := hin
  unfold GrubFile.pread
  rw [if_pos hin']
  rfl

/-- The first `n` bytes of a buffer. -/
def Buf.take (p : Buf) (n : ℕ) : List UInt8 := History.slice p 0 n

theorem slice_from (p : Buf) (off n : ℕ) : (p.from off).take n = History.slice p off n := by
  refine List.ext_getElem (by simp [Buf.take]) fun i hi hi' => ?_
  simp [Buf.take]

/-- The buffer after `bs` is copied to its start. -/
def Buf.write (p : Buf) (bs : List UInt8) : Buf :=
  fun i => if i < bs.length then bs.getD i 0 else p i

theorem Buf.write_of_lt {p : Buf} {bs : List UInt8} {i : ℕ} (h : i < bs.length) :
    p.write bs i = bs.getD i 0 := if_pos h

/-- The buffer after `n` bytes of `q` are copied to `pos`. -/
def Buf.splice (p : Buf) (pos n : ℕ) (q : Buf) : Buf :=
  fun i => if pos ≤ i ∧ i < pos + n then q (i - pos) else p i

/-- The buffer after `bs` is copied to `pos`. -/
def Buf.put (p : Buf) (pos : ℕ) (bs : List UInt8) : Buf :=
  p.splice pos bs.length fun i => bs.getD i 0

/-- The `n` bytes of a little endian field. -/
def leBytes : ℕ → ℕ → List UInt8
  | 0, _ => []
  | n + 1, v => UInt8.ofNat v :: leBytes n (v / 256)

/-- `grub_file_read` at `off` in a file of `size` bytes, over the `fs_read` of its filter. -/
def grubFileRead {σ : Type} (size : ℕ)
    (fsRead : σ → ℕ → ℕ → Except GrubError (List UInt8) × σ) (s : σ) (off len : ℕ) :
    Except GrubError (List UInt8) × σ :=
  if size < off then (.error ⟨.outOfRange, "attempt to read past the end of file"⟩, s)
  else
    let len := min len (size - off)
    let len := if 2 ^ 63 ≤ len then len / 2 else len
    if len = 0 then (.ok [], s) else fsRead s off len

/-- The loop of the `fs_read` callbacks: ask `read` for what is left until it is all there. -/
def filterRead {σ : Type} (stuck : GrubError)
    (read : σ → ℕ → ℕ → Except GrubError (List UInt8) × σ) (s : σ) (off len : ℕ) :
    Except GrubError (List UInt8) × σ :=
  History.readAll stuck read len s off len

end FsRover
