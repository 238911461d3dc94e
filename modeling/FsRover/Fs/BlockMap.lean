import FsRover.Fs.FileMap
import FsRover.Fs.FshelpRead

/-!
# A map of blocks and reading by blocks

A driver that reads by blocks and maps whole blocks hands over what the file is when each extent
gives the block that a read finds.

## Main results

* `FsRover.FileMapGood.hole`, `FsRover.FileMapGood.direct` : extents of whole blocks.
* `FsRover.BlockHole.gap`, `FsRover.BlockHole.rest` : what is between extents and behind them.
-/

namespace FsRover

section Blocks

variable {volume : Buf} {block : ℕ → ℕ} {blocksize : ℕ} {ctx ctx' : FileMapContext}
  {a flags physical : ℕ}

/-- Blocks of which a read finds none are handed over as zeros. -/
theorem FileMapGood.hole {length : ℕ} (hpos : 0 < blocksize)
    (h : FileMapGood volume (fshelpByte volume block blocksize) ctx)
    (hsimple : grubFileMapSimple ctx (a * blocksize) length flags physical = .ok ctx')
    (hflags : flags &&& GRUB_FILE_MAP_DIRECT = 0)
    (hzero : ∀ b, a ≤ b → b * blocksize < a * blocksize + length → b * blocksize < ctx.stop →
      block b = 0) :
    FileMapGood volume (fshelpByte volume block blocksize) ctx' ∧ ctx.Same ctx' := by
  refine h.emit hsimple fun i hi hi' hstop => ⟨fun hdirect => ?_, fun _ => ?_⟩
  · rw [FileMapExtent.has, decide_eq_true_eq] at hdirect
    exact absurd hflags hdirect
  · have hle : i / blocksize * blocksize ≤ i := Nat.div_mul_le_self _ _
    have hblock : block (i / blocksize) = 0 :=
      hzero _ ((Nat.le_div_iff_mul_le hpos).mpr hi) (Nat.lt_of_le_of_lt hle hi')
        (Nat.lt_of_le_of_lt hle hstop)
    rw [fshelpByte, if_pos hblock]

/-- Blocks that a read finds in a row are handed over as a direct extent. -/
theorem FileMapGood.direct {n s : ℕ} (hpos : 0 < blocksize)
    (h : FileMapGood volume (fshelpByte volume block blocksize) ctx)
    (hsimple : grubFileMapSimple ctx (a * blocksize) (n * blocksize) GRUB_FILE_MAP_DIRECT
      (s * blocksize) = .ok ctx')
    (hrow : ∀ b, a ≤ b → b < a + n → b * blocksize < ctx.stop →
      block b = s + (b - a) ∧ block b ≠ 0) :
    FileMapGood volume (fshelpByte volume block blocksize) ctx' ∧ ctx.Same ctx' := by
  refine h.emit hsimple fun i hi hi' hstop => ⟨fun _ => ⟨_, rfl, ?_⟩, fun hzero => ?_⟩
  · have hle : i / blocksize * blocksize ≤ i := Nat.div_mul_le_self _ _
    have hlow : a ≤ i / blocksize := (Nat.le_div_iff_mul_le hpos).mpr hi
    have hhigh : i / blocksize < a + n := by
      rw [Nat.div_lt_iff_lt_mul hpos, Nat.add_mul]
      exact hi'
    obtain ⟨hblock, hne⟩ := hrow _ hlow hhigh (Nat.lt_of_le_of_lt hle hstop)
    rw [fshelpByte, if_neg hne, hblock]
    refine congrArg volume ?_
    have hdiv := Nat.div_add_mod i blocksize
    have hmul : (s + (i / blocksize - a)) * blocksize + a * blocksize
        = s * blocksize + blocksize * (i / blocksize) := by
      rw [← Nat.add_mul, Nat.mul_comm blocksize, ← Nat.add_mul]
      refine congrArg (fun n => n * blocksize) ?_
      omega
    have hi'' : a * blocksize ≤ i := hi
    show _ = s * blocksize + (i - a * blocksize)
    omega
  · have hnot : GRUB_FILE_MAP_DIRECT &&& GRUB_FILE_MAP_ZERO = 0 := by decide
    exact absurd hnot (of_decide_eq_true hzero)

/-- In none of the blocks of a file of `size` bytes from `l` to `c` a read finds a block. -/
def BlockHole (blocksize size : ℕ) (block : ℕ → ℕ) (l c : ℕ) : Prop :=
  ∀ b, l ≤ b → b < c → b * blocksize < size → block b = 0

theorem BlockHole.past {size l c : ℕ} (h : size ≤ l * blocksize) :
    BlockHole blocksize size block l c := by
  intro b hl _ hfile
  have hle : l * blocksize ≤ b * blocksize := Nat.mul_le_mul_right _ hl
  omega

/-- What is before the next extent is handed over. -/
theorem BlockHole.gap {size l : ℕ} (hpos : 0 < blocksize) (hhole : BlockHole blocksize size block l a)
    (h : FileMapGood volume (fshelpByte volume block blocksize) ctx) (hstop : ctx.stop = size)
    (hgap : (if l * blocksize < a * blocksize then
      grubFileMapSimple ctx (l * blocksize) (a * blocksize - l * blocksize)
        (GRUB_FILE_MAP_ZERO + GRUB_FILE_MAP_HOLE) 0 else .ok ctx) = .ok ctx') :
    FileMapGood volume (fshelpByte volume block blocksize) ctx' ∧ ctx.Same ctx' := by
  split_ifs at hgap with hlt
  · refine h.hole hpos hgap (by decide) fun b hb hb' hfile => ?_
    refine hhole b hb (Nat.lt_of_mul_lt_mul_right (a := blocksize) ?_) (hstop ▸ hfile)
    omega
  · obtain rfl := Except.ok.inj hgap
    exact ⟨h, .refl ctx⟩

/-- What is behind the last extent is handed over. -/
theorem BlockHole.rest {size l c : ℕ} (hpos : 0 < blocksize)
    (hhole : BlockHole blocksize size block l c) (hsize : size ≤ c * blocksize)
    (h : FileMapGood volume (fshelpByte volume block blocksize) ctx) (hstop : ctx.stop = size)
    (hrest : (if l * blocksize < ctx.stop then
      grubFileMapSimple ctx (l * blocksize) (ctx.stop - l * blocksize)
        (GRUB_FILE_MAP_ZERO + GRUB_FILE_MAP_HOLE) 0 else .ok ctx) = .ok ctx') :
    FileMapGood volume (fshelpByte volume block blocksize) ctx' ∧ ctx.Same ctx' := by
  split_ifs at hrest with hlt
  · refine h.hole hpos hrest (by decide) fun b hb _ hfile => ?_
    rw [hstop] at hfile
    exact hhole b hb (Nat.lt_of_mul_lt_mul_right (a := blocksize) (by omega)) hfile
  · obtain rfl := Except.ok.inj hrest
    exact ⟨h, .refl ctx⟩

/-- What the part of a walk that ends at block `c` does. -/
def BlockWalked (volume : Buf) (blocksize size : ℕ) (block : ℕ → ℕ) (c : ℕ)
    (ctx ctx' : FileMapContext) (last : ℕ) : Prop :=
  FileMapGood volume (fshelpByte volume block blocksize) ctx' ∧ ctx.Same ctx'
    ∧ ∃ l, last = l * blocksize ∧ BlockHole blocksize size block l c

end Blocks

/-- A file is read as it is mapped: a read ends and returns the bytes it is asked for, and if the
whole file is mapped, each of these is in an extent, and is what the extent says. -/
structure MapAgrees (volume : Buf) (disk : Option FileMapDisk) (size : ℕ)
    (fsMapRange : FileMapContext → Except GrubError FileMapContext)
    (read : ℕ → ℕ → Option (Except GrubError (List UInt8))) : Prop where
  halts : ∀ pos len, pos + len ≤ size → (read pos len).isSome
  agrees : ∀ extents, grubFileMapRange disk size fsMapRange 0 size = .ok extents →
    ∃ val : Buf, FileMapShows volume val size extents
      ∧ ∀ pos len, pos + len ≤ size → read pos len = some (.ok ((List.range' pos len).map val))

end FsRover
