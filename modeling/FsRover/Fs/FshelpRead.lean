import FsRover.Bytes
import FsRover.Grub

/-!
# Reading a file by its blocks

`grub_fshelp_read_file` asks the driver for the block on the volume behind each block of the file, 0
for a hole, and reads neighbouring blocks of the volume at once. The volume here is one of which every
read succeeds.

## Main definitions

* `FsRover.fshelpByte` : the byte of the file that the blocks give.

## Main results

* `FsRover.grubFshelpReadFile_eq` : what is read is the bytes asked for.
-/

namespace FsRover

/-- What a search for a block comes to: `none` while its loop is not left. -/
abbrev FshelpBlock := ℕ → Option (Except GrubError ℕ)

/-- A request to `grub_fshelp_read_file`, `len` already cut at the end of the file; `log2` is the
logarithm of the block size in sectors, `maxRead` the agglomeration limit or 0. -/
structure FshelpRequest where
  pos : ℕ
  len : ℕ
  log2 : ℕ
  maxRead : ℕ

namespace FshelpRequest

variable (r : FshelpRequest)

/-- The sectors of a block. -/
def sectors : ℕ := 2 ^ r.log2

/-- `blocksize`. -/
def blocksize : ℕ := r.sectors * 512

/-- `blockcnt`. -/
def blockcnt : ℕ := u64 (r.len + r.pos + r.blocksize - 1) / r.blocksize

/-- The end of the request in a block. -/
def blockend (i : ℕ) : ℕ :=
  if i = r.blockcnt - 1 then
    if (r.len + r.pos) % r.blocksize = 0 then r.blocksize else (r.len + r.pos) % r.blocksize
  else r.blocksize

/-- The start of the request in a block. -/
def skipfirst (i : ℕ) : ℕ := if i = r.pos / r.blocksize then r.pos % r.blocksize else 0

end FshelpRequest

/-- The inner loop of `grub_fshelp_read_file`: how many of the `n` blocks from `i + run` on follow
block `blknr` on the volume, and how many bytes are read with them. -/
def fshelpRun (r : FshelpRequest) (getBlock : FshelpBlock) (i blknr : ℕ) :
    ℕ → ℕ → ℕ → Option (Except GrubError (ℕ × ℕ))
  | 0, run, length => some (.ok (run, length))
  | n + 1, run, length =>
    if r.maxRead ≠ 0 ∧ r.maxRead < length + r.blockend (i + run) then some (.ok (run, length))
    else
      match getBlock (i + run) with
      | none => none
      | some (.error e) => some (.error e)
      | some (.ok next) =>
        let next := u64 (next * r.sectors)
        if next = 0 ∨ next ≠ u64 (blknr + run * r.sectors) then some (.ok (run, length))
        else fshelpRun r getBlock i blknr n (run + 1) (length + r.blockend (i + run))

/-- The loop of `grub_fshelp_read_file` from block `i` on, over at most so many rounds: the bytes
read. -/
def fshelpReadFrom (volume : Buf) (r : FshelpRequest) (getBlock : FshelpBlock) :
    ℕ → ℕ → Option (Except GrubError (List UInt8))
  | 0, _ => some (.ok [])
  | rounds + 1, i =>
    if r.blockcnt ≤ i then some (.ok [])
    else
      match getBlock i with
      | none => none
      | some (.error e) => some (.error e)
      | some (.ok blknr) =>
        let blknr := u64 (blknr * r.sectors)
        let blockend := r.blockend i - r.skipfirst i
        if blknr ≠ 0 then
          match fshelpRun r getBlock i blknr (r.blockcnt - (i + 1)) 1 blockend with
          | none => none
          | some (.error e) => some (.error e)
          | some (.ok (run, length)) =>
            match fshelpReadFrom volume r getBlock rounds (i + run) with
            | some (.ok rest) => some (.ok ((List.range length).map (fun k =>
                volume (blknr * 512 + r.skipfirst i + k)) ++ rest))
            | other => other
        else
          match fshelpReadFrom volume r getBlock rounds (i + 1) with
          | some (.ok rest) => some (.ok (List.replicate blockend 0 ++ rest))
          | other => other

/-- `grub_fshelp_read_file` with `blocks_start` 0: the bytes read. -/
def grubFshelpReadFile (volume : Buf) (getBlock : FshelpBlock) (maxRead filesize log2 pos len : ℕ) :
    Option (Except GrubError (List UInt8)) :=
  if 31 ≤ log2 + 9 then some (.error ⟨.outOfRange, "blocksize too large"⟩)
  else if filesize < pos then some (.error ⟨.outOfRange, "attempt to read past the end of file"⟩)
  else
    let r : FshelpRequest := ⟨pos, if filesize < u64 (pos + len) then filesize - pos else len, log2,
      maxRead⟩
    fshelpReadFrom volume r getBlock (r.blockcnt - pos / r.blocksize) (pos / r.blocksize)

/-- The byte of the file at `i` where `block` gives the blocks. -/
def fshelpByte (volume : Buf) (block : ℕ → ℕ) (blocksize : ℕ) : Buf := fun i =>
  if block (i / blocksize) = 0 then 0
  else volume (block (i / blocksize) * blocksize + i % blocksize)

section Read

variable {volume : Buf} {r : FshelpRequest} {getBlock : FshelpBlock} {block : ℕ → ℕ}

theorem FshelpRequest.blocksize_pos (r : FshelpRequest) : 0 < r.blocksize :=
  Nat.mul_pos (Nat.two_pow_pos r.log2) (by decide)

variable (hend : r.pos + r.len + r.blocksize ≤ 2 ^ 64)
include hend

theorem FshelpRequest.blockcnt_eq : r.blockcnt = (r.pos + r.len + r.blocksize - 1) / r.blocksize := by
  rw [FshelpRequest.blockcnt, Nat.add_comm r.len, u64_of_lt]
  have hpos := r.blocksize_pos
  omega

theorem FshelpRequest.lt_blockcnt {i : ℕ} : i < r.blockcnt ↔ i * r.blocksize < r.pos + r.len := by
  have hpos := r.blocksize_pos
  rw [blockcnt_eq hend, ← Nat.succ_le_iff, Nat.le_div_iff_mul_le hpos, Nat.succ_mul]
  omega

/-- The request ends in a block where it ends, or where the block ends. -/
theorem FshelpRequest.blockend_eq {i : ℕ} (hi : i < r.blockcnt) :
    i * r.blocksize + r.blockend i = min (r.pos + r.len) ((i + 1) * r.blocksize) := by
  have hpos := r.blocksize_pos
  have hin := (lt_blockcnt hend).mp hi
  have hlast : i = r.blockcnt - 1 ↔ r.pos + r.len ≤ (i + 1) * r.blocksize := by
    have hnext := @lt_blockcnt r hend (i + 1)
    omega
  rw [blockend, Nat.succ_mul]
  rw [Nat.succ_mul] at hlast
  by_cases h : i = r.blockcnt - 1
  · rw [if_pos h, Nat.add_comm r.len]
    have hle := hlast.mp h
    by_cases hfull : r.pos + r.len = i * r.blocksize + r.blocksize
    · rw [hfull, ← Nat.succ_mul, Nat.mul_mod_left, if_pos rfl, Nat.succ_mul]
      omega
    · have hmod : (r.pos + r.len) % r.blocksize = r.pos + r.len - i * r.blocksize := by
        rw [show r.pos + r.len = r.pos + r.len - i * r.blocksize + i * r.blocksize by omega,
          Nat.add_mul_mod_self_right, Nat.mod_eq_of_lt (by omega)]
        omega
      rw [hmod, if_neg (by omega)]
      omega
  · rw [if_neg h]
    have hlt := mt hlast.mpr h
    omega

variable (hblock : ∀ j < r.blockcnt, getBlock j = some (.ok (block j))
  ∧ block j * r.blocksize < 2 ^ 64)
include hblock

omit hend in
theorem sectors_lt {j : ℕ} (hj : j < r.blockcnt) : block j * r.sectors < 2 ^ 55 := by
  have hbytes := (hblock j hj).2
  rw [FshelpRequest.blocksize, ← Nat.mul_assoc] at hbytes
  omega

/-- The inner loop takes blocks that follow each other on the volume. -/
theorem fshelpRun_spec {i : ℕ} (hsector : r.sectors < 2 ^ 22) :
    ∀ n run length, 0 < run → i + run + n = r.blockcnt →
      (∀ j < run, block (i + j) * r.sectors = block i * r.sectors + j * r.sectors) →
      ∃ k length', fshelpRun r getBlock i (block i * r.sectors) n run length
          = some (.ok (run + k, length'))
        ∧ i + (run + k) ≤ r.blockcnt
        ∧ (∀ j < run + k, block (i + j) * r.sectors = block i * r.sectors + j * r.sectors)
        ∧ length' = length + (min (r.pos + r.len) ((i + (run + k)) * r.blocksize)
          - min (r.pos + r.len) ((i + run) * r.blocksize)) := by
  intro n
  induction n with
  | zero =>
    intro run length hrun hcnt hsame
    exact ⟨0, length, rfl, by omega, hsame, by rw [Nat.add_zero, Nat.sub_self, Nat.add_zero]⟩
  | succ n ih =>
    intro run length hrun hcnt hsame
    have hstay : ∃ k length', some (Except.ok (ε := GrubError) (run, length))
          = some (.ok (run + k, length')) ∧ i + (run + k) ≤ r.blockcnt
        ∧ (∀ j < run + k, block (i + j) * r.sectors = block i * r.sectors + j * r.sectors)
        ∧ length' = length + (min (r.pos + r.len) ((i + (run + k)) * r.blocksize)
          - min (r.pos + r.len) ((i + run) * r.blocksize)) :=
      ⟨0, length, rfl, by omega, hsame, by rw [Nat.add_zero, Nat.sub_self, Nat.add_zero]⟩
    rw [fshelpRun]
    by_cases hmax : r.maxRead ≠ 0 ∧ r.maxRead < length + r.blockend (i + run)
    · rw [if_pos hmax]
      exact hstay
    rw [if_neg hmax, (hblock (i + run) (by omega)).1]
    have hlt := sectors_lt hblock (j := i + run) (by omega)
    have hlast := sectors_lt hblock (j := i + (run - 1)) (by omega)
    rw [hsame (run - 1) (by omega)] at hlast
    have hsum : block i * r.sectors + run * r.sectors < 2 ^ 64 := by
      obtain ⟨run, rfl⟩ := Nat.exists_eq_succ_of_ne_zero (Nat.ne_of_gt hrun)
      rw [Nat.succ_mul]
      rw [Nat.succ_sub_one] at hlast
      omega
    simp only [u64_of_lt (Nat.lt_trans hlt (by decide : 2 ^ 55 < 2 ^ 64)), u64_of_lt hsum]
    by_cases hnext : block (i + run) * r.sectors = 0
        ∨ block (i + run) * r.sectors ≠ block i * r.sectors + run * r.sectors
    · rw [if_pos hnext]
      exact hstay
    rw [if_neg hnext]
    have hfollow := not_not.mp (not_or.mp hnext).2
    obtain ⟨k, length', heq, hle, hsame', hlength⟩ := ih (run + 1) (length + r.blockend (i + run))
      (Nat.succ_pos _) (by omega) (fun j hj => by
        rcases Nat.lt_succ_iff_lt_or_eq.mp hj with hj | rfl
        · exact hsame j hj
        · exact hfollow)
    refine ⟨k + 1, length', ?_, by omega, fun j hj => hsame' j (by omega), ?_⟩
    · rw [heq, Nat.add_right_comm, Nat.add_assoc]
    · have hpiece := @FshelpRequest.blockend_eq r hend (i + run) (by omega)
      have hin := (@FshelpRequest.lt_blockcnt r hend (i + run)).mp (by omega)
      have hmono : (i + run + 1) * r.blocksize ≤ (i + (run + 1 + k)) * r.blocksize :=
        Nat.mul_le_mul_right _ (by omega)
      rw [show i + (run + (k + 1)) = i + (run + 1 + k) by omega, hlength,
        show i + (run + 1) = i + run + 1 by omega]
      omega

omit hend hblock in
theorem FshelpRequest.place_eq {i : ℕ} (hi : r.pos / r.blocksize ≤ i) :
    max r.pos (i * r.blocksize) = i * r.blocksize + r.skipfirst i := by
  have hpos := r.blocksize_pos
  have hdiv := Nat.div_add_mod r.pos r.blocksize
  rw [Nat.mul_comm] at hdiv
  rw [skipfirst]
  by_cases h : i = r.pos / r.blocksize
  · rw [if_pos h, h]
    omega
  · rw [if_neg h]
    have hle : (r.pos / r.blocksize + 1) * r.blocksize ≤ i * r.blocksize :=
      Nat.mul_le_mul_right _ (by omega)
    have hlt := Nat.mod_lt r.pos hpos
    rw [Nat.succ_mul] at hle
    omega

omit hend hblock in
/-- Blocks that follow each other on the volume hold the bytes of the file in order. -/
theorem fshelpByte_run {i run x : ℕ} (hzero : block i * r.sectors ≠ 0)
    (hsame : ∀ j < run, block (i + j) * r.sectors = block i * r.sectors + j * r.sectors)
    (hx : x < run * r.blocksize) :
    fshelpByte volume block r.blocksize (i * r.blocksize + x)
      = volume (block i * r.sectors * 512 + x) := by
  have hpos := r.blocksize_pos
  have hj : x / r.blocksize < run := (Nat.div_lt_iff_lt_mul hpos).mpr hx
  have hdiv : (i * r.blocksize + x) / r.blocksize = i + x / r.blocksize := by
    rw [Nat.add_comm, Nat.add_mul_div_right _ _ hpos, Nat.add_comm]
  have hmod : (i * r.blocksize + x) % r.blocksize = x % r.blocksize := by
    rw [Nat.add_comm, Nat.add_mul_mod_self_right]
  have hblk := hsame _ hj
  have hnot : block (i + x / r.blocksize) ≠ 0 := by
    intro h
    rw [h, Nat.zero_mul] at hblk
    omega
  have hx' := Nat.div_add_mod x r.blocksize
  rw [fshelpByte, hdiv, hmod, if_neg hnot]
  refine congrArg volume ?_
  calc block (i + x / r.blocksize) * r.blocksize + x % r.blocksize
      = block (i + x / r.blocksize) * r.sectors * 512 + x % r.blocksize := by
        rw [FshelpRequest.blocksize, Nat.mul_assoc]
    _ = block i * r.sectors * 512 + (x / r.blocksize * r.blocksize + x % r.blocksize) := by
        rw [hblk, Nat.add_mul, Nat.add_assoc, FshelpRequest.blocksize, Nat.mul_assoc (x / _)]
    _ = block i * r.sectors * 512 + x := by rw [Nat.mul_comm (x / r.blocksize), hx']

theorem fshelpReadFrom_eq (hsector : r.sectors < 2 ^ 22) :
    ∀ rounds i, r.pos / r.blocksize ≤ i → r.blockcnt - i ≤ rounds →
      fshelpReadFrom volume r getBlock rounds i
        = some (.ok ((List.range' (max r.pos (i * r.blocksize))
          (r.pos + r.len - max r.pos (i * r.blocksize))).map
            (fshelpByte volume block r.blocksize))) := by
  intro rounds
  have hdone : ∀ {i}, r.blockcnt ≤ i → r.pos + r.len - max r.pos (i * r.blocksize) = 0 := by
    intro i hi
    have hout := mt (@FshelpRequest.lt_blockcnt r hend i).mpr (Nat.not_lt.mpr hi)
    omega
  induction rounds with
  | zero =>
    intro i _ hrounds
    rw [hdone (by omega)]
    rfl
  | succ rounds ih =>
    intro i hi hrounds
    rw [fshelpReadFrom]
    by_cases hcnt : r.blockcnt ≤ i
    · rw [if_pos hcnt, hdone hcnt]
      rfl
    rw [if_neg hcnt, (hblock i (by omega)).1]
    have hlt := sectors_lt hblock (j := i) (by omega)
    have hplace := FshelpRequest.place_eq hi
    have hpiece := @FshelpRequest.blockend_eq r hend i (by omega)
    have hnextLt : r.pos < (i + 1) * r.blocksize := by
      have hstep := Nat.lt_succ_of_le hi
      exact (Nat.div_lt_iff_lt_mul r.blocksize_pos).mp hstep
    -- a piece, and what the rest of the loop reads
    have hjoin : ∀ run, 0 < run → i + run ≤ r.blockcnt →
        (List.range' (max r.pos (i * r.blocksize))
            (min (r.pos + r.len) ((i + run) * r.blocksize) - max r.pos (i * r.blocksize))).map
              (fshelpByte volume block r.blocksize)
          ++ (List.range' (max r.pos ((i + run) * r.blocksize))
            (r.pos + r.len - max r.pos ((i + run) * r.blocksize))).map
              (fshelpByte volume block r.blocksize)
          = (List.range' (max r.pos (i * r.blocksize))
            (r.pos + r.len - max r.pos (i * r.blocksize))).map
              (fshelpByte volume block r.blocksize) := by
      intro run hrun hle
      have hmono : (i + 1) * r.blocksize ≤ (i + run) * r.blocksize :=
        Nat.mul_le_mul_right _ (by omega)
      have hmono' : i * r.blocksize ≤ (i + 1) * r.blocksize := Nat.mul_le_mul_right _ (by omega)
      rw [← List.map_append, Nat.max_eq_right (by omega : r.pos ≤ (i + run) * r.blocksize)]
      by_cases hlast : r.pos + r.len ≤ (i + run) * r.blocksize
      · rw [Nat.sub_eq_zero_of_le hlast, List.range'_zero, List.append_nil, Nat.min_eq_left hlast]
      · rw [Nat.min_eq_right (by omega), show (i + run) * r.blocksize = max r.pos (i * r.blocksize)
          + ((i + run) * r.blocksize - max r.pos (i * r.blocksize)) by omega, Nat.add_sub_cancel_left,
          List.range'_append_1, show (i + run) * r.blocksize - max r.pos (i * r.blocksize)
          + (r.pos + r.len - (max r.pos (i * r.blocksize) + ((i + run) * r.blocksize
            - max r.pos (i * r.blocksize)))) = r.pos + r.len - max r.pos (i * r.blocksize) by omega]
    simp only [u64_of_lt (Nat.lt_trans hlt (by decide : 2 ^ 55 < 2 ^ 64))]
    by_cases hzero : block i * r.sectors = 0
    · have hhole : block i = 0 := by
        rcases Nat.mul_eq_zero.mp hzero with h | h
        · exact h
        · exact absurd h (Nat.ne_of_gt (Nat.two_pow_pos r.log2))
      rw [if_neg (not_not.mpr hzero), ih (i + 1) (by omega) (by omega), ← hjoin 1 (by decide) (by omega)]
      refine congrArg (fun l => some (Except.ok (l ++ _))) ?_
      symm
      rw [List.eq_replicate_iff]
      refine ⟨?_, fun b hb => ?_⟩
      · rw [List.length_map, List.length_range']
        omega
      · obtain ⟨p, hp, rfl⟩ := List.mem_map.mp hb
        rw [List.mem_range'_1] at hp
        have hdiv : p / r.blocksize = i := by
          refine Nat.div_eq_of_lt_le ?_ ?_
          · omega
          · omega
        rw [fshelpByte, hdiv, if_pos hhole]
    · obtain ⟨k, length', hrun, hle, hsame, hlength⟩ := fshelpRun_spec hend hblock (i := i) hsector
        (r.blockcnt - (i + 1)) 1 (r.blockend i - r.skipfirst i) (by decide) (by omega)
        (fun j hj => by
          obtain rfl := Nat.lt_one_iff.mp hj
          rw [Nat.add_zero, Nat.zero_mul, Nat.add_zero])
      rw [if_pos hzero, hrun]
      simp only
      rw [ih (i + (1 + k)) (by omega) (by omega), ← hjoin (1 + k) (by omega) hle]
      refine congrArg (fun l => some (Except.ok (l ++ _))) ?_
      have hmono : (i + 1) * r.blocksize ≤ (i + (1 + k)) * r.blocksize :=
        Nat.mul_le_mul_right _ (by omega)
      have hlen : length' = min (r.pos + r.len) ((i + (1 + k)) * r.blocksize)
          - max r.pos (i * r.blocksize) := by
        omega
      rw [← hlen, List.range'_eq_map_range, List.map_map]
      refine List.map_congr_left fun x hx => ?_
      rw [List.mem_range] at hx
      have hrunEnd : (i + (1 + k)) * r.blocksize = i * r.blocksize + (1 + k) * r.blocksize :=
        Nat.add_mul _ _ _
      rw [Function.comp_apply, hplace, Nat.add_assoc, Nat.add_assoc,
        fshelpByte_run hzero hsame (by omega)]

omit hend hblock in
/-- A read inside the file returns the bytes asked for. -/
theorem grubFshelpReadFile_eq {maxRead filesize log2 pos len : ℕ} (hlog2 : log2 + 9 < 31)
    (hlen : pos + len ≤ filesize) (hfile : filesize + 2 ^ log2 * 512 ≤ 2 ^ 64)
    (hblock : ∀ j, j * (2 ^ log2 * 512) < filesize → getBlock j = some (.ok (block j))
      ∧ block j * (2 ^ log2 * 512) < 2 ^ 64) :
    grubFshelpReadFile volume getBlock maxRead filesize log2 pos len
      = some (.ok ((List.range' pos len).map (fshelpByte volume block (2 ^ log2 * 512)))) := by
  have hsum : u64 (pos + len) = pos + len := u64_of_lt (by
    have hpos := Nat.two_pow_pos log2
    omega)
  have hpos : (⟨pos, len, log2, maxRead⟩ : FshelpRequest).blocksize = 2 ^ log2 * 512 := rfl
  have hend : (⟨pos, len, log2, maxRead⟩ : FshelpRequest).pos
      + (⟨pos, len, log2, maxRead⟩ : FshelpRequest).len
      + (⟨pos, len, log2, maxRead⟩ : FshelpRequest).blocksize ≤ 2 ^ 64 := by
    rw [hpos]
    simp only
    omega
  rw [grubFshelpReadFile, if_neg (by omega), if_neg (by omega), hsum, if_neg (by omega)]
  simp only
  have hread := @fshelpReadFrom_eq volume ⟨pos, len, log2, maxRead⟩ getBlock block hend
    (fun j hj => hblock j (Nat.lt_of_lt_of_le ((FshelpRequest.lt_blockcnt hend).mp hj) hlen))
    (show 2 ^ log2 < 2 ^ 22 from Nat.pow_lt_pow_right (by decide) (by omega))
    ((⟨pos, len, log2, maxRead⟩ : FshelpRequest).blockcnt
      - pos / (⟨pos, len, log2, maxRead⟩ : FshelpRequest).blocksize)
    (pos / (⟨pos, len, log2, maxRead⟩ : FshelpRequest).blocksize) (Nat.le_refl _) (Nat.le_refl _)
  have hstart : max pos (pos / (⟨pos, len, log2, maxRead⟩ : FshelpRequest).blocksize
      * (⟨pos, len, log2, maxRead⟩ : FshelpRequest).blocksize) = pos :=
    Nat.max_eq_left (Nat.div_mul_le_self _ _)
  simp only [hstart, Nat.add_sub_cancel_left] at hread
  exact hread

omit hend hblock in
theorem grubFshelpReadFile_isSome {maxRead filesize log2 pos len : ℕ}
    (h : ∀ i, (getBlock i).isSome) :
    (grubFshelpReadFile volume getBlock maxRead filesize log2 pos len).isSome := by
  have hrun : ∀ (r : FshelpRequest) i blknr n run length,
      (fshelpRun r getBlock i blknr n run length).isSome := by
    intro r i blknr n
    induction n with
    | zero => exact fun run length => rfl
    | succ n ih =>
      intro run length
      rw [fshelpRun]
      split_ifs
      · rfl
      obtain ⟨next, hnext⟩ := Option.isSome_iff_exists.mp (h (i + run))
      rw [hnext]
      cases next with
      | error e => rfl
      | ok next =>
        simp only
        split_ifs
        · rfl
        · exact ih _ _
  have hfrom : ∀ (r : FshelpRequest) rounds i,
      (fshelpReadFrom volume r getBlock rounds i).isSome := by
    intro r rounds
    induction rounds with
    | zero => exact fun i => rfl
    | succ rounds ih =>
      intro i
      rw [fshelpReadFrom]
      split_ifs
      · rfl
      obtain ⟨blknr, hblknr⟩ := Option.isSome_iff_exists.mp (h i)
      rw [hblknr]
      cases blknr with
      | error e => rfl
      | ok blknr =>
        simp only
        split_ifs
        · obtain ⟨run, hrun'⟩ := Option.isSome_iff_exists.mp (hrun r i (u64 (blknr * r.sectors))
            (r.blockcnt - (i + 1)) 1 (r.blockend i - r.skipfirst i))
          rw [hrun']
          cases run with
          | error e => rfl
          | ok run =>
            obtain ⟨rest, hrest⟩ := Option.isSome_iff_exists.mp (ih (i + run.1))
            simp only [hrest]
            cases rest <;> rfl
        · obtain ⟨rest, hrest⟩ := Option.isSome_iff_exists.mp (ih (i + 1))
          simp only [hrest]
          cases rest <;> rfl
  rw [grubFshelpReadFile]
  split_ifs
  · rfl
  · rfl
  · exact hfrom _ _ _
  · exact hfrom _ _ _

end Read

section Covered

variable {volume : Buf} {r : FshelpRequest} {getBlock getBlock' : FshelpBlock}

theorem fshelpRun_congr {i blknr n run length : ℕ} (hrun : 0 < run)
    (h : ∀ j, i < j → j < i + run + n → getBlock j = getBlock' j) :
    fshelpRun r getBlock i blknr n run length = fshelpRun r getBlock' i blknr n run length := by
  induction n generalizing run length with
  | zero => rfl
  | succ n ih =>
    rw [fshelpRun, fshelpRun, h (i + run) (by omega) (by omega)]
    split_ifs
    · rfl
    cases getBlock' (i + run) with
    | none => rfl
    | some next =>
      cases next with
      | error e => rfl
      | ok next =>
        dsimp only
        rw [ih (Nat.succ_pos run) fun j hlow hhigh => h j hlow (by omega)]

theorem fshelpReadFrom_congr {rounds i : ℕ}
    (h : ∀ j, i ≤ j → j < r.blockcnt → getBlock j = getBlock' j) :
    fshelpReadFrom volume r getBlock rounds i = fshelpReadFrom volume r getBlock' rounds i := by
  induction rounds generalizing i with
  | zero => rfl
  | succ rounds ih =>
    rw [fshelpReadFrom, fshelpReadFrom]
    by_cases hend : r.blockcnt ≤ i
    · rw [if_pos hend, if_pos hend]
    rw [if_neg hend, if_neg hend, h i (Nat.le_refl i) (by omega)]
    cases getBlock' i with
    | none => rfl
    | some blknr =>
      cases blknr with
      | error e => rfl
      | ok blknr =>
        dsimp only
        rw [fshelpRun_congr Nat.one_pos fun j hlow hhigh => h j (by omega) (by omega),
          ih fun j hlow hhigh => h j (by omega) hhigh]
        split_ifs with hzero
        · cases fshelpRun r getBlock' i (u64 (blknr * r.sectors)) (r.blockcnt - (i + 1)) 1
            (r.blockend i - r.skipfirst i) with
          | none => rfl
          | some run =>
            cases run with
            | error e => rfl
            | ok run =>
              dsimp only
              rw [ih fun j hlow hhigh => h j (by omega) hhigh]
        · rfl

theorem fshelpRun_blocks {i blknr n run length run' length' : ℕ}
    (h : fshelpRun r getBlock i blknr n run length = some (.ok (run', length'))) :
    run ≤ run' ∧ ∀ j, i + run ≤ j → j < i + run' → ∃ b, getBlock j = some (.ok b) := by
  induction n generalizing run length with
  | zero =>
    obtain ⟨rfl, rfl⟩ := Prod.mk.inj (Except.ok.inj (Option.some.inj h))
    exact ⟨Nat.le_refl _, fun j hlow hhigh => by omega⟩
  | succ n ih =>
    rw [fshelpRun] at h
    split_ifs at h with hmax
    · obtain ⟨rfl, rfl⟩ := Prod.mk.inj (Except.ok.inj (Option.some.inj h))
      exact ⟨Nat.le_refl _, fun j hlow hhigh => by omega⟩
    cases hblock : getBlock (i + run) with
    | none =>
      rw [hblock] at h
      cases h
    | some next =>
    cases next with
    | error e =>
      rw [hblock] at h
      cases h
    | ok next =>
      rw [hblock] at h
      dsimp only at h
      split_ifs at h with hstop
      · obtain ⟨rfl, rfl⟩ := Prod.mk.inj (Except.ok.inj (Option.some.inj h))
        exact ⟨Nat.le_refl _, fun j hlow hhigh => by omega⟩
      · obtain ⟨hle, hrest⟩ := ih h
        refine ⟨by omega, fun j hlow hhigh => ?_⟩
        by_cases hfirst : j = i + run
        · exact ⟨next, hfirst ▸ hblock⟩
        · exact hrest j (by omega) hhigh

theorem fshelpReadFrom_blocks {rounds i : ℕ} {bs : List UInt8} (hrounds : r.blockcnt - i ≤ rounds)
    (h : fshelpReadFrom volume r getBlock rounds i = some (.ok bs)) :
    ∀ j, i ≤ j → j < r.blockcnt → ∃ b, getBlock j = some (.ok b) := by
  induction rounds generalizing i bs with
  | zero =>
    intro j hlow hhigh
    omega
  | succ rounds ih =>
    intro j hlow hhigh
    rw [fshelpReadFrom, if_neg (by omega)] at h
    cases hblock : getBlock i with
    | none =>
      rw [hblock] at h
      cases h
    | some blknr =>
    cases blknr with
    | error e =>
      rw [hblock] at h
      cases h
    | ok blknr =>
    by_cases hfirst : j = i
    · exact ⟨blknr, hfirst ▸ hblock⟩
    rw [hblock] at h
    dsimp only at h
    split_ifs at h with hzero
    · cases hrun : fshelpRun r getBlock i (u64 (blknr * r.sectors)) (r.blockcnt - (i + 1)) 1
          (r.blockend i - r.skipfirst i) with
      | none =>
        rw [hrun] at h
        cases h
      | some run =>
      cases run with
      | error e =>
        rw [hrun] at h
        cases h
      | ok run =>
      rw [hrun] at h
      dsimp only at h
      obtain ⟨hpos, hblocks⟩ := fshelpRun_blocks hrun
      rcases Nat.lt_or_ge j (i + run.1) with hin | hbehind
      · exact hblocks j (by omega) hin
      cases hrest : fshelpReadFrom volume r getBlock rounds (i + run.1) with
      | none =>
        rw [hrest] at h
        cases h
      | some rest =>
      cases rest with
      | error e =>
        rw [hrest] at h
        cases h
      | ok rest => exact ih (by omega) hrest j hbehind hhigh
    · cases hrest : fshelpReadFrom volume r getBlock rounds (i + 1) with
      | none =>
        rw [hrest] at h
        cases h
      | some rest =>
      cases rest with
      | error e =>
        rw [hrest] at h
        cases h
      | ok rest => exact ih (by omega) hrest j (by omega) hhigh

variable {block : ℕ → ℕ} {maxRead filesize log2 pos len : ℕ}

theorem grubFshelpReadFile_inside (hlog2 : log2 + 9 < 31) (hlen : pos + len ≤ filesize)
    (hfile : filesize + 2 ^ log2 * 512 ≤ 2 ^ 64) :
    grubFshelpReadFile volume getBlock maxRead filesize log2 pos len
      = fshelpReadFrom volume ⟨pos, len, log2, maxRead⟩ getBlock
        ((⟨pos, len, log2, maxRead⟩ : FshelpRequest).blockcnt - pos / (2 ^ log2 * 512))
        (pos / (2 ^ log2 * 512)) := by
  have hpos := Nat.two_pow_pos log2
  have hsum : u64 (pos + len) = pos + len := u64_of_lt (by omega)
  rw [grubFshelpReadFile, if_neg (by omega), if_neg (by omega), hsum, if_neg (by omega)]
  rfl

theorem grubFshelpReadFile_resize (hlen : pos + len ≤ filesize) (hend : pos + len < 2 ^ 64) :
    grubFshelpReadFile volume getBlock maxRead filesize log2 pos len
      = grubFshelpReadFile volume getBlock maxRead (pos + len) log2 pos len := by
  have hsum : u64 (pos + len) = pos + len := u64_of_lt hend
  have hfile : ¬ filesize < pos := by omega
  have hpos : ¬ pos + len < pos := by omega
  simp only [grubFshelpReadFile, hsum, hfile, hpos, Nat.not_lt.mpr hlen, Nat.lt_irrefl, if_false]

theorem fshelpRequest_lt_blockcnt (hlen : pos + len ≤ filesize)
    (hfile : filesize + 2 ^ log2 * 512 ≤ 2 ^ 64) {j : ℕ} :
    j < (⟨pos, len, log2, maxRead⟩ : FshelpRequest).blockcnt
      ↔ j * (2 ^ log2 * 512) < pos + len := by
  have hend : pos + len + 2 ^ log2 * 512 ≤ 2 ^ 64 := by omega
  exact @FshelpRequest.lt_blockcnt ⟨pos, len, log2, maxRead⟩ hend j

/-- The blocks of a read inside the file that succeeds are found. -/
theorem grubFshelpReadFile_blocks {bs : List UInt8} (hlen : pos + len ≤ filesize)
    (hfile : filesize + 2 ^ log2 * 512 ≤ 2 ^ 64)
    (h : grubFshelpReadFile volume getBlock maxRead filesize log2 pos len = some (.ok bs)) :
    ∀ j, pos / (2 ^ log2 * 512) ≤ j → j * (2 ^ log2 * 512) < pos + len →
      ∃ b, getBlock j = some (.ok b) := by
  have hlog2 : log2 + 9 < 31 := by
    by_contra hbig
    rw [grubFshelpReadFile, if_pos (by omega)] at h
    cases h
  rw [grubFshelpReadFile_inside hlog2 hlen hfile] at h
  intro j hlow hhigh
  exact fshelpReadFrom_blocks (Nat.le_refl _) h j hlow
    ((fshelpRequest_lt_blockcnt hlen hfile).mpr hhigh)

/-- A read inside the file whose blocks are found returns the bytes asked for. -/
theorem grubFshelpReadFile_covered (hlog2 : log2 + 9 < 31) (hlen : pos + len ≤ filesize)
    (hfile : filesize + 2 ^ log2 * 512 ≤ 2 ^ 64)
    (hblock : ∀ j, pos / (2 ^ log2 * 512) ≤ j → j * (2 ^ log2 * 512) < pos + len →
      getBlock j = some (.ok (block j)) ∧ block j * (2 ^ log2 * 512) < 2 ^ 64) :
    grubFshelpReadFile volume getBlock maxRead filesize log2 pos len
      = some (.ok ((List.range' pos len).map (fshelpByte volume block (2 ^ log2 * 512)))) := by
  have hpos : 0 < 2 ^ log2 * 512 := Nat.mul_pos (Nat.two_pow_pos log2) (by decide)
  -- the blocks that are not asked for may as well be holes
  obtain ⟨within, hwithin⟩ : ∃ within : ℕ → ℕ, ∀ j, within j
      = if pos / (2 ^ log2 * 512) ≤ j ∧ j * (2 ^ log2 * 512) < pos + len then block j else 0 :=
    ⟨_, fun _ => rfl⟩
  have hcongr : grubFshelpReadFile volume getBlock maxRead filesize log2 pos len
      = grubFshelpReadFile volume (fun j => some (.ok (within j))) maxRead filesize log2 pos len := by
    rw [grubFshelpReadFile_inside hlog2 hlen hfile, grubFshelpReadFile_inside hlog2 hlen hfile]
    refine fshelpReadFrom_congr fun j hlow hhigh => ?_
    have hin := (fshelpRequest_lt_blockcnt hlen hfile).mp hhigh
    rw [(hblock j hlow hin).1, hwithin, if_pos ⟨hlow, hin⟩]
  rw [hcongr, @grubFshelpReadFile_eq volume _ within _ _ _ _ _ hlog2 hlen hfile fun j _ => ⟨rfl, ?_⟩]
  · refine congrArg (fun bs => some (Except.ok bs)) (List.map_congr_left fun i hi => ?_)
    rw [List.mem_range'_1] at hi
    have hin : pos / (2 ^ log2 * 512) ≤ i / (2 ^ log2 * 512)
        ∧ i / (2 ^ log2 * 512) * (2 ^ log2 * 512) < pos + len :=
      ⟨Nat.div_le_div_right hi.1, Nat.lt_of_le_of_lt (Nat.div_mul_le_self _ _) hi.2⟩
    rw [fshelpByte, fshelpByte, hwithin, if_pos hin]
  · rw [hwithin]
    split_ifs with hin
    · exact (hblock j hin.1 hin.2).2
    · omega

end Covered

end FsRover
