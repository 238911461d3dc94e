import FsRover.Fs.FshelpRead
import FsRover.Lib.Radix

/-!
# Files of a System V volume

An inode has ten direct blocks and three trees of indirect ones. A zero pointer, at any level, stands
for a hole; a pointer outside the data area is an error.

## Main definitions

* `FsRover.SysvData` : a volume that is mounted.
* `FsRover.sysvLeaves` : the blocks of a file in order, read off the trees of its inode.

## Main results

* `FsRover.sysvGetBlock_spec` : a block that is found is the one the trees have in this place.
-/

namespace FsRover

/-! ### The volume -/

/-- A disk: its bytes, and the reads that fail by offset and length. -/
structure SysvDisk where
  volume : Buf
  fails : ℕ → ℕ → Option GrubError

/-- `enum sysv_byte_order`. -/
inductive SysvByteOrder
  | le
  | be
  | pdp
  deriving DecidableEq

/-- The part of `struct grub_sysv_data` that files depend on, as `sysv_mount` and `sysv_check_root`
leave it. -/
structure SysvData where
  order : SysvByteOrder
  blockBits : ℕ
  firstData : ℕ
  blockCount : ℕ
  bits_ge : 9 ≤ blockBits
  bits_le : blockBits ≤ 11
  first_gt : 2 < firstData
  first_lt : firstData < blockCount
  count_le : blockCount ≤ 0xffffff

/-- `inode_count`. -/
def SysvData.inodeCount (data : SysvData) : ℕ := (data.firstData - 2) * 2 ^ (data.blockBits - 6)

/-- `struct grub_fshelp_node`. -/
structure SysvNode where
  number : ℕ
  size : ℕ
  mtime : ℕ
  blocks : ℕ → ℕ
  mode : ℕ

/-- `sysv_u16`. -/
def sysvU16 (data : SysvData) (p : Buf) (i : ℕ) : ℕ :=
  match data.order with
  | .be => (p i).toNat * 2 ^ 8 + (p (i + 1)).toNat
  | _ => (p (i + 1)).toNat * 2 ^ 8 + (p i).toNat

/-- `sysv_u32`. -/
def sysvU32 (data : SysvData) (p : Buf) (i : ℕ) : ℕ :=
  match data.order with
  | .be => (p i).toNat * 2 ^ 24 + (p (i + 1)).toNat * 2 ^ 16 + (p (i + 2)).toNat * 2 ^ 8
    + (p (i + 3)).toNat
  | .pdp => (p (i + 1)).toNat * 2 ^ 24 + (p i).toNat * 2 ^ 16 + (p (i + 3)).toNat * 2 ^ 8
    + (p (i + 2)).toNat
  | .le => (p (i + 3)).toNat * 2 ^ 24 + (p (i + 2)).toNat * 2 ^ 16 + (p (i + 1)).toNat * 2 ^ 8
    + (p i).toNat

/-- `sysv_u24`. -/
def sysvU24 (data : SysvData) (p : Buf) (i : ℕ) : ℕ :=
  match data.order with
  | .be => (p i).toNat * 2 ^ 16 + (p (i + 1)).toNat * 2 ^ 8 + (p (i + 2)).toNat
  | .pdp => (p i).toNat * 2 ^ 16 + (p (i + 2)).toNat * 2 ^ 8 + (p (i + 1)).toNat
  | .le => (p (i + 2)).toNat * 2 ^ 16 + (p (i + 1)).toNat * 2 ^ 8 + (p i).toNat

/-- `grub_disk_read` of `length` bytes, `offset` bytes into a sector. -/
def sysvDiskRead (disk : SysvDisk) (sector offset length : ℕ) : Except GrubError Buf :=
  match disk.fails (sector * 512 + offset) length with
  | some e => .error e
  | none => .ok (disk.volume.from (sector * 512 + offset))

/-! ### Inodes -/

/-- `ptrs`. -/
def SysvData.ptrs (data : SysvData) : ℕ := 2 ^ (data.blockBits - 2)

/-- The blocks that the pointers of an inode reach. -/
def SysvData.capacity (data : SysvData) : ℕ :=
  10 + data.ptrs + data.ptrs * data.ptrs + data.ptrs * data.ptrs * data.ptrs

/-- `sysv_read_inode`. -/
def sysvReadInode (disk : SysvDisk) (data : SysvData) (number : ℕ) : Except GrubError SysvNode :=
  let maxSize := u64 (data.capacity * 2 ^ data.blockBits)
  if number = 0 ∨ data.inodeCount < number ∨ 0xffff < number then
    .error ⟨.badFs, "System V inode outside inode table"⟩
  else
    let offset := 2 * 2 ^ data.blockBits + (number - 1) * 64
    match sysvDiskRead disk (offset / 512) (offset % 512) 64 with
    | .error e => .error e
    | .ok raw =>
      let mode := sysvU16 data raw 0
      let size := sysvU32 data raw 8
      if sysvU16 data raw 2 = 0 ∨ mode = 0 ∨ maxSize < size then
        .error ⟨.badFs, "invalid System V inode"⟩
      else if mode &&& 0o170000 = 0o040000 ∧ size &&& 15 ≠ 0 then
        .error ⟨.badFs, "invalid System V directory size"⟩
      else
        .ok ⟨number, size, sysvU32 data raw 56, fun i => sysvU24 data raw (12 + 3 * i), mode⟩

/-- `sysv_check_block` succeeds. -/
def SysvData.checkBlock (data : SysvData) (block : ℕ) : Bool :=
  ¬ (block ≠ 0 ∧ (block < data.firstData ∨ data.blockCount ≤ block))

def sysvOutside : GrubError := ⟨.badFs, "System V block outside data area"⟩

def sysvTooLarge : GrubError := ⟨.badFs, "System V logical block outside inode capacity"⟩

/-- The first loop of `sysv_get_block`: the depth of the tree, what a tree of this depth spans, and
the place in it. -/
def sysvDepth (ptrs : ℕ) : ℕ → ℕ → ℕ → ℕ → Option (ℕ × ℕ × ℕ)
  | 0, _, _, _ => none
  | n + 1, depth, span, logical =>
    if logical < span then some (depth, span, logical)
    else sysvDepth ptrs n (depth + 1) (span * ptrs) (logical - span)

/-- The second loop of `sysv_get_block`, down a tree. -/
def sysvDescend (disk : SysvDisk) (data : SysvData) : ℕ → ℕ → ℕ → ℕ → Except GrubError ℕ
  | 0, _, block, _ => if data.checkBlock block then .ok block else .error sysvOutside
  | depth + 1, span, block, logical =>
    if ¬ data.checkBlock block then .error sysvOutside
    else if block = 0 then .ok 0
    else
      let span := span / data.ptrs
      let index := u32 (logical / span)
      match sysvDiskRead disk (block * 2 ^ (data.blockBits - 9)) (u32 (index * 4)) 4 with
      | .error e => .error e
      | .ok raw => sysvDescend disk data depth span (sysvU32 data raw 0) (logical % span)

/-- `sysv_get_block`. -/
def sysvGetBlock (disk : SysvDisk) (data : SysvData) (node : SysvNode) (logical : ℕ) :
    Except GrubError ℕ :=
  if logical < 10 then
    if data.checkBlock (node.blocks logical) then .ok (node.blocks logical) else .error sysvOutside
  else
    match sysvDepth data.ptrs 3 1 data.ptrs (logical - 10) with
    | none => .error sysvTooLarge
    | some (depth, span, logical) =>
      sysvDescend disk data depth span (node.blocks (9 + depth)) logical

/-- `sysv_read_file`. -/
def sysvReadFile (disk : SysvDisk) (data : SysvData) (node : SysvNode) (maxRead pos len : ℕ) :
    Option (Except GrubError (List UInt8)) :=
  grubFshelpReadFile disk.volume (fun logical => some (sysvGetBlock disk data node logical)) maxRead
    node.size (data.blockBits - 9) pos len

/-! ### The trees of an inode -/

/-- The pointer with the number `i` in a block of pointers. -/
def sysvPointer (disk : SysvDisk) (data : SysvData) (block i : ℕ) : ℕ :=
  sysvU32 data (disk.volume.from (block * 2 ^ data.blockBits + i * 4)) 0

/-- The block that a pointer designates, unless it points outside the data area. -/
def SysvData.leaf (data : SysvData) (block : ℕ) : Option ℕ :=
  if data.checkBlock block then some block else none

/-- A pointer outside the data area designates nothing, and a zero pointer holes. -/
def SysvData.stop (data : SysvData) (block : ℕ) : Option (Option ℕ) :=
  if ¬ data.checkBlock block then some none else if block = 0 then some (some 0) else none

/-- What the tree of depth `d` under a pointer designates, in order. -/
def sysvTree (disk : SysvDisk) (data : SysvData) (d block : ℕ) : List (Option ℕ) :=
  Radix.leaves data.ptrs data.stop data.leaf (sysvPointer disk data) d block

/-- What the pointers of an inode designate, in the order of the file. -/
def sysvLeaves (disk : SysvDisk) (data : SysvData) (node : SysvNode) : List (Option ℕ) :=
  (List.range 10).map (fun i => data.leaf (node.blocks i)) ++ sysvTree disk data 1 (node.blocks 10)
    ++ sysvTree disk data 2 (node.blocks 11) ++ sysvTree disk data 3 (node.blocks 12)

/-- The block with the number `j` in the file; 0 where there is none. -/
def sysvBlock (disk : SysvDisk) (data : SysvData) (node : SysvNode) (j : ℕ) : ℕ :=
  ((sysvLeaves disk data node).getD j none).getD 0

/-- No read of pointers fails. -/
def SysvDisk.Calm (disk : SysvDisk) : Prop := ∀ offset length, disk.fails offset length = none

/-- What a search gives where the pointers designate `b`. -/
def sysvFound : Option ℕ → Except GrubError ℕ
  | some n => .ok n
  | none => .error sysvOutside

/-! ### The search -/

variable {disk : SysvDisk} {data : SysvData} {node : SysvNode}

theorem SysvData.ptrs_pos (data : SysvData) : 0 < data.ptrs := Nat.two_pow_pos _

theorem SysvData.ptrs_le (data : SysvData) : data.ptrs ≤ 512 := by
  have h : data.ptrs ≤ 2 ^ 9 := Nat.pow_le_pow_right (by decide) (by have := data.bits_le; omega)
  exact h

theorem SysvData.blocksize_eq (data : SysvData) :
    2 ^ (data.blockBits - 9) * 512 = 2 ^ data.blockBits := by
  rw [show (512 : ℕ) = 2 ^ 9 from rfl, ← pow_add, Nat.sub_add_cancel data.bits_ge]

theorem SysvData.checkBlock_lt {block : ℕ} (h : data.checkBlock block = true) : block < 2 ^ 24 := by
  have hcount := data.count_le
  rw [SysvData.checkBlock, decide_eq_true_eq] at h
  omega

theorem sysvPointer_eq {block i : ℕ} (hi : i < data.ptrs) :
    sysvDiskRead disk (block * 2 ^ (data.blockBits - 9)) (u32 (u32 i * 4)) 4
      = match disk.fails (block * 2 ^ data.blockBits + i * 4) 4 with
        | some e => .error e
        | none => .ok (disk.volume.from (block * 2 ^ data.blockBits + i * 4)) := by
  have hptrs := data.ptrs_le
  have hi32 : u32 i = i := u32_of_lt (by omega)
  have hfour : u32 (i * 4) = i * 4 := u32_of_lt (by omega)
  rw [sysvDiskRead, hi32, hfour, Nat.mul_assoc, data.blocksize_eq]

/-- A descent follows the digits of the place; a failing read is all that can keep it from what the
tree designates. -/
theorem sysvDescend_spec {d block k : ℕ} (hk : k < data.ptrs ^ d) :
    (∀ n, sysvDescend disk data d (data.ptrs ^ d) block k = .ok n →
      Radix.find data.ptrs data.stop data.leaf (sysvPointer disk data) d block k = some n)
    ∧ (disk.Calm → sysvDescend disk data d (data.ptrs ^ d) block k
      = sysvFound (Radix.find data.ptrs data.stop data.leaf (sysvPointer disk data) d block k)) := by
  induction d generalizing block k with
  | zero =>
    rw [sysvDescend, Radix.find, SysvData.leaf]
    by_cases hcheck : data.checkBlock block = true
    · rw [if_pos hcheck, if_pos hcheck]
      exact ⟨fun n h => congrArg some (Except.ok.inj h), fun _ => rfl⟩
    · rw [if_neg hcheck, if_neg hcheck]
      exact ⟨(fun n h => by cases h), fun _ => rfl⟩
  | succ d ih =>
    have hpos : 0 < data.ptrs ^ d := Nat.pow_pos data.ptrs_pos
    have hspan : data.ptrs ^ (d + 1) / data.ptrs = data.ptrs ^ d := by
      rw [pow_succ, Nat.mul_div_cancel _ data.ptrs_pos]
    have hindex : k / data.ptrs ^ d < data.ptrs := by
      rw [Nat.div_lt_iff_lt_mul hpos, Nat.mul_comm, ← pow_succ]
      exact hk
    rw [sysvDescend, Radix.find, SysvData.stop]
    by_cases hcheck : data.checkBlock block = true
    · rw [if_neg (not_not.mpr hcheck), if_neg (not_not.mpr hcheck)]
      by_cases hzero : block = 0
      · rw [if_pos hzero, if_pos hzero]
        exact ⟨fun n h => congrArg some (Except.ok.inj h), fun _ => rfl⟩
      · rw [if_neg hzero, if_neg hzero]
        dsimp only
        rw [hspan, sysvPointer_eq hindex]
        obtain ⟨hok, hcalm⟩ := @ih (sysvPointer disk data block (k / data.ptrs ^ d))
          (k % data.ptrs ^ d) (Nat.mod_lt _ hpos)
        cases hfails : disk.fails (block * 2 ^ data.blockBits + k / data.ptrs ^ d * 4) 4 with
        | some e =>
          refine ⟨(fun n h => by cases h), fun hall => ?_⟩
          rw [hall] at hfails
          cases hfails
        | none => exact ⟨hok, hcalm⟩
    · rw [if_pos hcheck, if_pos hcheck]
      exact ⟨(fun n h => by cases h), fun _ => rfl⟩

theorem length_sysvTree {d block : ℕ} : (sysvTree disk data d block).length = data.ptrs ^ d :=
  Radix.length_leaves

theorem sysvTree_getElem? {d block k : ℕ} (hk : k < data.ptrs ^ d) :
    (sysvTree disk data d block)[k]?
      = some (Radix.find data.ptrs data.stop data.leaf (sysvPointer disk data) d block k) :=
  Radix.getElem?_leaves hk

/-- What a search may give for a place in which the trees have `b`. -/
def SysvFinds (disk : SysvDisk) (b : Option ℕ) (r : Except GrubError ℕ) : Prop :=
  (∀ n, r = .ok n → b = some n) ∧ (disk.Calm → r = sysvFound b)

/-- The place `k` of a tree of depth `d` is where the search finds it. -/
theorem sysvDescend_finds {d block k : ℕ} (hk : k < data.ptrs ^ d) :
    ∃ b, (sysvTree disk data d block)[k]? = some b
      ∧ SysvFinds disk b (sysvDescend disk data d (data.ptrs ^ d) block k) :=
  ⟨_, sysvTree_getElem? hk, sysvDescend_spec hk⟩

/-- A block that is found is the one the trees have in this place. -/
theorem sysvGetBlock_spec {k : ℕ} (hk : k < data.capacity) :
    ∃ b, (sysvLeaves disk data node)[k]? = some b
      ∧ SysvFinds disk b (sysvGetBlock disk data node k) := by
  have hone : data.ptrs ^ 1 = data.ptrs := pow_one _
  have htwo : data.ptrs ^ 2 = data.ptrs * data.ptrs := pow_two _
  have hthree : data.ptrs ^ 3 = data.ptrs * data.ptrs * data.ptrs := by rw [pow_succ, htwo]
  rw [SysvData.capacity] at hk
  rw [sysvGetBlock, sysvLeaves]
  by_cases hdirect : k < 10
  · rw [if_pos hdirect, List.getElem?_append_left (by simp; omega),
      List.getElem?_append_left (by simp; omega), List.getElem?_append_left (by simpa using hdirect),
      List.getElem?_map, List.getElem?_range hdirect]
    refine ⟨data.leaf (node.blocks k), rfl, ?_⟩
    rw [SysvData.leaf]
    by_cases hcheck : data.checkBlock (node.blocks k) = true
    · rw [if_pos hcheck, if_pos hcheck]
      exact ⟨fun n h => congrArg some (Except.ok.inj h), fun _ => rfl⟩
    · rw [if_neg hcheck, if_neg hcheck]
      exact ⟨(fun n h => by cases h), fun _ => rfl⟩
  rw [if_neg hdirect, sysvDepth]
  have hten : ((List.range 10).map fun i => data.leaf (node.blocks i)).length = 10 := by simp
  by_cases hsingle : k - 10 < data.ptrs
  · have hfind := @sysvDescend_finds disk data 1 (node.blocks 10) (k - 10) (by omega)
    rw [hone] at hfind
    rw [if_pos hsingle, List.getElem?_append_left (by simp [hten, length_sysvTree]; omega),
      List.getElem?_append_left (by simp [hten, length_sysvTree]; omega),
      List.getElem?_append_right (by omega), hten]
    exact hfind
  rw [if_neg hsingle, sysvDepth]
  by_cases hdouble : k - 10 - data.ptrs < data.ptrs * data.ptrs
  · have hfind := @sysvDescend_finds disk data 2 (node.blocks 11) (k - 10 - data.ptrs) (by omega)
    rw [htwo] at hfind
    rw [if_pos hdouble, List.getElem?_append_left (by simp [length_sysvTree, htwo]; omega),
      List.getElem?_append_right (by simp [length_sysvTree]; omega), List.length_append, hten,
      length_sysvTree, hone, ← Nat.sub_sub]
    exact hfind
  rw [if_neg hdouble, sysvDepth]
  have hfind := @sysvDescend_finds disk data 3 (node.blocks 12)
    (k - 10 - data.ptrs - data.ptrs * data.ptrs) (by omega)
  rw [hthree] at hfind
  rw [if_pos (by omega), List.getElem?_append_right (by simp [length_sysvTree, htwo]; omega),
    List.length_append, List.length_append, hten, length_sysvTree, length_sysvTree, hone, htwo,
    ← Nat.sub_sub, ← Nat.sub_sub]
  exact hfind

theorem sysvGetBlock_tooLarge {k : ℕ} (hk : data.capacity ≤ k) :
    sysvGetBlock disk data node k = .error sysvTooLarge := by
  rw [SysvData.capacity] at hk
  rw [sysvGetBlock, if_neg (by omega), sysvDepth, if_neg (by omega), sysvDepth, if_neg (by omega),
    sysvDepth, if_neg (by omega), sysvDepth]

/-! ### Reading -/

/-- A read asks for the block with the number `j`. -/
def SysvData.Covers (data : SysvData) (pos len j : ℕ) : Prop :=
  pos / 2 ^ data.blockBits ≤ j ∧ j * 2 ^ data.blockBits < pos + len

theorem sysvReadInode_size_lt {number : ℕ} (h : sysvReadInode disk data number = .ok node) :
    node.size ≤ data.capacity * 2 ^ data.blockBits ∧ node.size < 2 ^ 32 := by
  rw [sysvReadInode] at h
  dsimp only at h
  split_ifs at h with hnumber
  cases hread : sysvDiskRead disk ((2 * 2 ^ data.blockBits + (number - 1) * 64) / 512)
      ((2 * 2 ^ data.blockBits + (number - 1) * 64) % 512) 64 with
  | error e =>
    rw [hread] at h
    cases h
  | ok raw =>
  rw [hread] at h
  dsimp only at h
  split_ifs at h with hinvalid hdirectory
  obtain rfl := Except.ok.inj h
  refine ⟨?_, ?_⟩
  · have hle := u64_le (data.capacity * 2 ^ data.blockBits)
    dsimp only
    omega
  · dsimp only
    rw [sysvU32]
    have hbyte := fun i => (raw i).toNat_lt
    have h8 := hbyte 8
    have h9 := hbyte (8 + 1)
    have h10 := hbyte (8 + 2)
    have h11 := hbyte (8 + 3)
    cases data.order <;> dsimp only <;> omega

theorem sysvReadFile_eq {maxRead pos len : ℕ} (hsize : node.size < 2 ^ 32)
    (hlen : pos + len ≤ node.size)
    (hblock : ∀ j, data.Covers pos len j → sysvGetBlock disk data node j = .ok (sysvBlock disk data node j)
      ∧ sysvBlock disk data node j < 2 ^ 24) :
    sysvReadFile disk data node maxRead pos len = some (.ok ((List.range' pos len).map
      (fshelpByte disk.volume (sysvBlock disk data node) (2 ^ data.blockBits)))) := by
  have hbits := data.bits_le
  have hblocksize : 2 ^ data.blockBits ≤ 2 ^ 11 := Nat.pow_le_pow_right (by decide) hbits
  have hread := @grubFshelpReadFile_covered disk.volume
    (fun logical => some (sysvGetBlock disk data node logical)) (sysvBlock disk data node) maxRead
    node.size (data.blockBits - 9) pos len
  rw [data.blocksize_eq] at hread
  refine hread (by omega) hlen (by omega) fun j hlow hhigh => ?_
  obtain ⟨hget, hlt⟩ := hblock j ⟨hlow, hhigh⟩
  have hmul : sysvBlock disk data node j * 2 ^ data.blockBits ≤ 2 ^ 24 * 2 ^ 11 :=
    Nat.mul_le_mul (Nat.le_of_lt hlt) hblocksize
  exact ⟨congrArg some hget, by omega⟩

theorem sysvBlock_eq {j n : ℕ} (h : (sysvLeaves disk data node)[j]? = some (some n)) :
    sysvBlock disk data node j = n := by
  rw [sysvBlock, List.getD_eq_getElem?_getD, h]
  rfl

/-- The blocks of a read that succeeds are those of the trees. -/
theorem sysvReadFile_ok {maxRead pos len : ℕ} {bs : List UInt8} (hsize : node.size < 2 ^ 32)
    (hcapacity : ∀ j, j * 2 ^ data.blockBits < node.size → j < data.capacity)
    (hlen : pos + len ≤ node.size)
    (h : sysvReadFile disk data node maxRead pos len = some (.ok bs)) {j : ℕ}
    (hj : data.Covers pos len j) : ∃ n, sysvGetBlock disk data node j = .ok n
      ∧ (sysvLeaves disk data node)[j]? = some (some n) := by
  have hbits := data.bits_le
  have hblocksize : 2 ^ data.blockBits ≤ 2 ^ 11 := Nat.pow_le_pow_right (by decide) hbits
  have hblocks := @grubFshelpReadFile_blocks disk.volume
    (fun logical => some (sysvGetBlock disk data node logical)) maxRead node.size
    (data.blockBits - 9) pos len bs
  rw [data.blocksize_eq] at hblocks
  obtain ⟨n, hn⟩ := hblocks hlen (by omega) h j hj.1 hj.2
  have hn := Option.some.inj hn
  obtain ⟨b, hb, hfinds⟩ := @sysvGetBlock_spec disk data node j
    (hcapacity j (Nat.lt_of_lt_of_le hj.2 hlen))
  exact ⟨n, hn, hfinds.1 n hn ▸ hb⟩

/-- A block that is designated is in the data area, or no block. -/
theorem sysvLeaves_lt {j n : ℕ} (h : (sysvLeaves disk data node)[j]? = some (some n)) :
    n < 2 ^ 24 := by
  have hleaf : ∀ block, data.leaf block = some n → n < 2 ^ 24 := by
    intro block hblock
    rw [SysvData.leaf] at hblock
    split_ifs at hblock with hcheck
    exact Option.some.inj hblock ▸ SysvData.checkBlock_lt hcheck
  have htree : ∀ d block, some n ∈ sysvTree disk data d block → n < 2 ^ 24 := by
    intro d
    induction d with
    | zero =>
      intro block hmem
      exact hleaf block (List.mem_singleton.mp hmem).symm
    | succ d ih =>
      intro block hmem
      rw [sysvTree, Radix.leaves] at hmem
      cases hstop : data.stop block with
      | none =>
        rw [hstop] at hmem
        obtain ⟨i, -, hi⟩ := List.mem_flatMap.mp hmem
        exact ih _ hi
      | some b =>
        rw [hstop] at hmem
        have hb := List.eq_of_mem_replicate hmem
        rw [SysvData.stop] at hstop
        split_ifs at hstop
        · obtain rfl : n = 0 := Option.some.inj (hb.trans (Option.some.inj hstop).symm)
          decide
        · rw [← Option.some.inj hstop] at hb
          cases hb
  have hmem := List.mem_of_getElem? h
  rw [sysvLeaves, List.mem_append, List.mem_append, List.mem_append, List.mem_map] at hmem
  rcases hmem with ((⟨i, -, hi⟩ | hmem) | hmem) | hmem
  · exact hleaf _ hi
  · exact htree _ _ hmem
  · exact htree _ _ hmem
  · exact htree _ _ hmem

/-- **System V files are what their inodes say.** A search gives the block that the trees of the inode
designate in this place, fails where a pointer leaves the data area and past the capacity of an inode,
and no place in a file is past it. A read inside a file ends; when it succeeds its blocks are
designated and it gives their bytes, with zeros for holes; and it succeeds when its blocks are
designated and the reads of the disk do. -/
theorem sysv_blocks_exact (disk : SysvDisk) (data : SysvData) :
    (∀ node k, k < data.capacity → ∃ b, (sysvLeaves disk data node)[k]? = some b
      ∧ SysvFinds disk b (sysvGetBlock disk data node k))
    ∧ (∀ node k, data.capacity ≤ k → sysvGetBlock disk data node k = .error sysvTooLarge)
    ∧ ∀ number node, sysvReadInode disk data number = .ok node →
      (∀ j, j * 2 ^ data.blockBits < node.size → j < data.capacity)
      ∧ ∀ maxRead pos len, pos + len ≤ node.size →
        (sysvReadFile disk data node maxRead pos len).isSome
        ∧ (∀ bs, sysvReadFile disk data node maxRead pos len = some (.ok bs) →
          (∀ j, data.Covers pos len j → (sysvLeaves disk data node)[j]? ≠ some none)
          ∧ bs = (List.range' pos len).map
            (fshelpByte disk.volume (sysvBlock disk data node) (2 ^ data.blockBits)))
        ∧ (disk.Calm →
          (∀ j, data.Covers pos len j → (sysvLeaves disk data node)[j]? ≠ some none) →
          ∃ bs, sysvReadFile disk data node maxRead pos len = some (.ok bs)) := by
  refine ⟨fun node k hk => sysvGetBlock_spec hk, fun node k hk => sysvGetBlock_tooLarge hk,
    fun number node hinode => ?_⟩
  obtain ⟨hcap, hsize⟩ := sysvReadInode_size_lt hinode
  have hcapacity : ∀ j, j * 2 ^ data.blockBits < node.size → j < data.capacity := fun j hj =>
    Nat.lt_of_mul_lt_mul_right (Nat.lt_of_lt_of_le hj hcap)
  refine ⟨hcapacity, fun maxRead pos len hlen => ⟨?_, fun bs hbs => ?_, fun hcalm hall => ?_⟩⟩
  · exact grubFshelpReadFile_isSome fun _ => rfl
  · have hblocks := fun j hj => @sysvReadFile_ok disk data node _ _ _ _ hsize hcapacity hlen hbs j hj
    refine ⟨fun j hj hnone => ?_, ?_⟩
    · obtain ⟨n, -, hn⟩ := hblocks j hj
      rw [hn] at hnone
      cases hnone
    · have heq := @sysvReadFile_eq disk data node maxRead pos len hsize hlen fun j hj => by
        obtain ⟨n, hget, hn⟩ := hblocks j hj
        rw [sysvBlock_eq hn]
        exact ⟨hget, sysvLeaves_lt hn⟩
      exact Except.ok.inj (Option.some.inj (hbs.symm.trans heq))
  · refine ⟨_, sysvReadFile_eq hsize hlen fun j hj => ?_⟩
    obtain ⟨b, hb, hfinds⟩ := @sysvGetBlock_spec disk data node j
      (hcapacity j (Nat.lt_of_lt_of_le hj.2 hlen))
    cases b with
    | none => exact absurd hb (hall j hj)
    | some n =>
      rw [sysvBlock_eq hb]
      exact ⟨hfinds.2 hcalm, sysvLeaves_lt hb⟩

end FsRover
