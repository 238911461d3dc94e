import FsRover.Fs.VmfsBuffers

/-!
# How deep reads of VMFS go

A read can go on for ever: the block slots of the meta files may name sub-blocks, which are items of
a meta file themselves. If none of them does, a read calls itself to a depth of three.

## Main definitions

* `FsRover.VmfsNoSubBlocks` : no block of an opened meta file is a sub-block.

## Main results

* `FsRover.VmfsMounting.ordered` : the invariant of a mount.
* `FsRover.vmfsReadStep_returns` : the rule of one call.
* `FsRover.vmfs_reads_return` : the bound on the depth.
* `FsRover.vmfs_looped` : a sub-block that is read through itself.
-/

namespace FsRover

open Outcome

variable {data : VmfsData} {node : VmfsNode} {path : VmfsPath} {bmp : VmfsBitmap}
  {read : VmfsNode → ℕ → ℕ → VmfsRead}

/-! ### Depth -/

/-- No block of a meta file with pointer blocks or sub-blocks is a sub-block. -/
def VmfsNoSubBlocks (data : VmfsData) : Prop :=
  ∀ bmp, data.Opened bmp → ∀ depth path pos id, vmfsPath data bmp.inode = .ok path →
    vmfsGetBlock (vmfsReadFile data depth) data path bmp.inode pos = .done id →
      vmfsLeafType path id ≠ 2

/-- Every read of the inode returns. -/
def VmfsReturns (read : VmfsNode → ℕ → ℕ → VmfsRead) (node : VmfsNode) : Prop :=
  ∀ pos len, (read node pos len).Returns

theorem vmfsItemPos_returns (layout : VmfsLayout) (bmp : VmfsBitmap) (entry item : ℕ) :
    (vmfsItemPos layout bmp entry item).Returns := by
  rw [vmfsItemPos]
  refine returns_inside.bind fun area _ => ?_
  split_ifs
  · exact returns_failed _
  · exact returns_done _

theorem vmfsGetItem_returns (h : VmfsReturns read bmp.inode) (entry item room : ℕ) :
    (vmfsGetItem read data bmp entry item room).Returns := by
  rw [vmfsGetItem]
  refine (vmfsItemPos_returns _ _ _ _).bind fun pos _ => ?_
  exact returns_inside.bind fun _ _ => h pos bmp.dataSize

theorem vmfsGetPointer_returns {item : ℕ → VmfsRead} (hitem : ∀ id, (item id).Returns)
    (blkIndex : ℕ) : (vmfsGetPointer data bmp item node blkIndex).Returns := by
  rw [vmfsGetPointer]
  refine returns_inside.bind fun pbIndex _ => ?_
  split_ifs
  · exact returns_failed _
  · refine returns_inside.bind fun id _ => ?_
    split_ifs
    · exact returns_done _
    · exact (hitem id).bind fun pb _ => returns_inside

theorem vmfsGetBlock2_returns (h : VmfsReturns read bmp.inode) (blkIndex room : ℕ) :
    (vmfsGetBlock2 read data bmp node blkIndex room).Returns := by
  rw [vmfsGetBlock2]
  refine returns_inside.bind fun primary _ => ?_
  split_ifs
  · exact returns_failed _
  · refine returns_inside.bind fun id _ => ?_
    split_ifs
    · exact returns_done _
    · refine (vmfsGetItem_returns h _ _ _).bind fun pb _ => ?_
      refine returns_inside.bind fun id' _ => ?_
      split_ifs
      · exact returns_done _
      · exact (vmfsGetItem_returns h _ _ _).bind fun pb' _ => returns_inside

/-- The lookup of a block returns if the reads of the meta file it goes through do. -/
theorem vmfsGetBlock_returns
    (h : ∀ bmp, path.bitmap = some bmp → VmfsReturns read bmp.inode) (pos : ℕ) :
    (vmfsGetBlock read data path node pos).Returns := by
  rw [vmfsGetBlock]
  refine returns_inside.bind fun blkIndex _ => ?_
  cases path with
  | direct =>
    simp only
    split_ifs
    · exact returns_failed _
    · exact returns_inside
  | double sbc => exact vmfsGetBlock2_returns (h sbc rfl) _ _
  | subPointer sbc =>
    exact vmfsGetPointer_returns (fun id => vmfsGetItem_returns (h sbc rfl) _ _ _) _
  | pointer pbc =>
    refine vmfsGetPointer_returns (fun id => ?_) _
    split_ifs
    · exact returns_failed _
    · exact vmfsGetItem_returns (h pbc rfl) _ _ _
  | second pb2 =>
    exact vmfsGetPointer_returns (fun id => vmfsGetItem_returns (h pb2 rfl) _ _ _) _
  | inline => exact returns_done _

theorem vmfsReadInline_returns (layout : VmfsLayout) (path : VmfsPath) (node : VmfsNode)
    (pos len : ℕ) : (vmfsReadInline layout path node pos len).Returns := by
  cases path with
  | inline =>
    rw [vmfsReadInline]
    split_ifs
    · exact returns_failed _
    · exact returns_inside
  | _ => exact returns_failed _

/-- The reads a call makes: of the meta file of its path, and of the sub-blocks if a block of the
inode is one. -/
structure VmfsNeeds (read : VmfsNode → ℕ → ℕ → VmfsRead) (data : VmfsData) (path : VmfsPath)
    (node : VmfsNode) : Prop where
  bitmap : ∀ bmp, path.bitmap = some bmp → VmfsReturns read bmp.inode
  leaf : ∀ pos id, vmfsGetBlock read data path node pos = .done id → vmfsLeafType path id = 2 →
    ∀ sbc, data.sbc = some sbc → VmfsReturns read sbc.inode

theorem vmfsReadBlock_returns (h : VmfsNeeds read data path node) (pos len : ℕ) :
    (vmfsReadBlock read data path node pos len).Returns := by
  rw [vmfsReadBlock]
  refine (vmfsGetBlock_returns h.bitmap pos).bind fun id hid => ?_
  simp only
  split
  · exact returns_done _
  · exact returns_ofExcept _
  · exact returns_ofExcept _
  · exact returns_ofExcept _
  · rename_i hleaf
    cases hsbc : data.sbc with
    | none => exact returns_failed _
    | some sbc =>
      refine returns_inside.bind fun off _ => ?_
      refine (vmfsGetItem_returns (h.leaf pos id hid hleaf sbc hsbc) _ _ _).bind fun sb _ => ?_
      exact returns_inside
  · exact vmfsReadInline_returns _ _ _ _ _
  · exact returns_failed _

theorem vmfsReadLoop_returns (h : VmfsNeeds read data path node) :
    ∀ rounds pos len, (vmfsReadLoop read data path node rounds pos len).Returns := by
  intro rounds
  induction rounds with
  | zero => exact fun _ _ => returns_done _
  | succ rounds ih =>
    intro pos len
    rw [vmfsReadLoop]
    split_ifs
    · exact returns_done _
    · refine (vmfsReadBlock_returns h pos len).bind fun bytes _ => ?_
      exact (ih _ _).bind fun rest _ => returns_done _

/-- A call returns if the reads it makes do. -/
theorem vmfsReadStep_returns
    (h : ∀ path, vmfsPath data node = .ok path → VmfsNeeds read data path node) :
    VmfsReturns (vmfsReadStep read data) node := by
  intro pos len
  rw [vmfsReadStep]
  split_ifs
  · exact returns_failed _
  · exact returns_failed _
  · exact returns_failed _
  · exact returns_done _
  · refine (returns_ofExcept _).bind fun path hpath => ?_
    have hok : vmfsPath data node = .ok path := by
      cases hp : vmfsPath data node with
      | error e => simp [hp, Outcome.ofExcept] at hpath
      | ok p => simpa [hp, Outcome.ofExcept] using hpath
    exact vmfsReadLoop_returns (h path hok) _ _ _

/-- Pointer blocks are read without a call that goes deeper. -/
theorem vmfsReadFile_pointer (h : VmfsOrdered data) (hsub : VmfsNoSubBlocks data)
    (hbmp : data.pbc = some bmp ∨ data.pb2 = some bmp) (depth : ℕ) :
    VmfsReturns (vmfsReadFile data (depth + 1)) bmp.inode := by
  have hopened : data.Opened bmp := hbmp.imp_right .inl
  have hdirect : bmp.inode.Direct := by
    rcases hbmp with hbmp | hbmp
    · exact (h.pbc bmp hbmp).2
    · exact (h.pb2 bmp hbmp).2
  refine vmfsReadStep_returns fun path hpath => ⟨fun b hb => ?_, fun pos id hid hleaf => ?_⟩
  · rw [vmfsPath_direct hdirect hpath] at hb
    cases hb
  · exact absurd hleaf (hsub bmp hopened depth path pos id hpath hid)

/-- The meta file of the path of `.sbc.sf` is one of those with pointer blocks. -/
theorem VmfsOrdered.sbc_path (h : VmfsOrdered data) {sbc : VmfsBitmap} (hsbc : data.sbc = some sbc)
    (hpath : vmfsPath data sbc.inode = .ok path) (hb : path.bitmap = some bmp) :
    data.pbc = some bmp ∨ data.pb2 = some bmp := by
  rcases (h.sbc sbc hsbc).2 with hdirect | ⟨hv5, htype⟩ | htype
  · rw [vmfsPath_direct hdirect hpath] at hb
    cases hb
  · rw [vmfsPath, htype] at hpath
    simp only [hv5, Bool.false_eq_true, if_false] at hpath
    cases hpbc : data.pbc with
    | none => simp [hpbc] at hpath
    | some pbc =>
      simp only [hpbc, Except.ok.injEq] at hpath
      obtain rfl := hpath
      exact .inl hb
  · rw [vmfsPath, htype] at hpath
    cases hpb2 : data.pb2 with
    | none => simp [hpb2] at hpath
    | some pb2 =>
      simp only [hpb2, Except.ok.injEq] at hpath
      obtain rfl := hpath
      exact .inr hb

theorem vmfsReadFile_sub (h : VmfsOrdered data) (hsub : VmfsNoSubBlocks data)
    (hbmp : data.sbc = some bmp) (depth : ℕ) :
    VmfsReturns (vmfsReadFile data (depth + 2)) bmp.inode := by
  refine vmfsReadStep_returns fun path hpath => ⟨fun b hb => ?_, fun pos id hid hleaf => ?_⟩
  · exact vmfsReadFile_pointer h hsub (h.sbc_path hbmp hpath hb) depth
  · exact absurd hleaf (hsub bmp (.inr (.inr hbmp)) (depth + 1) path pos id hpath hid)

theorem vmfsReadFile_returns (h : VmfsOrdered data) (hsub : VmfsNoSubBlocks data) (depth : ℕ)
    (node : VmfsNode) : VmfsReturns (vmfsReadFile data (depth + 3)) node := by
  have hopened : ∀ bmp, data.Opened bmp →
      VmfsReturns (vmfsReadFile data (depth + 2)) bmp.inode := by
    rintro bmp (hbmp | hbmp | hbmp)
    · exact vmfsReadFile_pointer h hsub (.inl hbmp) (depth + 1)
    · exact vmfsReadFile_pointer h hsub (.inr hbmp) (depth + 1)
    · exact vmfsReadFile_sub h hsub hbmp depth
  refine vmfsReadStep_returns fun path hpath =>
    ⟨fun b hb => ?_, fun pos id hid hleaf sbc hsbc => ?_⟩
  · exact hopened b ((vmfsPath_spec hpath).1 b hb)
  · exact hopened sbc (.inr (.inr hsbc))

/-! ### The mount -/

/-- A meta file whose header is read has a path to it, and numbers that are checked. -/
theorem vmfsBitmapOpen_spec {depth : ℕ} (h : vmfsBitmapOpen data depth node = .done bmp) :
    bmp.inode = node ∧ bmp.Good data.layout ∧ ∃ path, vmfsPath data node = .ok path := by
  rw [vmfsBitmapOpen] at h
  cases hread : vmfsReadFile data depth node 0 512 with
  | done hdr =>
    rw [hread, done_bind] at h
    simp only at h
    split_ifs at h with hbad
    rw [not_or, not_or] at hbad
    obtain rfl := Outcome.done.inj h
    refine ⟨rfl, ?_, ?_⟩
    · exact ⟨Nat.pos_of_ne_zero hbad.1, Nat.pos_of_ne_zero hbad.2.1, Nat.not_lt.mp hbad.2.2⟩
    · cases depth with
      | zero => cases hread
      | succ depth =>
        rw [vmfsReadFile, vmfsReadStep] at hread
        split_ifs at hread with h1 h2 h3 h4
        · cases h4
        · cases hpath : vmfsPath data node with
          | error e => simp [hpath, Outcome.ofExcept] at hread
          | ok path => exact ⟨path, rfl⟩
  | failed e => simp [hread] at h
  | fault =>
    rw [hread] at h
    cases h
  | deep => simp [hread] at h

/-- While no meta file with blocks is opened, an inode that can be read is direct; before `.sbc.sf`
is, its blocks are found through pointer blocks at most. -/
theorem vmfsPath_before (hsbc : data.sbc = none) (h : vmfsPath data node = .ok path) :
    node.Direct ∨ (data.layout.v6 = false ∧ node.layoutType = 3 ∧ data.pbc ≠ none)
      ∨ (node.layoutType = 5 ∧ data.pb2 ≠ none) := by
  rw [vmfsPath] at h
  split at h
  · rename_i htype
    exact .inl (.inl htype)
  · simp [hsbc] at h
  · rename_i htype
    by_cases hv6 : data.layout.v6 = true
    · simp [hv6, hsbc] at h
    · refine .inr (.inl ⟨by simpa using hv6, htype, fun hnone => ?_⟩)
      simp [hv6, hnone] at h
  · rename_i htype
    refine .inr (.inr ⟨htype, fun hnone => ?_⟩)
    simp [hnone] at h
  · split_ifs at h with hinline
    exact .inl (.inr hinline)

/-- The invariant of a mount. -/
theorem VmfsMounting.ordered (h : VmfsMounting data) : VmfsOrdered data := by
  induction h with
  | boot hlayout hblocksize =>
    exact {
      layout := hlayout
      blocksize := Nat.lt_of_lt_of_le (by decide) hblocksize.1
      fdc := .inr rfl
      v5 := fun _ => rfl
      v6 := fun _ => rfl
      pbc := fun _ hnone => by cases hnone
      pb2 := fun _ hnone => by cases hnone
      sbc := fun _ hnone => by cases hnone }
  | fdc _ _ _ hopen ih => exact { ih with fdc := .inl (vmfsBitmapOpen_spec hopen).2.1 }
  | @pbc data depth blkId inode pbc _ hv5 hfirst _ hopen ih =>
    obtain ⟨hinode, hgood, path, hpath⟩ := vmfsBitmapOpen_spec hopen
    refine { ih with
      v6 := fun hv6 => absurd (hv5.symm.trans hv6) (by decide)
      pbc := fun bmp hbmp => ?_ }
    obtain rfl := Option.some.inj hbmp
    refine ⟨hgood, ?_⟩
    rw [hinode]
    rcases vmfsPath_before hfirst.2 hpath with hdirect | ⟨-, -, hsome⟩ | ⟨-, hsome⟩
    · exact hdirect
    · exact absurd hfirst.1 hsome
    · exact absurd (ih.v5 hv5) hsome
  | @pb2 data depth blkId inode pb2 _ hv6 hfirst _ hopen ih =>
    obtain ⟨hinode, hgood, path, hpath⟩ := vmfsBitmapOpen_spec hopen
    refine { ih with
      v5 := fun hv5 => absurd (hv5.symm.trans hv6) (by decide)
      pb2 := fun bmp hbmp => ?_ }
    obtain rfl := Option.some.inj hbmp
    refine ⟨hgood, ?_⟩
    rw [hinode]
    rcases vmfsPath_before hfirst.2 hpath with hdirect | ⟨hv5, -, -⟩ | ⟨-, hsome⟩
    · exact hdirect
    · exact absurd (hv5.symm.trans hv6) (by decide)
    · exact absurd hfirst.1 hsome
  | @sbc data depth blkId inode sbc _ hfirst _ hopen ih =>
    obtain ⟨hinode, hgood, path, hpath⟩ := vmfsBitmapOpen_spec hopen
    refine { ih with sbc := fun bmp hbmp => ?_ }
    obtain rfl := Option.some.inj hbmp
    refine ⟨hgood, ?_⟩
    rw [hinode]
    rcases vmfsPath_before hfirst hpath with hdirect | ⟨hv5, htype, -⟩ | ⟨htype, -⟩
    · exact .inl hdirect
    · exact .inr (.inl ⟨hv5, htype⟩)
    · exact .inr (.inr htype)

/-- The inode of a meta file at `pos`, which has two blocks of 64 KiB: block 64, and that with the
identifier `slot`. -/
def vmfsInodeFields (pos : ℕ) (slot : List UInt8) : List (ℕ × List UInt8) :=
  [(pos, [1, 0, 0xc0, 0x10]), (pos + 524, [5]), (pos + 532, [0, 0, 2]), (pos + 540, [0, 0, 1]),
    (pos + 580, [1]), (pos + 1024, [1, 0x10]), (pos + 1028, slot)]

/-- A volume of VMFS5 with blocks of 64 KiB. Block 64 is the first one of `.fdc.sf`, `.pbc.sf` and
`.sbc.sf`; it has a header for four items of 2048 bytes in each area, and their inodes. If
`looped`, the second block of `.sbc.sf` is the sub-block that starts at this block. -/
def vmfsVolume (looped : Bool) : Buf :=
  Buf.ofFields ([(0x400000, [4, 0, 0, 0, 1, 0, 0, 0, 0, 4, 0, 0, 0, 8, 0, 0, 0, 0, 1, 0, 16, 0, 0,
    0, 4])] ++ vmfsInodeFields 0x401000 [] ++ vmfsInodeFields 0x401800 []
    ++ vmfsInodeFields 0x402000 (if looped then [0x42] else []))

/-- The state with these meta files opened. -/
def vmfsVolumeData (looped : Bool) (fdc : VmfsBitmap) (pbc sbc : Option VmfsBitmap) :
    VmfsData :=
  ⟨vmfsLayoutV5, 0x10000, fun pos _ => .ok ((vmfsVolume looped).from pos), fdc, pbc, sbc, none⟩

/-- The inode that item `item` of `.fdc.sf` is. -/
def vmfsVolumeInode (looped : Bool) (item : ℕ) : VmfsNode :=
  vmfsInode vmfsLayoutV5 ((vmfsVolume looped).from (0x400800 + 0x800 * item))

/-- The meta file with the header in block 64. -/
def vmfsVolumeBitmap (inode : VmfsNode) : VmfsBitmap := ⟨inode, 4, 1, 0x400, 0x800, 0x10000, 16, 4⟩

/-- The first block of a meta file is block 64. -/
structure VmfsNode.First (node : VmfsNode) : Prop where
  type : node.type = 5
  zla : node.zla = 1
  blkSize : node.blkSize = 0x10000
  size : 0x10000 ≤ node.size
  slot : lostLe32 node.blocks 0 = 0x1001

section Volume

variable {looped : Bool} {fdc : VmfsBitmap} {pbc sbc : Option VmfsBitmap}

theorem vmfsReadFile_first (h : node.First) {pos len : ℕ} (hlen : 0 < len)
    (hpos : pos + len ≤ 0x10000) :
    vmfsReadFile (vmfsVolumeData looped fdc pbc sbc) 1 node pos len
      = .done ((vmfsVolume looped).list (0x400000 + pos) len) := by
  obtain ⟨n, rfl⟩ : ∃ n, len = n + 1 := ⟨len - 1, by omega⟩
  have hsize := h.size
  have hpath : vmfsPath (vmfsVolumeData looped fdc pbc sbc) node = .ok .direct := by
    have htype : node.layoutType = 1 := by
      rw [VmfsNode.layoutType, h.zla]
      rfl
    simp [vmfsPath, htype]
  have hget : vmfsGetBlock (vmfsReadFile (vmfsVolumeData looped fdc pbc sbc) 0)
      (vmfsVolumeData looped fdc pbc sbc) .direct node pos = .done 0x1001 := by
    have hdiv : pos / 0x10000 = 0 := Nat.div_eq_of_lt (by omega)
    simp [vmfsGetBlock, vmfsSlot, inside, h.blkSize, hdiv, vmfsVolumeData, vmfsLayoutV5,
      VMFS_INODE_UNION_MAX, h.slot]
  have hblock : vmfsReadBlock (vmfsReadFile (vmfsVolumeData looped fdc pbc sbc) 0)
      (vmfsVolumeData looped fdc pbc sbc) .direct node pos (n + 1)
      = .done ((vmfsVolume looped).list (0x400000 + pos) (n + 1)) := by
    have hmod : pos % 0x10000 = pos := Nat.mod_eq_of_lt (by omega)
    have hmin : min (0x10000 - pos) (n + 1) = n + 1 := by omega
    have hfb : vmfsFbItem vmfsLayoutV5 0x1001 * 0x10000 = 0x400000 := by decide
    have hleaf : vmfsLeafType .direct 0x1001 = 1 := by decide
    rw [vmfsReadBlock, hget, done_bind]
    simp only [hleaf, vmfsVolumeData, hfb, hmod, hmin, vmfsDevRead, Except.map, Outcome.ofExcept]
    rw [u64_of_lt (by omega), Buf.list_from]
  rw [vmfsReadFile, vmfsReadStep, if_neg (by simp [h.type]), if_neg (by simp [h.blkSize]),
    if_neg (by omega), if_neg (by omega), hpath]
  simp only [Outcome.ofExcept, done_bind]
  rw [vmfsReadLoop, if_neg (by omega), hblock, done_bind, Buf.length_list, Nat.sub_self]
  cases n <;> simp [vmfsReadLoop]

theorem vmfsInode_congr {p q : Buf} (h : ∀ i < 0x800, p i = q i) :
    vmfsInode vmfsLayoutV5 p = vmfsInode vmfsLayoutV5 q := by
  have h32 : ∀ k, k + 4 ≤ 0x800 → lostLe32 p k = lostLe32 q k := by
    intro k hk
    simp only [lostLe32, lostLe16, byteAt]
    rw [h k (by omega), h (k + 1) (by omega), h (k + 2) (by omega), h (k + 2 + 1) (by omega)]
  have h64 : ∀ k, k + 8 ≤ 0x800 → lostLe64 p k = lostLe64 q k := by
    intro k hk
    rw [lostLe64, lostLe64, h32 k (by omega), h32 (k + 4) (by omega)]
  have hblocks :
      (fun i => if i < vmfsLayoutV5.unionLen then p (vmfsLayoutV5.unionOfs + i) else 0)
        = fun i => if i < vmfsLayoutV5.unionLen then q (vmfsLayoutV5.unionOfs + i) else 0 := by
    funext i
    by_cases hi : i < vmfsLayoutV5.unionLen
    · rw [if_pos hi, if_pos hi]
      simp only [vmfsLayoutV5] at hi ⊢
      exact h _ (by omega)
    · rw [if_neg hi, if_neg hi]
  simp only [vmfsInode, hblocks]
  rw [h32 _ (by decide), h32 _ (by decide), h32 _ (by decide), h32 _ (by decide),
    h64 _ (by decide), h64 _ (by decide)]

theorem vmfsReadInode_item (hfdc : ∃ inode, fdc = vmfsVolumeBitmap inode ∧ inode.First) {item : ℕ}
    (hitem : item < 4)
    (hmagic : lostLe32 (vmfsVolume looped) (0x400800 + 0x800 * item) = 0x10c00001) :
    vmfsReadInode (vmfsVolumeData looped fdc pbc sbc) 1 (item * 2 ^ 22 + 4)
      = .done (vmfsVolumeInode looped item) := by
  obtain ⟨inode, rfl, hfirst⟩ := hfdc
  have htype : vmfsBlkType (item * 2 ^ 22 + 4) = 4 := by
    rw [vmfsBlkType]
    omega
  have hentry : (item * 2 ^ 22 + 4) / 2 ^ 6 % 2 ^ 16 = 0 := by omega
  have hid : (item * 2 ^ 22 + 4) / 2 ^ 22 % 2 ^ 10 = item := by omega
  have hpos : vmfsItemPos vmfsLayoutV5 (vmfsVolumeBitmap inode) 0 item
      = .done (0x800 + 0x800 * item) := by
    have hdiv : item / 4 = 0 := Nat.div_eq_of_lt hitem
    have hmod : item % 4 = item := Nat.mod_eq_of_lt hitem
    have hlt : ¬16 ≤ item := by omega
    simp only [vmfsItemPos, vmfsVolumeBitmap, vmfsLayoutV5, inside, Nat.zero_mul, Nat.zero_add,
      Nat.one_mul, hdiv, hmod, hlt, if_pos (by decide : 0 < 4), done_bind]
    rw [if_neg (by decide), u64_of_lt (by omega)]
    exact congrArg Outcome.done (by omega)
  rw [vmfsReadInode]
  simp only [htype, hentry, hid, ne_eq, not_true_eq_false, if_false]
  change (vmfsItemPos vmfsLayoutV5 (vmfsVolumeBitmap inode) 0 item >>= fun pos => _) = _
  rw [hpos, done_bind]
  change (vmfsReadFile (vmfsVolumeData looped (vmfsVolumeBitmap inode) pbc sbc) 1 inode
    (0x800 + 0x800 * item) 0x800 >>= fun raw => _) = _
  rw [vmfsReadFile_first hfirst (by decide) (by omega), done_bind]
  have hbytes : ∀ i < 0x800,
      ((vmfsVolume looped).list (0x400000 + (0x800 + 0x800 * item)) 0x800).getD i 0
        = (vmfsVolume looped).from (0x400800 + 0x800 * item) i := by
    intro i hi
    rw [Buf.getD_list, if_pos hi, Buf.from_apply]
    exact congrArg _ (by omega)
  have hlen : ((vmfsVolume looped).list (0x400000 + (0x800 + 0x800 * item)) 0x800).length = 0x800 :=
    Buf.length_list _ _ _
  generalize (vmfsVolume looped).list (0x400000 + (0x800 + 0x800 * item)) 0x800 = raw
    at hbytes hlen ⊢
  have hraw : lostLe32 (fun i => raw.getD i 0) 0 = 0x10c00001 := by
    rw [← hmagic]
    simp only [lostLe32, lostLe16, byteAt]
    rw [hbytes 0 (by decide), hbytes (0 + 1) (by decide), hbytes (0 + 2) (by decide),
      hbytes (0 + 2 + 1) (by decide)]
    rfl
  simp only [hraw, not_true_eq_false, if_false, hlen]
  rw [inside_pos (by simp [vmfsVolumeData, vmfsLayoutV5, VMFS_INODE_UNION_MAX]), done_bind]
  exact congrArg Outcome.done (vmfsInode_congr hbytes)

theorem vmfsBitmapOpen_first {inode : VmfsNode} (h : inode.First) :
    vmfsBitmapOpen (vmfsVolumeData looped fdc pbc sbc) 1 inode
      = .done (vmfsVolumeBitmap inode) := by
  have hfield : ∀ i, i + 4 ≤ 512 →
      lostLe32 (fun k => ((vmfsVolume looped).list 0x400000 512).getD k 0) i
        = lostLe32 (vmfsVolume looped) (0x400000 + i) := by
    intro i hi
    simp only [lostLe32, lostLe16, byteAt, Buf.getD_list]
    rw [if_pos (by omega), if_pos (by omega), if_pos (by omega), if_pos (by omega)]
    simp only [Nat.add_assoc]
  have hheader : ∀ l, lostLe32 (vmfsVolume l) (0x400000 + 0) = 4
      ∧ lostLe32 (vmfsVolume l) (0x400000 + 4) = 1
      ∧ lostLe32 (vmfsVolume l) (0x400000 + 8) = 0x400
      ∧ lostLe32 (vmfsVolume l) (0x400000 + 12) = 0x800
      ∧ lostLe32 (vmfsVolume l) (0x400000 + 16) = 0x10000
      ∧ lostLe32 (vmfsVolume l) (0x400000 + 20) = 16
      ∧ lostLe32 (vmfsVolume l) (0x400000 + 24) = 4 := by
    decide
  obtain ⟨h0, h4, h8, h12, h16, h20, h24⟩ := hheader looped
  rw [vmfsBitmapOpen, vmfsReadFile_first h (by decide) (by decide), done_bind]
  rw [Nat.add_zero] at h0
  simp only [Nat.add_zero, hfield 0 (by decide), hfield 4 (by decide), hfield 8 (by decide),
    hfield 12 (by decide), hfield 16 (by decide), hfield 20 (by decide), hfield 24 (by decide), h0,
    h4, h8, h12, h16, h20, h24]
  rw [if_neg (by simp [vmfsVolumeData, vmfsLayoutV5])]
  rfl

/-- The inodes of the three meta files start with block 64. -/
theorem vmfsVolumeInode_first {item : ℕ} (hitem : item = 1 ∨ item = 2 ∨ item = 3) :
    (vmfsVolumeInode looped item).First
      ∧ lostLe32 (vmfsVolume looped) (0x400800 + 0x800 * item) = 0x10c00001 := by
  have hitems : ∀ l, ∀ item ∈ [1, 2, 3], (vmfsVolumeInode l item).type = 5
      ∧ (vmfsVolumeInode l item).zla = 1 ∧ (vmfsVolumeInode l item).blkSize = 0x10000
      ∧ 0x10000 ≤ (vmfsVolumeInode l item).size
      ∧ lostLe32 (vmfsVolumeInode l item).blocks 0 = 0x1001
      ∧ lostLe32 (vmfsVolume l) (0x400800 + 0x800 * item) = 0x10c00001 := by
    decide
  obtain ⟨htype, hzla, hblk, hsize, hslot, hmagic⟩ := hitems looped item (by simpa using hitem)
  exact ⟨⟨htype, hzla, hblk, hsize, hslot⟩, hmagic⟩

/-- The state of the mount when the three meta files are opened. -/
def vmfsMounted (looped : Bool) : VmfsData :=
  vmfsVolumeData looped (vmfsVolumeBitmap (vmfsVolumeInode looped 2))
    (some (vmfsVolumeBitmap (vmfsVolumeInode looped 1)))
    (some (vmfsVolumeBitmap (vmfsVolumeInode looped 3)))

theorem vmfsBootInode_first : (vmfsBootInode vmfsLayoutV5 0x10000).First :=
  ⟨rfl, rfl, rfl, by decide, by decide⟩

theorem vmfsMounted_mounting (looped : Bool) : VmfsMounting (vmfsMounted looped) := by
  have hitem : ∀ item, item = 1 ∨ item = 2 ∨ item = 3 →
      (vmfsVolumeInode looped item).First
        ∧ lostLe32 (vmfsVolume looped) (0x400800 + 0x800 * item) = 0x10c00001 :=
    fun item => vmfsVolumeInode_first
  have hboot : VmfsMounting (vmfsVolumeData looped
      (vmfsVolumeBitmap (vmfsBootInode vmfsLayoutV5 0x10000)) none none) :=
    .fdc (.boot (.inl rfl) (by decide)) rfl (.inl rfl) (vmfsBitmapOpen_first vmfsBootInode_first)
  have hpbc : VmfsMounting (vmfsVolumeData looped
      (vmfsVolumeBitmap (vmfsBootInode vmfsLayoutV5 0x10000))
      (some (vmfsVolumeBitmap (vmfsVolumeInode looped 1))) none) :=
    .pbc hboot rfl ⟨rfl, rfl⟩
      (vmfsReadInode_item ⟨_, rfl, vmfsBootInode_first⟩ (by decide) (hitem 1 (by decide)).2)
      (vmfsBitmapOpen_first (hitem 1 (by decide)).1)
  have hfdc : VmfsMounting (vmfsVolumeData looped (vmfsVolumeBitmap (vmfsVolumeInode looped 2))
      (some (vmfsVolumeBitmap (vmfsVolumeInode looped 1))) none) :=
    .fdc hpbc rfl
      (.inr ⟨_, vmfsReadInode_item ⟨_, rfl, vmfsBootInode_first⟩ (by decide)
        (hitem 2 (by decide)).2⟩)
      (vmfsBitmapOpen_first (hitem 2 (by decide)).1)
  exact .sbc hfdc rfl
    (vmfsReadInode_item ⟨_, rfl, (hitem 2 (by decide)).1⟩ (by decide) (hitem 3 (by decide)).2)
    (vmfsBitmapOpen_first (hitem 3 (by decide)).1)

end Volume

/-- The item at 0x10800 of `.sbc.sf`, in its second block, is read through itself if that block is
the sub-block of that item. -/
theorem vmfsReadStep_looped {read : VmfsNode → ℕ → ℕ → VmfsRead}
    (h : read (vmfsVolumeInode true 3) 0x10800 0x800 = .deep) :
    vmfsReadStep read (vmfsMounted true) (vmfsVolumeInode true 3) 0x10800 0x800 = .deep := by
  obtain ⟨hfirst, -⟩ := @vmfsVolumeInode_first true 3 (.inr (.inr rfl))
  have hsize : (vmfsVolumeInode true 3).size = 0x20000 := by decide
  have hslot : lostLe32 (vmfsVolumeInode true 3).blocks 4 = 0x42 := by decide
  have hpath : vmfsPath (vmfsMounted true) (vmfsVolumeInode true 3) = .ok .direct := by
    have htype : (vmfsVolumeInode true 3).layoutType = 1 := by
      rw [VmfsNode.layoutType, hfirst.zla]
      rfl
    simp [vmfsPath, htype]
  have hget : vmfsGetBlock read (vmfsMounted true) .direct (vmfsVolumeInode true 3) 0x10800
      = .done 0x42 := by
    simp [vmfsGetBlock, vmfsSlot, inside, hfirst.blkSize, vmfsMounted, vmfsVolumeData,
      vmfsLayoutV5, VMFS_INODE_UNION_MAX, hslot]
  have hsub : vmfsGetSub read (vmfsMounted true) (vmfsVolumeBitmap (vmfsVolumeInode true 3)) 0x42
      0x800 = .deep := by
    have hpos : vmfsItemPos vmfsLayoutV5 (vmfsVolumeBitmap (vmfsVolumeInode true 3)) 1 0
        = .done 0x10800 := by
      simp [vmfsItemPos, vmfsVolumeBitmap, vmfsLayoutV5, inside, u64]
    change (vmfsItemPos vmfsLayoutV5 (vmfsVolumeBitmap (vmfsVolumeInode true 3)) 1 0
      >>= fun pos => _) = _
    rw [hpos]
    exact h
  have hblock : vmfsReadBlock read (vmfsMounted true) .direct (vmfsVolumeInode true 3) 0x10800
      0x800 = .deep := by
    have hleaf : vmfsLeafType .direct 0x42 = 2 := by decide
    have hsbc : (vmfsMounted true).sbc = some (vmfsVolumeBitmap (vmfsVolumeInode true 3)) := rfl
    rw [vmfsReadBlock, hget, done_bind]
    simp only [hleaf, hsbc]
    rw [inside_pos (by decide), done_bind]
    change (vmfsGetSub read (vmfsMounted true) (vmfsVolumeBitmap (vmfsVolumeInode true 3)) 0x42
      0x800 >>= fun sb => _) = _
    rw [hsub, deep_bind]
  rw [vmfsReadStep, if_neg (by simp [hfirst.type]), if_neg (by simp [hfirst.blkSize]),
    if_neg (by simp [hsize]), if_neg (by decide), hpath]
  change vmfsReadLoop read (vmfsMounted true) .direct (vmfsVolumeInode true 3) (0x7ff + 1) 0x10800
    0x800 = _
  rw [vmfsReadLoop, if_neg (by decide), hblock, deep_bind]

/-- A block of an inode without a meta file is in one of the slots. -/
theorem vmfsGetBlock_direct {pos id : ℕ}
    (h : vmfsGetBlock read data .direct node pos = .done id) :
    ∃ index < data.layout.blkCount, vmfsSlot data.layout node index = .done id := by
  rw [vmfsGetBlock, inside] at h
  split_ifs at h with hpos
  · simp only [done_bind] at h
    split_ifs at h with hcount
    exact ⟨_, Nat.not_le.mp hcount, h⟩
  · cases h

/-- The volume is zero behind the first two slots of `.pbc.sf` and of `.sbc.sf`. -/
theorem vmfsVolume_eq_zero {i : ℕ} (h : (0x401408 ≤ i ∧ i < 0x401800) ∨ 0x402408 ≤ i) :
    vmfsVolume false i = 0 := by
  refine Buf.ofFields_eq_zero ?_
  simp only [vmfsInodeFields, List.cons_append, List.nil_append, List.forall_mem_cons,
    List.length_cons, List.length_nil]
  simp
  omega

/-- The slots of these meta files after the first two name no block. -/
theorem vmfsVolumeInode_slot {item index : ℕ} (hitem : item = 1 ∨ item = 3) (h2 : 2 ≤ index)
    (hindex : index < 256) : lostLe32 (vmfsVolumeInode false item).blocks (4 * index) = 0 := by
  have hbyte : ∀ k < 4, byteAt (vmfsVolumeInode false item).blocks (4 * index + k) = 0 := by
    intro k hk
    have hin : 4 * index + k < vmfsLayoutV5.unionLen := by
      change _ < 1024
      omega
    have hzero : vmfsVolume false (0x400800 + 0x800 * item + (1024 + (4 * index + k))) = 0 :=
      vmfsVolume_eq_zero (by omega)
    rw [byteAt]
    exact congrArg UInt8.toNat ((if_pos hin).trans hzero)
  simp only [lostLe32, lostLe16, Nat.add_assoc]
  rw [hbyte 1 (by decide), hbyte 2 (by decide), hbyte (2 + 1) (by decide)]
  exact congrArg (· + (2 ^ 8 * 0 + 2 ^ 16 * (0 + 2 ^ 8 * 0))) (hbyte 0 (by decide))

/-- The slots of both meta files name file blocks, or none. -/
theorem vmfsMounted_noSubBlocks : VmfsNoSubBlocks (vmfsMounted false) := by
  have hslots : ∀ item, item = 1 ∨ item = 3 → ∀ i < 256,
      vmfsLeafType .direct (lostLe32 (vmfsVolumeInode false item).blocks (4 * i)) ≠ 2 := by
    intro item hitem i hi
    by_cases h2 : 2 ≤ i
    · rw [vmfsVolumeInode_slot hitem h2 hi]
      decide
    · have hfirst : ∀ item ∈ [1, 3], ∀ i ∈ [0, 1],
          vmfsLeafType .direct (lostLe32 (vmfsVolumeInode false item).blocks (4 * i)) ≠ 2 := by
        decide
      exact hfirst item (by simpa using hitem) i (by simp; omega)
  intro bmp hbmp depth path pos id hpath hid
  obtain ⟨item, hitem, hinode⟩ : ∃ item, (item = 1 ∨ item = 3)
      ∧ bmp.inode = vmfsVolumeInode false item := by
    rcases hbmp with hbmp | hbmp | hbmp
    · exact ⟨1, .inl rfl, congrArg VmfsBitmap.inode (Option.some.inj hbmp).symm⟩
    · cases hbmp
    · exact ⟨3, .inr rfl, congrArg VmfsBitmap.inode (Option.some.inj hbmp).symm⟩
  obtain ⟨hfirst, -⟩ := @vmfsVolumeInode_first false item (by omega)
  have htype : (vmfsVolumeInode false item).layoutType = 1 := by
    rw [VmfsNode.layoutType, hfirst.zla]
    rfl
  rw [hinode] at hpath hid
  rw [vmfsPath, htype] at hpath
  obtain rfl := Except.ok.inj hpath
  obtain ⟨index, hindex, hslot⟩ := vmfsGetBlock_direct hid
  have hid : vmfsSlot vmfsLayoutV5 (vmfsVolumeInode false item) index
      = .done (lostLe32 (vmfsVolumeInode false item).blocks (0 + 4 * index)) :=
    inside_pos ⟨hindex, by
      change index < 256 at hindex
      simp only [vmfsLayoutV5, VMFS_INODE_UNION_MAX]
      omega⟩
  obtain rfl := Outcome.done.inj (hid.symm.trans hslot)
  rw [Nat.zero_add]
  exact hslots item hitem index hindex

end FsRover
