import FsRover.Fs.Vmfs

/-!
# Buffers of VMFS

No read of VMFS leaves a buffer, whatever the volume holds: the slots of an inode, the pointer
blocks, the sub-blocks and the data in an inode are used inside of their bounds.

## Main definitions

* `FsRover.VmfsOrdered` : what the order of `grub_vmfs_mount` ensures.

## Main results

* `FsRover.vmfsPath_spec` : the meta file that a read goes through is opened.
* `FsRover.vmfsReadStep_safe`, `FsRover.vmfsReadFile_safe` : reads of files.
* `FsRover.vmfsReadInode_safe` : reads of inodes.
-/

namespace FsRover

open Outcome

/-! ### Invariants -/

/-- What `grub_vmfs_bitmap_open` checks. -/
structure VmfsBitmap.Good (layout : VmfsLayout) (bmp : VmfsBitmap) : Prop where
  items : 0 < bmp.itemsPerEntry
  entries : 0 < bmp.entriesPerArea
  dataSize : layout.blkBytes ≤ bmp.dataSize

/-- The blocks of the inode are found without a meta file. -/
def VmfsNode.Direct (node : VmfsNode) : Prop :=
  node.layoutType = 1 ∨ (node.layoutType = 4 ∧ 4301 ≤ node.zla)

/-- The meta files are opened one after the other, and each through those before it. -/
structure VmfsOrdered (data : VmfsData) : Prop where
  layout : data.layout = vmfsLayoutV5 ∨ data.layout = vmfsLayoutV6
  blocksize : 0 < data.blocksize
  fdc : data.fdc.Good data.layout ∨ data.fdc.dataSize = 0
  v5 : data.layout.v6 = false → data.pb2 = none
  v6 : data.layout.v6 = true → data.pbc = none
  pbc : ∀ bmp, data.pbc = some bmp → bmp.Good data.layout ∧ bmp.inode.Direct
  pb2 : ∀ bmp, data.pb2 = some bmp → bmp.Good data.layout ∧ bmp.inode.Direct
  sbc : ∀ bmp, data.sbc = some bmp → bmp.Good data.layout
    ∧ (bmp.inode.Direct ∨ (data.layout.v6 = false ∧ bmp.inode.layoutType = 3)
      ∨ bmp.inode.layoutType = 5)

/-- One of the meta files with pointer blocks or sub-blocks. -/
def VmfsData.Opened (data : VmfsData) (bmp : VmfsBitmap) : Prop :=
  data.pbc = some bmp ∨ data.pb2 = some bmp ∨ data.sbc = some bmp

/-- The meta file whose items a path goes through. -/
def VmfsPath.bitmap : VmfsPath → Option VmfsBitmap
  | direct => none
  | pointer pbc => some pbc
  | subPointer sbc => some sbc
  | double sbc => some sbc
  | second pb2 => some pb2
  | inline => none

variable {data : VmfsData} {node : VmfsNode} {path : VmfsPath} {bmp : VmfsBitmap}
  {read : VmfsNode → ℕ → ℕ → VmfsRead}

theorem VmfsOrdered.good (h : VmfsOrdered data) (hbmp : data.Opened bmp) :
    bmp.Good data.layout := by
  rcases hbmp with hbmp | hbmp | hbmp
  · exact (h.pbc bmp hbmp).1
  · exact (h.pb2 bmp hbmp).1
  · exact (h.sbc bmp hbmp).1

/-- The meta file of a path is opened; a path of two levels is one of VMFS6. -/
theorem vmfsPath_spec (h : vmfsPath data node = .ok path) :
    (∀ bmp, path.bitmap = some bmp → data.Opened bmp)
      ∧ ∀ sbc, path = .double sbc → data.layout.v6 = true := by
  rw [vmfsPath] at h
  split at h
  · obtain rfl := Except.ok.inj h
    simp [VmfsPath.bitmap]
  · split at h
    · cases h
    · obtain rfl := Except.ok.inj h
      simp [VmfsPath.bitmap]
  · by_cases hv6 : data.layout.v6 = true
    · simp only [hv6, if_true] at h
      cases hsbc : data.sbc with
      | none => simp [hsbc] at h
      | some sbc =>
        rw [hsbc] at h
        obtain rfl := Except.ok.inj h
        refine ⟨fun bmp hbmp => .inr (.inr ?_), fun _ _ => hv6⟩
        rw [hsbc]
        split_ifs at hbmp <;> exact hbmp
    · have hv5 : data.layout.v6 = false := by simpa using hv6
      simp only [hv5, Bool.false_eq_true, if_false] at h
      cases hpbc : data.pbc with
      | none => simp [hpbc] at h
      | some pbc =>
        simp only [hpbc, Except.ok.injEq] at h
        obtain rfl := h
        exact ⟨fun bmp hbmp => .inl (hpbc.trans hbmp), fun _ hdouble => by cases hdouble⟩
  · cases hpb2 : data.pb2 with
    | none => simp [hpb2] at h
    | some pb2 =>
      simp only [hpb2, Except.ok.injEq] at h
      obtain rfl := h
      exact ⟨fun bmp hbmp => .inr (.inl (hpb2.trans hbmp)), fun _ hdouble => by cases hdouble⟩
  · split_ifs at h
    obtain rfl := Except.ok.inj h
    simp [VmfsPath.bitmap]

/-- An inode without a meta file has its blocks in its slots, or its data in itself. -/
theorem vmfsPath_direct (hdirect : node.Direct) (h : vmfsPath data node = .ok path) :
    path.bitmap = none := by
  rw [vmfsPath] at h
  rcases hdirect with htype | ⟨htype, hbias⟩
  · rw [htype] at h
    obtain rfl := Except.ok.inj h
    rfl
  · rw [htype] at h
    simp only [true_and, if_pos hbias, Except.ok.injEq] at h
    obtain rfl := h
    rfl

/-! ### Buffers -/

theorem VmfsOrdered.blkBytes_pos (h : VmfsOrdered data) : 0 < data.layout.blkBytes := by
  rcases h.layout with hl | hl <;> rw [hl] <;> decide

theorem vmfsSlot_safe (h : VmfsOrdered data) {index : ℕ} (hlt : index < data.layout.blkCount) :
    (vmfsSlot data.layout node index).Safe fun _ => True := by
  refine safe_inside ⟨hlt, ?_⟩ trivial
  rcases h.layout with hl | hl
  · rw [hl] at hlt ⊢
    simp only [vmfsLayoutV5, VMFS_INODE_UNION_MAX] at hlt ⊢
    omega
  · rw [hl] at hlt ⊢
    simp only [vmfsLayoutV6, VMFS_INODE_UNION_MAX] at hlt ⊢
    omega

theorem vmfsItemPos_safe {layout : VmfsLayout} (hgood : bmp.Good layout) (entry item : ℕ) :
    (vmfsItemPos layout bmp entry item).Safe fun _ => True := by
  rw [vmfsItemPos]
  refine Safe.bind (Q := fun _ => True)
    (safe_inside (Nat.mul_pos hgood.entries hgood.items) trivial) fun area _ => ?_
  split_ifs <;> trivial

/-- A read that succeeds returns as many bytes as it is asked for. -/
def VmfsWhole (read : VmfsNode → ℕ → ℕ → VmfsRead) : Prop :=
  ∀ node pos len, (read node pos len).Safe fun bytes => bytes.length = len

theorem vmfsGetItem_safe (hread : VmfsWhole read) (hgood : bmp.Good data.layout) {room : ℕ}
    (hroom : bmp.dataSize ≤ room) (entry item : ℕ) :
    (vmfsGetItem read data bmp entry item room).Safe fun bytes => bytes.length = bmp.dataSize := by
  rw [vmfsGetItem]
  refine (vmfsItemPos_safe hgood entry item).bind fun pos _ => ?_
  refine Safe.bind (Q := fun _ => True) (safe_inside hroom trivial) fun _ _ => ?_
  exact hread bmp.inode pos bmp.dataSize

theorem vmfsGetPointer_safe (h : VmfsOrdered data) (hgood : bmp.Good data.layout)
    {item : ℕ → VmfsRead} (hitem : ∀ id, (item id).Safe fun bytes => bytes.length = bmp.dataSize)
    (blkIndex : ℕ) : (vmfsGetPointer data bmp item node blkIndex).Safe fun _ => True := by
  have hper : 0 < bmp.dataSize / data.layout.blkBytes := Nat.div_pos hgood.dataSize h.blkBytes_pos
  rw [vmfsGetPointer]
  refine Safe.bind (Q := fun _ => True) (safe_inside hper trivial) fun pbIndex _ => ?_
  split_ifs with hcount
  · trivial
  · refine (vmfsSlot_safe h (Nat.not_le.mp hcount)).bind fun id _ => ?_
    split_ifs
    · trivial
    · refine (hitem id).bind fun pb hpb => safe_inside ?_ trivial
      have hmod := Nat.mod_lt blkIndex hper
      calc data.layout.blkBytes * (blkIndex % (bmp.dataSize / data.layout.blkBytes) + 1)
          ≤ data.layout.blkBytes * (bmp.dataSize / data.layout.blkBytes) :=
            Nat.mul_le_mul_left _ hmod
        _ ≤ bmp.dataSize := Nat.mul_div_le _ _
        _ = pb.length := hpb.symm

theorem vmfsGetBlock2_safe (h : VmfsOrdered data) (hv6 : data.layout.v6 = true)
    (hread : VmfsWhole read) (hgood : bmp.Good data.layout) (blkIndex : ℕ) :
    (vmfsGetBlock2 read data bmp node blkIndex bmp.dataSize).Safe fun _ => True := by
  have hbytes : data.layout.blkBytes = 8 := by
    rcases h.layout with hl | hl
    · rw [hl] at hv6
      cases hv6
    · rw [hl]
      rfl
  have hsize := hgood.dataSize
  have hper : 0 < bmp.dataSize / 8 := by omega
  have hsub := fun id => @vmfsGetItem_safe data bmp read hread hgood bmp.dataSize (Nat.le_refl _)
    (vmfsSbEntry data.layout id) (vmfsSbItem data.layout id)
  have hsecond : blkIndex % (bmp.dataSize / 8 * (bmp.dataSize / 8)) / (bmp.dataSize / 8)
      < bmp.dataSize / 8 :=
    Nat.div_lt_of_lt_mul (Nat.mod_lt _ (Nat.mul_pos hper hper))
  have hleaf := Nat.mod_lt (blkIndex % (bmp.dataSize / 8 * (bmp.dataSize / 8))) hper
  rw [vmfsGetBlock2]
  refine Safe.bind (Q := fun _ => True) (safe_inside hper trivial) fun primary _ => ?_
  split_ifs with hcount
  · trivial
  · refine (vmfsSlot_safe h (Nat.not_le.mp hcount)).bind fun id _ => ?_
    split_ifs
    · trivial
    · refine (hsub id).bind fun pb hpb => ?_
      refine Safe.bind (Q := fun _ => True) (safe_inside (by omega) trivial) fun id' _ => ?_
      split_ifs
      · trivial
      · exact (hsub id').bind fun pb' hpb' => safe_inside (by omega) trivial

theorem vmfsGetBlock_safe (h : VmfsOrdered data) (hread : VmfsWhole read)
    (hpath : vmfsPath data node = .ok path) (hpos : 0 < node.blkSize) (pos : ℕ) :
    (vmfsGetBlock read data path node pos).Safe fun _ => True := by
  obtain ⟨hopened, hdouble⟩ := vmfsPath_spec hpath
  rw [vmfsGetBlock]
  refine Safe.bind (Q := fun _ => True) (safe_inside hpos trivial) fun blkIndex _ => ?_
  cases path with
  | direct =>
    simp only
    split_ifs with hcount
    · trivial
    · exact vmfsSlot_safe h (Nat.not_le.mp hcount)
  | double sbc =>
    exact vmfsGetBlock2_safe h (hdouble sbc rfl) hread (h.good (hopened sbc rfl)) blkIndex
  | subPointer sbc =>
    have hgood := h.good (hopened sbc rfl)
    exact vmfsGetPointer_safe h hgood
      (fun id => vmfsGetItem_safe hread hgood (Nat.le_refl _) _ _) blkIndex
  | pointer pbc =>
    have hgood := h.good (hopened pbc rfl)
    refine vmfsGetPointer_safe h hgood (fun id => ?_) blkIndex
    split_ifs
    · trivial
    · exact vmfsGetItem_safe hread hgood (Nat.le_refl _) _ _
  | second pb2 =>
    have hgood := h.good (hopened pb2 rfl)
    exact vmfsGetPointer_safe h hgood
      (fun id => vmfsGetItem_safe hread hgood (Nat.le_refl _) _ _) blkIndex
  | inline => trivial

theorem vmfsDevRead_safe (pos len : ℕ) :
    (vmfsDevRead data pos len).Safe fun bytes => bytes.length = len := by
  refine safe_ofExcept fun bytes hbytes => ?_
  cases hvolume : data.volume pos len with
  | error e => simp [hvolume, Except.map] at hbytes
  | ok p =>
    simp only [hvolume, Except.map, Except.ok.injEq] at hbytes
    rw [← hbytes, Buf.length_list]

theorem vmfsReadInline_safe (h : VmfsOrdered data) (path : VmfsPath) (pos : ℕ) {len : ℕ}
    (hlen : 0 < len) : (vmfsReadInline data.layout path node pos len).Safe
      fun bytes => 0 < bytes.length ∧ bytes.length ≤ len := by
  cases path with
  | inline =>
    rw [vmfsReadInline]
    split_ifs with hunion
    · trivial
    · refine safe_inside ?_ ?_
      · rcases h.layout with hl | hl
        · rw [hl] at hunion ⊢
          simp only [vmfsLayoutV5, VMFS_INODE_UNION_MAX] at hunion ⊢
          omega
        · rw [hl] at hunion ⊢
          simp only [vmfsLayoutV6, VMFS_INODE_UNION_MAX] at hunion ⊢
          omega
      · rw [Buf.length_list]
        omega
  | _ => exact True.intro

/-- A round of the loop reads a byte at least, and no more than are left. -/
theorem vmfsReadBlock_safe (h : VmfsOrdered data) (hread : VmfsWhole read)
    (hpath : vmfsPath data node = .ok path) (hpos : 0 < node.blkSize) (pos : ℕ) {len : ℕ}
    (hlen : 0 < len) : (vmfsReadBlock read data path node pos len).Safe
      fun bytes => 0 < bytes.length ∧ bytes.length ≤ len := by
  have hfile : ∀ id size, 0 < size → (vmfsDevRead data
      (u64 (vmfsFbItem data.layout id * data.blocksize + pos % size))
      (min (size - pos % size) len)).Safe fun bytes => 0 < bytes.length ∧ bytes.length ≤ len := by
    intro id size hsize
    have hmod := Nat.mod_lt pos hsize
    exact (vmfsDevRead_safe _ _).mono fun bytes hbytes => by omega
  rw [vmfsReadBlock]
  refine (vmfsGetBlock_safe h hread hpath hpos pos).bind fun id _ => ?_
  simp only
  split
  · have hmod := Nat.mod_lt pos hpos
    change 0 < (List.replicate _ _).length ∧ (List.replicate _ _).length ≤ len
    rw [List.length_replicate]
    omega
  · exact hfile id _ h.blocksize
  · exact hfile id _ h.blocksize
  · exact hfile id _ (by decide)
  · cases hsbc : data.sbc with
    | none => trivial
    | some sbc =>
      have hgood := h.good (.inr (.inr hsbc))
      have hsize := Nat.lt_of_lt_of_le h.blkBytes_pos hgood.dataSize
      have hmod := Nat.mod_lt pos hsize
      simp only
      refine Safe.bind (Q := fun off => off = pos % sbc.dataSize) (safe_inside hsize rfl)
        fun off hoff => ?_
      refine (vmfsGetItem_safe hread hgood (Nat.le_refl _) _ _).bind fun sb hsb => ?_
      refine safe_inside (by omega) ?_
      rw [List.length_take, List.length_drop]
      omega
  · exact vmfsReadInline_safe h path pos hlen
  · trivial

theorem vmfsReadLoop_safe (h : VmfsOrdered data) (hread : VmfsWhole read)
    (hpath : vmfsPath data node = .ok path) (hpos : 0 < node.blkSize) :
    ∀ {rounds pos len : ℕ}, len ≤ rounds →
      (vmfsReadLoop read data path node rounds pos len).Safe fun bytes => bytes.length = len := by
  intro rounds
  induction rounds with
  | zero => exact fun hlen => (Nat.le_zero.mp hlen).symm
  | succ rounds ih =>
    intro pos len hlen
    rw [vmfsReadLoop]
    split_ifs with hzero
    · exact hzero.symm
    · refine (vmfsReadBlock_safe h hread hpath hpos pos (Nat.pos_of_ne_zero hzero)).bind
        fun bytes hbytes => ?_
      refine Safe.bind (ih (by omega)) fun rest hrest => ?_
      change (bytes ++ rest).length = len
      rw [List.length_append]
      omega

/-- A call leaves no buffer if the calls of itself do not. -/
theorem vmfsReadStep_safe (h : VmfsOrdered data) (hread : VmfsWhole read) :
    VmfsWhole (vmfsReadStep read data) := by
  intro node pos len
  rw [vmfsReadStep]
  split_ifs with htype hblk hrange hzero
  · trivial
  · trivial
  · trivial
  · exact hzero.symm
  · refine Safe.bind (Q := fun path => vmfsPath data node = .ok path)
      (safe_ofExcept fun _ hpath => hpath) fun path hpath => ?_
    exact vmfsReadLoop_safe h hread hpath (Nat.pos_of_ne_zero hblk) (Nat.le_refl _)

theorem vmfsReadFile_safe (h : VmfsOrdered data) (depth : ℕ) :
    VmfsWhole (vmfsReadFile data depth) := by
  induction depth with
  | zero => exact fun _ _ _ => trivial
  | succ depth ih => exact vmfsReadStep_safe h ih

/-- What is read of an inode lies inside of its item. -/
theorem vmfsReadInode_safe (h : VmfsOrdered data) (depth blkId : ℕ) :
    (vmfsReadInode data depth blkId).Safe fun _ => True := by
  rw [vmfsReadInode]
  simp only
  split_ifs with htype hsize
  · trivial
  · trivial
  · have hgood : data.fdc.Good data.layout := by
      refine h.fdc.resolve_right fun hzero => ?_
      rcases h.layout with hl | hl <;> rw [hl, hzero] at hsize <;> exact hsize (by decide)
    refine (vmfsItemPos_safe hgood _ _).bind fun pos _ => ?_
    refine (vmfsReadFile_safe h depth _ _ _).bind fun raw hraw => ?_
    refine Safe.bind (Q := fun _ => True) (safe_inside ?_ trivial) fun _ _ => ?_
    · rw [hraw]
      rcases h.layout with hl | hl <;> rw [hl] <;> decide
    · split_ifs <;> trivial

end FsRover
