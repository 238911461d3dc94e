import FsRover.Fs.UbifsMap
import FsRover.Fs.UbifsRead

/-!
# UBIFS volumes read as their index says

The walk, the reads of files and the map of a UBI image, put together; and a tree that is too deep for
the driver.

## Main definitions

* `FsRover.UbifsExact` : what holds of every volume.
* `FsRover.deepData` : a volume whose index has a level too many.
-/

namespace FsRover

open Outcome Memory RangeWalk

/-- A leaf that can be read and, if it is a data node of the inode, decoded. -/
def UbifsLeafGood (codecs : UbifsCodecs) (data : UbifsData) (ino : ℕ) (branch : UbifsBranch) : Prop :=
  ∃ node, ubifsLeafNode data branch = done node ∧ (ubifsDataHeader ino node = done none
    ∨ (ubifsDataNode codecs ino node).isSome = true)

theorem UbifsLeafGood.ok {codecs : UbifsCodecs} {data : UbifsData} {ino pos len : ℕ}
    {branch : UbifsBranch} (h : UbifsLeafGood codecs data ino branch) :
    UbifsLeafOk codecs data ino pos len branch := by
  obtain ⟨node, hnode, hgood⟩ := h
  obtain ⟨r, hheader, hr⟩ := ubifsDataHeader_done ino (ubifsLeafNode_accepted hnode)
  cases r with
  | none => exact ⟨node, none, hnode, by rw [ubifsDataPart, hheader, done_bind]⟩
  | some h =>
    rw [ubifsDataNode, hheader] at hgood
    rcases hgood with hnone | hsome
    · cases hnone
    simp only at hsome
    split_ifs at hsome with hbad
    · cases hsome
    cases hdecode : codecs.decode h.compr (Buf.list node.byte UBIFS_DATA_LEN h.csize) h.dsize with
    | error e =>
      rw [hdecode] at hsome
      cases hsome
    | ok out =>
      obtain ⟨part, hpart⟩ := ubifsDataPart_done pos len hheader (hr h rfl).1 hbad hdecode
      exact ⟨node, part, hnode, hpart⟩

/-- What holds of every volume. `walk`, `read`, `returns` and `part` are about an index of no more
levels than the driver goes down. -/
structure UbifsExact (codecs : UbifsCodecs) (data : UbifsData) : Prop where
  walk : ∀ {σ : Type} (cb : Mem → σ → Outcome GrubError (σ × Bool)) (lo hi : UbifsKey) (s : σ)
    (leaves : List UbifsBranch), UbifsTree data (UBIFS_MAX_DEPTH + 1) (ubifsRoot data) leaves →
      UbifsSorted leaves → grubUbifsWalkRange data lo hi cb s
        = feed (ubifsHandLeaf data cb) (within lo hi UbifsBranch.key leaves) s
  walkEnds : ∀ {σ : Type} (cb : Mem → σ → Outcome GrubError (σ × Bool)) (lo hi : UbifsKey) (s : σ),
    (∀ leaf s, UbifsAccepted leaf → (cb leaf s).Ends fun _ => True) →
      (grubUbifsWalkRange data lo hi cb s).Ends fun _ => True
  readEnds : ∀ ino pos len, pos + len < 2 ^ 64 →
    (grubUbifsReadFile codecs data ino pos len).Ends fun _ => True
  read : ∀ leaves, UbifsIndexed data leaves → ∀ ino pos len bytes, pos + len < 2 ^ 64 →
    grubUbifsReadFile codecs data ino pos len = done bytes →
      bytes = (List.range' pos len).map (ubifsFileByte codecs data ino leaves)
  returns : ∀ leaves, UbifsIndexed data leaves → ∀ ino pos len, pos + len < 2 ^ 64 →
    (pos + len - 1) / UBIFS_BLOCK_SIZE ≤ UBIFS_S_KEY_BLOCK_MASK →
      (∀ b ∈ ubifsReadLeaves ino pos len leaves, UbifsLeafGood codecs data ino b) →
        ∃ bytes, grubUbifsReadFile codecs data ino pos len = done bytes
  part : ∀ leaves, UbifsIndexed data leaves → ∀ ino pos len bytes, pos + len < 2 ^ 64 →
    grubUbifsReadFile codecs data ino pos len = done bytes → ∀ pos' len', pos ≤ pos' →
      pos' + len' ≤ pos + len → grubUbifsReadFile codecs data ino pos' len'
        = done ((bytes.drop (pos' - pos)).take len')
  newest : ∀ image name mapped, grubUbifsMapUbi image = .ok (mapped, name) →
    data.disk = mapped.disk → data.lebOff = mapped.lebOff → data.lebMapCnt = mapped.lebMapCnt →
      ∃ pebSize dataOffset volId dataPad, ubiDetect image = .ok (pebSize, dataOffset)
        ∧ (ubiFind image pebSize dataOffset).vol = some (volId, dataPad)
        ∧ ∀ lnum offs len p, grubUbifsLebRead data lnum offs len = .ok p → ∃ base,
          UbiNewest image pebSize dataOffset volId (List.range (image.diskSize / pebSize)) lnum
            (some base)
          ∧ p = image.disk.bytes.from (u64 (base + offs))

/-- Index walks, reads of files and mapped eraseblocks are exact. -/
theorem ubifs_exact (codecs : UbifsCodecs) (data : UbifsData) : UbifsExact codecs data where
  walk _ _ _ s _ htree hsorted := grubUbifsWalk_eq htree hsorted s
  walkEnds _ _ _ _ hcb :=
    grubUbifsWalk_ends (P := fun _ => True) (fun leaf s hleaf _ => hcb leaf s hleaf) _ _ trivial
  readEnds ino _ _ hsum := grubUbifsReadFile_ends codecs data ino hsum
  read _ hindex _ _ _ _ hsum hread := (grubUbifsReadFile_eq hindex hsum hread).1
  returns _ hindex _ _ _ hsum hend hgood :=
    grubUbifsReadFile_returns codecs _ _ _ hindex hsum (fun _ => hend) fun _ b hb => (hgood b hb).ok
  part _ hindex _ _ _ _ hsum hread _ _ hpos hend := grubUbifsReadFile_part hindex hsum hread hpos hend
  newest _ _ _ hmap hdisk hlebOff hcnt := grubUbifsLebRead_newest hmap hdisk hlebOff hcnt

/-! ### A tree that is too deep -/

/-- Index node `n` of a chain behind its checksum: one branch to the next. The last one, behind the
end of the chain, is a leaf. -/
def deepBody (n : ℕ) : List UInt8 :=
  [0, 0, 0, 0, 0, 0, 0, 0, 48, 0, 0, 0, if n = 66 then 1 else 9, 0, 0, 0, 1, 0,
    UInt8.ofNat (65 - n), 0, UInt8.ofNat (n + 1), 0, 0, 0, 0, 0, 0, 0, 48, 0, 0, 0,
    0, 0, 0, 0, 0, 0, 0, 0]

/-- The node with its checksum. -/
def deepNode (n : ℕ) : List UInt8 :=
  let crc := grubUbifsCrc (deepBody n)
  [0x31, 0x18, 0x10, 0x06, UInt8.ofNat crc, UInt8.ofNat (crc / 2 ^ 8), UInt8.ofNat (crc / 2 ^ 16),
    UInt8.ofNat (crc / 2 ^ 24)] ++ deepBody n

/-- A volume with eraseblocks of 64 bytes, each with a node of the chain. -/
def deepData : UbifsData where
  disk := ⟨fun i => (deepNode (i / 64)).getD (i % 64) 0, some 9⟩
  diskSize := 4608
  lebOff := none
  lebMapCnt := 0
  lebSize := 64
  lebCnt := 68
  rootLnum := 0
  rootOffs := 0
  rootLen := 48

def deepBranch (n : ℕ) : UbifsBranch := ⟨n, 0, 48, toLex (0, 0)⟩

theorem deepData_read {n : ℕ} (hn : n ≤ 66) : grubUbifsLebRead deepData n 0 48
    = .ok (deepData.disk.bytes.from (64 * n)) := by
  rw [grubUbifsLebRead, if_neg (by simp only [deepData]; omega)]
  have hbase : ubifsLebBase deepData n = .ok (64 * n) := by
    simp only [ubifsLebBase, deepData, Nat.mul_comm]
  have hdisk : ¬ deepData.diskSize < u64 (64 * n + 0 + 48) := by
    rw [u64_of_lt (by omega)]
    simp only [deepData]
    omega
  simp only [hbase]
  rw [if_neg hdisk, Nat.add_zero, u64_of_lt (by omega), SizedDisk.read]
  simp only [deepData]
  rw [if_pos (by omega)]

theorem deepData_byte {n k : ℕ} (hk : k < 64) :
    deepData.disk.bytes.from (64 * n) k = (deepNode n).getD k 0 := by
  have hquot : (64 * n + k) / 64 = n := by omega
  have hrem : (64 * n + k) % 64 = k := by omega
  simp only [deepData, Buf.from_apply, hquot, hrem]

theorem deepNode_crc (n : ℕ) : lostLe32 (fun k => (deepNode n).getD k 0) 4
    = grubUbifsCrc (deepBody n) := by
  have hlt : grubUbifsCrc (deepBody n) < 2 ^ 32 := UInt32.toNat_lt _
  simp only [lostLe32, lostLe16, byteAt, deepNode, List.cons_append, List.getD_cons_succ,
    List.getD_cons_zero, UInt8.toNat_ofNat']
  omega

theorem deepData_check {n : ℕ} (p : Buf) (hp : ∀ k < 64, p k = (deepNode n).getD k 0) :
    grubUbifsCheckNode ⟨48, p⟩ (if n = 66 then 1 else 9) = done () := by
  have hfield : ∀ i, i + 4 ≤ 64 → lostLe32 p i = lostLe32 (fun k => (deepNode n).getD k 0) i := by
    intro i hi
    simp only [lostLe32, lostLe16, byteAt, hp i (by omega), hp (i + 1) (by omega),
      hp (i + 2) (by omega), hp (i + 2 + 1) (by omega)]
  have hbody : Buf.list (fun k => p (8 + k)) 0 40 = deepBody n := by
    have hmap : Buf.list (fun k => p (8 + k)) 0 40
        = (List.range' 0 40).map fun k => (deepBody n).getD k 0 := by
      refine List.map_congr_left fun k hk => ?_
      have hk' : k < 40 := by simpa using (List.mem_range'_1.mp hk).2
      rw [hp (8 + k) (by omega), deepNode, Nat.add_comm]
      simp only [List.cons_append, List.nil_append, List.getD_cons_succ]
    rw [hmap]
    rfl
  have htype : byteAt (fun k => p (0 + k)) 20 = if n = 66 then 1 else 9 := by
    simp only [byteAt, hp (0 + 20) (by omega), deepNode, List.cons_append, List.nil_append,
      deepBody, Nat.zero_add, List.getD_cons_succ, List.getD_cons_zero]
    split_ifs <;> rfl
  have hzero : (fun k => p (0 + k)) = p := funext fun k => by rw [Nat.zero_add]
  have hmagic : lostLe32 p 0 = UBIFS_MAGIC := by
    rw [hfield 0 (by omega)]
    simp only [lostLe32, lostLe16, byteAt, deepNode, List.cons_append, List.getD_cons_succ,
      List.getD_cons_zero]
    rfl
  have hnlen : lostLe32 p 16 = 48 := by
    rw [hfield 16 (by omega)]
    simp only [lostLe32, lostLe16, byteAt, deepNode, deepBody, List.cons_append, List.nil_append,
      List.getD_cons_succ, List.getD_cons_zero]
    rfl
  have hcrc : lostLe32 p 4 = grubUbifsCrc (deepBody n) := (hfield 4 (by omega)).trans (deepNode_crc n)
  rw [hzero] at htype
  rw [grubUbifsCheckNode, if_neg (show ¬ 48 < UBIFS_CH_LEN by decide),
    field_of_le (show 0 + UBIFS_CH_LEN ≤ 48 by decide), done_bind, hzero]
  simp only [hmagic, htype, hnlen, hcrc]
  rw [if_neg (by simp [UBIFS_CH_LEN]), field_of_le (show 8 + (48 - 8) ≤ 48 by decide), done_bind]
  show (if grubUbifsCrc (deepBody n) ≠ grubUbifsCrc (Buf.list (fun k => p (8 + k)) 0 40) then _
    else _) = _
  rw [hbody, if_neg (by simp)]

theorem deepData_node {n : ℕ} (hn : n < 66) :
    ubifsIndexNode deepData (deepBranch n) = some (65 - n, [deepBranch (n + 1)]) := by
  have hp : ∀ k < 64, deepData.disk.bytes.from (64 * n) k = (deepNode n).getD k 0 :=
    fun k hk => deepData_byte hk
  have hcheck := deepData_check (n := n) (deepData.disk.bytes.from (64 * n)) hp
  rw [if_neg (by omega)] at hcheck
  generalize hbytes : deepData.disk.bytes.from (64 * n) = p at hp hcheck
  have hread : grubUbifsLebRead deepData (deepBranch n).lnum (deepBranch n).offs (deepBranch n).len
      = .ok p := by
    rw [← hbytes]
    exact deepData_read (Nat.le_of_lt hn)
  have hcnt : lostLe16 p 24 = 1 := by
    simp only [lostLe16, byteAt, hp 24 (by omega), hp (24 + 1) (by omega)]
    rfl
  have hlevel : lostLe16 p 26 = 65 - n := by
    simp only [lostLe16, byteAt, hp 26 (by omega), hp (26 + 1) (by omega)]
    show (UInt8.ofNat (65 - n)).toNat + 256 * 0 = 65 - n
    rw [UInt8.toNat_ofNat']
    omega
  have hnlen : lostLe32 p 16 = 48 := by
    simp only [lostLe32, lostLe16, byteAt, hp 16 (by omega), hp (16 + 1) (by omega),
      hp (16 + 2) (by omega), hp (16 + 2 + 1) (by omega)]
    rfl
  have hbranch : ubifsBranch p 0 = deepBranch (n + 1) := by
    simp only [ubifsBranch, deepBranch, lostLe32, lostLe16, byteAt, Buf.from_apply, UBIFS_IDX_LEN,
      Nat.zero_mul, Nat.add_zero, Nat.reduceAdd, hp _ (by omega : 28 < 64),
      hp _ (by omega : 29 < 64), hp _ (by omega : 30 < 64), hp _ (by omega : 31 < 64),
      hp _ (by omega : 32 < 64), hp _ (by omega : 33 < 64), hp _ (by omega : 34 < 64),
      hp _ (by omega : 35 < 64), hp _ (by omega : 36 < 64), hp _ (by omega : 37 < 64),
      hp _ (by omega : 38 < 64), hp _ (by omega : 39 < 64), hp _ (by omega : 40 < 64),
      hp _ (by omega : 41 < 64), hp _ (by omega : 42 < 64), hp _ (by omega : 43 < 64),
      hp _ (by omega : 44 < 64), hp _ (by omega : 45 < 64), hp _ (by omega : 46 < 64),
      hp _ (by omega : 47 < 64)]
    simp [deepNode, deepBody]
    omega
  rw [ubifsIndexNode, hread]
  simp only [hcnt, hlevel, hnlen]
  have hlen : (deepBranch n).len = 48 := rfl
  rw [hlen, if_pos ⟨by decide, by decide, hcheck, by decide, by decide⟩]
  simp [hbranch]

theorem deepData_tree (levels : ℕ) (hlevels : levels < 66) :
    UbifsTree deepData (levels + 1) (deepBranch (65 - levels)) [deepBranch 66] := by
  induction levels with
  | zero => exact ⟨0, _, deepData_node (by omega), .inl ⟨rfl, rfl⟩⟩
  | succ levels ih =>
    refine ⟨65 - (65 - (levels + 1)), _, deepData_node (by omega), .inr ⟨by omega,
      fun _ => [deepBranch 66], fun b hb => ?_, rfl⟩⟩
    have hnext : 65 - (levels + 1) + 1 = 65 - levels := by omega
    rw [List.mem_singleton.mp hb, hnext]
    exact ⟨ih (by omega), rfl⟩

theorem deepData_walk {σ : Type} (cb : Mem → σ → Outcome GrubError (σ × Bool)) (s : σ) (levels : ℕ)
    (hlevels : levels ≤ 65) : grubUbifsWalk deepData (toLex (0, 0)) (toLex (0, 0)) cb levels
      (deepBranch (65 - levels)) s = failed ⟨.badFs, "ubifs: index too deep"⟩ := by
  induction levels with
  | zero => rfl
  | succ levels ih =>
    have hnext : 65 - (levels + 1) + 1 = 65 - levels := by omega
    rw [grubUbifsWalk_node (deepData_node (by omega)), if_pos (by omega), hnext]
    show feed _ [deepBranch (65 - levels)] s = _
    rw [feed_cons, ih (by omega), failed_bind]

/-- An index tree of 66 levels whose one leaf can be read and is in the range, but is not handed to
the callback. -/
theorem ubifs_too_deep : UbifsTree deepData 66 (ubifsRoot deepData) [deepBranch 66]
    ∧ UbifsSorted [deepBranch 66]
    ∧ within (toLex (0, 0)) (toLex (0, 0)) UbifsBranch.key [deepBranch 66] = [deepBranch 66]
    ∧ (∃ node, ubifsLeafNode deepData (deepBranch 66) = done node)
    ∧ grubUbifsWalkRange deepData (toLex (0, 0)) (toLex (0, 0))
        (fun _ handed => done (handed + 1, false)) 0
      = (failed ⟨.badFs, "ubifs: index too deep"⟩ : Outcome GrubError (ℕ × Bool)) := by
  refine ⟨deepData_tree 65 (by omega), List.pairwise_singleton _ _, rfl, ?_,
    deepData_walk _ 0 65 (Nat.le_refl _)⟩
  have hp : ∀ k < 64, deepData.disk.bytes.from (64 * 66) k = (deepNode 66).getD k 0 :=
    fun k hk => deepData_byte hk
  have hcheck := deepData_check (n := 66) _ hp
  have hread : ubifsReadNode deepData (deepBranch 66)
      = done ⟨48, deepData.disk.bytes.from (64 * 66)⟩ :=
    ubifsReadNode_eq (deepData_read (Nat.le_refl 66))
  have htype : (deepData.disk.bytes.from (64 * 66) 20).toNat = 1 := by
    rw [hp 20 (by omega)]
    rfl
  refine ⟨⟨48, deepData.disk.bytes.from (64 * 66)⟩, ?_⟩
  rw [ubifsLeafNode, if_neg (by decide), hread, done_bind, get_of_lt (by decide), done_bind, htype,
    ← if_pos (rfl : 66 = 66) (t := 1) (e := 9), hcheck, done_bind]

end FsRover
