import FsRover.Fs.Ubifs

/-!
# Files of a UBIFS volume

The data of a file lies in data nodes, one for a block of 4096 bytes, under keys of the inode and the
block. A read fills its buffer with zeros and walks over the keys of its blocks.

## Main definitions

* `FsRover.ubifsFileByte` : what the data nodes say of a byte of the file.

## Main results

* `FsRover.grubUbifsReadFile_eq` : a read returns these bytes.
* `FsRover.grubUbifsReadFile_part` : so do the parts of a read.
-/

namespace FsRover

open Outcome Memory RangeWalk

/-- The decompressors. LZO and zstd give what they decode of the data with room for so many bytes,
deflate the bytes or an error. -/
structure UbifsCodecs where
  lzo : List UInt8 → ℕ → Option (List UInt8)
  deflate : List UInt8 → ℕ → Except GrubError (List UInt8)
  zstd : List UInt8 → ℕ → Option (List UInt8)

def ubifsBadCompressed : GrubError := ⟨.badFs, "ubifs: bad compressed data"⟩

/-- The bytes of a block of `dsize` bytes that is stored in `src`. -/
def UbifsCodecs.decode (codecs : UbifsCodecs) (compr : ℕ) (src : List UInt8) (dsize : ℕ) :
    Except GrubError (List UInt8) :=
  match compr with
  | 0 => if src.length < dsize then .error ubifsBadCompressed else .ok (src.take dsize)
  | 1 =>
    match codecs.lzo src dsize with
    | none => .error ubifsBadCompressed
    | some out => if out.length ≠ dsize then .error ubifsBadCompressed else .ok out
  | 2 =>
    match codecs.deflate src dsize with
    | .error e => .error e
    | .ok out => if out.length < dsize then .error ubifsBadCompressed else .ok (out.take dsize)
  | 3 =>
    match codecs.zstd src UBIFS_BLOCK_SIZE with
    | none => .error ubifsBadCompressed
    | some out => if out.length ≠ dsize then .error ubifsBadCompressed else .ok out
  | _ => .error ⟨.notImplementedYet, s!"ubifs: compression type {compr} not supported"⟩

/-- The header of a data node. -/
structure UbifsDataHeader where
  block : ℕ
  dsize : ℕ
  compr : ℕ
  csize : ℕ

/-- The header of a node, if it is a data node of the inode. -/
def ubifsDataHeader (ino : ℕ) (node : Mem) : Outcome GrubError (Option UbifsDataHeader) := do
  let type ← node.get 20
  if type.toNat ≠ UBIFS_DATA_NODE ∨ node.len < UBIFS_DATA_LEN then done none
  else do
    let p : Buf ← node.field 0 UBIFS_DATA_LEN
    if lostLe32 p 24 ≠ u32 ino ∨ lostLe32 p 28 / 2 ^ 29 ≠ UBIFS_DATA_KEY then done none
    else
      done (some ⟨lostLe32 p 28 % 2 ^ 29, lostLe32 p 40, lostLe16 p 44,
        sub32 (lostLe32 p 16) UBIFS_DATA_LEN⟩)

/-- What `grub_ubifs_data_cb` copies to the buffer of a read, and where to. -/
def ubifsDataPart (codecs : UbifsCodecs) (ino pos len : ℕ) (node : Mem) :
    Outcome GrubError (Option (ℕ × List UInt8)) := do
  match ← ubifsDataHeader ino node with
  | none => done none
  | some h =>
    if h.dsize = 0 ∨ UBIFS_BLOCK_SIZE < h.dsize ∨ node.len - UBIFS_DATA_LEN < h.csize then
      failed ⟨.badFs, "ubifs: corrupt data node"⟩
    else
      let bstart := h.block * UBIFS_BLOCK_SIZE
      let cs := max bstart pos
      let ce := min (bstart + h.dsize) (u64 (pos + len))
      if ce ≤ cs then done none
      else do
        let src : Buf ← node.field UBIFS_DATA_LEN h.csize
        let out ← ofExcept (codecs.decode h.compr (src.list 0 h.csize) h.dsize)
        done (some (cs - pos, (out.drop (cs - bstart)).take (ce - cs)))

/-- `grub_ubifs_data_cb`. -/
def grubUbifsDataCb (codecs : UbifsCodecs) (ino pos len : ℕ) (node buf : Mem) :
    Outcome GrubError (Mem × Bool) := do
  match ← ubifsDataPart codecs ino pos len node with
  | none => done (buf, false)
  | some (i, bytes) => do
    let buf ← buf.put i bytes
    done (buf, false)

/-- The key of a block of the inode. -/
def ubifsDataKey (ino block : ℕ) : UbifsKey := toLex (u32 ino, UBIFS_DATA_KEY * 2 ^ 29 + u32 block)

/-- `grub_ubifs_read_file`: the bytes in the buffer. -/
def grubUbifsReadFile (codecs : UbifsCodecs) (data : UbifsData) (ino pos len : ℕ) :
    Outcome GrubError (List UInt8) :=
  if len = 0 then done []
  else
    let b0 := pos / UBIFS_BLOCK_SIZE
    let b1 := u64 (pos + len - 1) / UBIFS_BLOCK_SIZE
    if UBIFS_S_KEY_BLOCK_MASK < b1 then failed ⟨.outOfRange, "ubifs: file too big"⟩
    else do
      let r ← grubUbifsWalkRange data (ubifsDataKey ino b0) (ubifsDataKey ino b1)
        (grubUbifsDataCb codecs ino pos len) (Mem.zeroed len)
      done (Buf.list r.1.byte 0 len)

/-! ### What the data nodes say -/

/-- A leaf as it is handed over. -/
def ubifsLeafNode (data : UbifsData) (branch : UbifsBranch) : Outcome GrubError Mem :=
  if branch.len < UBIFS_CH_LEN ∨ UBIFS_MAX_NODE_LEN < branch.len then
    failed ⟨.badFs, "ubifs: bad leaf node size"⟩
  else do
    let leaf ← ubifsReadNode data branch
    let type ← leaf.get 20
    grubUbifsCheckNode leaf type.toNat
    done leaf

/-- The block that a leaf holds of the inode, if it is a data node of it, with its bytes. -/
def ubifsDataNode (codecs : UbifsCodecs) (ino : ℕ) (node : Mem) : Option (ℕ × List UInt8) :=
  match ubifsDataHeader ino node with
  | done (some h) =>
    if h.dsize = 0 ∨ UBIFS_BLOCK_SIZE < h.dsize ∨ node.len - UBIFS_DATA_LEN < h.csize then none
    else
      match codecs.decode h.compr (Buf.list node.byte UBIFS_DATA_LEN h.csize) h.dsize with
      | .ok bytes => some (h.block, bytes)
      | .error _ => none
  | _ => none

/-- The byte at `x` of the file that a node holds. -/
def ubifsNodeByte (codecs : UbifsCodecs) (ino x : ℕ) (node : Mem) : Option UInt8 :=
  (ubifsDataNode codecs ino node).bind fun d =>
    if x / UBIFS_BLOCK_SIZE = d.1 then d.2[x % UBIFS_BLOCK_SIZE]? else none

/-- The byte at `x` of the file that a leaf holds. -/
def ubifsLeafByte (codecs : UbifsCodecs) (data : UbifsData) (ino x : ℕ) (branch : UbifsBranch) :
    Option UInt8 :=
  match ubifsLeafNode data branch with
  | done node => ubifsNodeByte codecs ino x node
  | _ => none

/-- The byte at `x` of the file: that of the last leaf that holds it, or zero. -/
def ubifsFileByte (codecs : UbifsCodecs) (data : UbifsData) (ino : ℕ) (leaves : List UbifsBranch)
    (x : ℕ) : UInt8 :=
  leaves.foldl (fun b branch => (ubifsLeafByte codecs data ino x branch).getD b) 0

/-- The keys of the leaves are those that the leaf nodes themselves begin with. -/
def UbifsKeyed (data : UbifsData) (leaves : List UbifsBranch) : Prop :=
  ∀ branch ∈ leaves, ∀ node, ubifsLeafNode data branch = done node →
    branch.key = toLex (lostLe32 node.byte 24, lostLe32 node.byte 28)

variable {codecs : UbifsCodecs} {data : UbifsData} {ino pos len : ℕ} {node : Mem}
  {branch : UbifsBranch} {h : UbifsDataHeader}

/-! ### One data node -/

theorem UbifsCodecs.length_decode {compr dsize : ℕ} {src bytes : List UInt8}
    (hdecode : codecs.decode compr src dsize = .ok bytes) : bytes.length = dsize := by
  rw [UbifsCodecs.decode.eq_def] at hdecode
  split at hdecode
  · split_ifs at hdecode with hshort
    obtain rfl := Except.ok.inj hdecode
    rw [List.length_take]
    omega
  · split at hdecode
    · cases hdecode
    · split_ifs at hdecode with hlength
      exact Except.ok.inj hdecode ▸ not_not.mp hlength
  · split at hdecode
    · cases hdecode
    · split_ifs at hdecode with hshort
      obtain rfl := Except.ok.inj hdecode
      rw [List.length_take]
      omega
  · split at hdecode
    · cases hdecode
    · split_ifs at hdecode with hlength
      exact Except.ok.inj hdecode ▸ not_not.mp hlength
  · cases hdecode

theorem ubifsDataHeader_done (ino : ℕ) (haccepted : UbifsAccepted node) :
    ∃ r, ubifsDataHeader ino node = done r ∧ ∀ h, r = some h → UBIFS_DATA_LEN ≤ node.len
      ∧ lostLe32 node.byte 24 = u32 ino ∧ lostLe32 node.byte 28 = UBIFS_DATA_KEY * 2 ^ 29 + h.block
      ∧ h.block < 2 ^ 29 := by
  have hheader := haccepted.header
  have htype : 20 < node.len := by
    rw [UBIFS_CH_LEN] at hheader
    omega
  rw [ubifsDataHeader, get_of_lt htype, done_bind]
  by_cases hother : (node.byte 20).toNat ≠ UBIFS_DATA_NODE ∨ node.len < UBIFS_DATA_LEN
  · exact ⟨none, if_pos hother, fun _ hnone => by cases hnone⟩
  have hlen : UBIFS_DATA_LEN ≤ node.len := Nat.le_of_not_lt (not_or.mp hother).2
  have hfield : 0 + UBIFS_DATA_LEN ≤ node.len := by rwa [Nat.zero_add]
  have hzero : (fun k => node.byte (0 + k)) = node.byte := funext fun k => by rw [Nat.zero_add]
  rw [if_neg hother, field_of_le hfield, done_bind, hzero]
  by_cases hkey : lostLe32 node.byte 24 ≠ u32 ino ∨ lostLe32 node.byte 28 / 2 ^ 29 ≠ UBIFS_DATA_KEY
  · exact ⟨none, if_pos hkey, fun _ hnone => by cases hnone⟩
  · refine ⟨_, if_neg hkey, fun h hsome => ?_⟩
    obtain rfl := Option.some.inj hsome
    obtain ⟨hino, htype⟩ := not_or.mp hkey
    refine ⟨hlen, not_not.mp hino, ?_, Nat.mod_lt _ (Nat.two_pow_pos 29)⟩
    rw [← not_not.mp htype, Nat.mul_comm]
    exact (Nat.div_add_mod _ _).symm

theorem ubifsBlock_iff {x block dsize : ℕ} (hdsize : dsize ≤ UBIFS_BLOCK_SIZE) :
    (x / UBIFS_BLOCK_SIZE = block ∧ x % UBIFS_BLOCK_SIZE < dsize)
      ↔ block * UBIFS_BLOCK_SIZE ≤ x ∧ x < block * UBIFS_BLOCK_SIZE + dsize := by
  rw [UBIFS_BLOCK_SIZE] at *
  omega

theorem ubifsBlock_offset {x block : ℕ} (hblock : x / UBIFS_BLOCK_SIZE = block) :
    x - block * UBIFS_BLOCK_SIZE = x % UBIFS_BLOCK_SIZE := by
  rw [UBIFS_BLOCK_SIZE] at *
  omega

/-- The bytes of a node of the inode, by their positions in the file. -/
theorem ubifsNodeByte_eq {bytes : List UInt8} (hheader : ubifsDataHeader ino node = done (some h))
    (hok : ¬ (h.dsize = 0 ∨ UBIFS_BLOCK_SIZE < h.dsize ∨ node.len - UBIFS_DATA_LEN < h.csize))
    (hdecode : codecs.decode h.compr (Buf.list node.byte UBIFS_DATA_LEN h.csize) h.dsize = .ok bytes)
    (x : ℕ) : ubifsNodeByte codecs ino x node
      = if h.block * UBIFS_BLOCK_SIZE ≤ x ∧ x < h.block * UBIFS_BLOCK_SIZE + h.dsize then
        some (bytes.getD (x - h.block * UBIFS_BLOCK_SIZE) 0) else none := by
  have hlength := UbifsCodecs.length_decode hdecode
  rw [ubifsNodeByte, ubifsDataNode, hheader]
  simp only [if_neg hok, hdecode, Option.bind_some]
  have hblock := @ubifsBlock_iff x h.block h.dsize (by omega)
  by_cases hin : h.block * UBIFS_BLOCK_SIZE ≤ x ∧ x < h.block * UBIFS_BLOCK_SIZE + h.dsize
  · obtain ⟨hquot, hrem⟩ := hblock.mpr hin
    have hsome : x % UBIFS_BLOCK_SIZE < bytes.length := hlength ▸ hrem
    rw [if_pos hquot, if_pos hin, ubifsBlock_offset hquot, List.getD_eq_getElem?_getD,
      List.getElem?_eq_getElem hsome, Option.getD_some]
  · rw [if_neg hin]
    split_ifs with hquot
    · rw [List.getElem?_eq_none_iff, hlength]
      exact Nat.le_of_not_lt fun hrem => hin (hblock.mp ⟨hquot, hrem⟩)
    · rfl

theorem ubifsNodeByte_eq_none (hheader : ubifsDataHeader ino node = done (some h)) {x : ℕ}
    (hok : ¬ (h.dsize = 0 ∨ UBIFS_BLOCK_SIZE < h.dsize ∨ node.len - UBIFS_DATA_LEN < h.csize))
    (hx : ¬ (h.block * UBIFS_BLOCK_SIZE ≤ x ∧ x < h.block * UBIFS_BLOCK_SIZE + h.dsize)) :
    ubifsNodeByte codecs ino x node = none := by
  cases hdecode : codecs.decode h.compr (Buf.list node.byte UBIFS_DATA_LEN h.csize) h.dsize with
  | ok bytes => rw [ubifsNodeByte_eq hheader hok hdecode, if_neg hx]
  | error e =>
    rw [ubifsNodeByte, ubifsDataNode, hheader]
    simp only [if_neg hok, hdecode, Option.bind_none]

theorem ubifsData_list (node : Mem) (n : ℕ) :
    Buf.list (fun k => node.byte (UBIFS_DATA_LEN + k)) 0 n = Buf.list node.byte UBIFS_DATA_LEN n :=
  Buf.list_from node.byte _ _

/-- What the callback copies are the bytes of the node that lie in the read. -/
structure UbifsCopies (codecs : UbifsCodecs) (ino pos len : ℕ) (node : Mem)
    (part : Option (ℕ × List UInt8)) : Prop where
  room : ∀ i bytes, part = some (i, bytes) → i + bytes.length ≤ len
  bytes : ∀ k < len, ubifsNodeByte codecs ino (pos + k) node = part.bind fun r =>
    if r.1 ≤ k ∧ k < r.1 + r.2.length then some (r.2.getD (k - r.1) 0) else none

theorem ubifsDataPart_copies (haccepted : UbifsAccepted node) (hsum : pos + len < 2 ^ 64)
    {part : Option (ℕ × List UInt8)} (hpart : ubifsDataPart codecs ino pos len node = done part) :
    UbifsCopies codecs ino pos len node part := by
  obtain ⟨r, hheader, hr⟩ := ubifsDataHeader_done ino haccepted
  rw [ubifsDataPart, hheader, done_bind] at hpart
  cases r with
  | none =>
    obtain rfl : none = part := by simpa using hpart
    refine ⟨fun _ _ hnone => (by cases hnone), fun k _ => ?_⟩
    rw [ubifsNodeByte, ubifsDataNode, hheader]
    rfl
  | some h =>
    obtain ⟨hlen, -⟩ := hr h rfl
    simp only [u64_of_lt hsum] at hpart
    split_ifs at hpart with hbad hapart
    · -- the block and the read are apart
      obtain rfl : none = part := by simpa using hpart
      refine ⟨fun _ _ hnone => (by cases hnone), fun k hk => ?_⟩
      exact ubifsNodeByte_eq_none hheader hbad (by omega)
    · have hfield : UBIFS_DATA_LEN + h.csize ≤ node.len := by omega
      rw [field_of_le hfield, done_bind, ubifsData_list] at hpart
      cases hdecode : codecs.decode h.compr (Buf.list node.byte UBIFS_DATA_LEN h.csize) h.dsize with
      | error e =>
        rw [hdecode] at hpart
        cases hpart
      | ok out =>
        have hlength := UbifsCodecs.length_decode hdecode
        simp only [hdecode, ofExcept_ok, done_bind, done.injEq] at hpart
        subst hpart
        refine ⟨fun i bytes hsome => ?_, fun k hk => ?_⟩
        · obtain ⟨rfl, rfl⟩ := Prod.mk.inj (Option.some.inj hsome)
          rw [List.length_take, List.length_drop]
          omega
        · rw [ubifsNodeByte_eq hheader hbad hdecode, Option.bind_some]
          simp only [List.length_take, List.length_drop]
          by_cases hin : h.block * UBIFS_BLOCK_SIZE ≤ pos + k
              ∧ pos + k < h.block * UBIFS_BLOCK_SIZE + h.dsize
          · rw [if_pos hin, if_pos (by omega)]
            refine congrArg some ?_
            rw [List.getD_eq_getElem?_getD, List.getD_eq_getElem?_getD, List.getElem?_take,
              if_pos (by omega), List.getElem?_drop]
            congr 2
            omega
          · rw [if_neg hin, if_neg (by omega)]

theorem ubifsDataPart_done (pos len : ℕ) {out : List UInt8}
    (hheader : ubifsDataHeader ino node = done (some h)) (hlen : UBIFS_DATA_LEN ≤ node.len)
    (hok : ¬ (h.dsize = 0 ∨ UBIFS_BLOCK_SIZE < h.dsize ∨ node.len - UBIFS_DATA_LEN < h.csize))
    (hdecode : codecs.decode h.compr (Buf.list node.byte UBIFS_DATA_LEN h.csize) h.dsize = .ok out) :
    ∃ part, ubifsDataPart codecs ino pos len node = done part := by
  have hfield : UBIFS_DATA_LEN + h.csize ≤ node.len := by omega
  rw [ubifsDataPart, hheader, done_bind]
  simp only
  rw [if_neg hok, field_of_le hfield, done_bind, ubifsData_list, hdecode, ofExcept_ok, done_bind]
  split_ifs
  · exact ⟨none, rfl⟩
  · exact ⟨_, rfl⟩

/-- The callback copies the bytes of the node and stops at none. -/
theorem grubUbifsDataCb_spec (codecs : UbifsCodecs) (ino : ℕ) (haccepted : UbifsAccepted node)
    (hsum : pos + len < 2 ^ 64) {buf : Mem} (hbuf : buf.len = len) :
    (∀ e, ubifsDataPart codecs ino pos len node = failed e →
      grubUbifsDataCb codecs ino pos len node buf = failed e)
    ∧ ∀ part, ubifsDataPart codecs ino pos len node = done part →
      ∃ buf', grubUbifsDataCb codecs ino pos len node buf = done (buf', false) ∧ buf'.len = len
        ∧ ∀ k < len, buf'.byte k
          = (ubifsNodeByte codecs ino (pos + k) node).getD (buf.byte k) := by
  refine ⟨fun e he => by rw [grubUbifsDataCb, he, failed_bind], fun part hpart => ?_⟩
  obtain ⟨hroom, hbytes⟩ := ubifsDataPart_copies haccepted hsum hpart
  rw [grubUbifsDataCb, hpart, done_bind]
  cases part with
  | none =>
    refine ⟨buf, rfl, hbuf, fun k hk => ?_⟩
    rw [hbytes k hk, Option.bind_none, Option.getD_none]
  | some r =>
    have hput : r.1 + r.2.length ≤ buf.len := hbuf ▸ hroom r.1 r.2 rfl
    refine ⟨⟨buf.len, fun j => if r.1 ≤ j ∧ j < r.1 + r.2.length then r.2.getD (j - r.1) 0
      else buf.byte j⟩, ?_, hbuf, fun k hk => ?_⟩
    · show (buf.put r.1 r.2 >>= fun buf => done (buf, false)) = _
      rw [Mem.put, inside_pos hput, done_bind]
    · rw [hbytes k hk, Option.bind_some]
      split_ifs with hin
      · exact if_pos hin
      · exact if_neg hin

/-! ### The leaves of a read -/

theorem ubifsHandLeaf_eq {σ : Type} (cb : Mem → σ → Outcome GrubError (σ × Bool)) (s : σ) :
    ubifsHandLeaf data cb branch s = ubifsLeafNode data branch >>= fun leaf => cb leaf s := by
  rw [ubifsHandLeaf, ubifsLeafNode]
  split_ifs
  · rfl
  · cases ubifsReadNode data branch with
    | done leaf =>
      simp only [done_bind]
      cases leaf.get (ε := GrubError) 20 with
      | done type =>
        simp only [done_bind]
        cases grubUbifsCheckNode leaf type.toNat <;> rfl
      | _ => rfl
    | _ => rfl

theorem ubifsLeafNode_ends (data : UbifsData) (branch : UbifsBranch) :
    (ubifsLeafNode data branch).Ends UbifsAccepted := by
  rw [ubifsLeafNode]
  split_ifs with hsize
  · trivial
  refine (ubifsReadNode_ends data branch).bind fun leaf hlen => ?_
  have htype : 20 < leaf.len := by
    rw [hlen]
    rw [UBIFS_CH_LEN] at hsize
    omega
  rw [get_of_lt htype, done_bind]
  exact (grubUbifsCheckNode_ends leaf _).bind fun _ haccepted => haccepted

theorem ubifsLeafNode_accepted (h : ubifsLeafNode data branch = done node) : UbifsAccepted node := by
  have hends := ubifsLeafNode_ends data branch
  rwa [h] at hends

/-- A leaf that a read gets past. -/
def UbifsLeafOk (codecs : UbifsCodecs) (data : UbifsData) (ino pos len : ℕ) (branch : UbifsBranch) :
    Prop :=
  ∃ node part, ubifsLeafNode data branch = done node
    ∧ ubifsDataPart codecs ino pos len node = done part

theorem ubifsHandLeaf_data (codecs : UbifsCodecs) (data : UbifsData) (ino : ℕ) (branch : UbifsBranch)
    (hsum : pos + len < 2 ^ 64) {buf : Mem} (hbuf : buf.len = len) :
    (UbifsLeafOk codecs data ino pos len branch →
      ∃ buf', ubifsHandLeaf data (grubUbifsDataCb codecs ino pos len) branch buf = done (buf', false)
        ∧ buf'.len = len ∧ ∀ k < len, buf'.byte k
          = (ubifsLeafByte codecs data ino (pos + k) branch).getD (buf.byte k))
    ∧ (¬ UbifsLeafOk codecs data ino pos len branch → ∀ r,
      ubifsHandLeaf data (grubUbifsDataCb codecs ino pos len) branch buf ≠ done r) := by
  rw [ubifsHandLeaf_eq]
  constructor
  · rintro ⟨node, part, hnode, hpart⟩
    rw [hnode, done_bind]
    obtain ⟨-, hdone⟩ := grubUbifsDataCb_spec codecs ino (ubifsLeafNode_accepted hnode) hsum hbuf
    simpa only [ubifsLeafByte, hnode] using hdone part hpart
  · intro hbad r hr
    cases hnode : ubifsLeafNode data branch with
    | done node =>
      rw [hnode, done_bind] at hr
      cases hpart : ubifsDataPart codecs ino pos len node with
      | done part => exact hbad ⟨node, part, hnode, hpart⟩
      | _ =>
        rw [grubUbifsDataCb, hpart] at hr
        cases hr
    | _ =>
      rw [hnode] at hr
      cases hr

/-- The leaves of a read one after the other: it gets past each of them, and each byte is that of the
last leaf that holds it. -/
theorem feed_ubifsHandLeaf (codecs : UbifsCodecs) (data : UbifsData) (ino : ℕ)
    (l : List UbifsBranch) (hsum : pos + len < 2 ^ 64) {buf : Mem} (hbuf : buf.len = len) :
    ((∀ b ∈ l, UbifsLeafOk codecs data ino pos len b) →
      ∃ buf', feed (ubifsHandLeaf data (grubUbifsDataCb codecs ino pos len)) l buf
          = done (buf', false)
        ∧ buf'.len = len ∧ ∀ k < len, buf'.byte k
          = l.foldl (fun b branch => (ubifsLeafByte codecs data ino (pos + k) branch).getD b)
            (buf.byte k))
    ∧ ∀ r, feed (ubifsHandLeaf data (grubUbifsDataCb codecs ino pos len)) l buf = done r →
      ∀ b ∈ l, UbifsLeafOk codecs data ino pos len b := by
  induction l generalizing buf with
  | nil => exact ⟨fun _ => ⟨buf, rfl, hbuf, fun _ _ => rfl⟩, fun _ _ _ hb => by cases hb⟩
  | cons a l ih =>
    obtain ⟨hok, hbad⟩ := ubifsHandLeaf_data codecs data ino a hsum hbuf
    rw [feed_cons]
    constructor
    · intro hall
      obtain ⟨buf₁, hbuf₁, hlen₁, hbytes₁⟩ := hok (hall a List.mem_cons_self)
      obtain ⟨buf₂, hbuf₂, hlen₂, hbytes₂⟩ :=
        (ih hlen₁).1 fun b hb => hall b (List.mem_cons_of_mem _ hb)
      refine ⟨buf₂, ?_, hlen₂, fun k hk => ?_⟩
      · rw [hbuf₁, done_bind, if_neg Bool.false_ne_true, hbuf₂]
      · rw [hbytes₂ k hk, hbytes₁ k hk, List.foldl_cons]
    · intro r hr
      by_cases ha : UbifsLeafOk codecs data ino pos len a
      · obtain ⟨buf₁, hbuf₁, hlen₁, -⟩ := hok ha
        rw [hbuf₁, done_bind, if_neg Bool.false_ne_true] at hr
        exact List.forall_mem_cons.mpr ⟨ha, (ih hlen₁).2 r hr⟩
      · cases hleaf : ubifsHandLeaf data (grubUbifsDataCb codecs ino pos len) a buf with
        | done r' => exact absurd hleaf (hbad ha r')
        | _ =>
          rw [hleaf] at hr
          cases hr

/-! ### The range of a read -/

variable {leaves : List UbifsBranch}

/-- A leaf that holds a byte of the file has the key of its block. -/
theorem ubifsLeafByte_key (hkeyed : UbifsKeyed data leaves) (hbranch : branch ∈ leaves) {x : ℕ}
    {b : UInt8} (hb : ubifsLeafByte codecs data ino x branch = some b) :
    branch.key = ubifsDataKey ino (x / UBIFS_BLOCK_SIZE) := by
  rw [ubifsLeafByte] at hb
  cases hnode : ubifsLeafNode data branch with
  | done node =>
    simp only [hnode] at hb
    obtain ⟨r, hheader, hr⟩ := ubifsDataHeader_done ino (ubifsLeafNode_accepted hnode)
    rw [ubifsNodeByte, ubifsDataNode, hheader] at hb
    cases r with
    | none => cases hb
    | some h =>
      obtain ⟨-, hino, hkey, hblock⟩ := hr h rfl
      simp only at hb
      split_ifs at hb with hbad
      · cases hb
      cases hdecode : codecs.decode h.compr (Buf.list node.byte UBIFS_DATA_LEN h.csize) h.dsize with
      | error e =>
        rw [hdecode] at hb
        cases hb
      | ok bytes =>
        simp only [hdecode, Option.bind_some] at hb
        split_ifs at hb with hquot
        rw [hkeyed branch hbranch node hnode, ubifsDataKey, hino, hkey, hquot,
          u32_of_lt (show h.block < 2 ^ 32 by omega)]
  | _ =>
    simp only [hnode] at hb
    cases hb

/-- The keys of the blocks of a read. -/
def ubifsReadLeaves (ino pos len : ℕ) (leaves : List UbifsBranch) : List UbifsBranch :=
  within (ubifsDataKey ino (pos / UBIFS_BLOCK_SIZE))
    (ubifsDataKey ino ((pos + len - 1) / UBIFS_BLOCK_SIZE)) UbifsBranch.key leaves

theorem ubifsDataKey_le {a b : ℕ} (hb : b ≤ UBIFS_S_KEY_BLOCK_MASK) (hab : a ≤ b) :
    ubifsDataKey ino a ≤ ubifsDataKey ino b := by
  rw [UBIFS_S_KEY_BLOCK_MASK] at hb
  rw [ubifsDataKey, ubifsDataKey, u32_of_lt (n := a) (by omega), u32_of_lt (n := b) (by omega),
    Prod.Lex.toLex_le_toLex]
  exact .inr ⟨rfl, Nat.add_le_add_left hab _⟩

theorem foldl_ubifsReadLeaves (hkeyed : UbifsKeyed data leaves)
    (hend : (pos + len - 1) / UBIFS_BLOCK_SIZE ≤ UBIFS_S_KEY_BLOCK_MASK) {k : ℕ} (hk : k < len) :
    (ubifsReadLeaves ino pos len leaves).foldl
        (fun b branch => (ubifsLeafByte codecs data ino (pos + k) branch).getD b) 0
      = ubifsFileByte codecs data ino leaves (pos + k) := by
  rw [ubifsReadLeaves, within, List.foldl_filter, ubifsFileByte]
  have hsame : ∀ (l : List UbifsBranch) (b : UInt8), (∀ branch ∈ l, branch ∈ leaves) →
      l.foldl (fun b branch => if (decide (ubifsDataKey ino (pos / UBIFS_BLOCK_SIZE) ≤ branch.key)
          && decide (branch.key ≤ ubifsDataKey ino ((pos + len - 1) / UBIFS_BLOCK_SIZE))) = true then
          (ubifsLeafByte codecs data ino (pos + k) branch).getD b else b) b
        = l.foldl (fun b branch => (ubifsLeafByte codecs data ino (pos + k) branch).getD b) b := by
    intro l
    induction l with
    | nil => exact fun _ _ => rfl
    | cons a l ih =>
      intro b hl
      rw [List.foldl_cons, List.foldl_cons, ih _ fun c hc => hl c (List.mem_cons_of_mem _ hc)]
      congr 1
      split_ifs with hrange
      · rfl
      · cases hbyte : ubifsLeafByte codecs data ino (pos + k) a with
        | none => rfl
        | some c =>
          have hkey := ubifsLeafByte_key hkeyed (hl a List.mem_cons_self) hbyte
          have hfirst : pos / UBIFS_BLOCK_SIZE ≤ (pos + k) / UBIFS_BLOCK_SIZE :=
            Nat.div_le_div_right (Nat.le_add_right _ _)
          have hlast : (pos + k) / UBIFS_BLOCK_SIZE ≤ (pos + len - 1) / UBIFS_BLOCK_SIZE :=
            Nat.div_le_div_right (by omega)
          refine absurd ?_ hrange
          rw [hkey, Bool.and_eq_true, decide_eq_true_eq, decide_eq_true_eq]
          exact ⟨ubifsDataKey_le (hlast.trans hend) hfirst, ubifsDataKey_le hend hlast⟩
  exact hsame leaves 0 fun _ hb => hb

/-! ### Reads -/

/-- The index of a volume, with its leaves in order and under their own keys. -/
structure UbifsIndexed (data : UbifsData) (leaves : List UbifsBranch) : Prop where
  tree : UbifsTree data (UBIFS_MAX_DEPTH + 1) (ubifsRoot data) leaves
  sorted : UbifsSorted leaves
  keyed : UbifsKeyed data leaves

/-- A read that is not empty and not behind the last block. -/
theorem grubUbifsReadFile_feed (hindex : UbifsIndexed data leaves) (hsum : pos + len < 2 ^ 64)
    (hlen : len ≠ 0) (hend : (pos + len - 1) / UBIFS_BLOCK_SIZE ≤ UBIFS_S_KEY_BLOCK_MASK) :
    grubUbifsReadFile codecs data ino pos len
      = feed (ubifsHandLeaf data (grubUbifsDataCb codecs ino pos len))
          (ubifsReadLeaves ino pos len leaves) (Mem.zeroed len)
        >>= fun r => done (Buf.list r.1.byte 0 len) := by
  have hlast : u64 (pos + len - 1) = pos + len - 1 := u64_of_lt (by omega)
  rw [grubUbifsReadFile, if_neg hlen]
  simp only [hlast]
  rw [if_neg (Nat.not_lt_of_le hend), grubUbifsWalkRange,
    grubUbifsWalk_eq hindex.tree hindex.sorted, ubifsReadLeaves]

/-- When a read returns, it returns the bytes of the file, and it has got past all its leaves. -/
theorem grubUbifsReadFile_eq (hindex : UbifsIndexed data leaves) (hsum : pos + len < 2 ^ 64)
    {bytes : List UInt8} (hread : grubUbifsReadFile codecs data ino pos len = done bytes) :
    bytes = (List.range' pos len).map (ubifsFileByte codecs data ino leaves)
      ∧ (len ≠ 0 → (pos + len - 1) / UBIFS_BLOCK_SIZE ≤ UBIFS_S_KEY_BLOCK_MASK
        ∧ ∀ b ∈ ubifsReadLeaves ino pos len leaves, UbifsLeafOk codecs data ino pos len b) := by
  by_cases hlen : len = 0
  · subst hlen
    rw [grubUbifsReadFile, if_pos rfl] at hread
    exact ⟨(done.inj hread).symm, fun hne => absurd rfl hne⟩
  have hlast : u64 (pos + len - 1) = pos + len - 1 := u64_of_lt (by omega)
  have hend : (pos + len - 1) / UBIFS_BLOCK_SIZE ≤ UBIFS_S_KEY_BLOCK_MASK := by
    refine Nat.le_of_not_lt fun hbig => ?_
    rw [grubUbifsReadFile, if_neg hlen] at hread
    simp only [hlast] at hread
    rw [if_pos hbig] at hread
    cases hread
  rw [grubUbifsReadFile_feed hindex hsum hlen hend] at hread
  have hzeroed : (Mem.zeroed len).len = len := rfl
  obtain ⟨hall, hok⟩ :=
    feed_ubifsHandLeaf codecs data ino (ubifsReadLeaves ino pos len leaves) hsum hzeroed
  cases hfeed : feed (ubifsHandLeaf data (grubUbifsDataCb codecs ino pos len))
      (ubifsReadLeaves ino pos len leaves) (Mem.zeroed len) with
  | done r =>
    obtain ⟨buf, hbuf, -, hbytes⟩ := hall (hok r hfeed)
    rw [hbuf, done_bind] at hread
    refine ⟨?_, fun _ => ⟨hend, hok r hfeed⟩⟩
    rw [← done.inj hread, List.range'_eq_map_range, List.map_map, Buf.list,
      List.range'_eq_map_range, List.map_map]
    refine List.map_congr_left fun k hk => ?_
    have hk' : k < len := List.mem_range.mp hk
    simp only [Function.comp_apply, Nat.zero_add, hbytes k hk']
    exact foldl_ubifsReadLeaves hindex.keyed hend hk'
  | _ =>
    rw [hfeed] at hread
    cases hread

theorem grubUbifsReadFile_returns (codecs : UbifsCodecs) (ino : ℕ) (pos len : ℕ)
    (hindex : UbifsIndexed data leaves) (hsum : pos + len < 2 ^ 64)
    (hend : len ≠ 0 → (pos + len - 1) / UBIFS_BLOCK_SIZE ≤ UBIFS_S_KEY_BLOCK_MASK)
    (hok : len ≠ 0 → ∀ b ∈ ubifsReadLeaves ino pos len leaves,
      UbifsLeafOk codecs data ino pos len b) :
    ∃ bytes, grubUbifsReadFile codecs data ino pos len = done bytes := by
  by_cases hlen : len = 0
  · exact ⟨[], by rw [grubUbifsReadFile, if_pos hlen]⟩
  rw [grubUbifsReadFile_feed hindex hsum hlen (hend hlen)]
  have hzeroed : (Mem.zeroed len).len = len := rfl
  obtain ⟨buf, hbuf, -⟩ :=
    (feed_ubifsHandLeaf codecs data ino (ubifsReadLeaves ino pos len leaves) hsum hzeroed).1 (hok hlen)
  exact ⟨_, by rw [hbuf, done_bind]⟩

/-- A part of a read gets past the leaves that the read gets past. -/
theorem UbifsLeafOk.part {pos' len' : ℕ} (hsum : pos + len < 2 ^ 64) (hpos : pos ≤ pos')
    (hend : pos' + len' ≤ pos + len) (h : UbifsLeafOk codecs data ino pos len branch) :
    UbifsLeafOk codecs data ino pos' len' branch := by
  obtain ⟨node, part, hnode, hpart⟩ := h
  obtain ⟨r, hheader, hr⟩ := ubifsDataHeader_done ino (ubifsLeafNode_accepted hnode)
  rw [ubifsDataPart, hheader, done_bind] at hpart
  cases r with
  | none => exact ⟨node, none, hnode, by rw [ubifsDataPart, hheader, done_bind]⟩
  | some h =>
    obtain ⟨hlen, -⟩ := hr h rfl
    simp only [u64_of_lt hsum] at hpart
    split_ifs at hpart with hbad hapart
    · refine ⟨node, none, hnode, ?_⟩
      rw [ubifsDataPart, hheader, done_bind]
      simp only [u64_of_lt (show pos' + len' < 2 ^ 64 by omega)]
      rw [if_neg hbad, if_pos (by omega)]
    · have hfield : UBIFS_DATA_LEN + h.csize ≤ node.len := by omega
      rw [field_of_le hfield, done_bind, ubifsData_list] at hpart
      cases hdecode : codecs.decode h.compr (Buf.list node.byte UBIFS_DATA_LEN h.csize) h.dsize with
      | error e =>
        rw [hdecode] at hpart
        cases hpart
      | ok out =>
        obtain ⟨part', hpart'⟩ := ubifsDataPart_done pos' len' hheader hlen hbad hdecode
        exact ⟨node, part', hnode, hpart'⟩

/-- A part of a read returns that part of its bytes. -/
theorem grubUbifsReadFile_part {pos' len' : ℕ} (hindex : UbifsIndexed data leaves)
    (hsum : pos + len < 2 ^ 64) {bytes : List UInt8}
    (hread : grubUbifsReadFile codecs data ino pos len = done bytes) (hpos : pos ≤ pos')
    (hend : pos' + len' ≤ pos + len) :
    grubUbifsReadFile codecs data ino pos' len'
      = done ((bytes.drop (pos' - pos)).take len') := by
  obtain ⟨hbytes, hok⟩ := grubUbifsReadFile_eq hindex hsum hread
  have hblock : len' ≠ 0 → len ≠ 0 ∧ pos / UBIFS_BLOCK_SIZE ≤ pos' / UBIFS_BLOCK_SIZE
      ∧ (pos' + len' - 1) / UBIFS_BLOCK_SIZE ≤ (pos + len - 1) / UBIFS_BLOCK_SIZE := fun hne =>
    ⟨by omega, Nat.div_le_div_right hpos, Nat.div_le_div_right (by omega)⟩
  obtain ⟨bytes', hread'⟩ := grubUbifsReadFile_returns codecs ino pos' len' hindex (by omega)
    (fun hne => (hblock hne).2.2.trans (hok (hblock hne).1).1) fun hne b hb => by
      obtain ⟨hlen, hfirst, hlast⟩ := hblock hne
      obtain ⟨hmask, hall⟩ := hok hlen
      obtain ⟨hmem, hlo, hhi⟩ := mem_within.mp hb
      refine (hall b (mem_within.mpr ⟨hmem, ?_, ?_⟩)).part hsum hpos hend
      · refine (ubifsDataKey_le ?_ hfirst).trans hlo
        exact (Nat.div_le_div_right (by omega)).trans hmask
      · exact hhi.trans (ubifsDataKey_le hmask hlast)
  rw [hread', (grubUbifsReadFile_eq hindex (by omega) hread').1, hbytes]
  refine congrArg done ?_
  rw [← List.map_drop, ← List.map_take]
  refine congrArg _ ?_
  rw [List.range'_eq_map_range, List.range'_eq_map_range]
  refine List.ext_getElem ?_ fun k hk hk' => ?_
  · simp
    omega
  · simp
    omega

theorem grubUbifsReadFile_ends (codecs : UbifsCodecs) (data : UbifsData) (ino : ℕ)
    (hsum : pos + len < 2 ^ 64) : (grubUbifsReadFile codecs data ino pos len).Ends fun _ => True := by
  rw [grubUbifsReadFile]
  split_ifs
  · trivial
  simp only
  split_ifs
  · trivial
  refine (grubUbifsWalk_ends (P := fun buf : Mem => buf.len = len) ?_ _ _ rfl).bind fun _ _ => trivial
  intro leaf buf haccepted hbuf
  obtain ⟨hfailed, hdone⟩ := grubUbifsDataCb_spec codecs ino haccepted hsum hbuf
  have hpart : (ubifsDataPart codecs ino pos len leaf).Ends fun _ => True := by
    obtain ⟨r, hheader, hr⟩ := ubifsDataHeader_done ino haccepted
    rw [ubifsDataPart, hheader, done_bind]
    cases r with
    | none => trivial
    | some h =>
      obtain ⟨hlen, -⟩ := hr h rfl
      simp only
      split_ifs with hbad
      · trivial
      · trivial
      have hfield : UBIFS_DATA_LEN + h.csize ≤ leaf.len := by omega
      rw [field_of_le hfield, done_bind]
      cases codecs.decode h.compr
        (Buf.list (fun k => leaf.byte (UBIFS_DATA_LEN + k)) 0 h.csize) h.dsize <;> trivial
  rcases hpart.cases with ⟨part, hpart, -⟩ | ⟨e, he⟩
  · obtain ⟨buf', hbuf', hlen, -⟩ := hdone part hpart
    rw [hbuf']
    exact hlen
  · rw [hfailed e he]
    trivial

end FsRover
