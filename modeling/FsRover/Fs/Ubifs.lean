import FsRover.Grub
import FsRover.Lib.Crc32
import FsRover.Lib.Memory
import FsRover.Lib.RangeWalk
import Mathlib.Data.Prod.Lex

/-!
# The index of a UBIFS volume

`grub_ubifs_walk` goes through the committed index on the medium, a tree of index nodes whose lowest
branches point to leaf nodes, and hands the leaves in a range of keys to a callback. Logical
eraseblocks lie one after the other, or where a UBI container has put them.

## Main definitions

* `FsRover.UbifsData`, `FsRover.grubUbifsLebRead` : a volume and its eraseblocks.
* `FsRover.grubUbifsWalk`, `FsRover.grubUbifsWalkRange` : the walk.
* `FsRover.UbifsTree` : an index tree on the medium, with its leaves.

## Main results

* `FsRover.grubUbifsWalk_eq` : the callback is handed the leaves in the range, in their order.
* `FsRover.grubUbifsWalk_ends` : the walk ends on any content and leaves no buffer.
-/

namespace FsRover

open Outcome Memory RangeWalk

def UBIFS_MAGIC : ℕ := 0x06101831
def UBIFS_CRC32_INIT : UInt32 := 0xffffffff
def UBIFS_BLOCK_SIZE : ℕ := 4096
def UBIFS_INO_NODE : ℕ := 0
def UBIFS_DATA_NODE : ℕ := 1
def UBIFS_SB_NODE : ℕ := 6
def UBIFS_IDX_NODE : ℕ := 9
def UBIFS_DATA_KEY : ℕ := 1
def UBIFS_S_KEY_BLOCK_MASK : ℕ := 0x1fffffff
def UBIFS_CH_LEN : ℕ := 24
def UBIFS_INO_LEN : ℕ := 160
def UBIFS_DATA_LEN : ℕ := 48
def UBIFS_IDX_LEN : ℕ := 28
def UBIFS_BRANCH_LEN : ℕ := 20
def UBIFS_MAX_NODE_LEN : ℕ := UBIFS_INO_LEN + UBIFS_BLOCK_SIZE
def UBIFS_MAX_DEPTH : ℕ := 64
def UBIFS_MAX_FANOUT : ℕ := 1024

/-- `struct grub_ubifs_key`, in the order of `grub_ubifs_key_cmp`: the number of the inode, then the
type in three bits and a hash or a block. -/
abbrev UbifsKey := ℕ ×ₗ ℕ

/-- A branch of an index node. -/
structure UbifsBranch where
  lnum : ℕ
  offs : ℕ
  len : ℕ
  key : UbifsKey
  deriving DecidableEq

/-- `struct grub_ubifs_data` as far as reads use it. `lebOff` is there for a UBI image, and gives
nothing where an eraseblock is not mapped. -/
structure UbifsData where
  disk : SizedDisk
  diskSize : ℕ
  lebOff : Option (ℕ → Option ℕ)
  lebMapCnt : ℕ
  lebSize : ℕ
  lebCnt : ℕ
  rootLnum : ℕ
  rootOffs : ℕ
  rootLen : ℕ

/-- `grub_ubifs_crc`, from the seed that all callers pass. -/
def grubUbifsCrc (bytes : List UInt8) : ℕ :=
  (bytes.foldl (fun crc b =>
    Crc32.shift 8 ((crc ^^^ b.toUInt32) &&& 0xff) ^^^ (crc >>> 8)) UBIFS_CRC32_INIT).toNat

/-- Where an eraseblock begins. -/
def ubifsLebBase (data : UbifsData) (lnum : ℕ) : Except GrubError ℕ :=
  match data.lebOff with
  | none => .ok (lnum * data.lebSize)
  | some lebOff =>
    if data.lebMapCnt ≤ lnum then .error ⟨.badFs, s!"ubifs: unmapped LEB {lnum}"⟩
    else
      match lebOff lnum with
      | none => .error ⟨.badFs, s!"ubifs: unmapped LEB {lnum}"⟩
      | some base => .ok base

/-- `grub_ubifs_leb_read`. -/
def grubUbifsLebRead (data : UbifsData) (lnum offs len : ℕ) : Except GrubError Buf :=
  if data.lebCnt ≤ lnum ∨ data.lebSize < offs + len then
    .error ⟨.badFs, "ubifs: LEB reference out of range"⟩
  else
    match ubifsLebBase data lnum with
    | .error e => .error e
    | .ok base =>
      if data.diskSize < u64 (base + offs + len) then
        .error ⟨.badFs, s!"ubifs: LEB {lnum} beyond end of image"⟩
      else data.disk.read (u64 (base + offs)) len

/-- A node that is read into a buffer of its length. -/
def ubifsReadNode (data : UbifsData) (branch : UbifsBranch) : Outcome GrubError Mem :=
  match grubUbifsLebRead data branch.lnum branch.offs branch.len with
  | .error e => failed e
  | .ok bytes => done ⟨branch.len, bytes⟩

/-- `grub_ubifs_check_node`. -/
def grubUbifsCheckNode (node : Mem) (nodeType : ℕ) : Outcome GrubError Unit :=
  if node.len < UBIFS_CH_LEN then failed ⟨.badFs, "ubifs: corrupt node"⟩
  else do
    let p : Buf ← node.field 0 UBIFS_CH_LEN
    let nlen := lostLe32 p 16
    if lostLe32 p 0 ≠ UBIFS_MAGIC ∨ byteAt p 20 ≠ nodeType ∨ nlen < UBIFS_CH_LEN ∨ node.len < nlen then
      failed ⟨.badFs, "ubifs: corrupt node"⟩
    else do
      let q : Buf ← node.field 8 (nlen - 8)
      if lostLe32 p 4 ≠ grubUbifsCrc (q.list 0 (nlen - 8)) then
        failed ⟨.badFs, "ubifs: corrupt node"⟩
      else done ()

/-! ### The walk -/

section Walk

variable {σ : Type} (data : UbifsData) (lo hi : UbifsKey)
  (cb : Mem → σ → Outcome GrubError (σ × Bool))

/-- The key of branch `i`. -/
def ubifsBranchKey (idx : Mem) (i : ℕ) : Outcome GrubError UbifsKey := do
  let p : Buf ← idx.field (UBIFS_IDX_LEN + i * UBIFS_BRANCH_LEN + 12) 8
  done (toLex (lostLe32 p 0, lostLe32 p 4))

/-- Whether the next branch, with `left` branches behind branch `i`, begins before the range: then what
is below branch `i` is before it too. -/
def ubifsSkips (idx : Mem) (left i : ℕ) : Outcome GrubError Bool :=
  if left = 0 then done false
  else do
    let next ← ubifsBranchKey idx (i + 1)
    done (decide (next < lo))

/-- The loop of `grub_ubifs_walk` over the `left` branches from branch `i` on; the result says whether
the walk was stopped. -/
def ubifsWalkBranches (visit : UbifsBranch → σ → Outcome GrubError (σ × Bool)) (idx : Mem) :
    ℕ → ℕ → σ → Outcome GrubError (σ × Bool)
  | 0, _, s => done (s, false)
  | left + 1, i, s => do
    let key ← ubifsBranchKey idx i
    if hi < key then done (s, false)
    else do
      let skip ← ubifsSkips lo idx left i
      if skip then ubifsWalkBranches visit idx left (i + 1) s
      else do
        let p : Buf ← idx.field (UBIFS_IDX_LEN + i * UBIFS_BRANCH_LEN) 12
        let r ← visit ⟨lostLe32 p 0, lostLe32 p 4, lostLe32 p 8, key⟩ s
        if r.2 then done r else ubifsWalkBranches visit idx left (i + 1) r.1

/-- A leaf is read, checked and handed to the callback. -/
def ubifsHandLeaf (branch : UbifsBranch) (s : σ) : Outcome GrubError (σ × Bool) :=
  if branch.len < UBIFS_CH_LEN ∨ UBIFS_MAX_NODE_LEN < branch.len then
    failed ⟨.badFs, "ubifs: bad leaf node size"⟩
  else do
    let leaf ← ubifsReadNode data branch
    let type ← leaf.get 20
    grubUbifsCheckNode leaf type.toNat
    cb leaf s

/-- What `grub_ubifs_walk` does with a branch of level zero. -/
def ubifsVisitLeaf (branch : UbifsBranch) (s : σ) : Outcome GrubError (σ × Bool) :=
  if lo ≤ branch.key then ubifsHandLeaf data cb branch s else done (s, false)

/-- `grub_ubifs_walk`, with the number of levels that the depth still allows. -/
def grubUbifsWalk : ℕ → UbifsBranch → σ → Outcome GrubError (σ × Bool)
  | 0, _, _ => failed ⟨.badFs, "ubifs: index too deep"⟩
  | levels + 1, branch, s =>
    if branch.len < UBIFS_IDX_LEN ∨ UBIFS_IDX_LEN + UBIFS_MAX_FANOUT * UBIFS_BRANCH_LEN < branch.len then
      failed ⟨.badFs, "ubifs: bad index node size"⟩
    else do
      let idx ← ubifsReadNode data branch
      grubUbifsCheckNode idx UBIFS_IDX_NODE
      let h : Buf ← idx.field 0 UBIFS_IDX_LEN
      let childCnt := lostLe16 h 24
      if UBIFS_MAX_FANOUT < childCnt ∨ lostLe32 h 16 < UBIFS_IDX_LEN + childCnt * UBIFS_BRANCH_LEN then
        failed ⟨.badFs, "ubifs: corrupt index node"⟩
      else if lostLe16 h 26 ≠ 0 then
        ubifsWalkBranches lo hi (grubUbifsWalk levels) idx childCnt 0 s
      else ubifsWalkBranches lo hi (ubifsVisitLeaf data lo cb) idx childCnt 0 s

/-- The branch that the master node points to; its key is not used. -/
def ubifsRoot : UbifsBranch := ⟨data.rootLnum, data.rootOffs, data.rootLen, toLex (0, 0)⟩

/-- `grub_ubifs_walk_range`. -/
def grubUbifsWalkRange (s : σ) : Outcome GrubError (σ × Bool) :=
  grubUbifsWalk data lo hi cb (UBIFS_MAX_DEPTH + 1) (ubifsRoot data) s

end Walk

/-! ### Index trees -/

/-- Branch `i` of an index node. -/
def ubifsBranch (p : Buf) (i : ℕ) : UbifsBranch :=
  let br := p.from (UBIFS_IDX_LEN + i * UBIFS_BRANCH_LEN)
  ⟨lostLe32 br 0, lostLe32 br 4, lostLe32 br 8, toLex (lostLe32 br 12, lostLe32 br 16)⟩

/-- The level and the branches of the index node that a branch points to, if there is one with room
for them and with no more of them than the driver takes. -/
def ubifsIndexNode (data : UbifsData) (branch : UbifsBranch) : Option (ℕ × List UbifsBranch) :=
  match grubUbifsLebRead data branch.lnum branch.offs branch.len with
  | .error _ => none
  | .ok p =>
    if UBIFS_IDX_LEN ≤ branch.len
        ∧ branch.len ≤ UBIFS_IDX_LEN + UBIFS_MAX_FANOUT * UBIFS_BRANCH_LEN
        ∧ grubUbifsCheckNode ⟨branch.len, p⟩ UBIFS_IDX_NODE = done ()
        ∧ lostLe16 p 24 ≤ UBIFS_MAX_FANOUT
        ∧ UBIFS_IDX_LEN + lostLe16 p 24 * UBIFS_BRANCH_LEN ≤ lostLe32 p 16 then
      some (lostLe16 p 26, (List.range (lostLe16 p 24)).map (ubifsBranch p))
    else none

/-- A branch points to an index tree of at most so many levels with these leaves: at level zero they
are the branches, above it those of the branches, each with the first key below it. -/
def UbifsTree (data : UbifsData) : ℕ → UbifsBranch → List UbifsBranch → Prop
  | 0, _, _ => False
  | levels + 1, branch, leaves =>
    ∃ level branches, ubifsIndexNode data branch = some (level, branches)
      ∧ (level = 0 ∧ leaves = branches ∨ level ≠ 0 ∧ ∃ below : UbifsBranch → List UbifsBranch,
        (∀ b ∈ branches, UbifsTree data levels b (below b)
          ∧ (below b).head?.map UbifsBranch.key = some b.key) ∧ leaves = branches.flatMap below)

/-- The keys of the leaves do not decrease. -/
def UbifsSorted (leaves : List UbifsBranch) : Prop := leaves.Pairwise fun a b => a.key ≤ b.key

variable {σ : Type} {data : UbifsData} {lo hi : UbifsKey}
  {cb : Mem → σ → Outcome GrubError (σ × Bool)}

theorem ubifsBranchKey_eq {idx : Mem} {i : ℕ}
    (hi : UBIFS_IDX_LEN + (i + 1) * UBIFS_BRANCH_LEN ≤ idx.len) :
    ubifsBranchKey idx i = done (ubifsBranch idx.byte i).key := by
  have hfield : UBIFS_IDX_LEN + i * UBIFS_BRANCH_LEN + 12 + 8 ≤ idx.len := by
    rw [Nat.succ_mul, UBIFS_BRANCH_LEN] at *
    omega
  rw [ubifsBranchKey, field_of_le hfield, done_bind]
  simp only [ubifsBranch, lostLe32, lostLe16, byteAt, Buf.from_apply, Nat.add_assoc, Nat.add_zero,
    Nat.reduceAdd]

/-- The loop goes down to the branches that a walk over the range visits. -/
theorem ubifsWalkBranches_eq {visit : UbifsBranch → σ → Outcome GrubError (σ × Bool)} {idx : Mem}
    {left i : ℕ} (hlen : UBIFS_IDX_LEN + (i + left) * UBIFS_BRANCH_LEN ≤ idx.len) (s : σ) :
    ubifsWalkBranches lo hi visit idx left i s = feed visit
      (visited lo hi UbifsBranch.key ((List.range' i left).map (ubifsBranch idx.byte))) s := by
  induction left generalizing i s with
  | zero => rfl
  | succ left ih =>
    have hle : ∀ j, j < i + (left + 1) → UBIFS_IDX_LEN + (j + 1) * UBIFS_BRANCH_LEN ≤ idx.len := by
      intro j hj
      refine le_trans (Nat.add_le_add_left (Nat.mul_le_mul_right _ hj) _) hlen
    have hfield : UBIFS_IDX_LEN + i * UBIFS_BRANCH_LEN + 12 ≤ idx.len := by
      have h := hle i (by omega)
      rw [Nat.succ_mul, UBIFS_BRANCH_LEN] at *
      omega
    have hih := fun s => ih (i := i + 1) (s := s) (by rwa [Nat.add_right_comm, Nat.add_assoc])
    rw [ubifsWalkBranches, ubifsBranchKey_eq (hle i (by omega)), done_bind, List.range'_succ,
      List.map_cons, visited]
    by_cases hend : hi < (ubifsBranch idx.byte i).key
    · rw [if_pos hend, if_pos hend]
      rfl
    rw [if_neg hend, if_neg hend]
    have hskip : ubifsSkips lo idx left i
        = done (((List.range' (i + 1) left).map (ubifsBranch idx.byte)).head?.any fun d =>
          decide (d.key < lo)) := by
      rw [ubifsSkips]
      cases left with
      | zero => rfl
      | succ left =>
        rw [if_neg (Nat.succ_ne_zero left), ubifsBranchKey_eq (hle (i + 1) (by omega)), done_bind]
        rfl
    rw [hskip, done_bind, hih, field_of_le hfield, done_bind]
    simp only [hih]
    split_ifs
    · rfl
    · rfl

/-! ### The walk is exact -/

theorem ubifsReadNode_eq {branch : UbifsBranch} {p : Buf}
    (h : grubUbifsLebRead data branch.lnum branch.offs branch.len = .ok p) :
    ubifsReadNode data branch = done ⟨branch.len, p⟩ := by
  rw [ubifsReadNode, h]

/-- An index node that is accepted: what the walk does there. -/
theorem grubUbifsWalk_node {levels : ℕ} {branch : UbifsBranch} {level : ℕ}
    {branches : List UbifsBranch} (h : ubifsIndexNode data branch = some (level, branches)) (s : σ) :
    grubUbifsWalk data lo hi cb (levels + 1) branch s = feed
      (if level ≠ 0 then grubUbifsWalk data lo hi cb levels else ubifsVisitLeaf data lo cb)
      (visited lo hi UbifsBranch.key branches) s := by
  rw [ubifsIndexNode] at h
  cases hread : grubUbifsLebRead data branch.lnum branch.offs branch.len with
  | error e =>
    rw [hread] at h
    cases h
  | ok p =>
    simp only [hread] at h
    split_ifs at h with hnode
    obtain ⟨hmin, hmax, hcheck, hfanout, hroom⟩ := hnode
    obtain ⟨rfl, rfl⟩ := Prod.mk.inj (Option.some.inj h)
    have hnlen : lostLe32 p 16 ≤ branch.len := by
      rw [grubUbifsCheckNode] at hcheck
      split_ifs at hcheck with hshort
      rw [field_of_le (by simpa using hshort), done_bind] at hcheck
      simp only [Nat.zero_add] at hcheck
      split_ifs at hcheck with hbad
      simp only [not_or] at hbad
      exact Nat.le_of_not_lt hbad.2.2.2
    have hbranches : UBIFS_IDX_LEN + (0 + lostLe16 p 24) * UBIFS_BRANCH_LEN
        ≤ (⟨branch.len, p⟩ : Mem).len := by
      rw [Nat.zero_add]
      exact hroom.trans hnlen
    rw [grubUbifsWalk, if_neg (by omega), ubifsReadNode_eq hread, done_bind, hcheck, done_bind,
      field_of_le (by simpa using hmin), done_bind]
    simp only [Nat.zero_add]
    rw [if_neg (show ¬ (UBIFS_MAX_FANOUT < lostLe16 p 24 ∨ lostLe32 p 16
      < UBIFS_IDX_LEN + lostLe16 p 24 * UBIFS_BRANCH_LEN) by omega), List.range_eq_range']
    split_ifs <;> exact ubifsWalkBranches_eq hbranches s

/-- The callback is handed the leaves with a key in the range, in the order of the index. -/
theorem grubUbifsWalk_eq {levels : ℕ} {branch : UbifsBranch} {leaves : List UbifsBranch}
    (h : UbifsTree data levels branch leaves) (hsorted : UbifsSorted leaves) (s : σ) :
    grubUbifsWalk data lo hi cb levels branch s
      = feed (ubifsHandLeaf data cb) (within lo hi UbifsBranch.key leaves) s := by
  induction levels generalizing branch leaves s with
  | zero => exact absurd h id
  | succ levels ih =>
    obtain ⟨level, branches, hnode, hlevel⟩ := h
    rw [grubUbifsWalk_node hnode]
    rcases hlevel with ⟨rfl, rfl⟩ | ⟨hne, below, hbelow, rfl⟩
    · -- the leaves are there
      have hself : (leaves.flatMap fun b => [b]) = leaves := List.flatMap_singleton' leaves
      have hwithin := @visited_within _ _ _ _ lo hi UbifsBranch.key UbifsBranch.key
        (fun b : UbifsBranch => [b]) leaves (by rwa [hself]) (fun _ _ => rfl)
      rw [hself] at hwithin
      rw [if_neg (by simp), ← hwithin]
      refine feed_flatMap (fun b hb s => ?_) s
      have hhi := (mem_visited hb).2
      rw [ubifsVisitLeaf, within, List.filter_cons, List.filter_nil]
      by_cases hlo : lo ≤ b.key
      · rw [if_pos hlo, if_pos (by simp [hlo, hhi]), feed_cons]
        cases ubifsHandLeaf data cb b s with
        | done r =>
          rw [done_bind]
          split_ifs with hstop
          · rfl
          · rw [feed]
            exact congrArg done (Prod.ext rfl (by simpa using hstop))
        | _ => rfl
      · rw [if_neg hlo, if_neg (by simp [hlo])]
        rfl
    · have hwithin := @visited_within _ _ _ _ lo hi _ _ _ _ hsorted fun b hb => (hbelow b hb).2
      rw [if_pos hne, ← hwithin]
      refine feed_flatMap (fun b hb s => ?_) s
      have hmem := (mem_visited hb).1
      refine ih (hbelow b hmem).1 ?_ s
      exact hsorted.sublist (List.sublist_flatten_of_mem (List.mem_map_of_mem hmem))

/-! ### Any content -/

/-- What a node that is accepted has room for. -/
structure UbifsAccepted (node : Mem) : Prop where
  header : UBIFS_CH_LEN ≤ node.len
  length : lostLe32 node.byte 16 ≤ node.len

theorem grubUbifsCheckNode_ends (node : Mem) (nodeType : ℕ) :
    (grubUbifsCheckNode node nodeType).Ends fun _ => UbifsAccepted node := by
  rw [grubUbifsCheckNode]
  split_ifs with hshort
  · trivial
  have hheader : UBIFS_CH_LEN ≤ node.len := Nat.le_of_not_lt hshort
  rw [field_of_le (by simpa using hheader), done_bind]
  simp only [Nat.zero_add]
  split_ifs with hbad
  · trivial
  simp only [not_or] at hbad
  have hlength : lostLe32 node.byte 16 ≤ node.len := Nat.le_of_not_lt hbad.2.2.2
  have hmin : UBIFS_CH_LEN ≤ lostLe32 node.byte 16 := Nat.le_of_not_lt hbad.2.2.1
  have hfield : 8 + (lostLe32 node.byte 16 - 8) ≤ node.len := by
    rw [UBIFS_CH_LEN] at hmin
    omega
  rw [field_of_le hfield, done_bind]
  split_ifs
  · trivial
  · exact ⟨hheader, hlength⟩

theorem ubifsReadNode_ends (data : UbifsData) (branch : UbifsBranch) :
    (ubifsReadNode data branch).Ends fun node => node.len = branch.len := by
  rw [ubifsReadNode]
  split
  · trivial
  · exact rfl

theorem ubifsHandLeaf_ends {P : σ → Prop}
    (hcb : ∀ leaf s, UbifsAccepted leaf → P s → (cb leaf s).Ends fun r => P r.1)
    (branch : UbifsBranch) {s : σ} (hs : P s) :
    (ubifsHandLeaf data cb branch s).Ends fun r => P r.1 := by
  rw [ubifsHandLeaf]
  split_ifs with hsize
  · trivial
  refine (ubifsReadNode_ends data branch).bind fun leaf hlen => ?_
  have htype : 20 < leaf.len := by
    rw [hlen]
    rw [UBIFS_CH_LEN] at hsize
    omega
  rw [get_of_lt htype, done_bind]
  exact (grubUbifsCheckNode_ends leaf _).bind fun _ haccepted => hcb leaf s haccepted hs

/-- The walk ends on any content, and every read is inside the buffer of the node that it is made
of. -/
theorem grubUbifsWalk_ends {P : σ → Prop}
    (hcb : ∀ leaf s, UbifsAccepted leaf → P s → (cb leaf s).Ends fun r => P r.1)
    (levels : ℕ) (branch : UbifsBranch) {s : σ} (hs : P s) :
    (grubUbifsWalk data lo hi cb levels branch s).Ends fun r => P r.1 := by
  induction levels generalizing branch s with
  | zero => trivial
  | succ levels ih =>
    rw [grubUbifsWalk]
    split_ifs with hsize
    · trivial
    refine (ubifsReadNode_ends data branch).bind fun idx hlen => ?_
    refine (grubUbifsCheckNode_ends idx _).bind fun _ haccepted => ?_
    have hmin : 0 + UBIFS_IDX_LEN ≤ idx.len := by omega
    rw [field_of_le hmin, done_bind]
    simp only [Nat.zero_add]
    split_ifs with hbad hlevel
    · trivial
    all_goals
      have hroom : UBIFS_IDX_LEN + (0 + lostLe16 idx.byte 24) * UBIFS_BRANCH_LEN ≤ idx.len := by
        have hlength := haccepted.length
        have hfits : ¬ (UBIFS_MAX_FANOUT < lostLe16 idx.byte 24 ∨ lostLe32 idx.byte 16
          < UBIFS_IDX_LEN + lostLe16 idx.byte 24 * UBIFS_BRANCH_LEN) := hbad
        rw [Nat.zero_add]
        omega
      refine (congrArg (Outcome.Ends · fun r : σ × Bool => P r.1)
        (ubifsWalkBranches_eq hroom s)).mpr (feed_ends hs fun b _ s hs => ?_)
    · exact ih b hs
    · rw [ubifsVisitLeaf]
      split_ifs
      · exact ubifsHandLeaf_ends hcb b hs
      · exact hs

end FsRover
