import FsRover.Fs.Vxfs

/-!
# The blocks of VxFS files are what their inodes say

## Main definitions

* `FsRover.vxfsHeld` : what the lists of a typed inode hold that the search for a block comes to.
* `FsRover.vxfsLeaves` : the blocks of an inode with address extents, in order.

## Main results

* `FsRover.vxfsBmapRecs_scan` : the search through descriptors is the one through lists that refer to
  lists.
-/

namespace FsRover

open Outline

/-! ### The lists of a typed inode -/

/-- The extent covers the block of the file. -/
def VxfsExtent.Covers (d : VxfsExtent) (iblock : ℕ) : Prop :=
  d.off ≤ iblock ∧ iblock < d.off + d.size

instance (d : VxfsExtent) (iblock : ℕ) : Decidable (d.Covers iblock) :=
  inferInstanceAs (Decidable (_ ∧ _))

/-- The block that an extent gives, 0 for a hole. -/
def VxfsExtent.at (d : VxfsExtent) (iblock : ℕ) : ℕ :=
  if d.block = 0 then 0 else d.block + (iblock - d.off)

/-- A reference to an indirect extent: where it starts, and its blocks. -/
abbrev VxfsList := ℕ × ℕ

/-- The descriptor at `r` as an entry; an indirect extent behind the block is passed over. -/
def vxfsEntry (be : Bool) (iblock : ℕ) (r : Buf) : Entry VxfsExtent GrubError VxfsList :=
  let d := vxfsExtent be r
  match vxfsType be r with
  | 0 => .stop
  | 1 => if iblock < d.off ∨ d.block = 0 then .skip else .list (d.block, d.size)
  | 2 => .item d
  | 3 => .bad vxfsMultiVolume
  | 4 => .bad vxfsMultiVolume
  | type => .bad (vxfsUnknown type)

/-- The `count` descriptors from `r` on. -/
def vxfsEntries (be : Bool) (iblock : ℕ) : ℕ → Buf → List (Entry VxfsExtent GrubError VxfsList)
  | 0, _ => []
  | count + 1, r => vxfsEntry be iblock r :: vxfsEntries be iblock count (r.from 16)

/-- The descriptors in a block. -/
def vxfsBlockEntries (disk : VxfsDisk) (data : VxfsData) (iblock block : ℕ) :
    List (Entry VxfsExtent GrubError VxfsList) :=
  match vxfsReadBlocks disk data block 1 with
  | .error e => [.bad e]
  | .ok buf => vxfsEntries data.be iblock (data.bsize / 16) buf

/-- The descriptors in the blocks of an indirect extent. -/
def vxfsContent (disk : VxfsDisk) (data : VxfsData) (iblock : ℕ) (v : VxfsList) :
    List (Entry VxfsExtent GrubError VxfsList) :=
  if 1024 < v.2 then [.bad (vxfsTooBig v.2)]
  else (List.range' v.1 v.2).flatMap (vxfsBlockEntries disk data iblock)

/-- What the lists of a typed inode hold: data descriptors, and what keeps a list from being read. -/
def vxfsHeld (disk : VxfsDisk) (data : VxfsData) (node : VxfsNode) (iblock : ℕ) :
    List (Except GrubError VxfsExtent) :=
  items vxfsTooDeep (vxfsContent disk data iblock) 8 (vxfsEntries data.be iblock 6 node.org)

/-- What a data descriptor says of a block. -/
def vxfsHit (iblock : ℕ) (d : VxfsExtent) : Option (Option ℕ) :=
  if d.Covers iblock then some (if d.at iblock = 0 then none else some (d.at iblock)) else none

/-- No block is covered by both. -/
def VxfsExtent.Apart (d e : VxfsExtent) : Prop := ∀ iblock, ¬ (d.Covers iblock ∧ e.Covers iblock)

/-- The block is that of the descriptor that covers it, and 0 if there is none. -/
def VxfsGives (ds : List VxfsExtent) (iblock pblock : ℕ) : Prop :=
  (∀ d ∈ ds, d.Covers iblock → pblock = d.at iblock)
    ∧ ((∀ d ∈ ds, ¬ d.Covers iblock) → pblock = 0)

/-- A search that found nothing says 0. -/
def vxfsPblock : Except GrubError (Option ℕ) → Except GrubError ℕ
  | .error e => .error e
  | .ok none => .ok 0
  | .ok (some pblock) => .ok pblock

section Typed

variable {disk : VxfsDisk} {data : VxfsData} {node : VxfsNode} {be : Bool} {iblock : ℕ}

theorem VxfsExtent.at_eq (d : VxfsExtent) :
    d.at iblock = if d.block ≠ 0 then d.block + (iblock - d.off) else 0 := by
  rw [VxfsExtent.at, ite_not]

/-- What a list with `rest` behind it comes to, given what the loop made of its entries. -/
def vxfsGoOn (rest : Except GrubError (Option ℕ)) : Except GrubError (ℕ × Bool) →
    Except GrubError (Option ℕ)
  | .error e => .error e
  | .ok (pblock, done) =>
    if pblock ≠ 0 then .ok (some pblock) else if done then .ok none else rest

/-- The loop over descriptors is the search through the entries that they are. -/
theorem vxfsBmapRecs_scan {indir : ℕ → ℕ → Except GrubError ℕ}
    {sub : VxfsList → Except GrubError (Option ℕ)}
    (hsub : ∀ v, indir v.1 v.2 = vxfsPblock (sub v)) (hpos : ∀ v, sub v ≠ .ok (some 0))
    {rest : List (Entry VxfsExtent GrubError VxfsList)} {count : ℕ} {r : Buf} :
    scan (vxfsHit iblock) sub (vxfsEntries be iblock count r ++ rest)
      = vxfsGoOn (scan (vxfsHit iblock) sub rest) (vxfsBmapRecs be indir iblock count r) := by
  induction count generalizing r with
  | zero => rfl
  | succ count ih =>
    rw [vxfsEntries, List.cons_append, vxfsBmapRecs, vxfsEntry]
    rcases vxfsType be r with _ | _ | _ | _ | _ | type
    · rfl
    · simp only [Nat.zero_add]
      by_cases hpass : iblock < (vxfsExtent be r).off ∨ (vxfsExtent be r).block = 0
      · rw [if_pos hpass, if_pos hpass]
        exact ih
      have hindir : indir (vxfsExtent be r).block (vxfsExtent be r).size
          = vxfsPblock (sub ((vxfsExtent be r).block, (vxfsExtent be r).size)) := hsub (_, _)
      have hzero := hpos ((vxfsExtent be r).block, (vxfsExtent be r).size)
      rw [if_neg hpass, if_neg hpass, scan, hindir]
      cases hv : sub ((vxfsExtent be r).block, (vxfsExtent be r).size) with
      | error e => rfl
      | ok found =>
        cases found with
        | none => exact ih
        | some pblock =>
          have hne : pblock ≠ 0 := fun h => hzero (by rw [hv, h])
          dsimp only [vxfsPblock]
          rw [if_pos hne, vxfsGoOn, if_pos hne]
    · simp only [Nat.zero_add, Nat.reduceAdd]
      rw [scan, vxfsHit]
      have hcovers : (vxfsExtent be r).Covers iblock
          ↔ ¬ (iblock < (vxfsExtent be r).off
            ∨ (vxfsExtent be r).size ≤ iblock - (vxfsExtent be r).off) := by
        rw [VxfsExtent.Covers]
        omega
      by_cases hc : (vxfsExtent be r).Covers iblock
      · rw [if_pos hc, if_neg (hcovers.mp hc), ← VxfsExtent.at_eq, vxfsGoOn]
        by_cases hzero : (vxfsExtent be r).at iblock = 0
        · rw [if_pos hzero, if_neg (not_not.mpr hzero)]
          rfl
        · rw [if_neg hzero, if_pos hzero]
      · rw [if_neg hc, if_pos (not_not.mp fun h => hc (hcovers.mpr h))]
        exact ih
    · rfl
    · rfl
    · rfl

/-- The loop over blocks is the search through the entries in all of them. -/
theorem vxfsBmapBlocks_scan {indir : ℕ → ℕ → Except GrubError ℕ}
    {sub : VxfsList → Except GrubError (Option ℕ)}
    (hsub : ∀ v, indir v.1 v.2 = vxfsPblock (sub v)) (hpos : ∀ v, sub v ≠ .ok (some 0))
    {n block : ℕ} : vxfsBmapBlocks disk data indir iblock n block
      = vxfsPblock (scan (vxfsHit iblock) sub
        ((List.range' block n).flatMap (vxfsBlockEntries disk data iblock))) := by
  induction n generalizing block with
  | zero => rfl
  | succ n ih =>
    rw [vxfsBmapBlocks, List.range'_succ, List.flatMap_cons, vxfsBlockEntries]
    cases vxfsReadBlocks disk data block 1 with
    | error e => rfl
    | ok buf =>
      dsimp only
      rw [vxfsBmapRecs_scan hsub hpos]
      cases vxfsBmapRecs data.be indir iblock (data.bsize / 16) buf with
      | error e => rfl
      | ok r =>
        obtain ⟨pblock, done⟩ := r
        dsimp only [vxfsGoOn]
        by_cases hp : pblock ≠ 0
        · rw [if_pos hp, if_pos (Or.inr hp)]
          rfl
        · rw [if_neg hp]
          cases done with
          | true =>
            rw [if_pos (Or.inl rfl), if_pos rfl, not_not.mp hp]
            rfl
          | false =>
            rw [if_neg (not_or.mpr ⟨Bool.false_ne_true, hp⟩), if_neg Bool.false_ne_true]
            exact ih

theorem vxfsHit_ne_zero {d : VxfsExtent} {p : ℕ} (h : vxfsHit iblock d = some (some p)) : p ≠ 0 := by
  rw [vxfsHit] at h
  split_ifs at h with hcovers hzero
  · cases h
  · exact Option.some.inj (Option.some.inj h) ▸ hzero

/-- An indirect extent is searched as the list of its entries. -/
theorem vxfsBmapIndir_eq {levels : ℕ} {v : VxfsList} :
    vxfsBmapIndir disk data iblock levels v.1 v.2 = vxfsPblock
      (follow (vxfsHit iblock) vxfsTooDeep (vxfsContent disk data iblock) levels v) := by
  induction levels generalizing v with
  | zero => rfl
  | succ levels ih =>
    rw [vxfsBmapIndir, follow, search_eq, vxfsContent]
    split_ifs with hbig
    · rfl
    · exact vxfsBmapBlocks_scan (fun v => ih) fun v hv =>
        follow_forall (fun a b => vxfsHit_ne_zero) hv rfl

theorem vxfsBmapRecs_eq {levels : ℕ} : (vxfsBmapRecs data.be (vxfsBmapIndir disk data iblock levels)
      iblock 6 node.org).map Prod.fst
    = vxfsPblock (search (vxfsHit iblock) vxfsTooDeep (vxfsContent disk data iblock) levels
      (vxfsEntries data.be iblock 6 node.org)) := by
  have hscan := @vxfsBmapRecs_scan data.be iblock (vxfsBmapIndir disk data iblock levels)
    (follow (vxfsHit iblock) vxfsTooDeep (vxfsContent disk data iblock) levels)
    (fun v => vxfsBmapIndir_eq) (fun v hv => follow_forall (fun a b => vxfsHit_ne_zero) hv rfl) [] 6
    node.org
  rw [List.append_nil] at hscan
  rw [search_eq, hscan]
  cases vxfsBmapRecs data.be (vxfsBmapIndir disk data iblock levels) iblock 6 node.org with
  | error e => rfl
  | ok r =>
    obtain ⟨pblock, done⟩ := r
    dsimp only [vxfsGoOn]
    by_cases hp : pblock ≠ 0
    · rw [if_pos hp]
      rfl
    · rw [if_neg hp, not_not.mp hp]
      cases done <;> rfl

theorem vxfsLone {ds : List VxfsExtent} (h : ds.Pairwise VxfsExtent.Apart) :
    Lone (vxfsHit iblock) ds := by
  refine h.imp fun {d e} hde => ?_
  by_cases hd : d.Covers iblock
  · exact Or.inr (if_neg fun he => hde iblock ⟨hd, he⟩)
  · exact Or.inl (if_neg hd)

/-- The answer of descriptors that stand apart is what they give. -/
theorem vxfsGives_found {ds : List VxfsExtent} (h : ds.Pairwise VxfsExtent.Apart) :
    VxfsGives ds iblock ((found (vxfsHit iblock) ds).getD 0) := by
  refine ⟨fun d hd hcovers => ?_, fun hnone => ?_⟩
  · have hhit : vxfsHit iblock d = some (if d.at iblock = 0 then none else some (d.at iblock)) :=
      if_pos hcovers
    have hfirst : ds.findSome? (vxfsHit iblock) = vxfsHit iblock d := by
      induction ds with
      | nil => cases hd
      | cons e es ih =>
        have hcons := List.pairwise_cons.mp h
        rcases List.mem_cons.mp hd with rfl | hmem
        · exact List.findSome?_cons_of_isSome (by rw [hhit]; rfl)
        · have he : vxfsHit iblock e = none := if_neg fun he => hcons.1 d hmem iblock ⟨he, hcovers⟩
          rw [List.findSome?_cons_of_isNone (by rw [he]; rfl)]
          exact ih hcons.2 hmem
    rw [found, hfirst, hhit]
    split_ifs with hzero
    · exact hzero.symm
    · rfl
  · have hfound : found (vxfsHit iblock) ds = none :=
      found_none fun d hd => if_neg (hnone d hd)
    rw [hfound]
    rfl

/-- What a search for a block of a typed inode may come to. -/
def VxfsTyped (disk : VxfsDisk) (data : VxfsData) (node : VxfsNode) (iblock : ℕ) :
    Except GrubError ℕ → Prop
  | .ok pblock => VxfsGives (goods (vxfsHeld disk data node iblock)) iblock pblock
    ∧ pblock < data.blocks
  | .error e => .error e ∈ vxfsHeld disk data node iblock
    ∨ ∃ pblock, VxfsGives (goods (vxfsHeld disk data node iblock)) iblock pblock
      ∧ data.blocks ≤ pblock ∧ e = vxfsOutside pblock

theorem vxfsBmap_typed (htype : node.orgtype = 3)
    (hapart : (goods (vxfsHeld disk data node iblock)).Pairwise VxfsExtent.Apart) :
    VxfsTyped disk data node iblock (vxfsBmap disk data node iblock) := by
  have hagrees := search_agrees (@vxfsLone iblock _ hapart)
  have hgives := @vxfsGives_found iblock _ hapart
  rw [vxfsBmap, htype]
  dsimp only
  rw [vxfsBmapRecs_eq]
  revert hagrees
  cases search (vxfsHit iblock) vxfsTooDeep (vxfsContent disk data iblock) 8
      (vxfsEntries data.be iblock 6 node.org) with
  | error e => exact Or.inl
  | ok r =>
    intro hr
    have hr : r = found (vxfsHit iblock) (goods (vxfsHeld disk data node iblock)) := hr
    rw [← hr] at hgives
    have hpblock : vxfsPblock (.ok r) = .ok (r.getD 0) := by cases r <;> rfl
    rw [hpblock, vxfsChecked]
    split_ifs with hout
    · exact Or.inr ⟨_, hgives, hout, rfl⟩
    · exact ⟨hgives, not_le.mp hout⟩

end Typed

/-! ### Address extents -/

/-- The block, unless it is outside the volume. -/
def vxfsLeaf (data : VxfsData) (pblock : ℕ) : Option ℕ :=
  if data.blocks ≤ pblock then none else some pblock

/-- An indirect address extent without an address designates holes, and one outside the volume
nothing. -/
def vxfsStop (data : VxfsData) (start : ℕ) : Option (Option ℕ) :=
  if start = 0 then some (some 0) else if data.blocks ≤ start then some none else none

/-- The address with the number `idx` in an indirect address extent. -/
def vxfsPointer (disk : VxfsDisk) (data : VxfsData) (start idx : ℕ) : ℕ :=
  vxfsGet32 data.be (disk.volume.from (start * data.bsize + idx * 4)) 0

/-- The addresses in an indirect address extent. -/
def vxfsNindir (data : VxfsData) (node : VxfsNode) : ℕ :=
  vxfsGet32 data.be node.org 4 * (data.bsize / 4)

/-- What an indirect address extent of depth `d` designates, in order. -/
def vxfsTree (disk : VxfsDisk) (data : VxfsData) (node : VxfsNode) (d start : ℕ) : List (Option ℕ) :=
  Radix.leaves (vxfsNindir data node) (vxfsStop data) (vxfsLeaf data) (vxfsPointer disk data) d start

/-- The blocks of the `n` direct extents from the one with the number `i` on. -/
def vxfsDirectBlocks (be : Bool) (org : Buf) (i n : ℕ) : List ℕ :=
  (List.range' i n).flatMap fun i =>
    (List.range (vxfsGet32 be org (0x10 + 8 * i + 4))).map fun k =>
      if vxfsGet32 be org (0x10 + 8 * i) ≠ 0 then vxfsGet32 be org (0x10 + 8 * i) + k else 0

/-- What the extents of an inode designate, in the order of the file. -/
def vxfsLeaves (disk : VxfsDisk) (data : VxfsData) (node : VxfsNode) : List (Option ℕ) :=
  (vxfsDirectBlocks data.be node.org 0 10).map (vxfsLeaf data)
    ++ vxfsTree disk data node 1 (vxfsGet32 data.be node.org 8)
    ++ vxfsTree disk data node 2 (vxfsGet32 data.be node.org 12)

/-- No read of descriptors or addresses fails. -/
def VxfsDisk.Calm (disk : VxfsDisk) : Prop := ∀ offset length, disk.fails offset length = none

/-- What a search may come to for a place in which the extents have `b`. -/
def VxfsFinds (disk : VxfsDisk) (b : Option ℕ) (r : Except GrubError ℕ) : Prop :=
  (∀ pblock, r = .ok pblock → b = some pblock) ∧ (disk.Calm → r.toOption = b)

section Ext4

variable {disk : VxfsDisk} {data : VxfsData} {node : VxfsNode}

theorem vxfsChecked_finds {pblock : ℕ} :
    VxfsFinds disk (vxfsLeaf data pblock) (vxfsChecked data (.ok pblock)) := by
  rw [vxfsLeaf, vxfsChecked]
  split_ifs with hout
  · exact ⟨(fun p h => by cases h), fun _ => rfl⟩
  · exact ⟨fun p h => congrArg some (Except.ok.inj h), fun _ => rfl⟩

theorem vxfsChecked_hole : VxfsFinds disk (some 0) (vxfsChecked data (.ok 0)) := by
  have hleaf : vxfsLeaf data 0 = some 0 := if_neg (not_le.mpr data.blocks_pos)
  rw [← hleaf]
  exact vxfsChecked_finds

theorem VxfsData.bsize_le (data : VxfsData) : data.bsize ≤ 2 ^ 13 := by
  have hpow : 2 ^ data.log2Bsize ≤ 2 ^ 4 := Nat.pow_le_pow_right (by decide) data.log2_le
  have heq := data.bsize_eq
  omega

theorem vxfsNindir_lt : vxfsNindir data node < 2 ^ 43 := by
  have hsize : vxfsGet32 data.be node.org 4 ≤ 2 ^ 32 - 1 :=
    Nat.le_sub_one_of_lt vxfsGet32_lt
  have hbsize := data.bsize_le
  have hmul : vxfsNindir data node ≤ (2 ^ 32 - 1) * 2 ^ 11 := Nat.mul_le_mul hsize (by omega)
  omega

theorem vxfsIndirEntry_valid {start idx : ℕ} (hzero : start ≠ 0) (hidx : idx < vxfsNindir data node) :
    ¬ (start = 0 ∨ vxfsGet32 data.be node.org 4 * (data.bsize / 4) ≤ idx) :=
  not_or.mpr ⟨hzero, not_le.mpr hidx⟩

theorem vxfsNindir_square (h : vxfsNindir data node < 2 ^ 32) :
    vxfsNindir data node * vxfsNindir data node < 2 ^ 64 :=
  lt_of_lt_of_le (Nat.mul_lt_mul'' h h) (by decide)

/-- An entry of an extent in the volume is read where the extent has it. -/
theorem vxfsIndirEntry_eq {start idx : ℕ} (hzero : start ≠ 0) (hstart : ¬ data.blocks ≤ start)
    (hidx : idx < vxfsNindir data node) :
    vxfsIndirEntry disk data start (vxfsGet32 data.be node.org 4) idx
      = match disk.fails (start * data.bsize + idx * 4) 4 with
        | some e => .error e
        | none => .ok (vxfsPointer disk data start idx) := by
  have hblocks := data.blocks_lt
  have hnindir := @vxfsNindir_lt data node
  have hmul : start * data.bsize ≤ 2 ^ 32 * 2 ^ 13 := Nat.mul_le_mul (by omega) data.bsize_le
  have hoff : u64 (start * data.bsize + idx * 4) = start * data.bsize + idx * 4 :=
    u64_of_lt (by omega)
  rw [vxfsIndirEntry, if_neg (vxfsIndirEntry_valid hzero hidx), if_neg hstart]
  dsimp only
  rw [hoff, vxfsDiskRead, Nat.div_add_mod']
  cases disk.fails (start * data.bsize + idx * 4) 4 <;> rfl

/-- The search through an indirect address extent finds what it has in the place. -/
theorem vxfsSingle_finds {start k : ℕ} (hk : k < vxfsNindir data node) :
    VxfsFinds disk (Radix.find (vxfsNindir data node) (vxfsStop data) (vxfsLeaf data)
      (vxfsPointer disk data) 1 start k) (vxfsChecked data (if start = 0 then .ok 0
        else vxfsIndirEntry disk data start (vxfsGet32 data.be node.org 4) k)) := by
  rw [Radix.find, vxfsStop]
  by_cases hzero : start = 0
  · rw [if_pos hzero, if_pos hzero]
    exact vxfsChecked_hole
  rw [if_neg hzero, if_neg hzero]
  by_cases hout : data.blocks ≤ start
  · rw [if_pos hout, vxfsIndirEntry, if_neg (vxfsIndirEntry_valid hzero hk), if_pos hout]
    exact ⟨(fun p h => by cases h), fun _ => rfl⟩
  rw [if_neg hout, vxfsIndirEntry_eq hzero hout hk]
  dsimp only
  rw [Radix.find, pow_zero, Nat.div_one]
  cases hfails : disk.fails (start * data.bsize + k * 4) 4 with
  | none => exact vxfsChecked_finds
  | some e =>
    refine ⟨(fun p h => by cases h), fun hcalm => ?_⟩
    rw [hcalm] at hfails
    cases hfails

/-- The search through a double indirect address extent finds what it has in the place. -/
theorem vxfsDouble_finds {start k : ℕ} (hk : k < vxfsNindir data node * vxfsNindir data node) :
    VxfsFinds disk (Radix.find (vxfsNindir data node) (vxfsStop data) (vxfsLeaf data)
      (vxfsPointer disk data) 2 start k) (vxfsChecked data (if start = 0 then .ok 0
        else match vxfsIndirEntry disk data start (vxfsGet32 data.be node.org 4)
            (k / vxfsNindir data node) with
          | .error e => .error e
          | .ok next =>
            if next = 0 then .ok 0 else vxfsIndirEntry disk data next (vxfsGet32 data.be node.org 4)
              (k % vxfsNindir data node))) := by
  have hpos : 0 < vxfsNindir data node := Nat.pos_of_ne_zero fun h => by
    rw [h] at hk
    omega
  have hdiv : k / vxfsNindir data node < vxfsNindir data node := Nat.div_lt_of_lt_mul hk
  rw [Radix.find, vxfsStop]
  by_cases hzero : start = 0
  · rw [if_pos hzero, if_pos hzero]
    exact vxfsChecked_hole
  rw [if_neg hzero, if_neg hzero]
  by_cases hout : data.blocks ≤ start
  · rw [if_pos hout, vxfsIndirEntry, if_neg (vxfsIndirEntry_valid hzero hdiv), if_pos hout]
    exact ⟨(fun p h => by cases h), fun _ => rfl⟩
  rw [if_neg hout, vxfsIndirEntry_eq hzero hout hdiv, pow_one]
  dsimp only
  cases hfails : disk.fails (start * data.bsize + k / vxfsNindir data node * 4) 4 with
  | none => exact vxfsSingle_finds (Nat.mod_lt _ hpos)
  | some e =>
    refine ⟨(fun p h => by cases h), fun hcalm => ?_⟩
    rw [hcalm] at hfails
    cases hfails

/-- The loop over direct extents counts through their blocks. -/
theorem vxfsDirect_spec {be : Bool} {org : Buf} {n i bn : ℕ} :
    match vxfsDirect be org n i bn with
    | .inl pblock => (vxfsDirectBlocks be org i n)[bn]? = some pblock
    | .inr rest => bn = (vxfsDirectBlocks be org i n).length + rest := by
  induction n generalizing i bn with
  | zero => exact (Nat.zero_add bn).symm
  | succ n ih =>
    have hblocks : vxfsDirectBlocks be org i (n + 1)
        = (List.range (vxfsGet32 be org (0x10 + 8 * i + 4))).map (fun k =>
          if vxfsGet32 be org (0x10 + 8 * i) ≠ 0 then vxfsGet32 be org (0x10 + 8 * i) + k else 0)
        ++ vxfsDirectBlocks be org (i + 1) n := by
      rw [vxfsDirectBlocks, List.range'_succ, List.flatMap_cons]
      rfl
    rw [vxfsDirect, hblocks]
    by_cases hlt : bn < vxfsGet32 be org (0x10 + 8 * i + 4)
    · rw [if_pos hlt]
      dsimp only
      rw [List.getElem?_append_left (by simpa using hlt), List.getElem?_map,
        List.getElem?_range hlt]
      rfl
    · rw [if_neg hlt]
      have hrest := @ih (i + 1) (bn - vxfsGet32 be org (0x10 + 8 * i + 4))
      revert hrest
      cases vxfsDirect be org n (i + 1) (bn - vxfsGet32 be org (0x10 + 8 * i + 4)) with
      | inl pblock =>
        intro hrest
        dsimp only at hrest ⊢
        rw [List.getElem?_append_right (by simpa using hlt)]
        simpa using hrest
      | inr rest =>
        intro hrest
        dsimp only at hrest ⊢
        rw [List.length_append, List.length_map, List.length_range]
        omega

theorem length_vxfsLeaves : (vxfsLeaves disk data node).length
    = (vxfsDirectBlocks data.be node.org 0 10).length + vxfsNindir data node
      + vxfsNindir data node * vxfsNindir data node := by
  rw [vxfsLeaves, List.length_append, List.length_append, List.length_map, vxfsTree, vxfsTree,
    Radix.length_leaves, Radix.length_leaves, pow_one, pow_two]

theorem vxfsBmapExt4_finds {k : ℕ} (hsquare : vxfsNindir data node * vxfsNindir data node < 2 ^ 64)
    (hk : k < (vxfsLeaves disk data node).length) :
    ∃ b, (vxfsLeaves disk data node)[k]? = some b
      ∧ VxfsFinds disk b (vxfsChecked data (vxfsBmapExt4 disk data node k)) := by
  rw [length_vxfsLeaves] at hk
  have hone : (vxfsTree disk data node 1 (vxfsGet32 data.be node.org 8)).length
      = vxfsNindir data node := Radix.length_leaves.trans (pow_one _)
  have hdirect := @vxfsDirect_spec data.be node.org 10 0 k
  rw [vxfsBmapExt4, vxfsLeaves, List.append_assoc]
  cases hcase : vxfsDirect data.be node.org 10 0 k with
  | inl pblock =>
    rw [hcase] at hdirect
    refine ⟨vxfsLeaf data pblock, ?_, vxfsChecked_finds⟩
    have hlt := (List.getElem?_eq_some_iff.mp hdirect).1
    rw [List.getElem?_append_left (by rwa [List.length_map]), List.getElem?_map, hdirect]
    rfl
  | inr bn =>
  rw [hcase] at hdirect
  have hbn : k = (vxfsDirectBlocks data.be node.org 0 10).length + bn := hdirect
  have hskip : k - ((vxfsDirectBlocks data.be node.org 0 10).map (vxfsLeaf data)).length = bn := by
    rw [List.length_map]
    omega
  rw [List.getElem?_append_right (by rw [List.length_map]; omega), hskip]
  by_cases hindsize : vxfsGet32 data.be node.org 4 = 0
  · have hnindir : vxfsNindir data node = 0 := by rw [vxfsNindir, hindsize, Nat.zero_mul]
    rw [hnindir] at hk
    omega
  dsimp only
  rw [if_neg hindsize, ← vxfsNindir, u64_of_lt hsquare]
  by_cases hsingle : bn < vxfsNindir data node
  · rw [if_pos hsingle, List.getElem?_append_left (by rwa [hone])]
    exact ⟨_, Radix.getElem?_leaves (by rwa [pow_one]), vxfsSingle_finds hsingle⟩
  · have hdouble : bn - vxfsNindir data node < vxfsNindir data node * vxfsNindir data node := by
      omega
    rw [if_neg hsingle, if_neg (not_le.mpr hdouble),
      List.getElem?_append_right (by rw [hone]; omega), hone]
    exact ⟨_, Radix.getElem?_leaves (by rwa [pow_two]), vxfsDouble_finds hdouble⟩

/-- Past its extents an inode without indirect ones has holes, and any other nothing. -/
theorem vxfsBmapExt4_past {k : ℕ} (hsquare : vxfsNindir data node * vxfsNindir data node < 2 ^ 64)
    (hk : (vxfsLeaves disk data node).length ≤ k) :
    if vxfsGet32 data.be node.org 4 = 0 then vxfsBmapExt4 disk data node k = .ok 0
    else ∃ e, vxfsBmapExt4 disk data node k = .error e := by
  rw [length_vxfsLeaves] at hk
  have hdirect := @vxfsDirect_spec data.be node.org 10 0 k
  rw [vxfsBmapExt4]
  cases hcase : vxfsDirect data.be node.org 10 0 k with
  | inl pblock =>
    rw [hcase] at hdirect
    have hlt := (List.getElem?_eq_some_iff.mp hdirect).1
    omega
  | inr bn =>
  rw [hcase] at hdirect
  have hbn : k = (vxfsDirectBlocks data.be node.org 0 10).length + bn := hdirect
  by_cases hindsize : vxfsGet32 data.be node.org 4 = 0
  · rw [if_pos hindsize]
    dsimp only
    rw [if_pos hindsize]
  · rw [if_neg hindsize]
    dsimp only
    rw [if_neg hindsize, ← vxfsNindir, u64_of_lt hsquare, if_neg (by omega), if_pos (by omega)]
    exact ⟨_, rfl⟩

end Ext4

/-! ### Files -/

/-- A read asks for the block with the number `j`. -/
def VxfsData.Asks (data : VxfsData) (pos len j : ℕ) : Prop :=
  pos / data.bsize ≤ j ∧ j * data.bsize < pos + len

/-- The block with the number `j` in the file; 0 where none is found. -/
def vxfsBlock (disk : VxfsDisk) (data : VxfsData) (node : VxfsNode) (j : ℕ) : ℕ :=
  (vxfsBmap disk data node j).toOption.getD 0

section Read

variable {disk : VxfsDisk} {data : VxfsData} {node : VxfsNode}

theorem vxfsBmap_lt {j pblock : ℕ} (h : vxfsBmap disk data node j = .ok pblock) :
    pblock < data.blocks := by
  have hchecked : ∀ r, vxfsChecked data r = .ok pblock → pblock < data.blocks := by
    intro r hr
    cases r with
    | error e => cases hr
    | ok p =>
      rw [vxfsChecked] at hr
      split_ifs at hr with hout
      exact Except.ok.inj hr ▸ not_le.mp hout
  rw [vxfsBmap] at h
  split at h
  · exact hchecked _ h
  · exact hchecked _ h
  · cases h

/-- A read inside a file ends; it succeeds if and only if its blocks are found, and gives their
bytes, with zeros for holes. -/
theorem vxfsReadFile_blocks {maxRead pos len : ℕ} (hkind : node.orgtype ≠ 0 ∧ node.orgtype ≠ 2)
    (hlen : pos + len ≤ node.size) (hend : pos + len + data.bsize ≤ 2 ^ 64) :
    (vxfsReadFile disk data node maxRead pos len).isSome
    ∧ ∀ bs, vxfsReadFile disk data node maxRead pos len = some (.ok bs) ↔
      (∀ j, data.Asks pos len j → ∃ pblock, vxfsBmap disk data node j = .ok pblock)
      ∧ bs = (List.range' pos len).map
        (fshelpByte disk.volume (vxfsBlock disk data node) data.bsize) := by
  have hread : vxfsReadFile disk data node maxRead pos len
      = grubFshelpReadFile disk.volume (fun iblock => some (vxfsBmap disk data node iblock)) maxRead
        (pos + len) data.log2Bsize pos len := by
    rw [vxfsReadFile, if_neg (by omega)]
    have hsame := @grubFshelpReadFile_resize disk.volume
      (fun iblock => some (vxfsBmap disk data node iblock)) maxRead node.size data.log2Bsize pos len
      hlen (by have hbsize := data.bsize_eq; have hpow := Nat.two_pow_pos data.log2Bsize; omega)
    split
    · exact absurd ‹_› hkind.2
    · exact absurd ‹_› hkind.1
    · exact hsame
  rw [data.bsize_eq] at hend
  have hcovered := @grubFshelpReadFile_covered disk.volume
    (fun iblock => some (vxfsBmap disk data node iblock)) (vxfsBlock disk data node) maxRead
    (pos + len) data.log2Bsize pos len (by have hlog2 := data.log2_le; omega) (Nat.le_refl _) hend
  rw [← data.bsize_eq] at hcovered
  have hsome : (∀ j, data.Asks pos len j → ∃ pblock, vxfsBmap disk data node j = .ok pblock) →
      grubFshelpReadFile disk.volume (fun iblock => some (vxfsBmap disk data node iblock)) maxRead
        (pos + len) data.log2Bsize pos len = some (.ok ((List.range' pos len).map
          (fshelpByte disk.volume (vxfsBlock disk data node) data.bsize))) := by
    intro hfound
    refine hcovered fun j hlow hhigh => ?_
    obtain ⟨pblock, hj⟩ := hfound j ⟨hlow, hhigh⟩
    have hblock : vxfsBlock disk data node j = pblock := by
      rw [vxfsBlock, hj]
      rfl
    have hlt := vxfsBmap_lt hj
    have hblocks := data.blocks_lt
    have hmul : pblock * data.bsize ≤ 2 ^ 32 * 2 ^ 13 := Nat.mul_le_mul (by omega) data.bsize_le
    rw [hblock]
    exact ⟨congrArg some hj, by omega⟩
  rw [hread]
  refine ⟨grubFshelpReadFile_isSome fun _ => rfl, fun bs => ⟨fun hbs => ?_, fun h => ?_⟩⟩
  · have hblocks := grubFshelpReadFile_blocks (Nat.le_refl _) hend hbs
    rw [← data.bsize_eq] at hblocks
    have hfound : ∀ j, data.Asks pos len j → ∃ pblock, vxfsBmap disk data node j = .ok pblock := by
      intro j hj
      obtain ⟨pblock, hj⟩ := hblocks j hj.1 hj.2
      exact ⟨pblock, Option.some.inj hj⟩
    exact ⟨hfound, Except.ok.inj (Option.some.inj (hbs.symm.trans (hsome hfound)))⟩
  · rw [hsome h.1, h.2]

end Read

/-! ### The main result -/

/-- What holds of an inode of a volume. -/
structure VxfsExact (disk : VxfsDisk) (data : VxfsData) (node : VxfsNode) : Prop where
  /-- A block of a typed inode whose descriptors stand apart is the one they give. -/
  typed : node.orgtype = 3 → ∀ iblock,
    (goods (vxfsHeld disk data node iblock)).Pairwise VxfsExtent.Apart →
    VxfsTyped disk data node iblock (vxfsBmap disk data node iblock)
  /-- A block of an inode with address extents is the one they have in its place. -/
  ext4 : node.orgtype = 1 → vxfsNindir data node < 2 ^ 32 → ∀ iblock,
    iblock < (vxfsLeaves disk data node).length → ∃ b, (vxfsLeaves disk data node)[iblock]? = some b
      ∧ VxfsFinds disk b (vxfsBmap disk data node iblock)
  /-- There is none past them; without indirect extents there are holes. -/
  past : node.orgtype = 1 → vxfsNindir data node < 2 ^ 32 → ∀ iblock,
    (vxfsLeaves disk data node).length ≤ iblock →
    if vxfsGet32 data.be node.org 4 = 0 then vxfsBmap disk data node iblock = .ok 0
    else ∃ e, vxfsBmap disk data node iblock = .error e
  /-- A read succeeds if and only if its blocks are found, and gives their bytes. -/
  blocks : node.orgtype ≠ 0 → node.orgtype ≠ 2 → ∀ maxRead pos len, pos + len ≤ node.size →
    pos + len + data.bsize ≤ 2 ^ 64 → (vxfsReadFile disk data node maxRead pos len).isSome
      ∧ ∀ bs, vxfsReadFile disk data node maxRead pos len = some (.ok bs) ↔
        (∀ j, data.Asks pos len j → ∃ pblock, vxfsBmap disk data node j = .ok pblock)
        ∧ bs = (List.range' pos len).map
          (fshelpByte disk.volume (vxfsBlock disk data node) data.bsize)
  /-- What is in the inode itself is read from there. -/
  immediate : node.orgtype = 2 → ∀ maxRead pos len, pos + len ≤ node.size → pos + len ≤ 96 →
    vxfsReadFile disk data node maxRead pos len = some (.ok (node.org.list pos len))
  /-- An inode without an organisation is all holes. -/
  empty : node.orgtype = 0 → ∀ maxRead pos len, pos + len ≤ node.size →
    vxfsReadFile disk data node maxRead pos len = some (.ok (List.replicate len 0))

/-- **VxFS files are what their inodes say.** -/
theorem vxfs_exact (disk : VxfsDisk) (data : VxfsData) (node : VxfsNode) :
    VxfsExact disk data node where
  typed htype iblock hapart := vxfsBmap_typed htype hapart
  ext4 htype hnindir iblock hlt := by
    obtain ⟨b, hb, hfinds⟩ := vxfsBmapExt4_finds (vxfsNindir_square hnindir) hlt
    refine ⟨b, hb, ?_⟩
    rw [vxfsBmap, htype]
    exact hfinds
  past htype hnindir iblock hle := by
    have hpast := vxfsBmapExt4_past (vxfsNindir_square hnindir) hle
    rw [vxfsBmap, htype]
    split_ifs at hpast ⊢
    · exact (congrArg (vxfsChecked data) hpast).trans (if_neg (not_le.mpr data.blocks_pos))
    · obtain ⟨e, he⟩ := hpast
      exact ⟨e, congrArg (vxfsChecked data) he⟩
  blocks hzero htwo maxRead pos len hlen hend := vxfsReadFile_blocks ⟨hzero, htwo⟩ hlen hend
  immediate htype maxRead pos len hlen hshort := by
    rw [vxfsReadFile, if_neg (by omega), htype]
    exact if_neg (by omega)
  empty htype maxRead pos len hlen := by
    rw [vxfsReadFile, if_neg (by omega), htype]
    rfl

/-! ### A descriptor that is not supported -/

/-- A volume of 100 blocks of 1 KiB. -/
def vxfsSmall : VxfsData where
  be := false
  version := 4
  bsize := 1024
  log2Bsize := 1
  blocks := 100
  bsize_eq := rfl
  log2_le := by decide
  blocks_pos := by decide
  blocks_lt := by decide

/-- A typed inode: a multi volume descriptor, then block 5 for the first block of the file. -/
def vxfsMixed : VxfsNode :=
  ⟨2, 1024, 3, Buf.ofFields [(7, [4]), (23, [2]), (24, [5]), (28, [1])]⟩

/-- The only data descriptor covers the block, and still it is not found. -/
theorem vxfs_multi_volume :
    goods (vxfsHeld ⟨fun _ => 0, fun _ _ => none, none⟩ vxfsSmall vxfsMixed 0) = [⟨0, 5, 1⟩]
    ∧ vxfsBmap ⟨fun _ => 0, fun _ _ => none, none⟩ vxfsSmall vxfsMixed 0
      = .error vxfsMultiVolume :=
  ⟨by decide, rfl⟩

end FsRover
