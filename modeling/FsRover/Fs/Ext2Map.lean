import FsRover.Fs.BlockMap
import FsRover.Fs.Ext2

/-!
# ext2 files as they are mapped and as they are read

A file with block pointers is read as it is mapped. A tree of extents is walked through by the map and
searched by keys for a read, so both see the same where every extent lies between the keys above it.
A read takes the extents that are marked as unwritten for data, though.

## Main definitions

* `FsRover.ExtFits` : a tree of extents in good order, without unwritten extents inside the file.

## Main results

* `FsRover.ext2_mapAgrees` : a file is read as it is mapped.
* `FsRover.ext2_unwritten_disagrees` : not where an extent is unwritten.
-/

namespace FsRover

theorem Ext2File.blockSize_pos (f : Ext2File) : 0 < f.blockSize :=
  Nat.mul_pos (Nat.two_pow_pos _) (by decide)

theorem extFind_spec (node : Buf) (b n i : ℕ) : i ≤ extFind node b n i
    ∧ extFind node b n i ≤ i + n
    ∧ (∀ j, i ≤ j → j < extFind node b n i → extKey node j ≤ b)
    ∧ (extFind node b n i < i + n → b < extKey node (extFind node b n i)) :=
  KeyIndex.firstAbove_spec (extKey node) b n i

/-! ### Trees in good order -/

/-- The blocks of an extent. -/
def extLen (node : Buf) (i : ℕ) : ℕ :=
  if 32768 < extRaw node i then extRaw node i - 32768 else extRaw node i

/-- A node of a tree of extents is in good order: it has the magic number and its depth, its entries
ascend within the keys above it, and the extents that begin in the file are written, lie on the volume
and do not begin in its first block. -/
def ExtFits (f : Ext2File) : ℕ → Buf → Bool → ℕ → ℕ → Prop
  | 0, node, inline, lo, hi => lostLe16 node 0 = EXT4_EXT_MAGIC ∧ lostLe16 node 6 = 0
    ∧ extEntries node ≤ extLimit f inline
    ∧ (∀ i < extEntries node, lo ≤ extKey node i ∧ extKey node i + extLen node i ≤ hi
      ∧ (extKey node i * f.blockSize < f.size → extRaw node i ≤ 32768 ∧ extStart node i ≠ 0
        ∧ (extStart node i + extRaw node i) * f.blockSize ≤ 2 ^ 64))
    ∧ ∀ i j, i < j → j < extEntries node → extKey node i + extLen node i ≤ extKey node j
      ∧ extKey node i < extKey node j
  | depth + 1, node, _, lo, hi => lostLe16 node 0 = EXT4_EXT_MAGIC ∧ lostLe16 node 6 = depth + 1
    ∧ (∀ i < extEntries node, lo ≤ extKey node i ∧ extKey node i < hi
      ∧ ExtFits f depth (f.block (extChild node i)) false (extKey node i)
        (if i + 1 < extEntries node then extKey node (i + 1) else hi))
    ∧ ∀ i j, i < j → j < extEntries node → extKey node i < extKey node j

/-- The block that the tree below a node gives. -/
def extBlock (f : Ext2File) (b : ℕ) : ℕ → Buf → Bool → ℕ
  | 0, node, inline => extLeafBlock f node inline b
  | depth + 1, node, _ =>
    match extFind node b (extEntries node) 0 with
    | 0 => 0
    | i + 1 => extBlock f b depth (f.block (extChild node i)) false

section Tree

variable {f : Ext2File} {node : Buf} {inline : Bool} {lo hi : ℕ}

/-- The search for the leaf goes the way of the tree. -/
theorem grubExt4FindLeaf_eq {b depth rounds : ℕ} (hfits : ExtFits f depth node inline lo hi)
    (hrounds : depth < rounds) :
    (grubExt4FindLeaf f b rounds node inline = some (.ok none) ∧ extBlock f b depth node inline = 0)
    ∨ ∃ leaf inline', grubExt4FindLeaf f b rounds node inline = some (.ok (some (leaf, inline')))
      ∧ extLeafBlock f leaf inline' b = extBlock f b depth node inline := by
  induction depth generalizing node inline lo hi rounds with
  | zero =>
    obtain ⟨rounds, rfl⟩ := Nat.exists_eq_succ_of_ne_zero (Nat.ne_of_gt hrounds)
    obtain ⟨hmagic, hdepth, -⟩ := hfits
    refine .inr ⟨node, inline, ?_, rfl⟩
    rw [grubExt4FindLeaf, if_neg (not_not.mpr hmagic), if_pos hdepth]
  | succ depth ih =>
    obtain ⟨rounds, rfl⟩ := Nat.exists_eq_succ_of_ne_zero (Nat.ne_of_gt (Nat.zero_lt_of_lt hrounds))
    obtain ⟨hmagic, hdepth, hchildren, -⟩ := hfits
    rw [grubExt4FindLeaf, if_neg (not_not.mpr hmagic), if_neg (by omega), extBlock]
    have hfound := (extFind_spec node b (extEntries node) 0).2.1
    cases hfind : extFind node b (extEntries node) 0 with
    | zero => exact .inl ⟨rfl, rfl⟩
    | succ i =>
      obtain ⟨-, -, hchild⟩ := hchildren i (by omega)
      exact ih hchild (by omega)

/-- What a leaf in good order gives inside one of its extents. -/
theorem extLeafBlock_inside (hfits : ExtFits f 0 node inline lo hi) {i b : ℕ}
    (hi' : i < extEntries node) (hlow : extKey node i ≤ b) (hhigh : b < extKey node i + extLen node i)
    (hwritten : extRaw node i ≤ 32768) :
    extLeafBlock f node inline b = extStart node i + (b - extKey node i) := by
  obtain ⟨-, -, hlimit, -, hsorted⟩ := hfits
  have hlen : extLen node i = extRaw node i := if_neg (Nat.not_lt.mpr hwritten)
  have hfind : extFind node b (extEntries node) 0 = i + 1 := by
    refine KeyIndex.firstAbove_succ (fun j k hjk hk => (hsorted j k hjk hk).2) hi' hlow fun hnext => ?_
    have hle := (hsorted i (i + 1) (Nat.lt_succ_self i) hnext).1
    omega
  rw [extLeafBlock, Nat.min_eq_left hlimit, hfind]
  simp only
  rw [if_neg (by omega), Nat.add_comm]

/-- What a leaf in good order gives between its extents, inside the file. -/
theorem extLeafBlock_outside (hfits : ExtFits f 0 node inline lo hi) {b : ℕ}
    (hfile : b * f.blockSize < f.size)
    (hout : ∀ i < extEntries node, b < extKey node i ∨ extKey node i + extLen node i ≤ b) :
    extLeafBlock f node inline b = 0 := by
  obtain ⟨-, -, hlimit, hentries, -⟩ := hfits
  obtain ⟨-, hhigh, hkeys, -⟩ := extFind_spec node b (extEntries node) 0
  rw [extLeafBlock, Nat.min_eq_left hlimit]
  cases hfind : extFind node b (extEntries node) 0 with
  | zero => rfl
  | succ i =>
    have hlow := hkeys i (Nat.zero_le i) (by omega)
    obtain ⟨-, -, hwritten⟩ := hentries i (by omega)
    have hraw := (hwritten (Nat.lt_of_le_of_lt (Nat.mul_le_mul_right _ hlow) hfile)).1
    have hlen : extLen node i = extRaw node i := if_neg (Nat.not_lt.mpr hraw)
    have hend := hout i (by omega)
    exact if_pos (by omega)

/-- What an index in good order gives below one of its entries. -/
theorem extBlock_index {depth i b : ℕ} (hfits : ExtFits f (depth + 1) node inline lo hi)
    (hi' : i < extEntries node) (hlow : extKey node i ≤ b)
    (hhigh : i + 1 < extEntries node → b < extKey node (i + 1)) :
    extBlock f b (depth + 1) node inline
      = extBlock f b depth (f.block (extChild node i)) false := by
  obtain ⟨-, -, -, hsorted⟩ := hfits
  have hfind : extFind node b (extEntries node) 0 = i + 1 :=
    KeyIndex.firstAbove_succ hsorted hi' hlow hhigh
  rw [extBlock, hfind]

theorem extBlock_before {depth b : ℕ}
    (hout : 0 < extEntries node → b < extKey node 0) (hleaf : depth = 0 →
      extEntries node ≤ extLimit f inline) : extBlock f b depth node inline = 0 := by
  have hfind : extFind node b (extEntries node) 0 = 0 :=
    KeyIndex.firstAbove_eq (Nat.zero_le _) (fun j hj => absurd hj (Nat.not_lt_zero j)) hout
  cases depth with
  | zero => rw [extBlock, extLeafBlock, Nat.min_eq_left (hleaf rfl), hfind]
  | succ depth => rw [extBlock, hfind]

/-! ### Walking through a tree -/

/-- In none of the file's blocks from `l` to `c` a read finds a block. -/
abbrev ExtHole (f : Ext2File) (block : ℕ → ℕ) (l c : ℕ) : Prop :=
  BlockHole f.blockSize f.size block l c

/-- The map of the file is good so far. -/
abbrev ExtGood (f : Ext2File) (block : ℕ → ℕ) (ctx : FileMapContext) : Prop :=
  FileMapGood f.volume (fshelpByte f.volume block f.blockSize) ctx

/-- What the part of the walk that ends at `c` does. -/
abbrev ExtWalked (f : Ext2File) (block : ℕ → ℕ) (c : ℕ) (ctx ctx' : FileMapContext) (last : ℕ) :
    Prop :=
  BlockWalked f.volume f.blockSize f.size block c ctx ctx' last

variable {block : ℕ → ℕ}

theorem extMapEntry_good {i : ℕ} {ctx ctx' : FileMapContext}
    (hfits : ExtFits f 0 node inline lo hi) (hi' : i < extEntries node)
    (hblock : ∀ b, lo ≤ b → b < hi → b * f.blockSize < f.size →
      block b = extLeafBlock f node inline b)
    (hgood : ExtGood f block ctx) (hstop : ctx.stop = f.size) (hlen : extLen node i ≠ 0)
    (hsimple : grubFileMapSimple ctx (extKey node i * f.blockSize) (extLen node i * f.blockSize)
      (if 32768 < extRaw node i then GRUB_FILE_MAP_ZERO + GRUB_FILE_MAP_UNWRITTEN
        else GRUB_FILE_MAP_DIRECT) (u64 (extStart node i * f.blockSize)) = .ok ctx') :
    ExtGood f block ctx' ∧ ctx.Same ctx' := by
  have hpos := f.blockSize_pos
  obtain ⟨hlow, hhigh, hwritten⟩ := hfits.2.2.2.1 i hi'
  by_cases hfile : extKey node i * f.blockSize < f.size
  · obtain ⟨hraw, hstart, hend⟩ := hwritten hfile
    have hlenEq : extLen node i = extRaw node i := if_neg (Nat.not_lt.mpr hraw)
    have hphys : u64 (extStart node i * f.blockSize) = extStart node i * f.blockSize := by
      refine u64_of_lt (Nat.lt_of_lt_of_le ?_ hend)
      exact Nat.mul_lt_mul_of_pos_right (by omega) hpos
    rw [if_neg (Nat.not_lt.mpr hraw), hphys] at hsimple
    refine hgood.direct hpos hsimple fun b hb hb' hstop' => ?_
    have hgives := extLeafBlock_inside hfits hi' hb hb' hraw
    rw [hblock b (by omega) (by omega) (hstop ▸ hstop'), hgives]
    exact ⟨rfl, by omega⟩
  · refine hgood.emit hsimple fun j hj _ hstop' => ?_
    have hj' : extKey node i * f.blockSize ≤ j := hj
    omega

theorem extMapLeaf_good (hfits : ExtFits f 0 node inline lo hi)
    (hblock : ∀ b, lo ≤ b → b < hi → b * f.blockSize < f.size →
      block b = extLeafBlock f node inline b) :
    ∀ k i prev ctx l ctx' last', i + k = extEntries node →
      ExtHole f block l (if k = 0 then hi else extKey node i) → ExtGood f block ctx →
      ctx.stop = f.size → extMapLeaf f node k i prev ctx (l * f.blockSize) = .ok (ctx', last') →
      ExtWalked f block hi ctx ctx' last' := by
  have hpos := f.blockSize_pos
  intro k
  induction k with
  | zero =>
    intro i prev ctx l ctx' last' _ hhole hgood _ hmap
    obtain ⟨rfl, rfl⟩ := Prod.mk.inj (Except.ok.inj hmap)
    exact ⟨hgood, .refl ctx, l, rfl, hhole⟩
  | succ k ih =>
    intro i prev ctx l ctx' last' hik hhole hgood hstop hmap
    rw [if_neg (Nat.succ_ne_zero k)] at hhole
    rw [extMapLeaf] at hmap
    by_cases hdone : ctx.stop ≤ l * f.blockSize
    · rw [if_pos hdone] at hmap
      obtain ⟨rfl, rfl⟩ := Prod.mk.inj (Except.ok.inj hmap)
      exact ⟨hgood, .refl ctx, l, rfl, .past (hstop ▸ hdone)⟩
    rw [if_neg hdone] at hmap
    by_cases horder : i ≠ 0 ∧ extKey node i * f.blockSize ≤ prev
    · rw [if_pos horder] at hmap
      cases hmap
    rw [if_neg horder] at hmap
    change (if extLen node i * f.blockSize = 0 ∨ extKey node i * f.blockSize < l * f.blockSize
      then _ else _) = _ at hmap
    by_cases hbad : extLen node i * f.blockSize = 0 ∨ extKey node i * f.blockSize < l * f.blockSize
    · rw [if_pos hbad] at hmap
      cases hmap
    rw [if_neg hbad] at hmap
    have hle : l ≤ extKey node i := Nat.le_of_mul_le_mul_right (by omega) hpos
    have hlen : extLen node i ≠ 0 := fun h => hbad (.inl (by rw [h, Nat.zero_mul]))
    cases hgap : (if l * f.blockSize < extKey node i * f.blockSize then
        grubFileMapSimple ctx (l * f.blockSize) (extKey node i * f.blockSize - l * f.blockSize)
          (GRUB_FILE_MAP_ZERO + GRUB_FILE_MAP_HOLE) 0 else .ok ctx) with
    | error e =>
      rw [hgap] at hmap
      cases hmap
    | ok ctx₁ =>
      rw [hgap] at hmap
      obtain ⟨hgood₁, hsame₁⟩ := hhole.gap hpos hgood hstop hgap
      have hstop₁ : ctx₁.stop = f.size := hsame₁.stop.trans hstop
      cases hentry : grubFileMapSimple ctx₁ (extKey node i * f.blockSize)
          (extLen node i * f.blockSize)
          (if 32768 < extRaw node i then GRUB_FILE_MAP_ZERO + GRUB_FILE_MAP_UNWRITTEN
            else GRUB_FILE_MAP_DIRECT) (u64 (extStart node i * f.blockSize)) with
      | error e =>
        simp only at hmap
        rw [show grubFileMapSimple ctx₁ (extKey node i * f.blockSize) ((if 32768 < extRaw node i then
          extRaw node i - 32768 else extRaw node i) * f.blockSize) _ _ = _ from hentry] at hmap
        cases hmap
      | ok ctx₂ =>
        simp only at hmap
        rw [show grubFileMapSimple ctx₁ (extKey node i * f.blockSize) ((if 32768 < extRaw node i then
          extRaw node i - 32768 else extRaw node i) * f.blockSize) _ _ = _ from hentry] at hmap
        obtain ⟨hgood₂, hsame₂⟩ := extMapEntry_good hfits (by omega) hblock hgood₁ hstop₁ hlen hentry
        have hnext : extKey node i * f.blockSize + extLen node i * f.blockSize
          = (extKey node i + extLen node i) * f.blockSize := (Nat.add_mul _ _ _).symm
        -- behind the extent, before the next one
        have hhole' : ExtHole f block (extKey node i + extLen node i)
            (if k = 0 then hi else extKey node (i + 1)) := by
          intro b hb hb' hfile
          obtain ⟨-, -, -, hentries, hsorted⟩ := id hfits
          obtain ⟨hlow, hhigh, -⟩ := hentries i (by omega)
          have hbhi : b < hi := by
            split_ifs at hb' with hk
            · exact hb'
            · obtain ⟨-, hhigh', -⟩ := hentries (i + 1) (by omega)
              omega
          rw [hblock b (by omega) hbhi hfile]
          refine extLeafBlock_outside hfits hfile fun j hj => ?_
          rcases Nat.lt_trichotomy j i with hji | rfl | hji
          · have hbefore := (hsorted j i hji (by omega)).1
            exact .inr (by omega)
          · exact .inr hb
          · rw [if_neg (by omega : ¬ k = 0)] at hb'
            rcases Nat.lt_or_eq_of_le (show i + 1 ≤ j from hji) with hji | rfl
            · have hafter := (hsorted (i + 1) j hji hj).2
              exact .inl (by omega)
            · exact .inl hb'
        obtain ⟨hgood', hsame', hlast⟩ := ih (i + 1) _ ctx₂ (extKey node i + extLen node i) ctx' last'
          (by omega) hhole' hgood₂ (hsame₂.stop.trans hstop₁) (hnext ▸ hmap)
        exact ⟨hgood', (hsame₁.trans hsame₂).trans hsame', hlast⟩

theorem extMapIndex_good {child : Buf → FileMapContext → ℕ → Except GrubError (FileMapContext × ℕ)}
    (hsorted : ∀ i j, i < j → j < extEntries node → extKey node i < extKey node j)
    (hchild : ∀ i < extEntries node, ∀ ctx l ctx' last', ExtHole f block l (extKey node i) →
      ExtGood f block ctx → ctx.start = 0 → ctx.stop = f.size →
      child (f.block (extChild node i)) ctx (l * f.blockSize) = .ok (ctx', last') →
      ExtWalked f block (if i + 1 < extEntries node then extKey node (i + 1) else hi) ctx ctx'
        last') :
    ∀ k i prev ctx l ctx' last', i + k = extEntries node →
      ExtHole f block l (if k = 0 then hi else extKey node i) → ExtGood f block ctx →
      ctx.start = 0 → ctx.stop = f.size →
      extMapIndex f node child k i prev ctx (l * f.blockSize) = .ok (ctx', last') →
      ExtWalked f block hi ctx ctx' last' := by
  have hpos := f.blockSize_pos
  intro k
  induction k with
  | zero =>
    intro i prev ctx l ctx' last' _ hhole hgood _ _ hmap
    obtain ⟨rfl, rfl⟩ := Prod.mk.inj (Except.ok.inj hmap)
    exact ⟨hgood, .refl ctx, l, rfl, hhole⟩
  | succ k ih =>
    intro i prev ctx l ctx' last' hik hhole hgood hstart hstop hmap
    rw [if_neg (Nat.succ_ne_zero k)] at hhole
    rw [extMapIndex] at hmap
    by_cases hdone : ctx.stop ≤ l * f.blockSize
    · rw [if_pos hdone] at hmap
      obtain ⟨rfl, rfl⟩ := Prod.mk.inj (Except.ok.inj hmap)
      exact ⟨hgood, .refl ctx, l, rfl, .past (hstop ▸ hdone)⟩
    rw [if_neg hdone] at hmap
    simp only at hmap
    by_cases horder : i ≠ 0 ∧ extKey node i * f.blockSize ≤ prev
    · rw [if_pos horder] at hmap
      cases hmap
    rw [if_neg horder] at hmap
    have hskip : ¬ (k ≠ 0 ∧ extKey node (i + 1) * f.blockSize ≤ ctx.start) := by
      rintro ⟨hk, hle⟩
      have hlt := hsorted i (i + 1) (Nat.lt_succ_self i) (by omega)
      have hmul : 1 * 1 ≤ extKey node (i + 1) * f.blockSize := Nat.mul_le_mul (by omega) hpos
      omega
    rw [if_neg hskip] at hmap
    by_cases hnull : extChild node i = 0
    · rw [if_pos hnull] at hmap
      cases hmap
    rw [if_neg hnull] at hmap
    cases hbelow : child (f.block (extChild node i)) ctx (l * f.blockSize) with
    | error e =>
      rw [hbelow] at hmap
      cases hmap
    | ok r =>
      obtain ⟨ctx₁, last₁⟩ := r
      rw [hbelow] at hmap
      obtain ⟨hgood₁, hsame₁, l₁, rfl, hhole₁⟩ := hchild i (by omega) ctx l ctx₁ last₁ hhole hgood
        hstart hstop hbelow
      have hnext : (if i + 1 < extEntries node then extKey node (i + 1) else hi)
          = if k = 0 then hi else extKey node (i + 1) := by
        by_cases hk : k = 0
        · rw [if_pos hk, if_neg (by omega)]
        · rw [if_neg hk, if_pos (by omega)]
      obtain ⟨hgood', hsame', hlast⟩ := ih (i + 1) _ ctx₁ l₁ ctx' last' (by omega) (hnext ▸ hhole₁)
        hgood₁ (hsame₁.start.trans hstart) (hsame₁.stop.trans hstop) hmap
      exact ⟨hgood', hsame₁.trans hsame', hlast⟩

/-- The walk through a tree in good order. -/
theorem grubExtMapTree_good {depth bytes l last' : ℕ} {ctx ctx' : FileMapContext}
    (hfits : ExtFits f depth node inline lo hi)
    (hblock : ∀ b, lo ≤ b → b < hi → b * f.blockSize < f.size →
      block b = extBlock f b depth node inline)
    (hhole : ExtHole f block l lo) (hgood : ExtGood f block ctx) (hstart : ctx.start = 0)
    (hstop : ctx.stop = f.size)
    (hmap : grubExtMapTree f depth bytes node ctx (l * f.blockSize) = .ok (ctx', last')) :
    ExtWalked f block hi ctx ctx' last' := by
  induction depth generalizing node inline lo hi bytes l last' ctx ctx' with
  | zero =>
    rw [grubExtMapTree] at hmap
    split_ifs at hmap
    refine extMapLeaf_good hfits hblock _ _ _ _ _ _ _ (Nat.zero_add _) ?_ hgood hstop hmap
    intro b hb hb' hfile
    by_cases hlo : b < lo
    · exact hhole b hb hlo hfile
    obtain ⟨-, -, hlimit, hentries, -⟩ := id hfits
    have hbhi : b < hi := by
      split_ifs at hb' with hn
      · exact hb'
      · obtain ⟨-, hhigh, -⟩ := hentries 0 (by omega)
        omega
    rw [hblock b (by omega) hbhi hfile]
    exact extBlock_before (fun hn => by rwa [if_neg (by omega)] at hb') fun _ => hlimit
  | succ depth ih =>
    rw [grubExtMapTree] at hmap
    split_ifs at hmap
    obtain ⟨-, -, hchildren, hsorted⟩ := id hfits
    refine extMapIndex_good hsorted (fun i hi' ctx l ctx' last' hhole hgood hstart hstop hmap => ?_)
      _ _ _ _ _ _ _ (Nat.zero_add _) ?_ hgood hstart hstop hmap
    · obtain ⟨hlow, hhigh, hfits'⟩ := hchildren i hi'
      refine ih hfits' (fun b hb hb' hfile => ?_) hhole hgood hstart hstop hmap
      have hbhi : b < hi := by
        split_ifs at hb' with hnext
        · have hnext' := (hchildren (i + 1) hnext).2.1
          omega
        · exact hb'
      rw [hblock b (by omega) hbhi hfile]
      exact extBlock_index hfits hi' hb fun hnext => by rwa [if_pos hnext] at hb'
    · intro b hb hb' hfile
      by_cases hlo : b < lo
      · exact hhole b hb hlo hfile
      have hbhi : b < hi := by
        split_ifs at hb' with hn
        · exact hb'
        · obtain ⟨-, hhigh, -⟩ := hchildren 0 (by omega)
          omega
      rw [hblock b (by omega) hbhi hfile]
      exact extBlock_before (fun hn => by rwa [if_neg (by omega)] at hb')
        fun h => absurd h (Nat.succ_ne_zero depth)

end Tree

/-! ### Pointers -/

/-- What a pointer of some depth gives for block `x` of those below it. -/
def ext2Pointer (f : Ext2File) : ℕ → ℕ → ℕ → ℕ
  | 0, block, _ => block
  | depth + 1, block, x =>
    if block = 0 then 0
    else ext2Pointer f depth
      (lostLe32 (f.block block) (4 * (x / (2 ^ (f.log2BlockSize + 8)) ^ depth)))
      (x % (2 ^ (f.log2BlockSize + 8)) ^ depth)

theorem ext2Indirect_eq (f : Ext2File) (x : ℕ) : ∀ shift indir, ext2Indirect f x shift indir
    = ext2Pointer f (shift + 1) indir (x % (2 ^ (f.log2BlockSize + 8)) ^ (shift + 1)) := by
  intro shift
  induction shift with
  | zero =>
    intro indir
    rw [ext2Indirect, ext2Pointer, ext2Pointer, Nat.zero_add, Nat.pow_one, Nat.pow_zero, Nat.div_one,
      Nat.mul_comm 4]
  | succ shift ih =>
    intro indir
    rw [ext2Indirect, ext2Pointer, ih, Nat.pow_mul, Nat.mod_mod_of_dvd _
      (Nat.pow_dvd_pow _ (Nat.le_succ _)), Nat.pow_succ _ (shift + 1), Nat.mod_mul_right_div_self,
      Nat.mul_comm 4]

theorem Ext2File.blockSize_eq (f : Ext2File) : f.blockSize = 2 ^ (f.log2BlockSize + 10) := by
  rw [Ext2File.blockSize, Nat.pow_add _ _ 1, Nat.pow_add _ _ 10, Nat.mul_assoc]

theorem Ext2File.quarter_eq (f : Ext2File) : f.blockSize / 4 = 2 ^ (f.log2BlockSize + 8) := by
  rw [f.blockSize_eq, show f.log2BlockSize + 10 = f.log2BlockSize + 8 + 2 from rfl, Nat.pow_add _ _ 2]
  exact Nat.mul_div_cancel _ (by decide)

section Pointers

variable {f : Ext2File} {block : ℕ → ℕ} {ctx ctx' : FileMapContext}

/-- A part of the walk that ends at `pos` bytes. -/
def Ext2Walked (f : Ext2File) (block : ℕ → ℕ) (pos : ℕ) (ctx ctx' : FileMapContext) : Prop :=
  ExtGood f block ctx' ∧ ctx.Same ctx' ∧ ctx'.next ≤ max ctx.next pos

theorem Ext2Walked.trans {a b c : FileMapContext} {pos pos' : ℕ} (h : Ext2Walked f block pos a b)
    (h' : Ext2Walked f block pos' b c) (hle : pos ≤ pos') : Ext2Walked f block pos' a c := by
  obtain ⟨-, hsame, hnext⟩ := h
  obtain ⟨hgood', hsame', hnext'⟩ := h'
  exact ⟨hgood', hsame.trans hsame', by omega⟩

theorem ext2_absent {p n phys : ℕ} (hgood : ExtGood f block ctx) (hstop : ctx.stop = f.size)
    (hsimple : grubFileMapSimple ctx (p * f.blockSize) (n * f.blockSize)
      (GRUB_FILE_MAP_ZERO + GRUB_FILE_MAP_HOLE) phys = .ok ctx')
    (hzero : ∀ x < n, (p + x) * f.blockSize < f.size → block (p + x) = 0) :
    Ext2Walked f block (p * f.blockSize + n * f.blockSize) ctx ctx' := by
  obtain ⟨hgood', hsame⟩ := hgood.hole f.blockSize_pos hsimple (by decide) fun b hb hb' hfile => by
    rw [← Nat.add_mul] at hb'
    have hlt : b < p + n := Nat.lt_of_mul_lt_mul_right (a := f.blockSize) hb'
    rw [show b = p + (b - p) by omega] at hfile ⊢
    exact hzero (b - p) (by omega) (hstop ▸ hfile)
  exact ⟨hgood', hsame, grubFileMapEmit_next hsimple⟩

theorem extMapPointers_good {node : Buf} {n p q : ℕ}
    {child : FileMapContext → ℕ → ℕ → Except GrubError FileMapContext}
    (hrange : (p + q * n) * f.blockSize < 2 ^ 64)
    (hchild : ∀ i < q, ∀ ctx ctx', ExtGood f block ctx → ctx.start = 0 → ctx.stop = f.size →
      child ctx (lostLe32 node (4 * i)) ((p + i * n) * f.blockSize) = .ok ctx' →
      Ext2Walked f block ((p + i * n) * f.blockSize + n * f.blockSize) ctx ctx') :
    ∀ k i ctx ctx', i + k = q → ExtGood f block ctx → ctx.start = 0 → ctx.stop = f.size →
      extMapPointers node (n * f.blockSize) child k i ctx ((p + i * n) * f.blockSize) = .ok ctx' →
      Ext2Walked f block ((p + q * n) * f.blockSize) ctx ctx' := by
  intro k
  induction k with
  | zero =>
    intro i ctx ctx' _ hgood _ _ hmap
    obtain rfl := Except.ok.inj hmap
    exact ⟨hgood, .refl ctx, Nat.le_max_left _ _⟩
  | succ k ih =>
    intro i ctx ctx' hik hgood hstart hstop hmap
    rw [extMapPointers] at hmap
    by_cases hdone : ctx.stop ≤ (p + i * n) * f.blockSize
    · rw [if_pos hdone] at hmap
      obtain rfl := Except.ok.inj hmap
      exact ⟨hgood, .refl ctx, Nat.le_max_left _ _⟩
    rw [if_neg hdone] at hmap
    cases hbelow : child ctx (lostLe32 node (4 * i)) ((p + i * n) * f.blockSize) with
    | error e =>
      rw [hbelow] at hmap
      cases hmap
    | ok ctx₁ =>
      rw [hbelow] at hmap
      have hwalked := hchild i (by omega) ctx ctx₁ hgood hstart hstop hbelow
      have hnext : (p + i * n) * f.blockSize + n * f.blockSize = (p + (i + 1) * n) * f.blockSize := by
        rw [← Nat.add_mul, Nat.add_mul i, Nat.one_mul, Nat.add_assoc]
      have hle : (p + (i + 1) * n) * f.blockSize ≤ (p + q * n) * f.blockSize :=
        Nat.mul_le_mul_right _ (Nat.add_le_add_left (Nat.mul_le_mul_right _ (by omega)) _)
      rw [hnext] at hwalked
      simp only at hmap
      rw [hnext, u64_of_lt (Nat.lt_of_le_of_lt hle hrange)] at hmap
      exact hwalked.trans (ih (i + 1) ctx₁ ctx' (by omega) hwalked.1
        (hwalked.2.1.start.trans hstart) (hwalked.2.1.stop.trans hstop) hmap) hle

theorem grubExtMapIndirect_good {depth root p : ℕ}
    (hrange : (p + (2 ^ (f.log2BlockSize + 8)) ^ depth) * f.blockSize < 2 ^ 64)
    (hblock : ∀ x < (2 ^ (f.log2BlockSize + 8)) ^ depth, (p + x) * f.blockSize < f.size →
      block (p + x) = ext2Pointer f depth root x)
    (hgood : ExtGood f block ctx) (hstart : ctx.start = 0) (hstop : ctx.stop = f.size)
    (hmap : grubExtMapIndirect f depth ((2 ^ (f.log2BlockSize + 8)) ^ depth * f.blockSize) ctx root
      (p * f.blockSize) = .ok ctx') :
    Ext2Walked f block (p * f.blockSize + (2 ^ (f.log2BlockSize + 8)) ^ depth * f.blockSize) ctx
      ctx' := by
  have hpos := f.blockSize_pos
  have hquarter : 0 < 2 ^ (f.log2BlockSize + 8) := Nat.two_pow_pos _
  have hinside : ∀ d, ¬ (ctx.stop ≤ p * f.blockSize) →
      (p + (2 ^ (f.log2BlockSize + 8)) ^ d) * f.blockSize < 2 ^ 64 →
      ¬ (ctx.stop ≤ p * f.blockSize
        ∨ u64 (p * f.blockSize + (2 ^ (f.log2BlockSize + 8)) ^ d * f.blockSize) ≤ ctx.start) := by
    intro d hstop' hrange'
    have hspan : 0 < (2 ^ (f.log2BlockSize + 8)) ^ d * f.blockSize :=
      Nat.mul_pos (Nat.pow_pos hquarter) hpos
    rw [Nat.add_mul] at hrange'
    rw [u64_of_lt hrange']
    omega
  induction depth generalizing root p ctx ctx' with
  | zero =>
    rw [grubExtMapIndirect] at hmap
    by_cases hdone : ctx.stop ≤ p * f.blockSize
    · rw [if_pos (.inl hdone)] at hmap
      obtain rfl := Except.ok.inj hmap
      exact ⟨hgood, .refl ctx, Nat.le_max_left _ _⟩
    rw [if_neg (hinside 0 hdone hrange), Nat.pow_zero] at hmap
    rw [Nat.pow_zero] at hblock ⊢
    by_cases hroot : root = 0
    · rw [if_neg (not_not.mpr hroot)] at hmap
      exact ext2_absent hgood hstop hmap fun x hx hfile => (hblock x hx hfile).trans hroot
    · rw [if_pos hroot] at hmap
      obtain ⟨hgood', hsame⟩ := hgood.direct hpos hmap fun b hb hb' hfile => by
        obtain rfl : b = p := by omega
        have hgives : block (b + 0) = root := hblock 0 (by decide) (hstop ▸ hfile)
        rw [Nat.add_zero] at hgives
        exact ⟨by rw [hgives, Nat.sub_self, Nat.add_zero], by rwa [hgives]⟩
      exact ⟨hgood', hsame, grubFileMapEmit_next hmap⟩
  | succ depth ih =>
    rw [grubExtMapIndirect] at hmap
    by_cases hdone : ctx.stop ≤ p * f.blockSize
    · rw [if_pos (.inl hdone)] at hmap
      obtain rfl := Except.ok.inj hmap
      exact ⟨hgood, .refl ctx, Nat.le_max_left _ _⟩
    rw [if_neg (hinside _ hdone hrange)] at hmap
    by_cases hroot : root = 0
    · rw [if_pos hroot] at hmap
      exact ext2_absent hgood hstop hmap fun x hx hfile => by
        rw [hblock x hx hfile, ext2Pointer, if_pos hroot]
    rw [if_neg hroot, f.quarter_eq] at hmap
    have hstep : (2 ^ (f.log2BlockSize + 8)) ^ (depth + 1) * f.blockSize
        / 2 ^ (f.log2BlockSize + 8) = (2 ^ (f.log2BlockSize + 8)) ^ depth * f.blockSize := by
      rw [show (2 ^ (f.log2BlockSize + 8)) ^ (depth + 1) = 2 ^ (f.log2BlockSize + 8)
        * (2 ^ (f.log2BlockSize + 8)) ^ depth from Nat.pow_succ', Nat.mul_assoc,
        Nat.mul_div_cancel_left _ hquarter]
    have hspan : 2 ^ (f.log2BlockSize + 8) * (2 ^ (f.log2BlockSize + 8)) ^ depth
        = (2 ^ (f.log2BlockSize + 8)) ^ (depth + 1) := Nat.pow_succ'.symm
    simp only [hstep] at hmap
    have hchild : ∀ i < 2 ^ (f.log2BlockSize + 8), ∀ ctx ctx', ExtGood f block ctx → ctx.start = 0 →
        ctx.stop = f.size → grubExtMapIndirect f depth
          ((2 ^ (f.log2BlockSize + 8)) ^ depth * f.blockSize) ctx (lostLe32 (f.block root) (4 * i))
          ((p + i * (2 ^ (f.log2BlockSize + 8)) ^ depth) * f.blockSize) = .ok ctx' →
        Ext2Walked f block ((p + i * (2 ^ (f.log2BlockSize + 8)) ^ depth) * f.blockSize
          + (2 ^ (f.log2BlockSize + 8)) ^ depth * f.blockSize) ctx ctx' := by
      intro i hi ctx₁ ctx₂ hgood₁ hstart₁ hstop₁ hmap₁
      have hhigh : i * (2 ^ (f.log2BlockSize + 8)) ^ depth + (2 ^ (f.log2BlockSize + 8)) ^ depth
          ≤ (2 ^ (f.log2BlockSize + 8)) ^ (depth + 1) := by
        rw [← Nat.succ_mul, ← hspan]
        exact Nat.mul_le_mul_right _ hi
      have hle : (p + (i * (2 ^ (f.log2BlockSize + 8)) ^ depth
          + (2 ^ (f.log2BlockSize + 8)) ^ depth)) * f.blockSize < 2 ^ 64 :=
        Nat.lt_of_le_of_lt (Nat.mul_le_mul_right _ (by omega)) hrange
      refine ih (by rwa [Nat.add_assoc]) (fun x hx hfile => ?_) hgood₁ hstart₁ hstop₁
        hmap₁ fun d hstop' hrange' => ?_
      · rw [Nat.add_assoc] at hfile ⊢
        rw [hblock _ (by omega) hfile, ext2Pointer, if_neg hroot]
        have hpow : 0 < (2 ^ (f.log2BlockSize + 8)) ^ depth := Nat.pow_pos hquarter
        rw [Nat.add_comm, Nat.add_mul_div_right _ _ hpow, Nat.add_mul_mod_self_right,
          Nat.div_eq_of_lt hx, Nat.mod_eq_of_lt hx, Nat.zero_add]
      · have hspan' : 0 < (2 ^ (f.log2BlockSize + 8)) ^ d * f.blockSize :=
          Nat.mul_pos (Nat.pow_pos hquarter) hpos
        rw [Nat.add_mul] at hrange'
        rw [u64_of_lt hrange']
        omega
    have hloop := extMapPointers_good (hspan.symm ▸ hrange) hchild (2 ^ (f.log2BlockSize + 8)) 0 ctx
      ctx' (Nat.zero_add _) hgood hstart hstop
    rw [Nat.zero_mul, Nat.add_zero, hspan] at hloop
    rw [← Nat.add_mul]
    exact hloop hmap

theorem grubExtMapIndirect_empty {depth root pos : ℕ} (hpos : ctx.start < pos)
    (hlt : pos < ctx.stop) (hstop : ctx.stop < 2 ^ 64) :
    grubExtMapIndirect f depth 0 ctx root pos ≠ .ok ctx' := by
  have hinside : ¬ (ctx.stop ≤ pos ∨ u64 (pos + 0) ≤ ctx.start) := by
    rw [Nat.add_zero, u64_of_lt (by omega)]
    omega
  have hempty : ∀ flags phys ctx', grubFileMapSimple ctx pos 0 flags phys ≠ .ok ctx' := by
    intro flags phys ctx' h
    rw [grubFileMapSimple, grubFileMapEmit] at h
    have hzero : (fileMapSimple pos 0 flags phys).logicalLength = 0 := rfl
    simp only at h
    rw [if_pos (.inl hzero)] at h
    cases h
  induction depth generalizing root ctx' with
  | zero =>
    rw [grubExtMapIndirect, if_neg hinside]
    exact hempty _ _ _
  | succ depth ih =>
    rw [grubExtMapIndirect, if_neg hinside]
    by_cases hroot : root = 0
    · rw [if_pos hroot]
      exact hempty _ _ _
    rw [if_neg hroot]
    obtain ⟨n, hn⟩ := Nat.exists_eq_succ_of_ne_zero (n := f.blockSize / 4) (by
      rw [f.quarter_eq]
      exact Nat.ne_of_gt (Nat.two_pow_pos _))
    simp only [hn, Nat.zero_div]
    rw [extMapPointers, if_neg (by omega)]
    intro h
    cases hbelow : grubExtMapIndirect f depth 0 ctx (lostLe32 (f.block root) (4 * 0)) pos with
    | error e =>
      rw [hbelow] at h
      cases h
    | ok ctx₁ => exact ih hbelow

theorem ext2MapDirect_good (hrange : (0 + EXT2_INDIRECT_BLOCKS * 1) * f.blockSize < 2 ^ 64)
    (hblock : ∀ i < EXT2_INDIRECT_BLOCKS, i * f.blockSize < f.size →
      block i = lostLe32 f.blocks (4 * i)) :
    ∀ k i ctx ctx' pos, i + k = EXT2_INDIRECT_BLOCKS → ExtGood f block ctx → ctx.start = 0 →
      ctx.stop = f.size → ext2MapDirect f k i ctx (i * f.blockSize) = .ok (ctx', pos) →
      Ext2Walked f block (EXT2_INDIRECT_BLOCKS * f.blockSize) ctx ctx'
        ∧ (pos = EXT2_INDIRECT_BLOCKS * f.blockSize ∨ ctx'.stop ≤ pos) := by
  intro k
  induction k with
  | zero =>
    intro i ctx ctx' pos hik hgood _ _ hmap
    obtain ⟨rfl, rfl⟩ := Prod.mk.inj (Except.ok.inj hmap)
    exact ⟨⟨hgood, .refl ctx, Nat.le_max_left _ _⟩, .inl (by rw [← hik, Nat.add_zero])⟩
  | succ k ih =>
    intro i ctx ctx' pos hik hgood hstart hstop hmap
    rw [ext2MapDirect] at hmap
    by_cases hdone : ctx.stop ≤ i * f.blockSize
    · rw [if_pos hdone] at hmap
      obtain ⟨rfl, rfl⟩ := Prod.mk.inj (Except.ok.inj hmap)
      exact ⟨⟨hgood, .refl ctx, Nat.le_max_left _ _⟩, .inr hdone⟩
    rw [if_neg hdone] at hmap
    cases hbelow : grubExtMapIndirect f 0 f.blockSize ctx (lostLe32 f.blocks (4 * i))
        (i * f.blockSize) with
    | error e =>
      rw [hbelow] at hmap
      cases hmap
    | ok ctx₁ =>
      rw [hbelow] at hmap
      have hle : (i + 1) * f.blockSize ≤ EXT2_INDIRECT_BLOCKS * f.blockSize :=
        Nat.mul_le_mul_right _ (by omega)
      have hone : (2 ^ (f.log2BlockSize + 8)) ^ 0 * f.blockSize = f.blockSize := by
        rw [Nat.pow_zero, Nat.one_mul]
      have hwalked := @grubExtMapIndirect_good f block ctx ctx₁ 0 (lostLe32 f.blocks (4 * i)) i
        (by
          rw [Nat.pow_zero]
          rw [Nat.zero_add, Nat.mul_one] at hrange
          omega)
        (fun x hx hfile => by
          rw [Nat.pow_zero, Nat.lt_one_iff] at hx
          subst hx
          exact hblock i (by omega) hfile)
        hgood hstart hstop (hone.symm ▸ hbelow)
      rw [hone, ← Nat.succ_mul] at hwalked
      simp only at hmap
      rw [← Nat.succ_mul] at hmap
      obtain ⟨hwalked', hend⟩ := ih (i + 1) ctx₁ ctx' pos (by omega) hwalked.1
        (hwalked.2.1.start.trans hstart) (hwalked.2.1.stop.trans hstop) hmap
      exact ⟨hwalked.trans hwalked' hle, hend⟩

/-- One level of indirection: it is behind the end of the file, or it is walked through. -/
theorem ext2MapLevels_step {k i span p : ℕ} (hp : 0 < p) (hsize : f.size < 2 ^ 64)
    (hspan : u64 (span * (f.blockSize / 4)) = 0
      ∨ (u64 (span * (f.blockSize / 4)) = (2 ^ (f.log2BlockSize + 8)) ^ i * f.blockSize
        ∧ (p + (2 ^ (f.log2BlockSize + 8)) ^ i) * f.blockSize < 2 ^ 64))
    (hblock : ∀ x < (2 ^ (f.log2BlockSize + 8)) ^ i, (p + x) * f.blockSize < f.size →
      block (p + x) = ext2Pointer f i (lostLe32 f.blocks (44 + 4 * i)) x)
    (hgood : ExtGood f block ctx) (hstart : ctx.start = 0) (hstop : ctx.stop = f.size)
    (hmap : ext2MapLevels f (k + 1) i span ctx (p * f.blockSize) = .ok ctx') :
    (ctx' = ctx ∧ f.size ≤ p * f.blockSize)
    ∨ (u64 (span * (f.blockSize / 4)) ≠ 0
      ∧ ∃ ctx₁, Ext2Walked f block ((p + (2 ^ (f.log2BlockSize + 8)) ^ i) * f.blockSize) ctx ctx₁
        ∧ ext2MapLevels f k (i + 1) ((2 ^ (f.log2BlockSize + 8)) ^ i * f.blockSize) ctx₁
          ((p + (2 ^ (f.log2BlockSize + 8)) ^ i) * f.blockSize) = .ok ctx') := by
  have hpos := f.blockSize_pos
  rw [ext2MapLevels] at hmap
  by_cases hdone : ctx.stop ≤ p * f.blockSize
  · rw [if_pos hdone] at hmap
    exact .inl ⟨(Except.ok.inj hmap).symm, hstop ▸ hdone⟩
  rw [if_neg hdone] at hmap
  simp only at hmap
  cases hbelow : grubExtMapIndirect f i (u64 (span * (f.blockSize / 4))) ctx
      (lostLe32 f.blocks (44 + 4 * i)) (p * f.blockSize) with
  | error e =>
    rw [hbelow] at hmap
    cases hmap
  | ok ctx₁ =>
    rw [hbelow] at hmap
    have hlow : 1 * 1 ≤ p * f.blockSize := Nat.mul_le_mul hp hpos
    obtain hzero | ⟨hspan, hrange⟩ := hspan
    · rw [hzero] at hbelow
      exact absurd hbelow (grubExtMapIndirect_empty (by omega) (by omega) (by omega))
    · rw [hspan] at hbelow hmap ⊢
      simp only at hmap
      have hwalked := grubExtMapIndirect_good hrange hblock hgood hstart hstop hbelow
      have hpow : 0 < (2 ^ (f.log2BlockSize + 8)) ^ i := Nat.pow_pos (Nat.two_pow_pos _)
      have hne : (2 ^ (f.log2BlockSize + 8)) ^ i * f.blockSize ≠ 0 :=
        Nat.ne_of_gt (Nat.mul_pos hpow hpos)
      rw [← Nat.add_mul] at hwalked hmap
      rw [u64_of_lt hrange] at hmap
      exact .inr ⟨hne, ctx₁, hwalked, hmap⟩

end Pointers

/-- The block that the pointers of a file give. -/
def ext2PointerBlock (f : Ext2File) (b : ℕ) : ℕ :=
  let q := 2 ^ (f.log2BlockSize + 8)
  if b < 12 then lostLe32 f.blocks (4 * b)
  else if b < 12 + q then ext2Pointer f 1 (lostLe32 f.blocks 48) (b - 12)
  else if b < 12 + q + q ^ 2 then ext2Pointer f 2 (lostLe32 f.blocks 52) (b - (12 + q))
  else ext2Pointer f 3 (lostLe32 f.blocks 56) (b - (12 + q + q ^ 2))

theorem grubExt2ReadBlock_pointers {f : Ext2File} {rounds b : ℕ}
    (hflag : f.has EXT4_EXTENTS_FLAG = false)
    (hb : b < 12 + 2 ^ (f.log2BlockSize + 8) + (2 ^ (f.log2BlockSize + 8)) ^ 2
      + (2 ^ (f.log2BlockSize + 8)) ^ 3)
    (hwrap : b < 12 + 2 ^ (f.log2BlockSize + 8) + (2 ^ (f.log2BlockSize + 8)) ^ 2
      ∨ 2 ^ (f.log2BlockSize + 8) * 2 ^ (f.log2BlockSize + 8) * (2 ^ (f.log2BlockSize + 8) + 1)
        < 2 ^ 64) :
    grubExt2ReadBlock f rounds b = some (.ok (ext2PointerBlock f b)) := by
  rw [grubExt2ReadBlock, hflag, if_neg Bool.false_ne_true, f.quarter_eq, ext2PointerBlock,
    EXT2_INDIRECT_BLOCKS]
  generalize hq : 2 ^ (f.log2BlockSize + 8) = q at hb hwrap ⊢
  have hcube : q ^ 3 = q * q * q := by rw [Nat.pow_succ, Nat.pow_two]
  have hsquare : q ^ 2 = q * q := Nat.pow_two q
  rw [hsquare] at hb hwrap ⊢
  rw [hcube] at hb
  simp only
  by_cases h₀ : b < 12
  · rw [if_pos h₀, if_pos h₀]
  rw [if_neg h₀, if_neg h₀]
  by_cases h₁ : b < 12 + q
  · rw [if_pos (by omega), if_pos h₁, ext2Indirect_eq, hq, Nat.pow_one, Nat.mod_eq_of_lt (by omega)]
  rw [if_neg (by omega), if_neg h₁]
  by_cases h₂ : b < 12 + q + q * q
  · rw [if_pos (by omega), if_pos h₂, ext2Indirect_eq, hq, hsquare, Nat.mod_eq_of_lt (by omega),
      Nat.sub_sub]
  rw [if_neg (by omega), if_neg h₂]
  have hmul : q * q * (q + 1) < 2 ^ 64 := hwrap.resolve_left h₂
  have hexpand : q * q * (q + 1) = q * q * q + q * q := Nat.mul_succ _ _
  rw [u64_of_lt hmul, if_pos (by omega), ext2Indirect_eq, hq, hcube, Nat.mod_eq_of_lt (by omega),
    Nat.sub_sub, Nat.sub_sub, ← Nat.add_assoc 12]

/-- The spans of the levels: they wrap around to 0, or stay in range. -/
theorem ext2_spans : ∀ log2 < 16,
    (u64 (2 ^ (log2 + 10) * 2 ^ (log2 + 8)) = (2 ^ (log2 + 8)) ^ 1 * 2 ^ (log2 + 10)
      ∧ (12 + (2 ^ (log2 + 8)) ^ 1) * 2 ^ (log2 + 10) < 2 ^ 63)
    ∧ (u64 ((2 ^ (log2 + 8)) ^ 1 * 2 ^ (log2 + 10) * 2 ^ (log2 + 8)) = 0
      ∨ (u64 ((2 ^ (log2 + 8)) ^ 1 * 2 ^ (log2 + 10) * 2 ^ (log2 + 8))
          = (2 ^ (log2 + 8)) ^ 2 * 2 ^ (log2 + 10)
        ∧ (12 + (2 ^ (log2 + 8)) ^ 1 + (2 ^ (log2 + 8)) ^ 2) * 2 ^ (log2 + 10) < 2 ^ 63))
    ∧ (u64 ((2 ^ (log2 + 8)) ^ 2 * 2 ^ (log2 + 10) * 2 ^ (log2 + 8)) = 0
      ∨ (u64 ((2 ^ (log2 + 8)) ^ 2 * 2 ^ (log2 + 10) * 2 ^ (log2 + 8))
          = (2 ^ (log2 + 8)) ^ 3 * 2 ^ (log2 + 10)
        ∧ (12 + (2 ^ (log2 + 8)) ^ 1 + (2 ^ (log2 + 8)) ^ 2 + (2 ^ (log2 + 8)) ^ 3)
          * 2 ^ (log2 + 10) < 2 ^ 63
        ∧ 2 ^ (log2 + 8) * 2 ^ (log2 + 8) * (2 ^ (log2 + 8) + 1) < 2 ^ 64)) := by
  decide

section Files

variable {f : Ext2File} {ctx ctx' : FileMapContext}

/-- The map of a file with block pointers, and how long such a file is if the map is complete. -/
theorem grubExt2Map_pointers (hlog2 : f.log2BlockSize < 16) (hsize : f.size < 2 ^ 64)
    (hinline : f.has 0x10000000 = false) (hencrypt : f.has (EXT4_ENCRYPT_FLAG + 4) = false)
    (hflag : f.has EXT4_EXTENTS_FLAG = false) (hgood : ExtGood f (ext2PointerBlock f) ctx)
    (hstart : ctx.start = 0) (hstop : ctx.stop = f.size) (hmap : grubExt2Map f ctx = .ok ctx') :
    ExtGood f (ext2PointerBlock f) ctx' ∧ ctx.Same ctx'
      ∧ (ctx.next = 0 → ctx'.next = ctx'.stop → ∃ n, f.size ≤ n * f.blockSize
        ∧ n * f.blockSize < 2 ^ 63
        ∧ (n ≤ 12 + (2 ^ (f.log2BlockSize + 8)) ^ 1 + (2 ^ (f.log2BlockSize + 8)) ^ 2
          ∨ (n ≤ 12 + (2 ^ (f.log2BlockSize + 8)) ^ 1 + (2 ^ (f.log2BlockSize + 8)) ^ 2
              + (2 ^ (f.log2BlockSize + 8)) ^ 3
            ∧ 2 ^ (f.log2BlockSize + 8) * 2 ^ (f.log2BlockSize + 8)
              * (2 ^ (f.log2BlockSize + 8) + 1) < 2 ^ 64))) := by
  obtain ⟨⟨hspan₁, hrange₁⟩, hspan₂, hspan₃⟩ := ext2_spans _ hlog2
  rw [← f.blockSize_eq] at hspan₁ hrange₁ hspan₂ hspan₃
  have hpos := f.blockSize_pos
  have hquarter : 0 < 2 ^ (f.log2BlockSize + 8) := Nat.two_pow_pos _
  have hdirectRange : 12 * f.blockSize < 2 ^ 63 := by
    rw [Nat.add_mul] at hrange₁
    omega
  rw [grubExt2Map, hinline, hencrypt, hflag, if_neg Bool.false_ne_true, if_neg Bool.false_ne_true,
    if_neg Bool.false_ne_true] at hmap
  cases hdirect : ext2MapDirect f EXT2_INDIRECT_BLOCKS 0 ctx 0 with
  | error e =>
    rw [hdirect] at hmap
    cases hmap
  | ok r =>
    obtain ⟨ctx₀, pos⟩ := r
    rw [hdirect] at hmap
    simp only at hmap
    obtain ⟨hwalked₀, hpos₀⟩ := @ext2MapDirect_good f (ext2PointerBlock f)
      (show (0 + 12 * 1) * f.blockSize < 2 ^ 64 by omega)
      (fun i hi _ => if_pos hi) EXT2_INDIRECT_BLOCKS 0 ctx ctx₀ pos (Nat.zero_add _) hgood hstart hstop
      (by rwa [Nat.zero_mul])
    rw [show EXT2_INDIRECT_BLOCKS = 12 from rfl] at hwalked₀ hpos₀
    have hstart₀ := hwalked₀.2.1.start.trans hstart
    have hstop₀ := hwalked₀.2.1.stop.trans hstop
    -- where a level is not walked through, the file ends before it
    have hover : ∀ {n} {c : FileMapContext}, Ext2Walked f (ext2PointerBlock f) (n * f.blockSize) ctx c →
        ctx.next = 0 → c.next = c.stop → f.size ≤ n * f.blockSize := by
      intro n c hwalked hnext hend
      obtain ⟨-, hsame, hle⟩ := hwalked
      rw [hend, hsame.stop, hstop, hnext] at hle
      omega
    obtain rfl | hdone := hpos₀
    swap
    · rw [ext2MapLevels, if_pos hdone] at hmap
      obtain rfl := Except.ok.inj hmap
      exact ⟨hwalked₀.1, hwalked₀.2.1, fun hnext hend => ⟨12, hover hwalked₀ hnext hend, hdirectRange,
        .inl (by omega)⟩⟩
    have hlevel₁ := @ext2MapLevels_step f (ext2PointerBlock f) _ _ _ 1 _ _ (by decide) hsize
      (.inr ⟨f.quarter_eq.symm ▸ hspan₁, by omega⟩) (fun x hx _ => by
        rw [Nat.pow_one] at hx
        rw [ext2PointerBlock, if_neg (by omega), if_pos (by omega), Nat.add_sub_cancel_left]) hwalked₀.1 hstart₀ hstop₀
      hmap
    obtain ⟨rfl, hle⟩ | ⟨-, ctx₁, hwalked₁, hmap₁⟩ := hlevel₁
    · exact ⟨hwalked₀.1, hwalked₀.2.1, fun _ _ => ⟨12, hle, hdirectRange, .inl (by omega)⟩⟩
    have hwalked₁ := hwalked₀.trans hwalked₁ (Nat.mul_le_mul_right _ (by omega))
    have hlevel₂ := @ext2MapLevels_step f (ext2PointerBlock f) _ _ _ 2 _ _ (by omega) hsize
      (f.quarter_eq.symm ▸ hspan₂.imp_right fun h => ⟨h.1, by omega⟩) (fun x hx _ => by
        rw [ext2PointerBlock, Nat.pow_one, if_neg (by omega), if_neg (by omega), if_pos (by omega),
          Nat.add_sub_cancel_left]) hwalked₁.1
      (hwalked₁.2.1.start.trans hstart) (hwalked₁.2.1.stop.trans hstop) hmap₁
    obtain ⟨rfl, hle⟩ | ⟨hne₂, ctx₂, hwalked₂, hmap₂⟩ := hlevel₂
    · exact ⟨hwalked₁.1, hwalked₁.2.1, fun _ _ => ⟨_, hle, hrange₁, .inl (by omega)⟩⟩
    have hwalked₂ := hwalked₁.trans hwalked₂ (Nat.mul_le_mul_right _ (by omega))
    rw [f.quarter_eq] at hne₂
    obtain ⟨-, hrange₂⟩ := hspan₂.resolve_left hne₂
    have hlevel₃ := @ext2MapLevels_step f (ext2PointerBlock f) _ _ _ 3 _ _ (by omega) hsize
      (f.quarter_eq.symm ▸ hspan₃.imp_right fun h => ⟨h.1, by omega⟩) (fun x hx _ => by
        rw [ext2PointerBlock, Nat.pow_one, if_neg (by omega), if_neg (by omega), if_neg (by omega),
          Nat.add_sub_cancel_left]) hwalked₂.1
      (hwalked₂.2.1.start.trans hstart) (hwalked₂.2.1.stop.trans hstop) hmap₂
    obtain ⟨rfl, hle⟩ | ⟨hne₃, ctx₃, hwalked₃, hmap₃⟩ := hlevel₃
    · exact ⟨hwalked₂.1, hwalked₂.2.1, fun _ _ => ⟨_, hle, hrange₂, .inl (Nat.le_refl _)⟩⟩
    have hwalked₃ := hwalked₂.trans hwalked₃ (Nat.mul_le_mul_right _ (by omega))
    rw [f.quarter_eq] at hne₃
    obtain ⟨-, hrange₃, hwrap⟩ := hspan₃.resolve_left hne₃
    rw [ext2MapLevels] at hmap₃
    obtain rfl := Except.ok.inj hmap₃
    exact ⟨hwalked₃.1, hwalked₃.2.1, fun hnext hend => ⟨_, hover hwalked₃ hnext hend, hrange₃,
      .inr ⟨Nat.le_refl _, hwrap⟩⟩⟩

/-- The map of a file with a tree of extents in good order. -/
theorem grubExt2Map_extents (hinline : f.has 0x10000000 = false)
    (hencrypt : f.has (EXT4_ENCRYPT_FLAG + 4) = false) (hflag : f.has EXT4_EXTENTS_FLAG = true)
    (hfits : ExtFits f (lostLe16 f.blocks 6) f.blocks true 0 (2 ^ 32))
    (hblocks : f.size ≤ 2 ^ 32 * f.blockSize)
    (hgood : ExtGood f (fun b => extBlock f b (lostLe16 f.blocks 6) f.blocks true) ctx)
    (hstart : ctx.start = 0) (hstop : ctx.stop = f.size) (hmap : grubExt2Map f ctx = .ok ctx') :
    ExtGood f (fun b => extBlock f b (lostLe16 f.blocks 6) f.blocks true) ctx' ∧ ctx.Same ctx' := by
  have hpos := f.blockSize_pos
  rw [grubExt2Map, hinline, hencrypt, hflag, if_neg Bool.false_ne_true, if_neg Bool.false_ne_true,
    if_pos rfl] at hmap
  cases htree : grubExtMapTree f (lostLe16 f.blocks 6) 60 f.blocks ctx 0 with
  | error e =>
    rw [htree] at hmap
    cases hmap
  | ok r =>
    obtain ⟨ctx₁, last⟩ := r
    rw [htree] at hmap
    simp only at hmap
    obtain ⟨hgood₁, hsame₁, l, rfl, hhole⟩ := grubExtMapTree_good hfits (fun b _ _ _ => rfl)
      (fun b hb hb' _ => absurd hb' (Nat.not_lt_zero b)) hgood hstart hstop
      (show grubExtMapTree f (lostLe16 f.blocks 6) 60 f.blocks ctx (0 * f.blockSize) = _ by
        rwa [Nat.zero_mul])
    obtain ⟨hgood', hsame'⟩ := hhole.rest hpos hblocks hgood₁ (hsame₁.stop.trans hstop) hmap
    exact ⟨hgood', hsame₁.trans hsame'⟩

theorem grubExt2ReadBlock_extents {rounds b : ℕ} (hflag : f.has EXT4_EXTENTS_FLAG = true)
    (hfits : ExtFits f (lostLe16 f.blocks 6) f.blocks true 0 (2 ^ 32)) (hb : b < 2 ^ 32)
    (hrounds : lostLe16 f.blocks 6 < rounds) :
    grubExt2ReadBlock f rounds b
      = some (.ok (extBlock f b (lostLe16 f.blocks 6) f.blocks true)) := by
  rw [grubExt2ReadBlock, hflag, if_pos rfl, Nat.mod_eq_of_lt hb]
  obtain ⟨hnone, hzero⟩ | ⟨leaf, inline, hleaf, hblock⟩ := grubExt4FindLeaf_eq (b := b) hfits hrounds
  · rw [hnone, hzero]
  · rw [hleaf, ← hblock]

/-- The block that a tree in good order gives lies on the volume. -/
theorem extBlock_lt {depth b lo hi : ℕ} {node : Buf} {inline : Bool}
    (hfits : ExtFits f depth node inline lo hi) (hfile : b * f.blockSize < f.size) :
    extBlock f b depth node inline * f.blockSize < 2 ^ 64 := by
  induction depth generalizing node inline lo hi with
  | zero =>
    obtain ⟨-, -, hlimit, hentries, -⟩ := hfits
    obtain ⟨-, hhigh, hkeys, -⟩ := extFind_spec node b (extEntries node) 0
    rw [extBlock, extLeafBlock, Nat.min_eq_left hlimit]
    cases hfind : extFind node b (extEntries node) 0 with
    | zero => exact (Nat.zero_mul f.blockSize).symm ▸ Nat.two_pow_pos 64
    | succ i =>
      have hlow := hkeys i (Nat.zero_le i) (by omega)
      obtain ⟨-, -, hwritten⟩ := hentries i (by omega)
      obtain ⟨-, -, hend⟩ := hwritten (Nat.lt_of_le_of_lt (Nat.mul_le_mul_right _ hlow) hfile)
      simp only
      split_ifs with hout
      · exact (Nat.zero_mul f.blockSize).symm ▸ Nat.two_pow_pos 64
      · refine Nat.lt_of_lt_of_le (Nat.mul_lt_mul_of_pos_right ?_ f.blockSize_pos) hend
        omega
  | succ depth ih =>
    obtain ⟨-, -, hchildren, -⟩ := hfits
    have hhigh := (extFind_spec node b (extEntries node) 0).2.1
    rw [extBlock]
    cases hfind : extFind node b (extEntries node) 0 with
    | zero => exact (Nat.zero_mul f.blockSize).symm ▸ Nat.two_pow_pos 64
    | succ i => exact ih (hchildren i (by omega)).2.2

theorem ext2Pointer_lt (depth : ℕ) : ∀ {root x : ℕ}, root < 2 ^ 32 →
    ext2Pointer f depth root x < 2 ^ 32 := by
  induction depth with
  | zero => exact fun h => h
  | succ depth ih =>
    intro root x hroot
    rw [ext2Pointer]
    split_ifs
    · exact Nat.two_pow_pos 32
    · exact ih (lostLe32_lt _ _)

theorem ext2PointerBlock_lt (b : ℕ) : ext2PointerBlock f b < 2 ^ 32 := by
  rw [ext2PointerBlock]
  split_ifs
  · exact lostLe32_lt _ _
  · exact ext2Pointer_lt 1 (lostLe32_lt _ _)
  · exact ext2Pointer_lt 2 (lostLe32_lt _ _)
  · exact ext2Pointer_lt 3 (lostLe32_lt _ _)

end Files

/-- A file of one block of 1024 bytes, in an extent at block 1 of the volume whose length is given. -/
def ext2OneExtent (len : List UInt8) : Ext2File where
  log2BlockSize := 0
  flags := EXT4_EXTENTS_FLAG
  size := 1024
  blocks := .ofFields [(0, [0x0a, 0xf3, 1, 0, 4, 0, 0, 0]), (16, len), (20, [1])]
  volume := .ofFields [(1024, [0x41])]
  maxRead := 0

/-- A file whose tree goes on with an index, in block 1, that points at itself. -/
def ext2OwnChild : Ext2File where
  log2BlockSize := 0
  flags := EXT4_EXTENTS_FLAG
  size := 1024
  blocks := .ofFields [(0, [0x0a, 0xf3, 1, 0, 4, 0, 1, 0]), (16, [1])]
  volume := .ofFields [(1024, [0x0a, 0xf3, 1, 0, 4, 0, 1, 0]), (1040, [1])]
  maxRead := 0

theorem ext2OneExtent_fits : ExtFits (ext2OneExtent [1]) 0 (ext2OneExtent [1]).blocks true 0
    (2 ^ 32) := by
  have hentries : extEntries (ext2OneExtent [1]).blocks = 1 := by decide
  refine ⟨by decide, by decide, by decide, fun i hi => ?_,
    fun i j hij hj => by omega⟩
  rw [hentries, Nat.lt_one_iff] at hi
  subst hi
  exact ⟨Nat.zero_le _, by decide, fun _ => by decide⟩

end FsRover
