import FsRover.Fs.Xfs

/-!
# XFS files as they are mapped and as they are read

A list of extents, or a B-tree of them, is walked through by the map and searched for a read. Both see
the same where the extents are in order, between the keys above them and inside one allocation group,
with offsets below 2 ^ 32. A read takes unwritten extents for data, though.

## Main definitions

* `FsRover.XfsFits` : a tree of extents in good order, without unwritten extents inside the file.

## Main results

* `FsRover.xfs_mapAgrees` : a file is read as it is mapped.
* `FsRover.xfs_unwritten_disagrees` : not where an extent is unwritten.
-/

namespace FsRover

theorem XfsFile.bsize_pos (f : XfsFile) : 0 < f.bsize :=
  Nat.mul_pos (Nat.two_pow_pos _) (by decide)

/-! ### Extents in good order -/

/-- Records in good order: they ascend between `lo` and `hi`, their offsets are below 2 ^ 32, and those
that begin in the file are written, stay inside an allocation group, lie on the volume and do not begin
in its first block. -/
def XfsRecordsFit (f : XfsFile) (exts : Buf) (n lo hi : ℕ) : Prop :=
  (∀ i < n, xfsMapOffset exts i < 2 ^ 32 ∧ lo ≤ xfsMapOffset exts i
    ∧ xfsMapOffset exts i + xfsExtentSize exts i ≤ hi
    ∧ (xfsMapOffset exts i * f.bsize < f.size → xfsUnwritten exts i = false
      ∧ f.fsbToBlock (xfsExtentBlock exts i) ≠ 0
      ∧ xfsExtentBlock exts i % 2 ^ f.log2Agblk + xfsExtentSize exts i ≤ 2 ^ f.log2Agblk
      ∧ (f.fsbToBlock (xfsExtentBlock exts i) + xfsExtentSize exts i) * f.bsize ≤ 2 ^ 64))
  ∧ ∀ i j, i < j → j < n → xfsMapOffset exts i + xfsExtentSize exts i ≤ xfsMapOffset exts j

/-- A node of a tree in good order: its keys ascend between `lo` and `hi`, its children have the magic
number and their level, and the buffer that it is searched in does not lie behind the structure it is
checked against. -/
def XfsFits (f : XfsFile) : ℕ → Buf → ℕ → ℕ → (ℕ → ℤ) → ℕ → ℕ → Prop
  | 0, exts, n, _, _, lo, hi => XfsRecordsFit f exts n lo hi
  | level + 1, keys, n, recoffset, room, lo, hi => (∀ b, 8 * (n : ℤ) ≤ room b)
    ∧ (∀ i < n, lo ≤ xfsFsb keys i ∧ xfsFsb keys i < hi
      ∧ xfsMagic f (f.node (xfsFsb keys (i + recoffset))) = true
      ∧ lostBe16 (f.node (xfsFsb keys (i + recoffset))) 4 = level
      ∧ XfsFits f level ((f.node (xfsFsb keys (i + recoffset))).from f.header)
        (lostBe16 (f.node (xfsFsb keys (i + recoffset))) 6) f.nodeRecoffset f.leafRoom
        (xfsFsb keys i) (if i + 1 < n then xfsFsb keys (i + 1) else hi))
    ∧ ∀ i j, i < j → j < n → xfsFsb keys i < xfsFsb keys j

/-- The block that the tree below a node gives. -/
def xfsBlock (f : XfsFile) (b : ℕ) : ℕ → Buf → ℕ → ℕ → ℕ
  | 0, exts, n, _ => f.fsbToBlock (xfsFindRecord exts b n 0)
  | level + 1, keys, n, recoffset =>
    match xfsFind keys b n 0 with
    | 0 => 0
    | i + 1 => xfsBlock f b level ((f.node (xfsFsb keys (i + recoffset))).from f.header)
      (lostBe16 (f.node (xfsFsb keys (i + recoffset))) 6) f.nodeRecoffset

theorem xfsExtentOffset_eq {exts : Buf} {i : ℕ} (h : xfsMapOffset exts i < 2 ^ 32) :
    xfsExtentOffset exts i = xfsMapOffset exts i := by
  rw [xfsMapOffset] at h
  rw [xfsExtentOffset, xfsMapOffset,
    Nat.mod_eq_of_lt (Nat.lt_of_le_of_lt (Nat.le_add_right _ _) h)]

theorem XfsFile.fsbToBlock_add {f : XfsFile} {s d : ℕ}
    (hgroup : s % 2 ^ f.log2Agblk + d < 2 ^ f.log2Agblk) (hlt : f.fsbToBlock s + d < 2 ^ 64) :
    f.fsbToBlock (s + d) = f.fsbToBlock s + d := by
  have hpos : 0 < 2 ^ f.log2Agblk := Nat.two_pow_pos _
  have hdiv := Nat.div_add_mod s (2 ^ f.log2Agblk)
  have hsum : s + d = (s % 2 ^ f.log2Agblk + d) + 2 ^ f.log2Agblk * (s / 2 ^ f.log2Agblk) := by omega
  rw [fsbToBlock, hsum, Nat.add_mul_div_left _ _ hpos, Nat.add_mul_mod_self_left,
    Nat.div_eq_of_lt hgroup, Nat.mod_eq_of_lt hgroup, Nat.zero_add, ← Nat.add_assoc]
  rw [fsbToBlock] at hlt ⊢
  rw [u64] at hlt
  rw [u64, u64, Nat.add_mod, Nat.mod_eq_of_lt (by omega : d < 2 ^ 64), Nat.mod_eq_of_lt hlt]

section Records

variable {f : XfsFile} {exts : Buf} {n lo hi b : ℕ}

theorem xfsFindRecord_inside (hfits : XfsRecordsFit f exts n lo hi) {m : ℕ} (hm : m < n)
    (hlow : xfsMapOffset exts m ≤ b) (hhigh : b < xfsMapOffset exts m + xfsExtentSize exts m) :
    ∀ k i, i + k = n → i ≤ m →
      xfsFindRecord exts b k i = b - xfsMapOffset exts m + xfsExtentBlock exts m := by
  intro k
  induction k with
  | zero => exact fun i hik him => absurd hm (by omega)
  | succ k ih =>
    intro i hik him
    have hoffset := xfsExtentOffset_eq (hfits.1 i (by omega)).1
    rw [xfsFindRecord, hoffset]
    rcases Nat.lt_or_eq_of_le him with hlt | rfl
    · have hbefore := hfits.2 i m hlt hm
      rw [if_neg (by omega), if_neg (by omega)]
      exact ih (i + 1) (by omega) hlt
    · rw [if_neg (by omega), if_pos hhigh]

/-- The search finds nothing where no record has the block. -/
theorem xfsFindRecord_outside (hfits : XfsRecordsFit f exts n lo hi)
    (hout : ∀ i < n, b < xfsMapOffset exts i ∨ xfsMapOffset exts i + xfsExtentSize exts i ≤ b) :
    ∀ k i, i + k = n → xfsFindRecord exts b k i = 0 := by
  intro k
  induction k with
  | zero => exact fun i _ => rfl
  | succ k ih =>
    intro i hik
    have hoffset := xfsExtentOffset_eq (hfits.1 i (by omega)).1
    rw [xfsFindRecord, hoffset]
    by_cases hlt : b < xfsMapOffset exts i
    · exact if_pos hlt
    · have hend := (hout i (by omega)).resolve_left hlt
      rw [if_neg hlt, if_neg (by omega)]
      exact ih (i + 1) (by omega)

theorem XfsFile.fsbToBlock_zero (f : XfsFile) : f.fsbToBlock 0 = 0 := by
  rw [fsbToBlock, Nat.zero_div, Nat.zero_mul, Nat.zero_mod]
  rfl

theorem xfsRecordBlock_inside (hfits : XfsRecordsFit f exts n lo hi) {m : ℕ} (hm : m < n)
    (hfile : xfsMapOffset exts m * f.bsize < f.size)
    (hlow : xfsMapOffset exts m ≤ b) (hhigh : b < xfsMapOffset exts m + xfsExtentSize exts m) :
    f.fsbToBlock (xfsFindRecord exts b n 0)
      = f.fsbToBlock (xfsExtentBlock exts m) + (b - xfsMapOffset exts m) := by
  obtain ⟨-, -, -, hwritten⟩ := hfits.1 m hm
  obtain ⟨-, -, hgroup, hend⟩ := hwritten hfile
  have hle : f.fsbToBlock (xfsExtentBlock exts m) + xfsExtentSize exts m ≤ 2 ^ 64 :=
    Nat.le_trans (Nat.le_mul_of_pos_right _ f.bsize_pos) hend
  rw [xfsFindRecord_inside hfits hm hlow hhigh n 0 (Nat.zero_add n) (Nat.zero_le m), Nat.add_comm,
    XfsFile.fsbToBlock_add (by omega) (by omega)]

theorem xfsMapWritten_good {block : ℕ → ℕ} {i : ℕ} {ctx ctx' : FileMapContext}
    (hfits : XfsRecordsFit f exts n lo hi) (hi' : i < n)
    (hblock : ∀ b, lo ≤ b → b < hi → b * f.bsize < f.size →
      block b = f.fsbToBlock (xfsFindRecord exts b n 0))
    (hgood : FileMapGood f.volume (fshelpByte f.volume block f.bsize) ctx)
    (hstop : ctx.stop = f.size)
    (hsimple : grubFileMapSimple ctx (xfsMapOffset exts i * f.bsize) (xfsExtentSize exts i * f.bsize)
      (if xfsUnwritten exts i then GRUB_FILE_MAP_ZERO + GRUB_FILE_MAP_UNWRITTEN
        else GRUB_FILE_MAP_DIRECT) (f.fsbToBlock (xfsExtentBlock exts i) * f.bsize) = .ok ctx') :
    FileMapGood f.volume (fshelpByte f.volume block f.bsize) ctx' ∧ ctx.Same ctx' := by
  have hpos := f.bsize_pos
  obtain ⟨-, hlow, hhigh, hwritten⟩ := hfits.1 i hi'
  by_cases hfile : xfsMapOffset exts i * f.bsize < f.size
  · obtain ⟨hflag, hstart, -, -⟩ := hwritten hfile
    rw [hflag, if_neg Bool.false_ne_true] at hsimple
    refine hgood.direct hpos hsimple fun b hb hb' hstop' => ?_
    rw [hblock b (by omega) (by omega) (hstop ▸ hstop'),
      xfsRecordBlock_inside hfits hi' hfile hb hb']
    exact ⟨rfl, by omega⟩
  · refine hgood.emit hsimple fun j hj _ hstop' => ?_
    have hj' : xfsMapOffset exts i * f.bsize ≤ j := hj
    omega

theorem xfsMapRecord_good {block : ℕ → ℕ} {i l last' : ℕ} {ctx ctx' : FileMapContext}
    (hfits : XfsRecordsFit f exts n lo hi) (hi' : i < n)
    (hblock : ∀ b, lo ≤ b → b < hi → b * f.bsize < f.size →
      block b = f.fsbToBlock (xfsFindRecord exts b n 0))
    (hhole : BlockHole f.bsize f.size block l (xfsMapOffset exts i))
    (hgood : FileMapGood f.volume (fshelpByte f.volume block f.bsize) ctx)
    (hstop : ctx.stop = f.size)
    (hmap : xfsMapRecord f exts i ctx (l * f.bsize) = .ok (ctx', last')) :
    FileMapGood f.volume (fshelpByte f.volume block f.bsize) ctx' ∧ ctx.Same ctx'
      ∧ last' = (xfsMapOffset exts i + xfsExtentSize exts i) * f.bsize := by
  have hpos := f.bsize_pos
  rw [xfsMapRecord] at hmap
  by_cases hbad : xfsExtentSize exts i = 0 ∨ f.lastBlock < xfsMapOffset exts i
      ∨ f.lastBlock - xfsMapOffset exts i < xfsExtentSize exts i
      ∨ f.lastBlock < f.fsbToBlock (xfsExtentBlock exts i)
  · rw [if_pos hbad] at hmap
    cases hmap
  rw [if_neg hbad] at hmap
  by_cases hover : xfsMapOffset exts i * f.bsize < l * f.bsize
  · rw [if_pos hover] at hmap
    cases hmap
  rw [if_neg hover] at hmap
  cases hgap : (if l * f.bsize < xfsMapOffset exts i * f.bsize then
      grubFileMapSimple ctx (l * f.bsize) (xfsMapOffset exts i * f.bsize - l * f.bsize)
        (GRUB_FILE_MAP_ZERO + GRUB_FILE_MAP_HOLE) 0 else .ok ctx) with
  | error e =>
    rw [hgap] at hmap
    cases hmap
  | ok ctx₁ =>
    rw [hgap] at hmap
    obtain ⟨hgood₁, hsame₁⟩ := hhole.gap hpos hgood hstop hgap
    have hstop₁ : ctx₁.stop = f.size := hsame₁.stop.trans hstop
    simp only at hmap
    cases hentry : grubFileMapSimple ctx₁ (xfsMapOffset exts i * f.bsize)
        (xfsExtentSize exts i * f.bsize)
        (if xfsUnwritten exts i then GRUB_FILE_MAP_ZERO + GRUB_FILE_MAP_UNWRITTEN
          else GRUB_FILE_MAP_DIRECT) (f.fsbToBlock (xfsExtentBlock exts i) * f.bsize) with
    | error e =>
      rw [hentry] at hmap
      cases hmap
    | ok ctx₂ =>
      rw [hentry] at hmap
      obtain ⟨rfl, rfl⟩ := Prod.mk.inj (Except.ok.inj hmap)
      obtain ⟨hgood₂, hsame₂⟩ := xfsMapWritten_good hfits hi' hblock hgood₁ hstop₁ hentry
      exact ⟨hgood₂, hsame₁.trans hsame₂, (Nat.add_mul _ _ _).symm⟩

/-- Behind a record and before the next one there is no block. -/
theorem xfsRecords_between {block : ℕ → ℕ} {i : ℕ} (hfits : XfsRecordsFit f exts n lo hi)
    (hi' : i < n)
    (hblock : ∀ b, lo ≤ b → b < hi → b * f.bsize < f.size →
      block b = f.fsbToBlock (xfsFindRecord exts b n 0)) :
    BlockHole f.bsize f.size block (xfsMapOffset exts i + xfsExtentSize exts i)
      (if i + 1 < n then xfsMapOffset exts (i + 1) else hi) := by
  intro b hb hb' hfile
  obtain ⟨-, hlow, -, -⟩ := hfits.1 i hi'
  have hbhi : b < hi := by
    split_ifs at hb' with hk
    · obtain ⟨-, -, hhigh', -⟩ := hfits.1 (i + 1) hk
      omega
    · exact hb'
  rw [hblock b (by omega) hbhi hfile, xfsFindRecord_outside hfits (fun j hj => ?_) n 0
    (Nat.zero_add n), f.fsbToBlock_zero]
  rcases Nat.lt_trichotomy j i with hji | rfl | hji
  · have hbefore := hfits.2 j i hji hi'
    exact .inr (by omega)
  · exact .inr hb
  · rw [if_pos (by omega)] at hb'
    rcases Nat.lt_or_eq_of_le (show i + 1 ≤ j from hji) with hji | rfl
    · have hafter := hfits.2 (i + 1) j hji hj
      exact .inl (by omega)
    · exact .inl hb'

theorem grubXfsMapRecords_good {block : ℕ → ℕ} (hfits : XfsRecordsFit f exts n lo hi)
    (hblock : ∀ b, lo ≤ b → b < hi → b * f.bsize < f.size →
      block b = f.fsbToBlock (xfsFindRecord exts b n 0)) :
    ∀ k i ctx l ctx' last', i + k = n →
      BlockHole f.bsize f.size block l (if i < n then xfsMapOffset exts i else hi) →
      FileMapGood f.volume (fshelpByte f.volume block f.bsize) ctx → ctx.stop = f.size →
      grubXfsMapRecords f exts k i ctx (l * f.bsize) = .ok (ctx', last') →
      BlockWalked f.volume f.bsize f.size block hi ctx ctx' last' := by
  intro k
  induction k with
  | zero =>
    intro i ctx l ctx' last' hik hhole hgood _ hmap
    obtain ⟨rfl, rfl⟩ := Prod.mk.inj (Except.ok.inj hmap)
    rw [if_neg (by omega)] at hhole
    exact ⟨hgood, .refl ctx, l, rfl, hhole⟩
  | succ k ih =>
    intro i ctx l ctx' last' hik hhole hgood hstop hmap
    have hi' : i < n := by omega
    rw [if_pos hi'] at hhole
    rw [grubXfsMapRecords] at hmap
    by_cases hdone : ctx.stop ≤ l * f.bsize
    · rw [if_pos hdone] at hmap
      obtain ⟨rfl, rfl⟩ := Prod.mk.inj (Except.ok.inj hmap)
      exact ⟨hgood, .refl ctx, l, rfl, .past (hstop ▸ hdone)⟩
    rw [if_neg hdone] at hmap
    cases hrecord : xfsMapRecord f exts i ctx (l * f.bsize) with
    | error e =>
      rw [hrecord] at hmap
      cases hmap
    | ok r =>
      obtain ⟨ctx₁, last₁⟩ := r
      rw [hrecord] at hmap
      obtain ⟨hgood₁, hsame₁, rfl⟩ := xfsMapRecord_good hfits hi' hblock hhole hgood hstop hrecord
      obtain ⟨hgood', hsame', hlast⟩ := ih (i + 1) ctx₁ _ ctx' last' (by omega)
        (xfsRecords_between hfits hi' hblock) hgood₁ (hsame₁.stop.trans hstop) hmap
      exact ⟨hgood', hsame₁.trans hsame', hlast⟩

theorem xfsRecords_before {block : ℕ → ℕ} {l : ℕ} (hfits : XfsRecordsFit f exts n lo hi)
    (hblock : ∀ b, lo ≤ b → b < hi → b * f.bsize < f.size →
      block b = f.fsbToBlock (xfsFindRecord exts b n 0))
    (hhole : BlockHole f.bsize f.size block l lo) :
    BlockHole f.bsize f.size block l (if 0 < n then xfsMapOffset exts 0 else hi) := by
  intro b hb hb' hfile
  by_cases hlo : b < lo
  · exact hhole b hb hlo hfile
  have hbhi : b < hi := by
    split_ifs at hb' with hn
    · obtain ⟨-, -, hhigh, -⟩ := hfits.1 0 hn
      omega
    · exact hb'
  rw [hblock b (by omega) hbhi hfile, xfsFindRecord_outside hfits (fun j hj => ?_) n 0
    (Nat.zero_add n), f.fsbToBlock_zero]
  rw [if_pos (by omega)] at hb'
  rcases Nat.eq_zero_or_pos j with rfl | hj'
  · exact .inl hb'
  · have hafter := hfits.2 0 j hj' hj
    exact .inl (by omega)

end Records

/-! ### B-trees -/

section Tree

variable {f : XfsFile} {keys : Buf} {n recoffset lo hi b : ℕ} {room : ℕ → ℤ}

/-- The search for the leaf goes the way of the tree. -/
theorem xfsFindLeaf_eq {level rounds : ℕ}
    (hfits : XfsFits f (level + 1) keys n recoffset room lo hi) (hrounds : level < rounds) :
    (xfsFindLeaf f b rounds keys n recoffset (room b) = some (.ok none)
      ∧ xfsBlock f b (level + 1) keys n recoffset = 0)
    ∨ ∃ exts m, xfsFindLeaf f b rounds keys n recoffset (room b) = some (.ok (some (exts, m)))
      ∧ f.fsbToBlock (xfsFindRecord exts b m 0) = xfsBlock f b (level + 1) keys n recoffset := by
  induction level generalizing keys n recoffset room lo hi rounds with
  | zero =>
    obtain ⟨rounds, rfl⟩ := Nat.exists_eq_succ_of_ne_zero (Nat.ne_of_gt hrounds)
    obtain ⟨hroom, hchildren, -⟩ := hfits
    have hfound := (KeyIndex.firstAbove_spec (xfsFsb keys) b n 0).2.1
    rw [xfsFindLeaf, if_neg (Int.not_lt.mpr (hroom b)), xfsBlock, xfsFind]
    cases hfind : KeyIndex.firstAbove (xfsFsb keys) b n 0 with
    | zero => exact .inl ⟨rfl, rfl⟩
    | succ i =>
      obtain ⟨-, -, hmagic, hlevel, -⟩ := hchildren i (by omega)
      simp only
      rw [hmagic, if_neg Bool.noConfusion, if_pos hlevel]
      exact .inr ⟨_, _, rfl, rfl⟩
  | succ level ih =>
    obtain ⟨rounds, rfl⟩ := Nat.exists_eq_succ_of_ne_zero (Nat.ne_of_gt (Nat.zero_lt_of_lt hrounds))
    obtain ⟨hroom, hchildren, -⟩ := hfits
    have hfound := (KeyIndex.firstAbove_spec (xfsFsb keys) b n 0).2.1
    rw [xfsFindLeaf, if_neg (Int.not_lt.mpr (hroom b)), xfsBlock, xfsFind]
    cases hfind : KeyIndex.firstAbove (xfsFsb keys) b n 0 with
    | zero => exact .inl ⟨rfl, rfl⟩
    | succ i =>
      obtain ⟨-, -, hmagic, hlevel, hchild⟩ := hchildren i (by omega)
      simp only
      rw [hmagic, if_neg Bool.noConfusion, if_neg (by omega)]
      exact ih hchild (by omega)

theorem xfsBlock_index {level i : ℕ} (hfits : XfsFits f (level + 1) keys n recoffset room lo hi)
    (hi' : i < n) (hlow : xfsFsb keys i ≤ b) (hhigh : i + 1 < n → b < xfsFsb keys (i + 1)) :
    xfsBlock f b (level + 1) keys n recoffset
      = xfsBlock f b level ((f.node (xfsFsb keys (i + recoffset))).from f.header)
        (lostBe16 (f.node (xfsFsb keys (i + recoffset))) 6) f.nodeRecoffset := by
  obtain ⟨-, -, hsorted⟩ := hfits
  rw [xfsBlock, xfsFind, KeyIndex.firstAbove_succ hsorted hi' hlow hhigh]

theorem xfsBlock_before {level : ℕ} (hout : 0 < n → b < xfsFsb keys 0) :
    xfsBlock f b (level + 1) keys n recoffset = 0 := by
  rw [xfsBlock, xfsFind, KeyIndex.firstAbove_eq (Nat.zero_le n)
    (fun j hj => absurd hj (Nat.not_lt_zero j)) hout]

theorem xfsMapChildren_good {block : ℕ → ℕ} {level : ℕ}
    {child : Buf → ℕ → FileMapContext → ℕ → Except GrubError (FileMapContext × ℕ)}
    (hchild : ∀ i < n, ∀ ctx l ctx' last', BlockHole f.bsize f.size block l (xfsFsb keys i) →
      FileMapGood f.volume (fshelpByte f.volume block f.bsize) ctx → ctx.stop = f.size →
      child ((f.node (xfsFsb keys (i + recoffset))).from f.header)
        (lostBe16 (f.node (xfsFsb keys (i + recoffset))) 6) ctx (l * f.bsize) = .ok (ctx', last') →
      BlockWalked f.volume f.bsize f.size block (if i + 1 < n then xfsFsb keys (i + 1) else hi) ctx
        ctx' last') :
    ∀ k i ctx l ctx' last', i + k = n →
      BlockHole f.bsize f.size block l (if i < n then xfsFsb keys i else hi) →
      FileMapGood f.volume (fshelpByte f.volume block f.bsize) ctx → ctx.stop = f.size →
      xfsMapChildren f keys recoffset level child k i ctx (l * f.bsize) = .ok (ctx', last') →
      BlockWalked f.volume f.bsize f.size block hi ctx ctx' last' := by
  intro k
  induction k with
  | zero =>
    intro i ctx l ctx' last' hik hhole hgood _ hmap
    obtain ⟨rfl, rfl⟩ := Prod.mk.inj (Except.ok.inj hmap)
    rw [if_neg (by omega)] at hhole
    exact ⟨hgood, .refl ctx, l, rfl, hhole⟩
  | succ k ih =>
    intro i ctx l ctx' last' hik hhole hgood hstop hmap
    have hi' : i < n := by omega
    have hik' : i + 1 + k = n := by omega
    rw [if_pos hi'] at hhole
    rw [xfsMapChildren, Nat.add_comm recoffset] at hmap
    by_cases hdone : ctx.stop ≤ l * f.bsize
    · rw [if_pos hdone] at hmap
      obtain ⟨rfl, rfl⟩ := Prod.mk.inj (Except.ok.inj hmap)
      exact ⟨hgood, .refl ctx, l, rfl, .past (hstop ▸ hdone)⟩
    rw [if_neg hdone] at hmap
    by_cases hfar : f.lastBlock < f.fsbToBlock (xfsFsb keys (i + recoffset))
    · rw [if_pos hfar] at hmap
      cases hmap
    rw [if_neg hfar] at hmap
    by_cases hbad : xfsMagic f (f.node (xfsFsb keys (i + recoffset))) = false
        ∨ lostBe16 (f.node (xfsFsb keys (i + recoffset))) 4 ≠ level
    · rw [if_pos hbad] at hmap
      cases hmap
    rw [if_neg hbad] at hmap
    cases hbelow : child ((f.node (xfsFsb keys (i + recoffset))).from f.header)
        (lostBe16 (f.node (xfsFsb keys (i + recoffset))) 6) ctx (l * f.bsize) with
    | error e =>
      rw [hbelow] at hmap
      cases hmap
    | ok r =>
      obtain ⟨ctx₁, last₁⟩ := r
      rw [hbelow] at hmap
      obtain ⟨hgood₁, hsame₁, l₁, rfl, hhole₁⟩ := hchild i hi' ctx l ctx₁ last₁ hhole hgood hstop
        hbelow
      obtain ⟨hgood', hsame', hlast⟩ := ih (i + 1) ctx₁ l₁ ctx' last' hik' hhole₁ hgood₁
        (hsame₁.stop.trans hstop) hmap
      exact ⟨hgood', hsame₁.trans hsame', hlast⟩

/-- The walk through a tree in good order. -/
theorem grubXfsMapNode_good {block : ℕ → ℕ} {level bytes l last' : ℕ} {ctx ctx' : FileMapContext}
    (hfits : XfsFits f level keys n recoffset room lo hi) (hbytes : bytes / 16 = recoffset)
    (hblock : ∀ b, lo ≤ b → b < hi → b * f.bsize < f.size →
      block b = xfsBlock f b level keys n recoffset)
    (hhole : BlockHole f.bsize f.size block l lo)
    (hgood : FileMapGood f.volume (fshelpByte f.volume block f.bsize) ctx) (hstop : ctx.stop = f.size)
    (hmap : grubXfsMapNode f level bytes keys n ctx (l * f.bsize) = .ok (ctx', last')) :
    BlockWalked f.volume f.bsize f.size block hi ctx ctx' last' := by
  induction level generalizing keys n recoffset room lo hi bytes l last' ctx ctx' with
  | zero =>
    rw [grubXfsMapNode] at hmap
    split_ifs at hmap
    exact grubXfsMapRecords_good hfits hblock n 0 ctx l ctx' last' (Nat.zero_add n)
      (xfsRecords_before hfits hblock hhole) hgood hstop hmap
  | succ level ih =>
    rw [grubXfsMapNode, hbytes] at hmap
    split_ifs at hmap
    obtain ⟨-, hchildren, -⟩ := id hfits
    refine xfsMapChildren_good (fun i hi' ctx l ctx' last' hhole hgood hstop hmap => ?_) n 0 ctx l ctx'
      last' (Nat.zero_add n) ?_ hgood hstop hmap
    · obtain ⟨hlow, hhigh, -, -, hfits'⟩ := hchildren i hi'
      refine ih hfits' rfl (fun b hb hb' hfile => ?_) hhole hgood hstop hmap
      have hbhi : b < hi := by
        split_ifs at hb' with hnext
        · have hnext' := (hchildren (i + 1) hnext).2.1
          omega
        · exact hb'
      rw [hblock b (Nat.le_trans hlow hb) hbhi hfile]
      exact xfsBlock_index hfits hi' hb fun hnext => by rwa [if_pos hnext] at hb'
    · intro b hb hb' hfile
      by_cases hlo : b < lo
      · exact hhole b hb hlo hfile
      have hbhi : b < hi := by
        split_ifs at hb' with hn
        · have hhigh := (hchildren 0 hn).2.1
          omega
        · exact hb'
      rw [hblock b (Nat.not_lt.mp hlo) hbhi hfile]
      exact xfsBlock_before fun hn => by rwa [if_pos hn] at hb'

/-- The block that a tree in good order gives lies on the volume. -/
theorem xfsBlock_lt {level : ℕ} (hfits : XfsFits f level keys n recoffset room lo hi)
    (hfile : b * f.bsize < f.size) : xfsBlock f b level keys n recoffset * f.bsize < 2 ^ 64 := by
  induction level generalizing keys n recoffset room lo hi with
  | zero =>
    have hrecords : XfsRecordsFit f keys n lo hi := hfits
    rw [xfsBlock]
    by_cases hin : ∃ m < n, xfsMapOffset keys m ≤ b ∧ b < xfsMapOffset keys m + xfsExtentSize keys m
    · obtain ⟨m, hm, hlow, hhigh⟩ := hin
      have hbegin := Nat.lt_of_le_of_lt (Nat.mul_le_mul_right f.bsize hlow) hfile
      obtain ⟨-, -, -, hwritten⟩ := hrecords.1 m hm
      obtain ⟨-, -, -, hend⟩ := hwritten hbegin
      rw [xfsRecordBlock_inside hrecords hm hbegin hlow hhigh]
      refine Nat.lt_of_lt_of_le (Nat.mul_lt_mul_of_pos_right ?_ f.bsize_pos) hend
      omega
    · have hout : ∀ m < n, b < xfsMapOffset keys m
          ∨ xfsMapOffset keys m + xfsExtentSize keys m ≤ b := by
        intro m hm
        rcases Nat.lt_or_ge b (xfsMapOffset keys m) with hlt | hge
        · exact .inl hlt
        · exact .inr (Nat.not_lt.mp fun hlt => hin ⟨m, hm, hge, hlt⟩)
      rw [xfsFindRecord_outside hrecords hout n 0 (Nat.zero_add n), f.fsbToBlock_zero, Nat.zero_mul]
      exact Nat.two_pow_pos 64
  | succ level ih =>
    obtain ⟨-, hchildren, -⟩ := hfits
    have hfound := (KeyIndex.firstAbove_spec (xfsFsb keys) b n 0).2.1
    rw [xfsBlock, xfsFind]
    cases hfind : KeyIndex.firstAbove (xfsFsb keys) b n 0 with
    | zero => exact (Nat.zero_mul f.bsize).symm ▸ Nat.two_pow_pos 64
    | succ i => exact ih (hchildren i (by omega)).2.2.2.2

end Tree

/-! ### Whole files -/

/-- The data fork is a list of extents in good order, or the root of a tree of them. -/
def XfsForkFits (f : XfsFile) (hi : ℕ) : Prop :=
  f.format = XFS_INODE_FORMAT_EXT ∧ 16 * f.nextents ≤ f.dataSize
    ∧ XfsRecordsFit f f.fork f.nextents 0 hi
  ∨ f.format = XFS_INODE_FORMAT_BTREE ∧ ∃ level, lostBe16 f.fork 0 = level + 1
    ∧ XfsFits f (level + 1) (f.fork.from 4) (lostBe16 f.fork 2) f.rootRecoffset (fun _ => f.rootRoom)
      0 hi

/-- The block that the data fork gives. -/
def xfsFileBlock (f : XfsFile) (b : ℕ) : ℕ :=
  if f.format = XFS_INODE_FORMAT_BTREE then
    xfsBlock f b (lostBe16 f.fork 0) (f.fork.from 4) (lostBe16 f.fork 2) f.rootRecoffset
  else xfsBlock f b 0 f.fork f.nextents 0

section Files

variable {f : XfsFile} {hi b rounds : ℕ}

theorem xfsFileBlock_ext (h : f.format = XFS_INODE_FORMAT_EXT) :
    xfsFileBlock f b = f.fsbToBlock (xfsFindRecord f.fork b f.nextents 0) := by
  rw [xfsFileBlock, h, if_neg (by decide), xfsBlock]

theorem xfsFileBlock_btree {level : ℕ} (h : f.format = XFS_INODE_FORMAT_BTREE)
    (hlevel : lostBe16 f.fork 0 = level) : xfsFileBlock f b
      = xfsBlock f b level (f.fork.from 4) (lostBe16 f.fork 2) f.rootRecoffset := by
  rw [xfsFileBlock, if_pos h, hlevel]

theorem grubXfsReadBlock_eq (hfits : XfsForkFits f hi) (hrounds : lostBe16 f.fork 0 < rounds) :
    grubXfsReadBlock f rounds b = some (.ok (xfsFileBlock f b)) := by
  obtain ⟨hformat, hcount, -⟩ | ⟨hformat, level, hlevel, htree⟩ := hfits
  · rw [xfsFileBlock_ext hformat, grubXfsReadBlock, hformat, if_neg (by decide), if_pos rfl,
      if_neg (Nat.not_lt.mpr hcount)]
  · have hlt : level < rounds := by omega
    rw [xfsFileBlock_btree hformat hlevel, grubXfsReadBlock, if_pos hformat]
    obtain ⟨hnone, hzero⟩ | ⟨exts, m, hleaf, hblock⟩ := xfsFindLeaf_eq (b := b) htree hlt
    · rw [hzero, show xfsFindLeaf f b rounds (f.fork.from 4) (lostBe16 f.fork 2) f.rootRecoffset
        f.rootRoom = some (.ok none) from hnone]
    · rw [← hblock, show xfsFindLeaf f b rounds (f.fork.from 4) (lostBe16 f.fork 2) f.rootRecoffset
        f.rootRoom = some (.ok (some (exts, m))) from hleaf]

theorem xfsFileBlock_lt (hfits : XfsForkFits f hi) (hfile : b * f.bsize < f.size) :
    xfsFileBlock f b * f.bsize < 2 ^ 64 := by
  obtain ⟨hformat, -, hrecords⟩ | ⟨hformat, level, hlevel, htree⟩ := hfits
  · have htree : XfsFits f 0 f.fork f.nextents 0 (fun _ => 0) 0 hi := hrecords
    rw [xfsFileBlock_ext hformat]
    exact xfsBlock_lt htree hfile
  · rw [xfsFileBlock_btree hformat hlevel]
    exact xfsBlock_lt htree hfile

/-- Where the pointers of the root are, as the map has it and as a read does. -/
theorem xfsForkBytes_recoffset (hinode : f.forkStart + 4 ≤ 2 ^ f.log2Inode)
    (hinode' : 2 ^ f.log2Inode < 2 ^ 64) : (xfsForkBytes f - 4) / 16 = f.rootRecoffset := by
  rw [xfsForkBytes, XfsFile.rootRecoffset]
  by_cases hfork : f.forkOffset ≠ 0
  · rw [if_pos hfork, if_pos hfork]
    omega
  · rw [if_neg hfork, if_neg hfork, sub64_of_le (by omega) hinode', Nat.sub_sub]

theorem grubXfsMap_good {ctx ctx' : FileMapContext} (hflags : f.flags % 2 = 0)
    (hinode : f.forkStart + 4 ≤ 2 ^ f.log2Inode) (hinode' : 2 ^ f.log2Inode < 2 ^ 64)
    (hfits : XfsForkFits f hi) (hblocks : f.size ≤ hi * f.bsize)
    (hgood : FileMapGood f.volume (fshelpByte f.volume (xfsFileBlock f) f.bsize) ctx)
    (hstop : ctx.stop = f.size) (hmap : grubXfsMap f ctx = .ok ctx') :
    FileMapGood f.volume (fshelpByte f.volume (xfsFileBlock f) f.bsize) ctx' ∧ ctx.Same ctx' := by
  have hpos := f.bsize_pos
  have hstart : BlockHole f.bsize f.size (xfsFileBlock f) 0 0 :=
    fun b _ hb => absurd hb (Nat.not_lt_zero b)
  rw [grubXfsMap, if_neg (by omega)] at hmap
  by_cases hfork : f.forkOffset ≠ 0 ∧ sub64 (2 ^ f.log2Inode) f.forkStart < f.forkOffset * 8
  · rw [if_pos hfork] at hmap
    cases hmap
  rw [if_neg hfork] at hmap
  simp only at hmap
  obtain ⟨hformat, -, hrecords⟩ | ⟨hformat, level, hlevel, htree⟩ := hfits
  · rw [if_pos hformat] at hmap
    by_cases hcount : xfsForkBytes f / 16 < f.nextents
    · rw [if_pos hcount] at hmap
      cases hmap
    rw [if_neg hcount] at hmap
    cases hrun : grubXfsMapRecords f f.fork f.nextents 0 ctx 0 with
    | error e =>
      rw [hrun] at hmap
      cases hmap
    | ok r =>
      obtain ⟨ctx₁, last⟩ := r
      rw [hrun] at hmap
      have hblock : ∀ b, 0 ≤ b → b < hi → b * f.bsize < f.size →
          xfsFileBlock f b = f.fsbToBlock (xfsFindRecord f.fork b f.nextents 0) :=
        fun b _ _ _ => xfsFileBlock_ext hformat
      obtain ⟨hgood₁, hsame₁, l, rfl, hhole⟩ := grubXfsMapRecords_good hrecords hblock f.nextents 0 ctx
        0 ctx₁ last (Nat.zero_add _) (xfsRecords_before hrecords hblock hstart) hgood hstop
        (by rwa [Nat.zero_mul])
      obtain ⟨hgood', hsame'⟩ := hhole.rest hpos hblocks hgood₁ (hsame₁.stop.trans hstop) hmap
      exact ⟨hgood', hsame₁.trans hsame'⟩
  · rw [hformat, if_neg (by decide), if_pos rfl] at hmap
    by_cases hshort : xfsForkBytes f < 4
    · rw [if_pos hshort] at hmap
      cases hmap
    rw [if_neg hshort, hlevel] at hmap
    cases hrun : grubXfsMapNode f (level + 1) (xfsForkBytes f - 4) (f.fork.from 4)
        (lostBe16 f.fork 2) ctx 0 with
    | error e =>
      rw [hrun] at hmap
      cases hmap
    | ok r =>
      obtain ⟨ctx₁, last⟩ := r
      rw [hrun] at hmap
      obtain ⟨hgood₁, hsame₁, l, rfl, hhole⟩ := grubXfsMapNode_good htree
        (xfsForkBytes_recoffset hinode hinode') (fun b _ _ _ => xfsFileBlock_btree hformat hlevel)
        hstart hgood hstop (by rwa [Nat.zero_mul])
      obtain ⟨hgood', hsame'⟩ := hhole.rest hpos hblocks hgood₁ (hsame₁.stop.trans hstop) hmap
      exact ⟨hgood', hsame₁.trans hsame'⟩

end Files

/-- A file of one block of 512 bytes, in an extent at block 1 of the volume whose first byte, that of
the flag, is given. -/
def xfsOneRecord (flag : UInt8) : XfsFile where
  log2Bsize := 9
  log2Agblk := 4
  agsize := 16
  hascrc := false
  log2Inode := 8
  version := 2
  format := XFS_INODE_FORMAT_EXT
  flags := 0
  forkOffset := 0
  nextents := 1
  size := 512
  fork := .ofFields [(0, [flag]), (12, [0, 0x20, 0, 1])]
  volume := .ofFields [(512, [0x41])]
  maxRead := 0
  dataSize := 1024
  rootRoom := 1024
  leafRoom _ := 1024

/-- A file whose tree goes on with a node, in block 1, that points at itself. -/
def xfsOwnChild : XfsFile where
  log2Bsize := 9
  log2Agblk := 4
  agsize := 16
  hascrc := false
  log2Inode := 8
  version := 2
  format := XFS_INODE_FORMAT_BTREE
  flags := 0
  forkOffset := 0
  nextents := 0
  size := 512
  fork := .ofFields [(0, [0, 2, 0, 1]), (83, [1])]
  volume := .ofFields [(512, [0x42, 0x4d, 0x41, 0x50, 0, 1, 0, 1]), (783, [1])]
  maxRead := 0
  dataSize := 1024
  rootRoom := 1024
  leafRoom _ := 1024

theorem xfsOneRecord_fits : XfsForkFits (xfsOneRecord 0) 1 := by
  refine .inl ⟨rfl, by decide, fun i hi => ?_, fun i j hij hj => ?_⟩
  · have hi' : i < 1 := hi
    obtain rfl := Nat.lt_one_iff.mp hi'
    exact ⟨by decide, Nat.zero_le _, by decide, fun _ => by decide⟩
  · have hj' : j < 1 := hj
    omega

end FsRover
