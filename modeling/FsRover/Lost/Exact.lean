import FsRover.Lost.Hits

/-!
# Exact sizes

The detectors compute sizes in 64 bits from fields of the disk. Their guards keep the products in that
range, but for two: the number of sectors of an NTFS volume counts one more than the guard does, and the
number of blocks of an XFS file system has none.

## Main definitions

* `FsRover.LostExact` : a value is the exact one, positive and in range.
* `FsRover.LostSizesExact` : all that the detectors compute from a buffer is.

## Main results

* `FsRover.lostSizesExact_iff` : it is, but for these two.
* `FsRover.lostSizes_wrap` : where they wrap around.
-/

namespace FsRover

/-- The value is the exact one, which is positive and fits into 64 bits. -/
def LostExact (value exact : ℕ) : Prop := value = exact ∧ 0 < exact ∧ exact < 2 ^ 64

theorem LostExact.of_lt {exact : ℕ} (hpos : 0 < exact) (hlt : exact < 2 ^ 64) :
    LostExact (u64 exact) exact := ⟨u64_of_lt hlt, hpos, hlt⟩

/-! ### The exact values -/

/-- The sectors of a FAT volume. -/
def lostFatTotal (bs : Buf) : ℕ :=
  if lostLe16 bs 0x13 ≠ 0 then lostLe16 bs 0x13 else lostLe32 bs 0x20

/-- Where a copy of an ext superblock is. -/
def lostExtOffset (sb : Buf) : ℕ :=
  if lostLe16 sb 0x5a ≠ 0 then
    (lostLe32 sb 0x14 + lostLe16 sb 0x5a * lostLe32 sb 0x20) * 2 ^ (10 + lostLe32 sb 0x18)
  else LOST_SB_1K

/-- The size of an HFS or HFS+ volume. -/
def lostHfsSize (b : Buf) : ℕ :=
  if lostBe16 b 0 = 0x4244 then
    lostBe16 b 0x12 * lostBe32 b 0x14 + lostBe16 b 0x1c * 512 + 0x400
  else lostBe32 b 0x2c * lostBe32 b 0x28

/-- The blocks and the fragment size of a UFS file system, in the byte order of its magic number. -/
def lostUfsSize (sb : Buf) : ℕ :=
  if lostLe32 sb 1372 = 0x00011954 then lostLe32 sb 36 * lostLe32 sb 52
  else if lostLe32 sb 1372 = 0x19540119 then lostLe64 sb 1080 * lostLe32 sb 52
  else if lostBe32 sb 1372 = 0x00011954 then lostBe32 sb 36 * lostBe32 sb 52
  else lostBe64 sb 1080 * lostBe32 sb 52

/-- The length of the group descriptor table of an ext superblock, without wrap-around. -/
def lostExtTableExact (sb : Buf) : Option ℕ :=
  let bs := 1024 * 2 ^ lostLe32 sb 0x18
  let first := lostLe32 sb 0x14
  let perGroup := lostLe32 sb 0x20
  let desc := if lostLe32 sb 0x60 &&& 0x80 ≠ 0 then lostLe16 sb 0xfe else 32
  if lostLe32 sb 0x60 &&& 0x10 ≠ 0 then none
  else if desc < 32 ∨ bs < desc ∨ ¬ lostIsPow2 desc ∨ lostExtBlocks sb ≤ first then none
  else
    let table := ((lostExtBlocks sb - first + perGroup - 1) / perGroup * desc + bs - 1) / bs * bs
    if table < perGroup * bs then some table else none

/-- The remaps of `lost_ext_remap`, without wrap-around. -/
def lostExtRemapExact (sb : Buf) (sbOffset : ℕ) : List LostRemap :=
  let bs := 1024 * 2 ^ lostLe32 sb 0x18
  ⟨LOST_SB_1K, sbOffset, LOST_EXT_SB_SIZE⟩
    :: (lostExtTableExact sb).toList.map fun table =>
      ⟨(lostLe32 sb 0x14 + 1) * bs, (sbOffset / bs + 1) * bs, table⟩

/-- All fields fit into 64 bits. -/
def LostRemap.Fits (r : LostRemap) : Prop :=
  r.target < 2 ^ 64 ∧ r.source < 2 ^ 64 ∧ r.length < 2 ^ 64

/-- What the detectors compute from a buffer they accept. -/
structure LostSizesExact (b : Buf) : Prop where
  ntfs : ∀ size bps, lostNtfs b = some (size, bps) →
    LostExact size ((lostLe64 b 0x28 + 1) * lostLe16 b 0x0b)
  fat : ∀ sectorSize type size, 0 < sectorSize → lostFat b sectorSize = some (type, size) →
    LostExact size (lostFatTotal b * sectorSize)
  exfat : ∀ shift size, lostExfat b = some (shift, size) →
    LostExact size (lostLe64 b 0x48 * 2 ^ byteAt b 0x6c)
  ext : ∀ type size offset, lostExt b = some (type, size, offset) →
    LostExact size (lostExtBlocks b * 2 ^ (10 + lostLe32 b 0x18))
  extOffset : ∀ type size offset, lostExt b = some (type, size, offset) →
    offset = lostExtOffset b ∧ lostExtOffset b < 2 ^ 64
  extRemap : ∀ type size offset (hit : LostHit), lostExt b = some (type, size, offset) →
    hit.remap = [] → (lostExtRemap hit b offset).remap = lostExtRemapExact b offset
      ∧ ∀ r ∈ lostExtRemapExact b offset, r.Fits
  xfs : ∀ size agSize sector, lostXfs b = some (size, agSize, sector) →
    LostExact size (lostBe64 b 8 * 2 ^ byteAt b 120)
  xfsGroup : ∀ size agSize sector, lostXfs b = some (size, agSize, sector) →
    LostExact agSize (lostBe32 b 84 * 2 ^ byteAt b 120)
  btrfs : ∀ size offset, lostBtrfs b = some (size, offset) → LostExact size (lostLe64 b (201 + 8))
  hfs : ∀ type size, lostHfs b = some (type, size) → LostExact size (lostHfsSize b)
  apfs : ∀ avail size, lostApfs b avail = some size →
    LostExact size (lostLe64 b 40 * lostLe32 b 36)
  refs : ∀ size, lostRefs b = some size → LostExact size (lostLe64 b 0x18 * lostLe32 b 0x20)
  f2fs : ∀ size, lostF2fs b = some size → LostExact size (lostLe64 b 36 * 2 ^ 12)
  ufs : ∀ place type size, lostUfs b place = some (type, size) → LostExact size (lostUfsSize b)
  jfs : ∀ size, lostJfs b = some size → LostExact size (lostLe64 b 8 * lostLe32 b 24
    + lostLe32 b 16 * ((lostLe32 b 72 &&& 0xffffff) + (lostLe32 b 80 &&& 0xffffff)))
  reiserfs : ∀ size, lostReiserfs b = some size → LostExact size (lostLe32 b 0 * lostLe16 b 0x2c)
  iso : ∀ size, lostIso b = some size → LostExact size (lostLe32 b 80 * lostLe16 b 128)

section Detectors

variable {b : Buf}

/-- The sectors of an NTFS volume, with the one behind it, wrap around at one value only. -/
theorem lostNtfs_exact_iff {size bps : ℕ} (h : lostNtfs b = some (size, bps)) :
    LostExact size ((lostLe64 b 0x28 + 1) * lostLe16 b 0x0b)
      ↔ ¬ (lostLe64 b 0x28 = 2 ^ 52 - 1 ∧ lostLe16 b 0x0b = 4096) := by
  unfold lostNtfs at h
  dsimp only at h
  split_ifs at h with _ hbps _ hsectors
  obtain ⟨rfl, rfl⟩ := Prod.mk.inj (Option.some.inj h)
  generalize lostLe64 b 0x28 = sectors at *
  generalize lostLe16 b 0x0b = bps at *
  simp only [not_or, Nat.not_lt, Nat.not_le] at hbps hsectors
  obtain ⟨hmin, hmax, -⟩ := hbps
  obtain ⟨hne, hlt⟩ := hsectors
  constructor
  · rintro ⟨-, -, hexact⟩ ⟨rfl, rfl⟩
    revert hexact
    decide
  · intro hnot
    refine .of_lt (Nat.mul_pos (Nat.succ_pos _) (by omega)) ?_
    rcases Nat.lt_or_eq_of_le hmax with hmax | rfl
    · calc (sectors + 1) * bps ≤ 2 ^ 52 * 4095 := Nat.mul_le_mul (by omega) (by omega)
        _ < 2 ^ 64 := by decide
    · have hle : sectors + 1 ≤ 2 ^ 52 - 1 := by omega
      calc (sectors + 1) * 4096 ≤ (2 ^ 52 - 1) * 4096 := Nat.mul_le_mul_right _ hle
        _ < 2 ^ 64 := by decide

theorem lostFat_exact {sectorSize size : ℕ} {type : LostType} (hsector : 0 < sectorSize)
    (h : lostFat b sectorSize = some (type, size)) :
    LostExact size (lostFatTotal b * sectorSize) := by
  have htotal : lostFatTotal b < 2 ^ 32 := by
    have h₀ := lostLe16_lt b 0x13
    have h₁ := lostLe32_lt b 0x20
    rw [lostFatTotal]
    split_ifs <;> omega
  have hsize := lostLe16_lt b 0x0b
  unfold lostFat at h
  dsimp only at h
  rw [← lostFatTotal] at h
  generalize lostFatTotal b = total at h htotal ⊢
  generalize (if lostLe16 b 0x16 ≠ 0 then lostLe16 b 0x16 else lostLe32 b 0x24) = fatLength at h
  rw [ite_eq_iff] at h
  obtain ⟨-, h⟩ | ⟨-, h⟩ := h
  · cases h
  rw [ite_eq_iff] at h
  obtain ⟨-, h⟩ | ⟨hsame, h⟩ := h
  · cases h
  rw [ite_eq_iff] at h
  obtain ⟨-, h⟩ | ⟨-, h⟩ := h
  · cases h
  rw [ite_eq_iff] at h
  obtain ⟨-, h⟩ | ⟨hstart, h⟩ := h
  · cases h
  have hss : sectorSize ≤ 2 ^ 16 := by omega
  split at h
  · cases h
  · split_ifs at h
    obtain ⟨-, rfl⟩ := Prod.mk.inj (Option.some.inj h)
    have hpos : 0 < total := Nat.lt_of_le_of_lt (Nat.zero_le _) (Nat.not_le.mp hstart)
    exact ⟨rfl, Nat.mul_pos hpos hsector, mul_lt_pow htotal hss (by decide)⟩

theorem lostExfat_exact {shift size : ℕ} (h : lostExfat b = some (shift, size)) :
    LostExact size (lostLe64 b 0x48 * 2 ^ byteAt b 0x6c) := by
  unfold lostExfat at h
  dsimp only at h
  split_ifs at h with _ hshift hsectors
  obtain ⟨-, rfl⟩ := Prod.mk.inj (Option.some.inj h)
  rw [not_or, Nat.not_le] at hsectors
  obtain ⟨hne, hlt⟩ := hsectors
  refine .of_lt (Nat.mul_pos (by omega) (Nat.two_pow_pos _)) ?_
  exact mul_lt_pow hlt (Nat.le_refl _) (by omega)

theorem lostExt_exact {type : LostType} {size offset : ℕ}
    (h : lostExt b = some (type, size, offset)) :
    LostExact size (lostExtBlocks b * 2 ^ (10 + lostLe32 b 0x18))
      ∧ offset = lostExtOffset b ∧ lostExtOffset b < 2 ^ 64 := by
  obtain ⟨-, -, hlog, hblocks, -⟩ := lostExt_spec h
  have hoffset : lostExtOffset b < 2 ^ 64 := by
    rw [lostExtOffset]
    split_ifs with hgroup
    · have h₀ := lostLe32_lt b 0x14
      have h₁ := lostLe16_lt b 0x5a
      have h₂ := lostLe32_lt b 0x20
      have hproduct : lostLe16 b 0x5a * lostLe32 b 0x20 ≤ (2 ^ 16 - 1) * (2 ^ 32 - 1) :=
        Nat.mul_le_mul (by omega) (by omega)
      refine mul_lt_pow (m := 48) (n := 16) ?_ (Nat.pow_le_pow_right (by decide) (by omega))
        (by decide)
      calc lostLe32 b 0x14 + lostLe16 b 0x5a * lostLe32 b 0x20
          ≤ (2 ^ 32 - 1) + (2 ^ 16 - 1) * (2 ^ 32 - 1) := Nat.add_le_add (by omega) hproduct
        _ < 2 ^ 48 := by decide
    · decide
  unfold lostExt at h
  dsimp only at h
  rw [ite_eq_iff] at h
  obtain ⟨-, h⟩ | ⟨-, h⟩ := h
  · cases h
  rw [ite_eq_iff] at h
  obtain ⟨-, h⟩ | ⟨hguard, h⟩ := h
  · cases h
  obtain ⟨-, rfl, rfl⟩ : _ ∧ _ ∧ _ := by simpa only [Option.some.injEq, Prod.mk.injEq] using h
  refine ⟨.of_lt (Nat.mul_pos (by omega) (Nat.two_pow_pos _)) ?_, ?_, hoffset⟩
  · exact mul_lt_pow hblocks (Nat.le_refl _) (by omega)
  · rw [lostExtOffset] at hoffset ⊢
    by_cases hgroup : lostLe16 b 0x5a ≠ 0
    · rw [if_pos hgroup] at hoffset
      rw [if_pos hgroup, if_pos hgroup]
      exact u64_of_lt hoffset
    · rw [if_neg hgroup, if_neg hgroup]

theorem lostExtTable_exact {type : LostType} {size offset : ℕ}
    (hext : lostExt b = some (type, size, offset)) :
    lostExtTable b = lostExtTableExact b ∧ ∀ table, lostExtTableExact b = some table →
      table < 2 ^ 64 := by
  obtain ⟨-, -, hlog, hblocks, hgroup⟩ := lostExt_spec hext
  have hbs : 1024 * 2 ^ lostLe32 b 0x18 = 2 ^ (10 + lostLe32 b 0x18) := by
    rw [Nat.pow_add]
  have hperGroup := lostLe32_lt b 0x20
  unfold lostExtTable lostExtTableExact
  dsimp only
  rw [hbs]
  generalize (if lostLe32 b 0x60 &&& 0x80 ≠ 0 then lostLe16 b 0xfe else 32) = desc
  generalize lostLe32 b 0x18 = log at *
  generalize lostLe32 b 0x20 = perGroup at *
  generalize lostExtBlocks b = blocks at *
  generalize lostLe32 b 0x14 = first at *
  by_cases hmeta : lostLe32 b 0x60 &&& 0x10 ≠ 0
  · rw [if_pos hmeta, if_pos hmeta]
    exact ⟨rfl, fun table h => by cases h⟩
  rw [if_neg hmeta, if_neg hmeta]
  by_cases hdesc : desc < 32 ∨ 2 ^ (10 + log) < desc ∨ ¬ lostIsPow2 desc = true ∨ blocks ≤ first
  · rw [if_pos hdesc, if_pos hdesc]
    exact ⟨rfl, fun table h => by cases h⟩
  rw [if_neg hdesc, if_neg hdesc]
  simp only [not_or, Nat.not_lt, Nat.not_le] at hdesc
  obtain ⟨hmin, hmax, -, hfirst⟩ := hdesc
  have hcountle : (blocks - first + perGroup - 1) / perGroup ≤ blocks - first := by
    have hgrow := Nat.le_mul_of_pos_right (blocks - first) (Nat.pos_of_ne_zero hgroup)
    exact (Nat.div_le_iff_le_mul (Nat.pos_of_ne_zero hgroup)).mpr (by omega)
  generalize (blocks - first + perGroup - 1) / perGroup = count at *
  have hfits : count * desc + 2 ^ (10 + log) ≤ 2 ^ 64 :=
    calc count * desc + 2 ^ (10 + log) ≤ count * 2 ^ (10 + log) + 2 ^ (10 + log) :=
          Nat.add_le_add_right (Nat.mul_le_mul_left _ hmax) _
      _ = (count + 1) * 2 ^ (10 + log) := (Nat.succ_mul _ _).symm
      _ ≤ 2 ^ (54 - log) * 2 ^ (10 + log) := Nat.mul_le_mul_right _ (by omega)
      _ = 2 ^ 64 := by rw [← Nat.pow_add]; congr 1; omega
  have hpos : 0 < 2 ^ (10 + log) := Nat.two_pow_pos _
  have hproduct : u64 (count * desc) = count * desc := u64_of_lt (by omega)
  have hsum : u64 (count * desc + 2 ^ (10 + log) - 1) = count * desc + 2 ^ (10 + log) - 1 :=
    u64_of_lt (by omega)
  rw [hproduct, lostRoundUp, hsum]
  refine ⟨rfl, fun table h => ?_⟩
  split_ifs at h with htable
  obtain rfl := Option.some.inj h
  refine Nat.lt_trans htable (mul_lt_pow (n := 16) hperGroup ?_ (by decide))
  exact Nat.pow_le_pow_right (by decide) (by omega)

theorem lostExtRemap_exact {type : LostType} {size offset : ℕ} {hit : LostHit}
    (hext : lostExt b = some (type, size, offset)) (hremap : hit.remap = []) :
    (lostExtRemap hit b offset).remap = lostExtRemapExact b offset
      ∧ ∀ r ∈ lostExtRemapExact b offset, r.Fits := by
  obtain ⟨-, -, hlog, -⟩ := lostExt_spec hext
  obtain ⟨-, hoffset, hlt⟩ := lostExt_exact hext
  obtain ⟨htable, hfits⟩ := lostExtTable_exact hext
  have hfirst := lostLe32_lt b 0x14
  have hbs : 1024 * 2 ^ lostLe32 b 0x18 = 2 ^ (10 + lostLe32 b 0x18) := by
    rw [Nat.pow_add]
  have hbsle : 2 ^ (10 + lostLe32 b 0x18) ≤ 2 ^ 16 :=
    Nat.pow_le_pow_right (by decide) (by omega)
  have hpos : 0 < 2 ^ (10 + lostLe32 b 0x18) := Nat.two_pow_pos _
  have htarget : (lostLe32 b 0x14 + 1) * 2 ^ (10 + lostLe32 b 0x18) < 2 ^ 64 :=
    mul_lt_pow (m := 33) (by omega) hbsle (by decide)
  -- a copy lies on a block, at most 2 ^ 48 - 2 ^ 16 of them from the start
  have hsource : (offset / 2 ^ (10 + lostLe32 b 0x18) + 1) * 2 ^ (10 + lostLe32 b 0x18) < 2 ^ 64 := by
    have hblocks : offset / 2 ^ (10 + lostLe32 b 0x18) + 1 < 2 ^ 48 := by
      rw [hoffset, lostExtOffset]
      split_ifs with hgroup
      · have h₁ := lostLe16_lt b 0x5a
        have h₂ := lostLe32_lt b 0x20
        have hproduct : lostLe16 b 0x5a * lostLe32 b 0x20 ≤ (2 ^ 16 - 1) * (2 ^ 32 - 1) :=
          Nat.mul_le_mul (by omega) (by omega)
        rw [Nat.mul_div_cancel _ hpos]
        calc lostLe32 b 0x14 + lostLe16 b 0x5a * lostLe32 b 0x20 + 1
            ≤ (2 ^ 32 - 1) + (2 ^ 16 - 1) * (2 ^ 32 - 1) + 1 :=
              Nat.succ_le_succ (Nat.add_le_add (by omega) hproduct)
          _ < 2 ^ 48 := by decide
      · have hle := Nat.div_le_self LOST_SB_1K (2 ^ (10 + lostLe32 b 0x18))
        have hsb : LOST_SB_1K = 1024 := rfl
        omega
    exact mul_lt_pow hblocks hbsle (by decide)
  rw [lostExtRemap, lostExtRemapExact, hbs, htable]
  have hone : (lostRemap hit LOST_SB_1K offset LOST_EXT_SB_SIZE).remap
      = [⟨LOST_SB_1K, offset, LOST_EXT_SB_SIZE⟩] := by
    rw [lostRemap, hremap]
    rfl
  have hsb : LOST_SB_1K < 2 ^ 64 := by decide
  have hsize : LOST_EXT_SB_SIZE < 2 ^ 64 := by decide
  have hfirst := And.intro hsb (And.intro (hoffset ▸ hlt) hsize)
  cases hexact : lostExtTableExact b with
  | none =>
    refine ⟨hone, fun r hr => ?_⟩
    obtain rfl := List.mem_singleton.mp hr
    exact hfirst
  | some table =>
    rw [show u64 ((offset / 2 ^ (10 + lostLe32 b 0x18) + 1) * 2 ^ (10 + lostLe32 b 0x18)) = _ from
      u64_of_lt hsource]
    constructor
    · simp only
      rw [lostRemap, hone]
      rfl
    · intro r hr
      rcases List.mem_cons.mp hr with rfl | hr
      · exact hfirst
      · obtain rfl := List.mem_singleton.mp hr
        exact ⟨htarget, hsource, hfits table hexact⟩

theorem lostXfs_exact {size agSize sector : ℕ} (h : lostXfs b = some (size, agSize, sector)) :
    (LostExact size (lostBe64 b 8 * 2 ^ byteAt b 120) ↔ lostBe64 b 8 < 2 ^ (64 - byteAt b 120))
      ∧ LostExact agSize (lostBe32 b 84 * 2 ^ byteAt b 120) := by
  unfold lostXfs at h
  dsimp only at h
  split_ifs at h with hguard
  obtain ⟨rfl, rfl, -⟩ : _ ∧ _ ∧ _ := by simpa only [Option.some.injEq, Prod.mk.injEq] using h
  have hagblocks := lostBe32_lt b 84
  generalize lostBe64 b 8 = dblocks at *
  generalize lostBe32 b 84 = agblocks at *
  generalize byteAt b 120 = blocklog at *
  have hlog : blocklog ≤ 16 := by omega
  have hpos : 0 < 2 ^ blocklog := Nat.two_pow_pos _
  have hpow : 2 ^ (64 - blocklog) * 2 ^ blocklog = 2 ^ 64 := by
    rw [← Nat.pow_add, Nat.sub_add_cancel (by omega)]
  constructor
  · constructor
    · rintro ⟨-, -, hlt⟩
      rw [← hpow] at hlt
      exact Nat.lt_of_mul_lt_mul_right hlt
    · intro hlt
      refine .of_lt (Nat.mul_pos (by omega) hpos) ?_
      exact Nat.lt_of_lt_of_eq (Nat.mul_lt_mul_of_pos_right hlt hpos) hpow
  · refine .of_lt (Nat.mul_pos (by omega) hpos) ?_
    exact mul_lt_pow (n := 16) hagblocks (Nat.pow_le_pow_right (by decide) hlog) (by decide)

theorem lostBtrfs_exact {size offset : ℕ} (h : lostBtrfs b = some (size, offset)) :
    LostExact size (lostLe64 b (201 + 8)) := by
  unfold lostBtrfs at h
  dsimp only at h
  split_ifs at h with _ _ _ hne
  obtain ⟨rfl, -⟩ := Prod.mk.inj (Option.some.inj h)
  exact ⟨rfl, Nat.pos_of_ne_zero hne, lostLe64_lt _ _⟩

theorem lostHfs_exact {type : LostType} {size : ℕ} (h : lostHfs b = some (type, size)) :
    LostExact size (lostHfsSize b) := by
  have hplus := mul_lt_pow (lostBe32_lt b 0x2c) (lostBe32_lt b 0x28).le (by decide)
  unfold lostHfs at h
  dsimp only at h
  rw [lostHfsSize]
  by_cases hsig : lostBe16 b 0 = 0x4244
  · rw [if_pos hsig] at h ⊢
    split_ifs at h with _ hmax
    obtain ⟨-, rfl⟩ := Prod.mk.inj (Option.some.inj h)
    exact ⟨rfl, Nat.succ_pos _, by omega⟩
  · rw [if_neg hsig] at h
    rw [if_neg hsig]
    rw [ite_eq_iff] at h
    obtain ⟨-, h⟩ | ⟨-, h⟩ := h
    · cases h
    rw [ite_eq_iff] at h
    obtain ⟨-, h⟩ | ⟨hguard, h⟩ := h
    · cases h
    obtain ⟨-, rfl⟩ := Prod.mk.inj (Option.some.inj h)
    exact ⟨rfl, Nat.mul_pos (by omega) (by omega), hplus⟩

theorem lostApfs_exact {avail size : ℕ} (h : lostApfs b avail = some size) :
    LostExact size (lostLe64 b 40 * lostLe32 b 36) := by
  unfold lostApfs at h
  dsimp only at h
  split_ifs at h with hguard
  obtain rfl := Option.some.inj h
  refine .of_lt (Nat.mul_pos (by omega) (by omega)) ?_
  exact mul_lt_pow (m := 48) (n := 16) (by omega) (by omega) (by decide)

theorem lostRefs_exact {size : ℕ} (h : lostRefs b = some size) :
    LostExact size (lostLe64 b 0x18 * lostLe32 b 0x20) := by
  unfold lostRefs at h
  dsimp only at h
  split_ifs at h with hguard
  obtain rfl := Option.some.inj h
  generalize lostLe32 b 0x20 * lostLe32 b 0x24 = cluster at hguard
  refine .of_lt (Nat.mul_pos (by omega) (by omega)) ?_
  exact mul_lt_pow (m := 52) (n := 12) (by omega) (by omega) (by decide)

theorem lostF2fs_exact {size : ℕ} (h : lostF2fs b = some size) :
    LostExact size (lostLe64 b 36 * 2 ^ 12) := by
  unfold lostF2fs at h
  dsimp only at h
  split_ifs at h with hguard
  obtain rfl := Option.some.inj h
  refine .of_lt (Nat.mul_pos (by omega) (Nat.two_pow_pos _)) ?_
  exact mul_lt_pow (m := 52) (by omega) (Nat.le_refl _) (by decide)

theorem lostUfs_exact {place size : ℕ} {type : LostType} (h : lostUfs b place = some (type, size)) :
    LostExact size (lostUfsSize b) := by
  have hfits : ∀ blocks fsize : ℕ, blocks ≠ 0 → 512 ≤ fsize → fsize ≤ 4096 → blocks < 2 ^ 52 →
      LostExact (u64 (blocks * fsize)) (blocks * fsize) := fun blocks fsize hne hmin hmax hlt =>
    .of_lt (Nat.mul_pos (by omega) (by omega)) (mul_lt_pow (n := 12) hlt (by omega) (by decide))
  unfold lostUfs at h
  dsimp only at h
  rw [lostUfsSize]
  by_cases hle : lostLe32 b 1372 = 0x00011954
  · rw [if_pos (.inl hle), hle] at h
    rw [if_pos hle]
    simp only [Nat.reduceEqDiff, decide_false, Bool.false_eq_true, if_false] at h
    split_ifs at h <;> obtain ⟨-, rfl⟩ := Prod.mk.inj (Option.some.inj h) <;>
      exact hfits _ _ (by omega) (by omega) (by omega) (by omega)
  rw [if_neg hle]
  by_cases hle' : lostLe32 b 1372 = 0x19540119
  · rw [if_pos (.inr hle'), hle'] at h
    rw [if_pos hle']
    simp only [decide_true, Bool.false_eq_true, if_false, if_true] at h
    split_ifs at h <;> obtain ⟨-, rfl⟩ := Prod.mk.inj (Option.some.inj h) <;>
      exact hfits _ _ (by omega) (by omega) (by omega) (by omega)
  rw [if_neg hle', if_neg (not_or.mpr ⟨hle, hle'⟩)] at *
  by_cases hbe : lostBe32 b 1372 = 0x00011954
  · rw [if_pos (.inl hbe), hbe] at h
    rw [if_pos hbe]
    simp only [Nat.reduceEqDiff, decide_false, Bool.false_eq_true, if_false, if_true] at h
    split_ifs at h <;> obtain ⟨-, rfl⟩ := Prod.mk.inj (Option.some.inj h) <;>
      exact hfits _ _ (by omega) (by omega) (by omega) (by omega)
  rw [if_neg hbe]
  by_cases hbe' : lostBe32 b 1372 = 0x19540119
  · rw [if_pos (.inr hbe'), hbe'] at h
    simp only [decide_true, if_true] at h
    split_ifs at h <;> obtain ⟨-, rfl⟩ := Prod.mk.inj (Option.some.inj h) <;>
      exact hfits _ _ (by omega) (by omega) (by omega) (by omega)
  · rw [if_neg (not_or.mpr ⟨hbe, hbe'⟩)] at h
    cases h

theorem lostJfs_exact {size : ℕ} (h : lostJfs b = some size) :
    LostExact size (lostLe64 b 8 * lostLe32 b 24
      + lostLe32 b 16 * ((lostLe32 b 72 &&& 0xffffff) + (lostLe32 b 80 &&& 0xffffff))) := by
  have hlog : lostLe32 b 72 &&& 0xffffff ≤ 0xffffff := Nat.and_le_right
  have hfsck : lostLe32 b 80 &&& 0xffffff ≤ 0xffffff := Nat.and_le_right
  unfold lostJfs at h
  dsimp only at h
  split_ifs at h with hguard
  obtain rfl := Option.some.inj h
  generalize (lostLe32 b 72 &&& 0xffffff) = log at *
  generalize (lostLe32 b 80 &&& 0xffffff) = fsck at *
  have haggregate : lostLe64 b 8 * lostLe32 b 24 ≤ 2 ^ 50 * 4096 :=
    Nat.mul_le_mul (by omega) (by omega)
  have hareas : lostLe32 b 16 * (log + fsck) ≤ 4096 * (2 * 0xffffff) :=
    Nat.mul_le_mul (by omega) (by omega)
  have hpos : 0 < lostLe64 b 8 * lostLe32 b 24 := Nat.mul_pos (by omega) (by omega)
  exact .of_lt (by omega) (by omega)

theorem lostReiserfs_exact {size : ℕ} (h : lostReiserfs b = some size) :
    LostExact size (lostLe32 b 0 * lostLe16 b 0x2c) := by
  have hlt := mul_lt_pow (lostLe32_lt b 0) (lostLe16_lt b 0x2c).le (by decide)
  unfold lostReiserfs at h
  dsimp only at h
  split_ifs at h with hguard
  obtain rfl := Option.some.inj h
  exact ⟨rfl, Nat.mul_pos (by omega) (by omega), hlt⟩

theorem lostIso_exact {size : ℕ} (h : lostIso b = some size) :
    LostExact size (lostLe32 b 80 * lostLe16 b 128) := by
  have hlt := mul_lt_pow (lostLe32_lt b 80) (lostLe16_lt b 128).le (by decide)
  unfold lostIso at h
  dsimp only at h
  split_ifs at h with hguard
  obtain rfl := Option.some.inj h
  exact ⟨rfl, Nat.mul_pos (by omega) (by omega), hlt⟩

end Detectors

/-- All that the detectors compute from a buffer is exact, unless it is an NTFS boot sector with
2 ^ 52 - 1 sectors of 4096 bytes or an XFS superblock with too many blocks. -/
theorem lostSizesExact_iff (b : Buf) : LostSizesExact b ↔
    ((lostNtfs b).isSome → ¬ (lostLe64 b 0x28 = 2 ^ 52 - 1 ∧ lostLe16 b 0x0b = 4096))
      ∧ ((lostXfs b).isSome → lostBe64 b 8 < 2 ^ (64 - byteAt b 120)) := by
  constructor
  · intro h
    constructor
    · intro hsome
      obtain ⟨⟨size, bps⟩, hntfs⟩ := Option.isSome_iff_exists.mp hsome
      exact (lostNtfs_exact_iff hntfs).mp (h.ntfs size bps hntfs)
    · intro hsome
      obtain ⟨⟨size, agSize, sector⟩, hxfs⟩ := Option.isSome_iff_exists.mp hsome
      exact (lostXfs_exact hxfs).1.mp (h.xfs size agSize sector hxfs)
  · rintro ⟨hntfs, hxfs⟩
    exact {
      ntfs := fun size bps h => (lostNtfs_exact_iff h).mpr (hntfs (h ▸ rfl))
      fat := fun sectorSize type size hsector h => lostFat_exact hsector h
      exfat := fun shift size h => lostExfat_exact h
      ext := fun type size offset h => (lostExt_exact h).1
      extOffset := fun type size offset h => (lostExt_exact h).2
      extRemap := fun type size offset hit h hremap => lostExtRemap_exact h hremap
      xfs := fun size agSize sector h => (lostXfs_exact h).1.mpr (hxfs (h ▸ rfl))
      xfsGroup := fun size agSize sector h => (lostXfs_exact h).2
      btrfs := fun size offset h => lostBtrfs_exact h
      hfs := fun type size h => lostHfs_exact h
      apfs := fun avail size h => lostApfs_exact h
      refs := fun size h => lostRefs_exact h
      f2fs := fun size h => lostF2fs_exact h
      ufs := fun place type size h => lostUfs_exact h
      jfs := fun size h => lostJfs_exact h
      reiserfs := fun size h => lostReiserfs_exact h
      iso := fun size h => lostIso_exact h }

/-- The boot sector of an NTFS volume with 2 ^ 52 - 1 sectors of 4096 bytes. -/
def lostHugeNtfs : Buf := .ofFields [(3, [0x4e, 0x54, 0x46, 0x53]), (0x0b, [0, 0x10, 1]),
  (0x28, [0xff, 0xff, 0xff, 0xff, 0xff, 0xff, 0x0f]), (0x1fe, [0x55, 0xaa])]

/-- The superblock of an XFS file system with 2 ^ 48 blocks of 2 ^ 16 bytes. -/
def lostHugeXfs : Buf := .ofFields [(0, [0x58, 0x46, 0x53, 0x42, 0, 1, 0, 0, 0, 1]), (84, [1]),
  (88, [1]), (100, [0, 4, 2, 0, 1, 0]), (120, [16, 9, 8])]

/-- The sizes of both come out as zero. -/
theorem lostSizes_wrap : lostNtfs lostHugeNtfs = some (0, 4096)
    ∧ lostXfs lostHugeXfs = some (0, 2 ^ 40, 512)
    ∧ ¬ LostSizesExact lostHugeNtfs ∧ ¬ LostSizesExact lostHugeXfs := by
  have hntfs : lostNtfs lostHugeNtfs = some (0, 4096) := by decide
  have hxfs : lostXfs lostHugeXfs = some (0, 2 ^ 40, 512) := by decide
  refine ⟨hntfs, hxfs, fun h => ?_, fun h => ?_⟩
  · obtain ⟨hzero, hpos, -⟩ := h.ntfs _ _ hntfs
    rw [← hzero] at hpos
    exact absurd hpos (Nat.lt_irrefl 0)
  · obtain ⟨hzero, hpos, -⟩ := h.xfs _ _ _ hxfs
    rw [← hzero] at hpos
    exact absurd hpos (Nat.lt_irrefl 0)

end FsRover
